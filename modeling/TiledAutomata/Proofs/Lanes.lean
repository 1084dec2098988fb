import TiledAutomata.Packed
import TiledAutomata.Proofs.Evaluation

/-!
# Lanes of a word

A lane is a run of bits within a word. A word carries another in a lane when these bits
are the low bits of the other. Taking a lane out gives the low bits of what it carries,
and putting a word in replaces what the lane carries and no other lane. Bitwise
operators act on all lanes at once: what they make of words that carry others carries
what they make of the others. This extends to expressions and statements that use
nothing else.
-/

open BitVec

namespace TiledAutomata

open Function Word

def Word.bit (w : Word) (i : Nat) : Bool := w.toBitVec.getLsbD i

def Word.low (bits : Nat) (w : Word) : Word :=
  Int32.ofBitVec ((w.toBitVec.setWidth bits).setWidth 32)

namespace Word

variable {a b : Word} {bits i : Nat}

theorem bit_and : (a &&& b).bit i = (a.bit i && b.bit i) := by
  simp [bit]

theorem bit_or : (a ||| b).bit i = (a.bit i || b.bit i) := by
  simp [bit]

theorem bit_xor : (a ^^^ b).bit i = (a.bit i ^^ b.bit i) := by
  simp [bit]

theorem bit_compl (hi : i < 32) : (~~~a).bit i = !a.bit i := by
  simp [bit, hi]

theorem eq_of_bit_eq (h : ∀ i < 32, a.bit i = b.bit i) : a = b :=
  Int32.toBitVec_inj.mp (eq_of_getLsbD_eq h)

theorem bit_mask (hpos : 0 < bits) (hle : bits ≤ 32) :
    (Packed.mask bits).toBitVec.getLsbD i = decide (i < bits) := by
  have hmod : (32 - bits) % 4294967296 % 32 = 32 - bits := by omega
  have hones : (4294967295#32 : BitVec 32) = BitVec.allOnes 32 := rfl
  have hshift : (Packed.mask bits).toBitVec.getLsbD i =
      (4294967295#32).getLsbD (32 - bits + i) := by
    simp [Packed.mask, hmod]
  rw [hshift, hones, getLsbD_allOnes, decide_eq_decide]
  omega

theorem bit_low (hi : i < 32) (w : Word) :
    (w.low bits).bit i = (decide (i < bits) && w.bit i) := by
  simp [low, bit, hi]

end Word

structure Lane where
  bits : Nat
  shift : Nat
  pos : 0 < bits
  fits : shift + bits ≤ 32

namespace Lane

variable {l k : Lane} {w v a b : Word} {i : Nat}

def get (l : Lane) (w : Word) : Word :=
  ((w.toUInt32 >>> l.shift.toUInt32) &&& Packed.mask l.bits).toInt32

def put (l : Lane) (w v : Word) : Word :=
  ((w.toUInt32 &&& ~~~(Packed.mask l.bits <<< l.shift.toUInt32)) |||
    ((v.toUInt32 &&& Packed.mask l.bits) <<< l.shift.toUInt32)).toInt32

theorem extract_eq (l : Lane) (ws : Words) : Packed.extract l.bits l.shift ws = ws.map l.get :=
  rfl

theorem insert_eq (l : Lane) (ws buf : Words) :
    Packed.insert l.bits l.shift ws buf = ws.mapIdx fun j w => l.put w (buf.getD j 0) :=
  rfl

theorem bit_get : (l.get w).bit i = (decide (i < l.bits) && w.bit (l.shift + i)) := by
  have hfits := l.fits
  have hpos := l.pos
  have hmod : l.shift % 4294967296 % 32 = l.shift := by omega
  simp [get, Word.bit, Word.bit_mask l.pos (by omega : l.bits ≤ 32), hmod, Bool.and_comm]

theorem bit_shiftLeft (l : Lane) (u : UInt32) (hi : i < 32) :
    (u <<< l.shift.toUInt32).toBitVec.getLsbD i =
      (decide (l.shift ≤ i) && u.toBitVec.getLsbD (i - l.shift)) := by
  have hfits := l.fits
  have hpos := l.pos
  have hmod : l.shift % 4294967296 % 32 = l.shift := by omega
  by_cases hlo : l.shift ≤ i
  · have hnot : ¬i < l.shift := Nat.not_lt.mpr hlo
    simp [hmod, hi, hlo, hnot, getLsbD_eq_getElem (show i - l.shift < 32 by omega)]
  · simp [hmod, hlo]

theorem bit_put (hi : i < 32) :
    (l.put w v).bit i =
      if l.shift ≤ i ∧ i < l.shift + l.bits then v.bit (i - l.shift) else w.bit i := by
  have hfits := l.fits
  have hmask : (Packed.mask l.bits).toBitVec.getLsbD (i - l.shift) =
      decide (i - l.shift < l.bits) := Word.bit_mask l.pos (by omega)
  have hbit : (l.put w v).bit i =
      (w.bit i && !(Packed.mask l.bits <<< l.shift.toUInt32).toBitVec.getLsbD i ||
        ((v.toUInt32 &&& Packed.mask l.bits) <<< l.shift.toUInt32).toBitVec.getLsbD i) := by
    simp only [put, Word.bit, UInt32.toBitVec_toInt32, UInt32.toBitVec_or, UInt32.toBitVec_and,
      UInt32.toBitVec_not, getLsbD_or, getLsbD_and, getLsbD_not, hi,
      decide_true, Bool.true_and, Int32.toBitVec_toUInt32]
  rw [hbit, bit_shiftLeft l _ hi, bit_shiftLeft l _ hi, UInt32.toBitVec_and, getLsbD_and,
    hmask, Int32.toBitVec_toUInt32]
  by_cases hlo : l.shift ≤ i
  · by_cases hhi : i < l.shift + l.bits
    · have hsub : i - l.shift < l.bits := by omega
      simp [hlo, hhi, hsub, Word.bit]
    · have hsub : ¬i - l.shift < l.bits := by omega
      simp [hlo, hhi, hsub]
  · simp [hlo]

/-- A word that has the low bits of another in a lane. -/
def Carries (l : Lane) (w v : Word) : Prop := ∀ i < l.bits, w.bit (l.shift + i) = v.bit i

def Apart (l k : Lane) : Prop := l.shift + l.bits ≤ k.shift ∨ k.shift + k.bits ≤ l.shift

theorem Carries.zero : l.Carries 0 0 := by
  intro i _
  simp [bit]

theorem get_eq_low (h : l.Carries w v) : l.get w = v.low l.bits := by
  refine eq_of_bit_eq fun i hi => ?_
  rw [bit_get, bit_low hi]
  by_cases hlane : i < l.bits
  · rw [h i hlane]
  · simp [hlane]

theorem put_carries (l : Lane) (w v : Word) : l.Carries (l.put w v) v := by
  intro i hi
  have hfits := l.fits
  rw [bit_put (by omega), if_pos (by omega), Nat.add_sub_cancel_left]

theorem put_carries_other (hapart : l.Apart k) {u : Word} (h : k.Carries w u) (v : Word) :
    k.Carries (l.put w v) u := by
  intro i hi
  have hfits := k.fits
  unfold Apart at hapart
  rw [bit_put (by omega), if_neg (by omega), h i hi]

section

variable (ha : l.Carries a w) (hb : l.Carries b v)

include ha hb

theorem Carries.and : l.Carries (a &&& b) (w &&& v) := by
  intro i hi
  rw [bit_and, bit_and, ha i hi, hb i hi]

theorem Carries.or : l.Carries (a ||| b) (w ||| v) := by
  intro i hi
  rw [bit_or, bit_or, ha i hi, hb i hi]

theorem Carries.xor : l.Carries (a ^^^ b) (w ^^^ v) := by
  intro i hi
  rw [bit_xor, bit_xor, ha i hi, hb i hi]

end

theorem Carries.compl (ha : l.Carries a w) : l.Carries (~~~a) (~~~w) := by
  intro i hi
  have hfits := l.fits
  rw [bit_compl (by omega), bit_compl (by omega), ha i hi]

end Lane

def UnaryOp.bitwise : UnaryOp → Bool
  | .compl | .plus => true
  | _ => false

def BinaryOp.bitwise : BinaryOp → Bool
  | .and | .or | .xor => true
  | _ => false

def Expr.bitwise : Expr → Bool
  | .ident _ => true
  | .unary o x => o.bitwise && x.bitwise
  | .binary o x y => o.bitwise && x.bitwise && y.bitwise
  | _ => false

def Assign.bitwise (a : Assign) : Bool := a.op.all BinaryOp.bitwise && a.value.bitwise

namespace Lane

variable {l : Lane} {vars other : Vars} {input input' : Words}

theorem Carries.unary {o : UnaryOp} (ho : o.bitwise = true) {a w : Word} (h : l.Carries a w) :
    l.Carries (o.apply a) (o.apply w) := by
  cases o with
  | compl => exact h.compl
  | plus => exact h
  | neg | not => cases ho

theorem Carries.binary {o : BinaryOp} (ho : o.bitwise = true) {a b w v : Word}
    (ha : l.Carries a w) (hb : l.Carries b v) : l.Carries (o.apply a b) (o.apply w v) := by
  cases o with
  | and => exact ha.and hb
  | or => exact ha.or hb
  | xor => exact ha.xor hb
  | _ => cases ho

def CarriesVars (l : Lane) (vars other : Vars) : Prop := ∀ x, l.Carries (vars x) (other x)

theorem CarriesVars.eval (h : l.CarriesVars vars other) (input input' : Words) {e : Expr}
    (he : e.bitwise = true) : l.Carries (e.eval vars input) (e.eval other input') := by
  induction e with
  | ident x => exact h x
  | unary o x ih =>
    obtain ⟨ho, hx⟩ := Bool.and_eq_true_iff.mp he
    exact (ih hx).unary ho
  | binary o x y ihx ihy =>
    obtain ⟨hox, hy⟩ := Bool.and_eq_true_iff.mp he
    obtain ⟨ho, hx⟩ := Bool.and_eq_true_iff.mp hox
    exact (ihx hx).binary ho (ihy hy)
  | _ => cases he

theorem CarriesVars.exec (h : l.CarriesVars vars other) {a : Assign} (ha : a.bitwise = true) :
    l.CarriesVars (a.exec input vars) (a.exec input' other) := by
  obtain ⟨hop, hvalue⟩ := Bool.and_eq_true_iff.mp ha
  have hresult : l.Carries (a.result vars input) (a.result other input') := by
    have heval := h.eval input input' hvalue
    unfold Assign.result
    cases hao : a.op with
    | none => exact heval
    | some o =>
      rw [hao] at hop
      exact (h a.target).binary hop heval
  intro x
  unfold Assign.exec
  by_cases hx : x = a.target
  · subst hx
    rw [update_self, update_self]
    exact hresult
  · rw [update_of_ne hx, update_of_ne hx]
    exact h x

theorem CarriesVars.execAll {as : List Assign} (has : as.all Assign.bitwise = true)
    (h : l.CarriesVars vars other) :
    l.CarriesVars (Assign.execAll input as vars) (Assign.execAll input' as other) := by
  induction as generalizing vars other with
  | nil => exact h
  | cons a as ih =>
    rw [List.all_cons, Bool.and_eq_true] at has
    exact ih has.2 (h.exec has.1)

end Lane

end TiledAutomata
