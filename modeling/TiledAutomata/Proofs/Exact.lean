import Mathlib.Tactic.NormNum
import TiledAutomata.Proofs.Target.Folded

/-!
# Expressions over the integers

A second meaning of expressions, on integers of any size: an operator computes exactly and
its result is then brought back into 32 bits. Compiled code computes this meaning of the
tree as it was read, folded or not. Compilation fails only at a variable that the folded
tree still reads and the resolver does not know, and it names the first of them.
-/

open Int32

namespace TiledAutomata

open Outcome

namespace Exact

def wrap (n : Int) : Int := n.bmod (2 ^ 32)

def bits (n : Int) : Nat := (n % 2 ^ 32).toNat

def truth (p : Prop) [Decidable p] : Int := if p then 1 else 0

def count (b : Int) : Nat := (b % 32).toNat

def unary : UnaryOp → Int → Int
  | .neg, a => wrap (-a)
  | .compl, a => wrap (-a - 1)
  | .not, a => truth (a = 0)
  | .plus, a => a

def binary : BinaryOp → Int → Int → Int
  | .mul, a, b => wrap (a * b)
  | .div, a, b => if b = 0 then 0 else wrap (a.tdiv b)
  | .mod, a, b => if b = 0 then 0 else a.tmod b
  | .add, a, b => wrap (a + b)
  | .sub, a, b => wrap (a - b)
  | .shl, a, b => wrap (a * 2 ^ count b)
  | .shr, a, b => a / 2 ^ count b
  | .ushr, a, b => wrap (bits a / 2 ^ count b : Nat)
  | .lt, a, b => truth (a < b)
  | .le, a, b => truth (a ≤ b)
  | .gt, a, b => truth (a > b)
  | .ge, a, b => truth (a ≥ b)
  | .eq, a, b => truth (a = b)
  | .ne, a, b => truth (a ≠ b)
  | .and, a, b => wrap (bits a &&& bits b : Nat)
  | .xor, a, b => wrap (bits a ^^^ bits b : Nat)
  | .or, a, b => wrap (bits a ||| bits b : Nat)
  | .andAlso, a, b => truth (a ≠ 0 ∧ b ≠ 0)
  | .orElse, a, b => truth (a ≠ 0 ∨ b ≠ 0)

/-- The element at an index that counts round and round from the first. An empty input reads as
zero. -/
def element (input : Words) (i : Int) : Int :=
  match input[(i % input.size).toNat]? with
  | some w => w.toInt
  | none => 0

end Exact

def Expr.denote (vars : String → Int) (input : Words) : Expr → Int
  | .number v => v.toInt
  | .ident x => vars x
  | .input i => Exact.element input (i.denote vars input)
  | .inputLength => Exact.wrap input.size
  | .unary o x => Exact.unary o (x.denote vars input)
  | .binary o x y => Exact.binary o (x.denote vars input) (y.denote vars input)
  | .cond c t e =>
    if c.denote vars input ≠ 0 then t.denote vars input else e.denote vars input

namespace Word

theorem toInt_ofBool (b : Bool) : (ofBool b).toInt = Exact.truth (b = true) := by
  cases b <;> rfl

theorem toInt_eq_zero {a : Word} : a.toInt = 0 ↔ a = 0 := by
  rw [← toInt_inj, toInt_zero]

theorem toNat_eq_bits (a : Word) : a.toBitVec.toNat = Exact.bits a.toInt := by
  have h : a.toInt % (2 ^ 32 : Nat) = (a.toBitVec.toNat : Int) % (2 ^ 32 : Nat) := by
    rw [← toInt_toBitVec, BitVec.toInt_eq_toNat_bmod, Int.bmod_emod]
  have hlt := a.toBitVec.isLt
  unfold Exact.bits
  omega

theorem toNat_mask (b : Word) : (b.toBitVec &&& 31#32).toNat = Exact.count b.toInt := by
  have h : b.toBitVec.toNat = Exact.bits b.toInt := toNat_eq_bits b
  have hmask : (b.toBitVec &&& 31#32).toNat = b.toBitVec.toNat % 2 ^ 5 :=
    Nat.and_two_pow_sub_one_eq_mod _ 5
  rw [hmask, h]
  unfold Exact.bits Exact.count
  omega

theorem toNat_count (b : Word) :
    ((b &&& 31).toBitVec.smod 32).toNat = Exact.count b.toInt := by
  have hmsb : (b.toBitVec &&& 31#32).msb = false := by
    rw [BitVec.msb_and, show (31#32).msb = false from rfl, Bool.and_false]
  have hlt : Exact.count b.toInt < 32 := by
    unfold Exact.count
    omega
  show ((b.toBitVec &&& 31#32).smod 32#32).toNat = _
  unfold BitVec.smod
  rw [hmsb, show (32#32).msb = false from rfl]
  show (b.toBitVec &&& 31#32).toNat % 32 = _
  rw [toNat_mask, Nat.mod_eq_of_lt hlt]

end Word

attribute [local simp] Exact.binary Word.toInt_ofBool Word.toInt_eq_zero

theorem UnaryOp.apply_exact (o : UnaryOp) (a : Word) :
    (o.apply a).toInt = Exact.unary o a.toInt := by
  cases o with
  | neg => exact toInt_neg a
  | compl => exact toInt_not a
  | not => simp [apply, Exact.unary]
  | plus => rfl

section Shifts

variable (a b : Word)

theorem Word.toInt_shl : (a <<< (b &&& 31)).toInt = Exact.binary .shl a.toInt b.toInt := by
  rw [← toInt_toBitVec, Int32.toBitVec_shiftLeft, BitVec.shiftLeft_eq', Word.toNat_count,
    BitVec.toInt_shiftLeft, Nat.shiftLeft_eq]
  show _ = (a.toInt * 2 ^ Exact.count b.toInt).bmod (2 ^ 32)
  rw [← toInt_toBitVec a, BitVec.toInt_eq_toNat_bmod, Int.bmod_mul_bmod]
  push_cast
  rfl

theorem Word.toInt_shr : (a >>> (b &&& 31)).toInt = Exact.binary .shr a.toInt b.toInt := by
  rw [← toInt_toBitVec, Int32.toBitVec_shiftRight, BitVec.sshiftRight', Word.toNat_count,
    BitVec.toInt_sshiftRight, Int.shiftRight_eq_div_pow, toInt_toBitVec]
  push_cast
  rfl

theorem Word.toInt_ushr : (a.toUInt32 >>> (b.toUInt32 &&& 31)).toInt32.toInt =
    Exact.binary .ushr a.toInt b.toInt := by
  have hcount : ((b.toBitVec &&& 31#32) % 32#32).toNat = Exact.count b.toInt := by
    rw [BitVec.toNat_umod, Word.toNat_mask]
    unfold Exact.count
    show (b.toInt % 32).toNat % 32 = _
    omega
  rw [← toInt_toBitVec, UInt32.toBitVec_toInt32, UInt32.toBitVec_shiftRight]
  show (a.toBitVec >>> ((b.toBitVec &&& 31#32) % 32#32)).toInt = _
  rw [BitVec.ushiftRight_eq', hcount, BitVec.toInt_eq_toNat_bmod, BitVec.toNat_ushiftRight,
    Word.toNat_eq_bits, Nat.shiftRight_eq_div_pow]
  rfl

end Shifts

theorem BinaryOp.apply_exact (o : BinaryOp) (a b : Word) :
    (o.apply a b).toInt = Exact.binary o a.toInt b.toInt := by
  cases o with
  | mul => exact toInt_mul a b
  | div =>
    by_cases hb : b = 0
    · simp [apply, hb]
    · simp [apply, hb, toInt_div, Exact.wrap]
  | mod =>
    by_cases hb : b = 0
    · simp [apply, hb]
    · simp [apply, hb, toInt_mod]
  | add => exact toInt_add a b
  | sub => exact toInt_sub a b
  | shl => exact Word.toInt_shl a b
  | shr => exact Word.toInt_shr a b
  | ushr => exact Word.toInt_ushr a b
  | lt => simp [apply, lt_iff_toInt_lt]
  | le => simp [apply, le_iff_toInt_le]
  | gt => simp [apply, lt_iff_toInt_lt]
  | ge => simp [apply, le_iff_toInt_le]
  | eq | ne => simp [apply, toInt_inj]
  | and =>
    show (a &&& b).toInt = _
    rw [← toInt_toBitVec, Int32.toBitVec_and, BitVec.toInt_and, Word.toNat_eq_bits,
      Word.toNat_eq_bits]
    rfl
  | xor =>
    show (a ^^^ b).toInt = _
    rw [← toInt_toBitVec, Int32.toBitVec_xor, BitVec.toInt_xor, Word.toNat_eq_bits,
      Word.toNat_eq_bits]
    rfl
  | or =>
    show (a ||| b).toInt = _
    rw [← toInt_toBitVec, Int32.toBitVec_or, BitVec.toInt_or, Word.toNat_eq_bits,
      Word.toNat_eq_bits]
    rfl
  | andAlso | orElse => simp [apply]

theorem Words.cyclic_exact (input : Words) (i : Word) :
    (input.cyclic i).toInt = Exact.element input i.toInt := by
  unfold cyclic Exact.element
  rw [Array.getD_eq_getD_getElem?]
  cases input[(i.toInt % input.size).toNat]? with
  | none => rfl
  | some w => rfl

namespace Expr

theorem eval_exact (vars : Vars) (input : Words) (e : Expr) :
    (e.eval vars input).toInt = e.denote (fun x => (vars x).toInt) input := by
  induction e with
  | number v => rfl
  | ident x => rfl
  | inputLength => exact toInt_ofNat'
  | input i ih => rw [eval, denote, Words.cyclic_exact, ih]
  | unary o x ih => rw [eval, denote, UnaryOp.apply_exact, ih]
  | binary o x y ihx ihy => rw [eval, denote, BinaryOp.apply_exact, ihx, ihy]
  | cond c t e ihc iht ihe =>
    simp only [eval, denote, ← ihc, ← iht, ← ihe]
    by_cases h : c.eval vars input = 0 <;> simp [h]

end Expr

def Resolver.unknown? (r : Resolver) (xs : List String) : Option String :=
  xs.find? fun x => (r x).isNone

/-- A step that fails at a name, or succeeds if there is none. -/
def FailsAt {α : Type} : Option String → Except UnknownIdent α → Prop
  | some x, a => a = .error ⟨x⟩
  | none, a => ∃ c, a = .ok c

theorem FailsAt.bind {α β : Type} {x y : Option String} {a : Except UnknownIdent α}
    {f : α → Except UnknownIdent β} (ha : FailsAt x a) (hf : ∀ c, FailsAt y (f c)) :
    FailsAt (x.or y) (a >>= f) := by
  cases x with
  | some x =>
    rw [show a = .error ⟨x⟩ from ha]
    rfl
  | none =>
    obtain ⟨c, rfl⟩ := ha
    exact hf c

theorem FailsAt.returning {α β : Type} {x : Option String} {a : Except UnknownIdent α}
    (ha : FailsAt x a) (g : α → β) : FailsAt x (a >>= fun c => .ok (g c)) := by
  cases x with
  | some x =>
    rw [show a = .error ⟨x⟩ from ha]
    rfl
  | none =>
    obtain ⟨c, rfl⟩ := ha
    exact ⟨g c, rfl⟩

theorem Resolver.unknown?_append (r : Resolver) (xs ys : List String) :
    r.unknown? (xs ++ ys) = (r.unknown? xs).or (r.unknown? ys) :=
  List.find?_append

theorem Resolver.index_failsAt (r : Resolver) (x : String) :
    FailsAt (r.unknown? [x]) (r.index x) := by
  unfold unknown? index
  cases h : r x with
  | none => simp [h, FailsAt]
  | some i => simp [h, FailsAt]

namespace Expr

theorem compile_failsAt (r : Resolver) (e : Expr) :
    FailsAt (r.unknown? e.fold.reads) (e.compile r) := by
  fun_induction compile r e with
  | case1 e v he =>
    rw [he]
    exact ⟨_, rfl⟩
  | case2 e x he =>
    rw [he]
    exact (r.index_failsAt x).returning _
  | case3 e he =>
    rw [he]
    exact ⟨_, rfl⟩
  | case4 e i he ih =>
    cases folded_of_fold he with
    | input hi =>
    rw [he, reads_input]
    rw [hi.fold_eq] at ih
    exact ih.returning _
  | case5 e o x he ih =>
    cases folded_of_fold he with
    | unary _ hx _ =>
    rw [he, reads_unary]
    rw [hx.fold_eq] at ih
    exact ih.returning _
  | case6 e o x y he ihx ihy =>
    cases folded_of_fold he with
    | binary _ hx hy _ =>
    rw [he, reads_binary, Resolver.unknown?_append]
    rw [hx.fold_eq] at ihx
    rw [hy.fold_eq] at ihy
    apply ihx.bind
    intro cx
    exact ihy.returning _
  | case7 e c t z he ihc iht ihz =>
    cases folded_of_fold he with
    | cond hc _ ht hz =>
    rw [he, reads_cond, Resolver.unknown?_append, Resolver.unknown?_append, Option.or_assoc]
    rw [hc.fold_eq] at ihc
    rw [ht.fold_eq] at iht
    rw [hz.fold_eq] at ihz
    apply ihc.bind
    intro cc
    apply iht.bind
    intro ct
    exact ihz.returning _

/-- What is compiled of a tree depends on its folded form alone. -/
theorem compile_congr (r : Resolver) {e e' : Expr} (h : e.fold = e'.fold) :
    e.compile r = e'.compile r := by
  rw [compile, compile]
  grind

variable {r : Resolver} {e : Expr}

theorem compile_error_iff {u : UnknownIdent} :
    e.compile r = .error u ↔ r.unknown? e.fold.reads = some u.name := by
  have h := e.compile_failsAt r
  cases hx : r.unknown? e.fold.reads with
  | none =>
    rw [hx] at h
    obtain ⟨c, hc⟩ := h
    simp [hc]
  | some x =>
    rw [hx] at h
    rw [show e.compile r = .error ⟨x⟩ from h]
    cases u
    simp

theorem compile_ok_iff : (∃ c, e.compile r = .ok c) ↔ ∀ x ∈ e.fold.reads, ∃ i, r x = some i := by
  have h := e.compile_failsAt r
  cases hx : r.unknown? e.fold.reads with
  | none =>
    rw [hx] at h
    rw [Resolver.unknown?, List.find?_eq_none] at hx
    constructor
    · intro _ x hmem
      have := hx x hmem
      cases hr : r x with
      | none => simp [hr] at this
      | some i => exact ⟨i, rfl⟩
    · intro _
      exact h
  | some x =>
    rw [hx] at h
    rw [show e.compile r = .error ⟨x⟩ from h]
    constructor
    · rintro ⟨c, hc⟩
      cases hc
    · intro hall
      obtain ⟨i, hi⟩ := hall x (List.mem_of_find?_eq_some hx)
      have := List.find?_some hx
      simp [hi] at this

end Expr

theorem Assign.compile_compound (r : Resolver) (declares : Bool) (x : String) (o : BinaryOp)
    (e : Expr) :
    (⟨declares, x, some o, e⟩ : Assign).compile r =
      (⟨declares, x, none, .binary o (.ident x) e⟩ : Assign).compile r := by
  cases hx : r.index x with
  | error u => simp [compile, hx, bind, Except.bind]
  | ok i =>
    have hident : (Expr.ident x).compile r = .ok fun f => f.vars.getD i 0 := by
      simp [Expr.compile, Expr.fold, hx, bind, Except.bind, pure, Except.pure]
    have hbinary : (Expr.binary o (.ident x) e).compile r =
        (do return o.code (← (Expr.ident x).compile r) (← e.fold.compile r)) := by
      rw [Expr.compile]
      simp [Expr.fold]
    rw [Expr.compile_congr r (Expr.folded_fold e).fold_eq, hident] at hbinary
    cases he : e.compile r <;>
      simp [compile, hx, he, hbinary, BinaryOp.code_apply, bind, Except.bind, pure, Except.pure]

/-- An expression compiles if the resolver knows every variable that its folded tree reads, and
fails at the first other one. Its code computes the exact value of the tree before folding,
whatever the variables are that folding has dropped. -/
theorem compile_denotes (r : Resolver) (e : Expr) :
    ((∃ c, e.compile r = .ok c) ↔ ∀ x ∈ e.fold.reads, ∃ i, r x = some i) ∧
    (∀ u, e.compile r = .error u ↔ r.unknown? e.fold.reads = some u.name) ∧
    (∀ c, e.compile r = .ok c → ∀ (f : Frame) (vars : Vars), f.Holds r vars →
      (c f).toInt = e.denote (fun x => (vars x).toInt) f.input) ∧
    ∀ declares x o, (⟨declares, x, some o, e⟩ : Assign).compile r =
      (⟨declares, x, none, .binary o (.ident x) e⟩ : Assign).compile r := by
  refine ⟨Expr.compile_ok_iff, fun u => Expr.compile_error_iff, ?_, ?_⟩
  · intro c hc f vars hf
    rw [Expr.compile_eval hf hc, Expr.eval_exact]
  · intro declares x o
    exact Assign.compile_compound r declares x o e

/-- The least word divided by minus one, behind a branch that reads an unknown variable and is
folded away. -/
theorem compile_denotes_least :
    let r : Resolver := fun x => if x = "a" then some 0 else none
    let e : Expr := .cond (.number 0) (.ident "b")
      (.binary .div (.ident "a") (.input (.number (-1))))
    ∃ c, e.compile r = .ok c ∧ (c ⟨#[Int32.minValue], #[7, -1]⟩).toInt = -2 ^ 31 ∧
      (Expr.ident "b").compile r = .error ⟨"b"⟩ := by
  intro r e
  have hread : ∀ x ∈ e.fold.reads, ∃ i, r x = some i := by
    intro x hx
    have hx : x = "a" := by simpa [e, Expr.fold, Expr.reads, Expr.nodes] using hx
    exact ⟨0, by simp [r, hx]⟩
  obtain ⟨c, hc⟩ := (compile_denotes r e).1.mpr hread
  have hf : Frame.Holds r ⟨#[Int32.minValue], #[7, -1]⟩ fun _ => Int32.minValue := by
    intro x i hi
    by_cases hx : x = "a"
    · obtain rfl : 0 = i := by simpa [r, hx] using hi
      rfl
    · simp [r, hx] at hi
  refine ⟨c, hc, ?_, ?_⟩
  · rw [(compile_denotes r e).2.2.1 c hc _ _ hf]
    decide
  · exact ((compile_denotes r (.ident "b")).2.1 ⟨"b"⟩).mpr (by decide)

end TiledAutomata
