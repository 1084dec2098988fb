import TiledAutomata.Proofs.Target.Lines
import TiledAutomata.Proofs.Target.ShaderText
import TiledAutomata.Proofs.Target.ShaderValue

/-!
# The helpers of the kernel

The helpers as they are read from their source, and what they compute. The shader leaves
open what a division by zero is, and one whose result no word can hold, so the helpers
never divide there.
-/

open Int32

namespace TiledAutomata.Emit.Shader

open Target Machine

namespace Helper

def words : List (String × String) := [("a", "i32"), ("b", "i32")]

def bits (x : String) : Term := .call "bitcast" ["u32"] (.cons (.name x) .nil)

def count : Term := .group (.binary "&" (bits "b") (.literal "31u"))

def minusOne : Term := .unary "-" (.literal "1i")

def least : Term := .binary "-" (.unary "-" (.literal "2147483647i")) (.literal "1i")

def equals (x : String) (y : Term) : Term := .binary "==" (.name x) y

def bool : Function :=
  ⟨"ca_bool", [("b", "bool")], "i32", .leave (.call "select" [] (.cons (.literal "0i")
    (.cons (.literal "1i") (.cons (.name "b") .nil))))⟩

def div : Function :=
  ⟨"ca_div", words, "i32",
    .choose (.group (equals "b" (.literal "0i"))) (.leave (.literal "0i")) <|
    .choose (.group (.binary "&&" (equals "a" least) (equals "b" minusOne))) (.leave (.name "a")) <|
    .leave (.binary "/" (.name "a") (.name "b"))⟩

def mod : Function :=
  ⟨"ca_mod", words, "i32",
    .choose (.group (.binary "||" (equals "b" (.literal "0i")) (equals "b" minusOne)))
      (.leave (.literal "0i")) <|
    .leave (.binary "%" (.name "a") (.name "b"))⟩

def shift (name op : String) : Function :=
  ⟨name, words, "i32", .leave (.binary op (.name "a") count)⟩

def unsignedShift : Function :=
  ⟨"ca_ushr", words, "i32",
    .leave (.call "bitcast" ["i32"] (.cons (.binary ">>" (bits "a") count) .nil))⟩

def input : Function :=
  ⟨"ca_input", [("i", "i32")], "i32",
    .define "n" (.call "i32" [] (.cons (.select (.name "params") "input_size") .nil)) <|
    .choose (.group (equals "n" (.literal "0i"))) (.leave (.literal "0i")) <|
    .define "j" (.binary "%" (.name "i") (.name "n")) <|
    .choose (.group (.binary "<" (.name "j") (.literal "0i")))
      (.assign "j" (.binary "+" (.name "j") (.name "n")) .done) <|
    .leave (.index (.name "input")
      (.binary "+" (.name "input_base") (.call "u32" [] (.cons (.name "j") .nil))))⟩

def all : List Function :=
  [bool, div, mod, shift "ca_shl" "<<", shift "ca_shr" ">>", unsignedShift, input]

end Helper

/-! ## Reading the helpers -/

theorem declared?_helpers : ∃ cs, Block.charsAll [' ', ' ', ' ', ' '] 0 Kernel.helpers = cs ∧
    declared? (tokenize cs) = some Helper.all := by
  refine ⟨?_, ?_, ?_⟩
  rotate_left
  · cbv
    rfl
  · decide +kernel

theorem functions?_helpers : functions? (Block.source "    " Kernel.helpers) = some Helper.all := by
  obtain ⟨cs, hcs, hdeclared⟩ := declared?_helpers
  rwa [functions?, Block.toList_source, show "    ".toList = [' ', ' ', ' ', ' '] from rfl, hcs]

/-! ## Operators -/

open Value

-- Runs a helper step by step.
attribute [local simp] Machine.eval Machine.evalAll List.lookup_cons truth? settling? literals
  binary? operate? compare? total? builtin?

section Results

variable {a b : Word} {calls : Calls Value} {scope globals : Target.Scope Value}

abbrev operands (a b : Word) (globals : Target.Scope Value) : Target.Scope Value :=
  [("a", .i32 a), ("b", .i32 b)] ++ globals

theorem apply_words {f : Function} {v : Word} (hp : f.params = Helper.words) (hr : f.result = "i32")
    (hb : machine.exec calls (operands a b globals) f.body =
      some (.inl (.i32 v))) : machine.apply calls globals f [.i32 a, .i32 b] = some (.i32 v) := by
  apply apply_leaves _ hb
  · rw [hr]
    exact assigned?_i32 v
  · rw [hp]
    rfl

theorem apply_bool (c : Bool) :
    machine.apply machine.builtin globals Helper.bool [.bool c] = some (.i32 (Word.ofBool c)) := by
  cases c <;> simp [Machine.apply, Helper.bool, Machine.passed, Machine.exec, type, Word.ofBool]

theorem eval_equals {x : String} {y : Term} (hx : scope.lookup x = some (.i32 a))
    (hy : machine.eval calls scope y = some (.i32 b)) :
    machine.eval calls scope (Helper.equals x y) = some (.bool (decide (a = b))) := by
  simp [Helper.equals, hx, hy]

theorem eval_minusOne : machine.eval calls scope Helper.minusOne = some (.i32 (-1)) := by
  simp [Helper.minusOne, unary?]

theorem eval_least : machine.eval calls scope Helper.least = some (.i32 Int32.minValue) := by
  have hleast : (-2147483647 - 1 : Int32) = Int32.minValue := by decide
  simp [Helper.least, unary?, hleast]

theorem exec_divide {op : String} {v : Word} (hv : divide? op a b = some v) (hb : b ≠ 0)
    (hw : ¬(a = Int32.minValue ∧ b = -1)) :
    machine.exec calls (operands a b globals)
      (.leave (.binary op (.name "a") (.name "b"))) = some (.inl (.i32 v)) := by
  have ho : op = "/" ∨ op = "%" := by
    unfold divide? at hv
    split at hv
    · exact .inl rfl
    · exact .inr rfl
    · cases hv
  apply exec_leave
  rcases ho with rfl | rfl <;>
    simp [hb, hw, hv]

theorem apply_div : machine.apply machine.builtin globals Helper.div [.i32 a, .i32 b] =
    some (.i32 (BinaryOp.div.apply a b)) := by
  apply apply_words rfl rfl
  have hzero := @eval_equals b 0 machine.builtin (operands a b globals) "b"
    (.literal "0i") rfl literals.1
  have hleast := @eval_equals a _ machine.builtin (operands a b globals) "a" _
    rfl eval_least
  have hminus := @eval_equals b _ machine.builtin (operands a b globals) "b" _
    rfl eval_minusOne
  have hboth : machine.eval machine.builtin (operands a b globals)
      (.group (.binary "&&" (Helper.equals "a" Helper.least) (Helper.equals "b" Helper.minusOne))) =
        some (.bool (decide (a = Int32.minValue) && decide (b = -1))) :=
    eval_and (fun _ => rfl) hleast hminus
  by_cases hb : b = 0
  · have hvalue : BinaryOp.div.apply a b = 0 := by simp [BinaryOp.apply, hb]
    rw [hvalue]
    apply exec_choose_leaves hzero (by simp [hb])
    exact exec_leave literals.1
  · refine (exec_choose_no hzero (by simp [hb])).trans ?_
    by_cases hw : a = Int32.minValue ∧ b = -1
    · have hvalue : BinaryOp.div.apply a b = a := by
        rw [hw.1, hw.2]
        decide
      rw [hvalue]
      apply exec_choose_leaves hboth (by simp [hw])
      exact exec_leave rfl
    · refine (exec_choose_no hboth (by simpa [truth?] using hw)).trans ?_
      apply exec_divide _ hb hw
      simp [divide?, BinaryOp.apply, hb]

theorem apply_mod : machine.apply machine.builtin globals Helper.mod [.i32 a, .i32 b] =
    some (.i32 (BinaryOp.mod.apply a b)) := by
  apply apply_words rfl rfl
  have hzero := @eval_equals b 0 machine.builtin (operands a b globals) "b"
    (.literal "0i") rfl literals.1
  have hminus := @eval_equals b _ machine.builtin (operands a b globals) "b" _
    rfl eval_minusOne
  have heither : machine.eval machine.builtin (operands a b globals)
      (.group (.binary "||" (Helper.equals "b" (.literal "0i"))
        (Helper.equals "b" Helper.minusOne))) =
        some (.bool (decide (b = 0) || decide (b = -1))) :=
    eval_or (fun _ => rfl) hzero hminus
  by_cases hb : b = 0 ∨ b = -1
  · have hvalue : BinaryOp.mod.apply a b = 0 := by
      rcases hb with rfl | rfl
      · rfl
      · rw [← toInt_inj, BinaryOp.apply]
        simp [toInt_mod]
    rw [hvalue]
    apply exec_choose_leaves heither (by simpa [truth?] using hb)
    exact exec_leave literals.1
  · refine (exec_choose_no heither (by simpa [truth?] using hb)).trans ?_
    have hb0 : b ≠ 0 := fun h => hb (.inl h)
    apply exec_divide _ hb0 (fun h => hb (.inr h.2))
    simp [divide?, BinaryOp.apply, hb0]

theorem eval_bits {x : String} (hx : scope.lookup x = some (.i32 a)) :
    machine.eval machine.builtin scope (Helper.bits x) = some (.u32 a.toUInt32) := by
  simp [Helper.bits, hx]

theorem eval_count (hb : scope.lookup "b" = some (.i32 b)) :
    machine.eval machine.builtin scope Helper.count = some (.u32 (mask b)) := by
  simp [Helper.count, eval_bits hb, mask]

theorem mask_lt_width : mask b < 32 := UInt32.lt_iff_toNat_lt.mpr (mask_lt b)

theorem apply_shift (name : String) {op : String} {n : Int} (ho : op = "<<" ∨ op = ">>")
    (hs : shift? op a.toInt (mask b).toNat = some n) :
    machine.apply machine.builtin globals (Helper.shift name op) [.i32 a, .i32 b] =
      some (.i32 (Int32.ofInt n)) := by
  have hcount := @eval_count b (operands a b globals) rfl
  have hset : settling? op = none := by rcases ho with rfl | rfl <;> rfl
  apply apply_words rfl rfl
  apply exec_leave
  simp only [Machine.eval, hset, hcount]
  simp [ho, shifted?, hs, mask_lt_width]

theorem apply_unsignedShift :
    machine.apply machine.builtin globals Helper.unsignedShift [.i32 a, .i32 b] =
      some (.i32 (BinaryOp.ushr.apply a b)) := by
  have hbits := @eval_bits a (operands a b globals) "a" rfl
  have hcount := @eval_count b (operands a b globals) rfl
  have hshift : (UInt32.ofInt (a.toUInt32.toNat / 2 ^ (mask b).toNat : Nat)).toInt32 =
      BinaryOp.ushr.apply a b := by
    rw [← ofInt_ushr]
    generalize a.toUInt32.toNat / 2 ^ (mask b).toNat = q
    have hmod : ((q : Int) % 2 ^ 32).toNat = q % 2 ^ 32 := by omega
    have hword : UInt32.ofNat ((q : Int) % 2 ^ 32).toNat = UInt32.ofNat q := by
      rw [hmod]
      exact UInt32.ofNat_mod_size
    rw [ofInt_eq_ofNat]
    exact congrArg UInt32.toInt32 hword
  rw [← hshift]
  apply apply_words rfl rfl
  apply exec_leave
  simp only [Machine.eval, Machine.evalAll, settling?, hbits, hcount]
  simp [shifted?, shift?, mask_lt_width]

end Results

/-! ## The input -/

/-- What an invocation sees: its units, the size of an instance's input, and where that lies in the
inputs of all instances. -/
structure Memory where
  units : Array Vars
  size : UInt32
  storage : Words
  base : UInt32

namespace Memory

def globals (m : Memory) : Target.Scope Value :=
  [("units", .units m.units), ("params", .params m.size), ("input", .words m.storage),
    ("input_base", .u32 m.base)]

structure HasInput (m : Memory) (input : Words) : Prop where
  size : m.size.toNat = input.size
  room : m.base.toNat + input.size ≤ 2 ^ 32
  words : ∀ i < input.size, m.storage[m.base.toNat + i]? = input[i]?

end Memory

section Input

variable {m : Memory} {input : Words} {b n : Word}

theorem toInt_toInt32 {u : UInt32} (h : u.toNat < 2 ^ 31) : u.toInt32.toInt = u.toNat := by
  show u.toBitVec.toInt = u.toBitVec.toNat
  apply BitVec.toInt_eq_toNat_of_lt
  show 2 * u.toNat < 2 ^ 32
  omega

theorem toNat_toUInt32 {k : Nat} {j : Word} (h : j.toInt = k) : j.toUInt32.toNat = k := by
  have hlt := j.toInt_lt
  have hbits : j.toUInt32.toNat = Exact.bits j.toInt := Word.toNat_eq_bits j
  rw [hbits, Exact.bits]
  omega

theorem exec_index (hm : m.HasInput input) {j : Word} (hj : j.toInt = b.toInt % input.size)
    (hpos : input.size ≠ 0) :
    machine.exec machine.builtin ([("j", .i32 j), ("n", .i32 n), ("i", .i32 b)] ++ m.globals)
      (.leave (.index (.name "input")
        (.binary "+" (.name "input_base") (.call "u32" [] (.cons (.name "j") .nil))))) =
          some (.inl (.i32 (input.cyclic b))) := by
  have hlow := Int.emod_nonneg b.toInt (b := input.size) (by omega)
  have hhigh := Int.emod_lt_of_pos b.toInt (b := input.size) (by omega)
  obtain ⟨k, hk⟩ := Int.eq_ofNat_of_zero_le hlow
  have hlt : k < input.size := by omega
  have hplace : (m.base + j.toUInt32).toNat = m.base.toNat + k := by
    have hroom := hm.room
    rw [UInt32.toNat_add, toNat_toUInt32 (hj.trans hk)]
    omega
  have hword : m.storage[(m.base + j.toUInt32).toNat]? = some (input.cyclic b) := by
    rw [hplace, hm.words k hlt, Words.cyclic, hk]
    simp [hlt]
  generalize hsum : m.base + j.toUInt32 = place at hword
  apply exec_leave
  simp [Memory.globals, index?, hsum, hword]

theorem exec_input (hm : m.HasInput input) (hn : n.toInt = input.size) (hpos : input.size ≠ 0) :
    machine.exec machine.builtin ([("n", .i32 n), ("i", .i32 b)] ++ m.globals)
      (.define "j" (.binary "%" (.name "i") (.name "n")) <|
      .choose (.group (.binary "<" (.name "j") (.literal "0i")))
        (.assign "j" (.binary "+" (.name "j") (.name "n")) .done) <|
      .leave (.index (.name "input")
        (.binary "+" (.name "input_base") (.call "u32" [] (.cons (.name "j") .nil))))) =
          some (.inl (.i32 (input.cyclic b))) := by
  have hn0 : n ≠ 0 := by
    rintro rfl
    exact hpos (by simpa using hn.symm)
  have hwhole : n ≠ -1 := by
    rintro rfl
    have : (-1 : Int) = input.size := hn
    omega
  obtain ⟨j, hmod, hj⟩ : ∃ j, b % n = j ∧ j.toInt = b.toInt.tmod input.size :=
    ⟨_, rfl, by rw [toInt_mod, hn]⟩
  have hremainder : machine.eval machine.builtin ([("n", .i32 n), ("i", .i32 b)] ++ m.globals)
      (.binary "%" (.name "i") (.name "n")) = some (.i32 j) := by
    simp [divide?, hn0, hwhole, hmod]
  have hneg : machine.eval machine.builtin
      ([("j", .i32 j), ("n", .i32 n), ("i", .i32 b)] ++ m.globals)
      (.group (.binary "<" (.name "j") (.literal "0i"))) = some (.bool (decide (j < 0))) := by
    simp
  have hup := tmod_brought_up (i := b.toInt) (n := input.size) (by omega)
  have hlt : j < 0 ↔ b.toInt.tmod input.size < 0 := by
    rw [lt_iff_toInt_lt, hj]
    rfl
  rw [exec_define hremainder (assigned?_i32 j)]
  by_cases hj0 : j < 0
  · rw [if_pos (hlt.mp hj0), ← hj] at hup
    have hsum : (j + n).toInt = b.toInt % input.size := by
      have hlow := Int.emod_nonneg b.toInt (b := input.size) (by omega)
      have hhigh := Int.emod_lt_of_pos b.toInt (b := input.size) (by omega)
      have hsize := n.toInt_lt
      rw [toInt_add, hn, hup]
      exact Int.bmod_eq_of_le (by omega) (by omega)
    have hassign : machine.exec machine.builtin
        ([("j", .i32 j), ("n", .i32 n), ("i", .i32 b)] ++ m.globals)
        (.assign "j" (.binary "+" (.name "j") (.name "n")) .done) =
          some (.inr ([("j", .i32 (j + n)), ("n", .i32 n), ("i", .i32 b)] ++ m.globals)) := by
      simp [Machine.exec, Machine.update, type]
    refine (exec_choose_goes hneg (by simp [hj0]) hassign).trans ?_
    exact exec_index hm hsum hpos
  · rw [if_neg (mt hlt.mpr hj0), ← hj] at hup
    refine (exec_choose_no hneg (by simp [hj0])).trans ?_
    exact exec_index hm hup hpos

theorem apply_input (hm : m.HasInput input) (hs : input.size < 2 ^ 31) :
    machine.apply machine.builtin m.globals Helper.input [.i32 b] =
      some (.i32 (input.cyclic b)) := by
  have hn : m.size.toInt32.toInt = input.size := by
    rw [toInt_toInt32 (by rw [hm.size]; exact hs), hm.size]
  have hcount : machine.eval machine.builtin ([("i", .i32 b)] ++ m.globals)
      (.call "i32" [] (.cons (.select (.name "params") "input_size") .nil)) =
        some (.i32 m.size.toInt32) := by
    simp [Memory.globals, select?]
  generalize m.size.toInt32 = n at hn hcount
  have hn0 : n = 0 ↔ input.size = 0 := by
    rw [← toInt_inj, hn]
    simp
  have hempty := @eval_equals n 0 machine.builtin ([("n", .i32 n), ("i", .i32 b)] ++ m.globals) "n"
    (.literal "0i") rfl literals.1
  apply apply_leaves rfl (v := .i32 (input.cyclic b)) _ (assigned?_i32 _)
  refine (exec_define hcount (assigned?_i32 n)).trans ?_
  by_cases h : input.size = 0
  · have hcyclic : input.cyclic b = 0 := by simp [Words.cyclic, Array.eq_empty_of_size_eq_zero h]
    rw [hcyclic]
    apply exec_choose_leaves hempty (by simp [hn0.mpr h])
    exact exec_leave literals.1
  · refine (exec_choose_no hempty (by simp [mt hn0.mp h])).trans ?_
    exact exec_input hm hn h

end Input

end TiledAutomata.Emit.Shader
