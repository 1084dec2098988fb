import TiledAutomata.Proofs.Target.HostTokens
import TiledAutomata.Proofs.Target.HostValue
import TiledAutomata.Proofs.Target.Lines

/-!
# The helpers of the host package

The helpers as they are read from their source, and what they compute. They make the
operators of words out of those of the host: a division by zero never happens, counts of
shifts are masked, and an index is brought into the input before it is read.
-/

open Option Int64

namespace TiledAutomata.Emit.Host

open Target Machine

variable {ts : List Token}

namespace Helper

def words : List (String × String) := [("a", "int32"), ("b", "int32")]

def count : Term :=
  .group (.binary "&" (.call "uint32" [] (.cons (.name "b") .nil)) (.literal "31"))

def bool : Function :=
  ⟨"caBool", [("b", "bool")], "int32",
    .choose (.name "b") (.leave (.literal "1")) (.leave (.literal "0"))⟩

def select : Function :=
  ⟨"caSelect", [("c", "bool"), ("a", "int32"), ("b", "int32")], "int32",
    .choose (.name "c") (.leave (.name "a")) (.leave (.name "b"))⟩

def quotient (name op : String) : Function :=
  ⟨name, words, "int32",
    .choose (.binary "==" (.name "b") (.literal "0")) (.leave (.literal "0"))
      (.leave (.binary op (.name "a") (.name "b")))⟩

def shift (name op : String) : Function :=
  ⟨name, words, "int32", .leave (.binary op (.name "a") count)⟩

def unsignedShift : Function :=
  ⟨"caUshr", words, "int32", .leave (.call "int32" [] (.cons
    (.binary ">>" (.call "uint32" [] (.cons (.name "a") .nil)) count) .nil))⟩

def input : Function :=
  ⟨"caInput", [("in", "[]int32"), ("i", "int32")], "int32",
    .define "n" (.call "int64" [] (.cons (.call "len" [] (.cons (.name "in") .nil)) .nil)) <|
    .choose (.binary "==" (.name "n") (.literal "0")) (.leave (.literal "0")) <|
    .define "j" (.binary "%" (.call "int64" [] (.cons (.name "i") .nil)) (.name "n")) <|
    .choose (.binary "<" (.name "j") (.literal "0"))
      (.assign "j" (.binary "+" (.name "j") (.name "n")) .done) <|
    .leave (.index (.name "in") (.name "j"))⟩

def all : List Function :=
  [bool, select, quotient "caDiv" "/", quotient "caMod" "%", shift "caShl" "<<",
    shift "caShr" ">>", unsignedShift, input]

end Helper

/-! ## Reading the helpers -/

def tokens? (cs : List Char) : Option (List Token) := do
  (← Lexeme.scan 0 false 1 cs #[]).toList.mapM fun
    | .token t => some t
    | .comment _ => none

def declared? (ts : List Token) : Option (List Function) := do
  let (f, _) ← (Reader.file (Grammar.ofDepth (16 * ts.length + 16)) [] {}).run ts
  f.members.mapM Member.function?

theorem eq_map_token {ls : List Lexeme}
    (h : (ls.mapM fun | .token t => some t | .comment _ => none) = some ts) :
    ls = ts.map Lexeme.token := by
  induction ls generalizing ts with
  | nil =>
    cases h
    rfl
  | cons l ls ih =>
    rw [List.mapM_cons] at h
    cases l with
    | comment c => cases h
    | token t =>
      simp only [bind_eq_bind, bind_some, bind_eq_some_iff,
        pure_def, Option.some.injEq] at h
      obtain ⟨us, hus, rfl⟩ := h
      rw [ih hus, List.map_cons]

theorem scan_of_tokens? {cs : List Char} (h : tokens? cs = some ts) :
    Lexeme.scan 0 false 1 cs #[] = some (ts.map Lexeme.token).toArray := by
  obtain ⟨ls, hscan, hls⟩ := bind_eq_some_iff.mp h
  rw [hscan, ← eq_map_token hls]

theorem run_file (g : Grammar) (groups : List Group) (lines : LineTable) (ts : List Token) :
    (Reader.file g groups lines).run ts = ((Reader.file g [] {}).run ts).map fun (f, us) =>
      ({ f with groups := groups, lines := lines }, us) := by
  simp only [Reader.file, StateT.run_bind, bind_eq_bind, map_bind,
    Function.comp_def]
  refine congrArg _ (funext fun p => congrArg _ (funext fun n => congrArg _ (funext fun e =>
    congrArg _ (funext fun ms => ?_))))
  split <;> rfl

theorem functions?_of_tokens {text : String}
    (hc : ∀ c ∈ text.toList, c.toNat ≠ 0 ∧ c.toNat ≠ 0xfeff) (h : tokens? text.toList = some ts) :
    functions? text = declared? ts := by
  obtain ⟨s, hs, hts⟩ := Source.ofText_tokens hc (scan_of_tokens? h)
  simp only [functions?, File.ofText, declared?, hs, hts, run_file _ s.groups s.lines,
    bind_eq_bind, bind_some, bind_map, Function.comp_def, pure_def,
    bind_assoc]

def helperBlocks : List Emit.Block := .line "package automaton" :: Package.helpers

def helperChars : List Char := Emit.Block.charsAll ['\t'] 0 helperBlocks

-- With the characters written out the kernel need not decode the texts of the lines to scan them.
theorem declared?_helpers : ∃ cs, helperChars = cs ∧
    (tokens? cs).bind declared? = some Helper.all ∧
    (cs.all fun c => decide (c.toNat ≠ 0 ∧ c.toNat ≠ 0xfeff)) = true := by
  refine ⟨?_, ?_, ?_, ?_⟩
  rotate_left
  · cbv
    rfl
  · decide +kernel
  · decide +kernel

theorem functions?_helpers :
    functions? (Emit.Block.source "\t" helperBlocks) = some Helper.all := by
  obtain ⟨cs, hcs, htokens, hplain⟩ := declared?_helpers
  have hlist : (Emit.Block.source "\t" helperBlocks).toList = cs :=
    (Emit.Block.toList_source "\t" helperBlocks).trans hcs
  obtain ⟨ts, hts, hdeclared⟩ := bind_eq_some_iff.mp htokens
  simp only [List.all_eq_true, decide_eq_true_eq] at hplain
  rw [functions?_of_tokens (by rwa [hlist]) (by rwa [hlist]), hdeclared]

open Value

section Results

variable (a b : Word) {x y : Value}

-- Runs a helper step by step.
attribute [local simp] Machine.apply Machine.passed Machine.exec Machine.eval Machine.evalAll
  List.lookup_cons truth? type settling? literals binary? typed? operate? compare? total? builtin?
  wrapped? number?

theorem apply_bool (c : Bool) :
    machine.apply machine.builtin [] Helper.bool [.bool c] = some (.int32 (Word.ofBool c)) := by
  cases c <;> simp [Helper.bool, Word.ofBool]

theorem apply_select (c : Bool) (hx : x.assigned? "int32" = some (.int32 a))
    (hy : y.assigned? "int32" = some (.int32 b)) :
    machine.apply machine.builtin [] Helper.select [.bool c, x, y] =
      some (.int32 (if c then a else b)) := by
  cases c <;> simp [Helper.select, hx, hy]

theorem apply_quotient (name : String) (hx : x.assigned? "int32" = some (.int32 a))
    (hy : y.assigned? "int32" = some (.int32 b)) :
    machine.apply machine.builtin [] (Helper.quotient name "/") [x, y] =
      some (.int32 (BinaryOp.div.apply a b)) ∧
    machine.apply machine.builtin [] (Helper.quotient name "%") [x, y] =
      some (.int32 (BinaryOp.mod.apply a b)) := by
  by_cases hb : b = 0
  · simp [Helper.quotient, Helper.words, hx, hy, hb, BinaryOp.apply]
  · simp [Helper.quotient, Helper.words, hx, hy, hb, divide?, BinaryOp.apply]

theorem ofInt_toInt_eq (b : Word) : UInt32.ofInt b.toInt = b.toUInt32 := by
  show UInt32.ofNat (Exact.bits b.toInt) = _
  rw [← Word.toNat_eq_bits]
  exact UInt32.ofNat_toNat

theorem eval_count (scope : Target.Scope Value) (hb : scope.lookup "b" = some (.int32 b)) :
    machine.eval machine.builtin scope Helper.count = some (.uint32 (mask b)) := by
  have hmask : represented? "uint32" 31 = some (.uint32 31) := rfl
  simp [Helper.count, hb, mask, ofInt_toInt_eq, hmask]

theorem apply_shift (name op : String) {n : Int} (ho : op = "<<" ∨ op = ">>")
    (hs : shift? op a.toInt (mask b).toNat = some n) (hx : x.assigned? "int32" = some (.int32 a))
    (hy : y.assigned? "int32" = some (.int32 b)) :
    machine.apply machine.builtin [] (Helper.shift name op) [x, y] =
      some (.int32 (Int32.ofInt n)) := by
  have hcount := eval_count b [("a", .int32 a), ("b", .int32 b)] rfl
  rcases ho with rfl | rfl <;>
    simp [Helper.shift, Helper.words, hs, hx, hy, hcount, shifted?_int32]

theorem apply_unsignedShift (hx : x.assigned? "int32" = some (.int32 a))
    (hy : y.assigned? "int32" = some (.int32 b)) :
    machine.apply machine.builtin [] Helper.unsignedShift [x, y] =
      some (.int32 (BinaryOp.ushr.apply a b)) := by
  have hcount := eval_count b [("a", .int32 a), ("b", .int32 b)] rfl
  have hshift : Int32.ofInt (UInt32.ofInt (a.toUInt32.toNat / 2 ^ (mask b).toNat : Nat)).toNat =
      BinaryOp.ushr.apply a b := by
    have hlt : a.toUInt32.toNat / 2 ^ (mask b).toNat < 2 ^ 32 :=
      Nat.lt_of_le_of_lt (Nat.div_le_self _ _) a.toUInt32.toNat_lt
    rw [← ofInt_ushr]
    generalize a.toUInt32.toNat / 2 ^ (mask b).toNat = q at hlt ⊢
    have hmod : ((q : Int) % 2 ^ 32).toNat = q := by omega
    have hq : (UInt32.ofNat q).toNat = q := UInt32.toNat_ofNat_of_lt' hlt
    show Int32.ofInt (UInt32.ofNat ((q : Int) % 2 ^ 32).toNat).toNat = _
    rw [hmod, hq]
  rw [← hshift]
  simp [Helper.unsignedShift, Helper.words, hx, hy, hcount, shifted?_uint32, shift?, ofInt_toInt_eq]

theorem exec_input {ws : Words} {n : Int64} (hn : n.toInt = ws.size) (hws : ws.size < 2 ^ 31)
    (hpos : ws.size ≠ 0) :
    machine.exec machine.builtin [("n", .int64 n), ("in", .words ws), ("i", .int32 b)]
      (.define "j" (.binary "%" (.call "int64" [] (.cons (.name "i") .nil)) (.name "n")) <|
      .choose (.binary "<" (.name "j") (.literal "0"))
        (.assign "j" (.binary "+" (.name "j") (.name "n")) .done) <|
      .leave (.index (.name "in") (.name "j"))) = some (.inl (.int32 (ws.cyclic b))) := by
  have hn0 : n ≠ 0 := by
    rintro rfl
    exact hpos (by simpa using hn.symm)
  obtain ⟨j, hmod, hj⟩ : ∃ j, b.toInt64 % n = j ∧ j.toInt = b.toInt.tmod ws.size :=
    ⟨_, rfl, by rw [toInt_mod, Int32.toInt_toInt64, hn]⟩
  have hremainder : machine.eval machine.builtin
      [("n", .int64 n), ("in", .words ws), ("i", .int32 b)]
      (.binary "%" (.call "int64" [] (.cons (.name "i") .nil)) (.name "n")) =
        some (.int64 j) := by
    simp [ofInt_int32ToInt, divide?, hn0, hmod]
  have hlow := Int.emod_nonneg b.toInt (b := ws.size) (by omega)
  have hhigh := Int.emod_lt_of_pos b.toInt (b := ws.size) (by omega)
  have hindex : ∀ k : Int64, k.toInt = b.toInt % ws.size →
      machine.exec machine.builtin
        [("j", .int64 k), ("n", .int64 n), ("in", .words ws), ("i", .int32 b)]
        (.leave (.index (.name "in") (.name "j"))) = some (.inl (.int32 (ws.cyclic b))) := by
    intro k hk
    apply exec_leave
    simp [index?, hk, hlow, hhigh, Words.cyclic]
  have hup := tmod_brought_up (i := b.toInt) (n := ws.size) (by omega)
  have hneg : machine.eval machine.builtin
      [("j", .int64 j), ("n", .int64 n), ("in", .words ws), ("i", .int32 b)]
      (.binary "<" (.name "j") (.literal "0")) = some (.bool (decide (j < 0))) := by
    simp [represented?]
  have hlt : j < 0 ↔ b.toInt.tmod ws.size < 0 := by
    rw [lt_iff_toInt_lt, hj]
    rfl
  rw [exec_define hremainder (assigned?_int64 j)]
  by_cases hj0 : j < 0
  · rw [if_pos (hlt.mp hj0), ← hj] at hup
    have hsum : (j + n).toInt = b.toInt % ws.size := by
      rw [toInt_add, hn, hup]
      exact Int.bmod_eq_of_le (by omega) (by omega)
    have hassign : machine.exec machine.builtin
        [("j", .int64 j), ("n", .int64 n), ("in", .words ws), ("i", .int32 b)]
        (.assign "j" (.binary "+" (.name "j") (.name "n")) .done) =
          some (.inr [("j", .int64 (j + n)), ("n", .int64 n), ("in", .words ws),
            ("i", .int32 b)]) := by
      simp [Machine.update]
    rw [exec_choose_goes hneg (by simp [hj0]) hassign]
    exact hindex (j + n) hsum
  · rw [if_neg (mt hlt.mpr hj0), ← hj] at hup
    rw [exec_choose_no hneg (by simp [hj0])]
    exact hindex j hup

theorem apply_input (ws : Words) (hws : ws.size < 2 ^ 31)
    (hy : y.assigned? "int32" = some (.int32 b)) :
    machine.apply machine.builtin [] Helper.input [.words ws, y] = some (.int32 (ws.cyclic b)) := by
  obtain ⟨n, hlength, hn⟩ : ∃ n, Int64.ofNat ws.size = n ∧ n.toInt = ws.size :=
    ⟨_, rfl, toInt_ofNat_of_lt (by omega)⟩
  have hn0 : n = 0 ↔ ws.size = 0 := by
    rw [← toInt_inj, hn]
    simp
  have hpassed : machine.passed Helper.input.params [.words ws, y] =
      some [("in", .words ws), ("i", .int32 b)] := by
    simp [Helper.input, hy]
  have hcount : machine.eval machine.builtin [("in", .words ws), ("i", .int32 b)]
      (.call "int64" [] (.cons (.call "len" [] (.cons (.name "in") .nil)) .nil)) =
        some (.int64 n) := by
    simp [hlength]
  have hempty : machine.eval machine.builtin [("n", .int64 n), ("in", .words ws), ("i", .int32 b)]
      (.binary "==" (.name "n") (.literal "0")) = some (.bool (decide (n = 0))) := by
    simp [represented?]
  by_cases h : ws.size = 0
  · have hcyclic : ws.cyclic b = 0 := by simp [Words.cyclic, Array.eq_empty_of_size_eq_zero h]
    apply apply_leaves hpassed (v := .constant 0)
    · refine (exec_define hcount (assigned?_int64 n)).trans ?_
      apply exec_choose_leaves hempty (by simp [hn0.mpr h])
      exact exec_leave literals.1
    · rw [hcyclic]
      exact assigned?_zero
  · apply apply_leaves hpassed (v := .int32 (ws.cyclic b))
    · refine (exec_define hcount (assigned?_int64 n)).trans ?_
      refine (exec_choose_no hempty (by simp [mt hn0.mp h])).trans ?_
      exact exec_input b hn hws h
    · exact assigned?_int32 _

end Results

end TiledAutomata.Emit.Host
