import TiledAutomata.Proofs.Evaluation
import TiledAutomata.Proofs.Parsing

/-!
# Printed expressions are read back

The text of an expression that was read is read again, to the same tree but for negative
literals: a literal has no sign of its own, so one that is negative comes back as the
negation of its magnitude. Folding does not tell the two trees apart. The same holds of
sequences of assignments.
-/

open List Int32

namespace TiledAutomata

open Text (Bytes)
open Grammar

variable {rest : Bytes} {e : Expr} {ts : List Token} {s t : String}

/-! ## Trees as their texts spell them -/

namespace Expr

/-- The tree with a negation for every negative literal. The least word is its own negation. -/
def spelled : Expr → Expr
  | .number v => if v < 0 then .unary .neg (.number (-v)) else .number v
  | .ident x => .ident x
  | .input i => .input i.spelled
  | .inputLength => .inputLength
  | .unary o x => .unary o x.spelled
  | .binary o x y => .binary o x.spelled y.spelled
  | .cond c t e => .cond c.spelled t.spelled e.spelled

theorem fold_spelled (e : Expr) : e.spelled.fold = e.fold := by
  induction e with
  | number v =>
    rw [spelled]
    split
    · simp [fold, UnaryOp.apply]
    · rfl
  | ident x => rfl
  | inputLength => rfl
  | input i ih => simp only [spelled, fold, ih]
  | unary o x ih => simp only [spelled, fold, ih]
  | binary o x y ihx ihy => simp only [spelled, fold, ihx, ihy]
  | cond c t e ihc iht ihe => simp only [spelled, fold, ihc, iht, ihe]

def Readable (e : Expr) : Prop :=
  ∀ x ∈ e.reads, Token.Name x ∧ x ≠ inputLengthName ∧ x ≠ inputName

end Expr

theorem Grammar.Derivation.readable : {σ : Symbol} → (d : Derivation σ) →
    (∀ t ∈ d.yield, t.kind = .ident → Token.Name t.text) → d.expr.Readable
  | _, .plain c, h => c.readable h
  | _, .cond c q y k n, h => by
    have hc := c.readable fun t ht => h t (by simp [yield, ht])
    have hy := y.readable fun t ht => h t (by simp [yield, ht])
    have hn := n.readable fun t ht => h t (by simp [yield, ht])
    intro x hx
    simp only [expr, Expr.reads_cond, mem_append] at hx
    rcases hx with (hx | hx) | hx
    · exact hc x hx
    · exact hy x hx
    · exact hn x hx
  | _, .tighter _ x, h => x.readable h
  | _, .chain x o y, h => by
    have hx' := x.readable fun t ht => h t (by simp [yield, ht])
    have hy := y.readable fun t ht => h t (by simp [yield, ht])
    intro z hz
    simp only [expr, Expr.reads_binary, mem_append] at hz
    rcases hz with hz | hz
    · exact hx' z hz
    · exact hy z hz
  | _, .unaries x, h => x.readable h
  | _, .sign o x, h => by
    rw [expr, Expr.Readable, Expr.reads_unary]
    exact x.readable fun t ht => h t (by simp [yield, ht])
  | _, .operand x, h => x.readable h
  | _, .number n, _ => by simp [expr, Expr.Readable, Expr.reads, Expr.nodes]
  | _, .ident x, h => by
    intro y hy
    rw [expr, Expr.reads_ident, mem_singleton] at hy
    subst hy
    exact ⟨h x.1 (by simp [yield]) x.2.1, x.2.2⟩
  | _, .inputLength _, _ => by simp [expr, Expr.Readable, Expr.reads, Expr.nodes]
  | _, .input x l i r, h => by
    rw [expr, Expr.Readable, Expr.reads_input]
    exact i.readable fun t ht => h t (by simp [yield, ht])
  | _, .group l e r, h => e.readable fun t ht => h t (by simp [yield, ht])

/-! ## Numerals -/

namespace Text

namespace Numeral

theorem digits_loose {base top : Nat} {cs : List Char} (h : '_' ∉ cs) (n : Nat) :
    digits base top true n cs = digits base top false n cs := by
  induction cs generalizing n with
  | nil => rfl
  | cons c cs ih =>
    rw [mem_cons, not_or] at h
    have hc : (c == '_') = false := beq_eq_false_iff_ne.mpr (Ne.symm h.1)
    simp only [digits, hc, Bool.and_false, ih h.2]

theorem word32_toString {n : Nat} (h : n < 2 ^ 32) : word32 (toString n) = .ok n := by
  obtain ⟨c, cs, hcs, hdigit, hzero⟩ := digits_toString n
  have hread : digits 10 (Nat.pow 2 32 - 1) false 0 (c :: cs) = .ok n := by
    have hdec : decimal (Nat.pow 2 32 - 1) (toString n).toList = .ok n :=
      decimal_toString (by norm_num; omega)
    rwa [hcs, decimal, isEmpty_cons, if_neg Bool.false_ne_true] at hdec
  have hline : '_' ∉ c :: cs := fun hmem => absurd (hdigit _ hmem) (by decide)
  rw [word32, hcs, unsigned, isEmpty_cons, if_neg Bool.false_ne_true]
  by_cases hc : c = '0'
  · -- Only zero starts with a zero, and it is read as an octal numeral without digits.
    subst hc
    rw [hzero rfl] at hread ⊢
    cases hread
    rfl
  · have hbase : base (c :: cs) = (10, c :: cs) := by
      unfold base
      split
      · rename_i heq; exact absurd (List.cons.inj heq).1 hc
      · rename_i heq; exact absurd (List.cons.inj heq).1 hc
      · rfl
    have hcontains : (c :: cs).contains '_' = false := by
      rw [← Bool.not_eq_true, contains_iff_mem]
      exact hline
    simp only [hbase, digits_loose hline, hread, hcontains, Bool.false_and, Bool.false_eq_true,
      if_false]

end Numeral

theorem bytes_digits (n : Nat) : ∃ c cs, bytes (toString n) = c :: cs ∧ Token.isDigit c = true ∧
    ∀ b ∈ cs, Token.isWord b = true := by
  obtain ⟨c, cs, hcs, hdigit, -⟩ := digits_toString n
  have hone : ∀ d : Char, d.isDigit = true →
      ∃ b, String.utf8EncodeChar d = [b] ∧ Token.isDigit b = true := by
    intro d hd
    obtain ⟨hlo, hhi⟩ := toNat_of_isDigit hd
    have hval : d.val.toNat = d.toNat := rfl
    refine ⟨UInt8.ofNat d.toNat, by rw [String.utf8EncodeChar, hval, if_pos (by omega)], ?_⟩
    simp only [Token.isDigit, Bool.and_eq_true, decide_eq_true_eq, UInt8.le_iff_toNat_le,
      toNat_byte (show d.toNat < 256 by omega), UInt8.reduceToNat]
    exact ⟨hlo, hhi⟩
  obtain ⟨b, hb, hbd⟩ := hone c (hdigit c (by simp))
  refine ⟨b, cs.flatMap String.utf8EncodeChar, ?_, hbd, ?_⟩
  · rw [← String.ofList_toList (s := toString n), hcs, bytes_ofList, flatMap_cons, hb]
    rfl
  · intro d hd
    obtain ⟨e, he, hde⟩ := mem_flatMap.mp hd
    obtain ⟨b', hb', hbd'⟩ := hone e (hdigit e (by simp [he]))
    rw [hb', mem_singleton] at hde
    subst hde
    simp [Token.isWord, hbd']

end Text

/-! ## Marks -/

namespace Token

theorem reads_digits (n : Nat) (hrest : Apart rest) (pos : Nat) :
    Reads (Text.bytes (toString n)) rest pos [⟨.number, toString n, pos⟩] := by
  obtain ⟨c, cs, hbytes, hc, hcs⟩ := Text.bytes_digits n
  refine reads_text (hbytes ▸ .number hc hcs hrest) (fun heq => ?_) pos
  rw [hbytes, cons.injEq] at heq
  exact absurd (heq.1 ▸ hc) (by decide)

end Token

/-! ## Expressions -/

theorem Token.Reads.text_append {pos : Nat} {us : List Token}
    (h : Reads (Text.bytes s) (Text.bytes t ++ rest) pos ts)
    (h' : Reads (Text.bytes t) rest (pos + (Text.bytes s).length) us) :
    Reads (Text.bytes (s ++ t)) rest pos (ts ++ us) := by
  rw [Text.bytes_append]
  exact h.append h'

section Spelling

open Token

/-- A text has a derivation that builds a tree, wherever it stands and whatever follows it but a
letter, a digit or an underscore. -/
def SpellsOut (σ : Symbol) (s : String) (e : Expr) : Prop :=
  ∀ (pos : Nat) (rest : Bytes), Apart rest →
    ∃ d : Derivation σ, d.expr = e ∧ Reads (Text.bytes s) rest pos d.yield

theorem apart_cons {b : UInt8} (h : isWord b = false) (rest : Bytes) : Apart (b :: rest) := by
  intro c hc
  cases hc
  exact h

/-- The magnitude of a word, read as a word; that of the least word is the least word. -/
theorem ofNat_natAbs (v : Word) : Int32.ofNat v.toInt.natAbs = if v < 0 then -v else v := by
  have hlo := v.le_toInt
  have hhi := v.toInt_lt
  rw [← toInt_inj, toInt_ofNat']
  by_cases hneg : v < 0
  · rw [if_pos hneg, toInt_neg]
    rw [lt_iff_toInt_lt, toInt_zero] at hneg
    congr 1
    omega
  · rw [if_neg hneg]
    rw [lt_iff_toInt_lt, toInt_zero] at hneg
    rw [show (v.toInt.natAbs : Int) = v.toInt by omega]
    exact toInt_bmod_size v

theorem text_number (v : Word) :
    (Expr.number v).text = (if v < 0 then "-" else "") ++ toString v.toInt.natAbs := by
  apply String.toList_injective
  rw [Expr.text, Word.text, Text.toString_int, String.toList_append]
  simp only [lt_iff_toInt_lt, toInt_zero]
  split <;> rfl

theorem spellsOut_number (v : Word) : SpellsOut .unary v.text (Expr.number v).spelled := by
  intro pos rest hrest
  have hbound : v.toInt.natAbs < 2 ^ 32 := by
    have hlo := v.le_toInt
    have hhi := v.toInt_lt
    omega
  have hliteral (p : Nat) : ∃ d : Derivation .unary,
      d.expr = .number (if v < 0 then -v else v) ∧
        d.yield = [⟨.number, toString v.toInt.natAbs, p⟩] :=
    ⟨.operand (.number ⟨⟨.number, toString v.toInt.natAbs, p⟩, v.toInt.natAbs, rfl,
      Text.Numeral.word32_toString hbound⟩), by simp [Derivation.expr, ofNat_natAbs], rfl⟩
  rw [← Expr.text, text_number, Expr.spelled]
  split
  · next hneg =>
    obtain ⟨d, hexpr, hyield⟩ := hliteral (pos + (Text.bytes UnaryOp.neg.text).length)
    obtain ⟨b, bs, hbytes, hb, -⟩ := Text.bytes_digits v.toInt.natAbs
    have hsign := reads_sign .neg (b := b) (by rintro rfl; cases hb) (bs ++ rest) pos
    rw [← cons_append, ← hbytes] at hsign
    refine ⟨.sign ⟨⟨.op, UnaryOp.neg.text, pos⟩, .neg, rfl, rfl⟩ d,
      by simp [Derivation.expr, hexpr, hneg], ?_⟩
    rw [Derivation.yield, hyield]
    exact hsign.text_append (reads_digits _ hrest _)
  · next hneg =>
    obtain ⟨d, hexpr, hyield⟩ := hliteral pos
    refine ⟨d, by simp [hexpr, hneg], ?_⟩
    rw [String.empty_append, hyield]
    exact reads_digits _ hrest pos

theorem spellsOut_ident {x : String}
    (h : Name x ∧ x ≠ Expr.inputLengthName ∧ x ≠ Expr.inputName) :
    SpellsOut .unary x (.ident x) := by
  intro pos rest hrest
  exact ⟨.operand (.ident ⟨⟨.ident, x, pos⟩, rfl, h.2⟩), rfl, reads_name h.1 hrest pos⟩

theorem spellsOut_inputLength : SpellsOut .unary Expr.inputLengthName .inputLength := by
  intro pos rest hrest
  exact ⟨.operand (.inputLength ⟨⟨.ident, Expr.inputLengthName, pos⟩, rfl, rfl⟩), rfl,
    reads_name (by decide) hrest pos⟩

theorem bytes_blank : Text.bytes " " = [32] := by decide

theorem reads_space (rest : Bytes) (pos : Nat) : Reads (Text.bytes " ") rest pos [] := by
  rw [bytes_blank]
  exact reads_blank rfl rest pos

theorem apart_space (rest : Bytes) : Apart (Text.bytes " " ++ rest) := by
  rw [bytes_blank]
  exact apart_cons rfl rest

theorem apart_before_bracket {m : String} {k : Kind} (h : (m, k) ∈ brackets) (rest : Bytes) :
    Apart (Text.bytes m ++ rest) := by
  have hfirst : ∀ s ∈ brackets, (Text.bytes s.1).head?.map isWord = some false := by
    decide
  obtain ⟨b, hb, hword⟩ := Option.map_eq_some_iff.mp (hfirst _ h)
  obtain ⟨cs, hm⟩ := List.head?_eq_some_iff.mp hb
  rw [hm]
  exact apart_cons hword _

theorem reads_joint (o : BinaryOp) (rest : Bytes) (pos : Nat) :
    Reads (Text.bytes o.text) (Text.bytes " " ++ rest) pos [⟨.op, o.text, pos⟩] := by
  rw [bytes_blank]
  exact reads_operator o rest pos

theorem SpellsOut.bin (h : SpellsOut .unary s e) {p : Nat} (hp : p ≤ 11) :
    SpellsOut (.bin p) s e := by
  intro pos rest hrest
  obtain ⟨x, rfl, hx⟩ := h pos rest hrest
  obtain ⟨d, hyield, hexpr⟩ := Reader.exists_looser hp le_rfl (.unaries x)
  exact ⟨d, hexpr, hyield ▸ hx⟩

theorem SpellsOut.expr (h : SpellsOut .unary s e) : SpellsOut .expr s e := by
  intro pos rest hrest
  obtain ⟨d, he, hd⟩ := h.bin (p := 1) (by decide) pos rest hrest
  exact ⟨.plain d, he, hd⟩

theorem SpellsOut.input {i : String} (h : SpellsOut .expr i e) :
    SpellsOut .unary (Expr.inputName ++ "[" ++ i ++ "]") (.input e) := by
  intro pos rest _
  obtain ⟨d, rfl, hd⟩ := h (pos + (Text.bytes (Expr.inputName ++ "[")).length)
    (Text.bytes "]" ++ rest) (apart_before_bracket (k := .rbracket) (by decide) rest)
  have hname := reads_name (x := Expr.inputName) (by decide)
    (apart_before_bracket (m := "[") (k := .lbracket) (by decide)
      (Text.bytes i ++ (Text.bytes "]" ++ rest))) pos
  have hopen := hname.text_append
    (reads_bracket (m := "[") (k := .lbracket) (by decide) _ _)
  have hread := (hopen.text_append hd).text_append
    (reads_bracket (m := "]") (k := .rbracket) (by decide) rest _)
  exact ⟨.operand (.input ⟨⟨_, Expr.inputName, _⟩, rfl, rfl⟩ ⟨⟨_, _, _⟩, rfl⟩ d ⟨⟨_, _, _⟩, rfl⟩),
    rfl, by simpa [Derivation.yield] using hread⟩

theorem SpellsOut.group (h : SpellsOut .expr s e) : SpellsOut .unary ("(" ++ s ++ ")") e := by
  intro pos rest _
  obtain ⟨d, rfl, hd⟩ := h (pos + (Text.bytes "(").length) (Text.bytes ")" ++ rest)
    (apart_before_bracket (k := .rparen) (by decide) rest)
  have hopen := reads_bracket (m := "(") (k := .lparen) (by decide)
    (Text.bytes s ++ (Text.bytes ")" ++ rest)) pos
  have hread := (hopen.text_append hd).text_append
    (reads_bracket (m := ")") (k := .rparen) (by decide) rest _)
  exact ⟨.operand (.group ⟨⟨_, _, _⟩, rfl⟩ d ⟨⟨_, _, _⟩, rfl⟩), rfl,
    by simpa [Derivation.yield] using hread⟩

theorem SpellsOut.sign (o : UnaryOp) (h : SpellsOut .unary s e)
    (hs : ∃ b ∈ (Text.bytes s).head?, b ≠ 61) : SpellsOut .unary (o.text ++ s) (.unary o e) := by
  intro pos rest hrest
  obtain ⟨d, rfl, hd⟩ := h (pos + (Text.bytes o.text).length) rest hrest
  obtain ⟨b, hb, hne⟩ := hs
  obtain ⟨bs, hbytes⟩ := List.head?_eq_some_iff.mp hb
  have hsign := reads_sign o hne (bs ++ rest) pos
  rw [← cons_append, ← hbytes] at hsign
  exact ⟨.sign ⟨⟨.op, o.text, pos⟩, o, rfl, rfl⟩ d, rfl, hsign.text_append hd⟩

theorem SpellsOut.binary (o : BinaryOp) {f : Expr} (hs : SpellsOut .unary s e)
    (ht : SpellsOut .unary t f) :
    SpellsOut .expr (s ++ " " ++ o.text ++ " " ++ t) (.binary o e f) := by
  intro pos rest hrest
  obtain ⟨x, rfl, hx⟩ := hs.bin (p := o.level) (o.level_le.trans (by decide)) pos
    (Text.bytes " " ++ (Text.bytes o.text ++ (Text.bytes " " ++ (Text.bytes t ++ rest))))
    (apart_space _)
  obtain ⟨y, rfl, hy⟩ := ht.bin (p := o.level + 1) (Nat.succ_le_succ o.level_le)
    (pos + (Text.bytes (s ++ " " ++ o.text ++ " ")).length) rest hrest
  have hleft := (hx.text_append (reads_space _ _)).text_append (reads_joint o _ _)
  have hread := (hleft.text_append (reads_space _ _)).text_append hy
  obtain ⟨d, hyield, hexpr⟩ := Reader.exists_looser o.level_pos (o.level_le.trans (by decide))
    (.chain x ⟨⟨.op, o.text, pos + (Text.bytes (s ++ " ")).length⟩, o, rfl, rfl, rfl⟩ y)
  refine ⟨.plain d, hexpr, ?_⟩
  rw [Derivation.yield, hyield]
  simpa [Derivation.yield] using hread

theorem SpellsOut.cond {u : String} {f g : Expr} (hs : SpellsOut .unary s e)
    (ht : SpellsOut .unary t f) (hu : SpellsOut .unary u g) :
    SpellsOut .expr (s ++ " " ++ "?" ++ " " ++ t ++ " " ++ ":" ++ " " ++ u) (.cond e f g) := by
  intro pos rest hrest
  obtain ⟨c, rfl, hc⟩ := hs.bin (p := 1) (by decide) pos _ (apart_space (Text.bytes "?" ++
    (Text.bytes " " ++ (Text.bytes t ++ (Text.bytes " " ++ (Text.bytes ":" ++
      (Text.bytes " " ++ (Text.bytes u ++ rest))))))))
  obtain ⟨y, rfl, hy⟩ := ht.expr (pos + (Text.bytes (s ++ " " ++ "?" ++ " ")).length) _
    (apart_space (Text.bytes ":" ++ (Text.bytes " " ++ (Text.bytes u ++ rest))))
  obtain ⟨n, rfl, hn⟩ := hu.expr
    (pos + (Text.bytes (s ++ " " ++ "?" ++ " " ++ t ++ " " ++ ":" ++ " ")).length) rest hrest
  have htest := ((hc.text_append (reads_space _ _)).text_append
    (reads_bracket (m := "?") (k := .question) (by decide) _ _)).text_append (reads_space _ _)
  have hyes := (((htest.text_append hy).text_append (reads_space _ _)).text_append
    (reads_bracket (m := ":") (k := .colon) (by decide) _ _)).text_append (reads_space _ _)
  have hread := hyes.text_append hn
  exact ⟨.cond c ⟨⟨_, _, _⟩, rfl⟩ y ⟨⟨_, _, _⟩, rfl⟩ n, rfl,
    by simpa [Derivation.yield] using hread⟩

theorem text_starts (e : Expr) (he : e.Readable) : ∃ b ∈ (Text.bytes e.text).head?, b ≠ 61 := by
  have hword {x : String} (hx : Name x) (t : String) :
      ∃ b ∈ (Text.bytes (x ++ t)).head?, b ≠ 61 := by
    rw [Text.bytes_append]
    unfold Name at hx
    match Text.bytes x, hx with
    | b :: bs, hx =>
      refine ⟨b, rfl, ?_⟩
      rintro rfl
      cases hx
  cases e with
  | number v =>
    rw [text_number, Text.bytes_append]
    obtain ⟨b, bs, hbytes, hb, -⟩ := Text.bytes_digits v.toInt.natAbs
    rw [hbytes]
    split
    · rw [show Text.bytes "-" = [45] by decide]
      exact ⟨45, rfl, by decide⟩
    · refine ⟨b, rfl, ?_⟩
      rintro rfl
      cases hb
  | ident x => simpa [Expr.text] using hword (he x (by simp [Expr.reads_ident])).1 ""
  | inputLength =>
    simpa [Expr.text] using hword (x := Expr.inputLengthName) (by decide) ""
  | input i =>
    rw [Expr.text, String.append_assoc, String.append_assoc]
    exact hword (by decide) _
  | _ =>
    simp only [Expr.text, String.append_assoc, Text.bytes_append "("]
    rw [show Text.bytes "(" = [40] by decide]
    exact ⟨40, rfl, by decide⟩

theorem spellsOut_text (e : Expr) (he : e.Readable) : SpellsOut .unary e.text e.spelled := by
  induction e with
  | number v => exact spellsOut_number v
  | ident x => exact spellsOut_ident (he x (by simp [Expr.reads_ident]))
  | inputLength => exact spellsOut_inputLength
  | input i ih =>
    rw [Expr.Readable, Expr.reads_input] at he
    exact (ih he).expr.input
  | unary o x ih =>
    rw [Expr.Readable, Expr.reads_unary] at he
    have hx := ih he
    have hgroup := (hx.sign o (text_starts x he)).expr.group
    rwa [← String.append_assoc] at hgroup
  | binary o x y ihx ihy =>
    rw [Expr.Readable, Expr.reads_binary] at he
    have hx := ihx fun z hz => he z (by simp [hz])
    have hy := ihy fun z hz => he z (by simp [hz])
    have hgroup := (hx.binary o hy).group
    simpa only [String.append_assoc, Expr.text, Expr.spelled] using hgroup
  | cond c t f ihc iht ihf =>
    rw [Expr.Readable, Expr.reads_cond] at he
    have hc := ihc fun z hz => he z (by simp [hz])
    have ht := iht fun z hz => he z (by simp [hz])
    have hf := ihf fun z hz => he z (by simp [hz])
    have hgroup := (hc.cond ht hf).group
    have hmarks : " ? " = " " ++ "?" ++ " " ∧ " : " = " " ++ ":" ++ " " := by decide
    rw [Expr.text, hmarks.1, hmarks.2, Expr.spelled]
    simpa only [String.append_assoc] using hgroup

/-! ## Assignments -/

/-- An assignment whose text can be read: an assignment mark, and a name on its left. -/
structure Assign.Readable (a : Assign) : Prop where
  target : Name a.target
  op : (a.opText, Kind.assign) ∈ spellings
  value : a.value.Readable

def Assign.spelled (a : Assign) : Assign := { a with value := a.value.spelled }

theorem reads_assign {a : Assign} (ha : a.Readable) (pos : Nat) (rest : Bytes) :
    ∃ (s : Statement) (m : Mark .semicolon), s.Denotes a.spelled ∧
      Reads (Text.bytes a.text) rest pos (s.yield ++ [m.1]) := by
  let lead := if a.declares then "int " else ""
  obtain ⟨v, hv, hvalue⟩ := (spellsOut_text a.value ha.value).expr
    (pos + (Text.bytes (lead ++ a.target ++ " " ++ a.opText ++ " ")).length)
    (Text.bytes ";" ++ rest) (apart_before_bracket (k := .semicolon) (by decide) rest)
  have hop (p : Nat) : Reads (Text.bytes a.opText) (Text.bytes " " ++ (Text.bytes a.value.text ++
      (Text.bytes ";" ++ rest))) p [⟨.assign, a.opText, p⟩] := by
    rw [bytes_blank]
    refine reads_spelling ha.op (longest_blank _ _) (fun _ => by simp [slash]) p
  have htarget (p : Nat) := reads_name ha.target (apart_space (Text.bytes a.opText ++
    (Text.bytes " " ++ (Text.bytes a.value.text ++ (Text.bytes ";" ++ rest))))) p
  have hlead : ∃ i : Option (Named "int"), i.isSome = a.declares ∧
      Reads (Text.bytes lead) (Text.bytes a.target ++ (Text.bytes " " ++ (Text.bytes a.opText ++
        (Text.bytes " " ++ (Text.bytes a.value.text ++ (Text.bytes ";" ++ rest)))))) pos
        (i.toList.map Subtype.val) := by
    by_cases hd : a.declares = true
    · have hint := reads_name (x := "int") (by decide)
        (apart_space (Text.bytes a.target ++ (Text.bytes " " ++ (Text.bytes a.opText ++
          (Text.bytes " " ++ (Text.bytes a.value.text ++ (Text.bytes ";" ++ rest))))))) pos
      refine ⟨some ⟨⟨.ident, "int", pos⟩, rfl, rfl⟩, hd.symm, ?_⟩
      simp only [lead, hd, if_true]
      exact hint.text_append (reads_space _ _)
    · refine ⟨none, by simp [hd], ?_⟩
      simp only [lead, hd]
      exact Reads.nil _ pos
  obtain ⟨i, hi, hlead⟩ := hlead
  have hread := (((((hlead.text_append (htarget _)).text_append (reads_space _ _)).text_append
    (hop _)).text_append (reads_space _ _)).text_append hvalue).text_append
    (reads_bracket (m := ";") (k := .semicolon) (by decide) rest _)
  exact ⟨⟨i, ⟨⟨_, a.target, _⟩, rfl⟩, ⟨⟨_, a.opText, _⟩, rfl⟩, v⟩, ⟨⟨_, _, _⟩, rfl⟩,
    ⟨hi.symm, rfl, rfl, hv.symm⟩, by simpa [Statement.yield, Assign.text, lead] using hread⟩

theorem reads_assigns {as : List Assign} (has : ∀ a ∈ as, a.Readable) (pos : Nat) :
    ∃ ts, Statements ts (as.map Assign.spelled) ∧
      Reads (as.flatMap fun a => Text.bytes a.text) [] pos ts := by
  induction as generalizing pos with
  | nil => exact ⟨[], .none, Reads.nil [] pos⟩
  | cons a as ih =>
    obtain ⟨ts, hts, hread⟩ := ih (fun b hb => has b (by simp [hb]))
      (pos + (Text.bytes a.text).length)
    obtain ⟨s, m, hs, hhead⟩ := reads_assign (has a (by simp)) pos _
    have hall := hhead.append hread
    exact ⟨_, .next s hs m hts, by simpa using hall⟩

end Spelling

/-! ## Sources -/

namespace Token

theorem Reads.tokenize {cs : Bytes} (h : Reads cs [] 0 ts) :
    TiledAutomata.tokenize cs = .ok (ts ++ [⟨.eof, "", cs.length⟩]) := by
  simpa [Reads, TiledAutomata.tokenize, scan] using h

end Token

theorem Expr.readable_of_parse {src : Bytes} (h : Expr.parse src = .ok e) : e.Readable := by
  obtain ⟨ts, hts, -⟩ := Outcome.bind_ok.mp h
  obtain ⟨d, ⟨r, rfl, -⟩, rfl⟩ := (Expr.parse_ok hts e).mp h
  exact d.readable fun t ht => Token.tokenize_names hts t (by simp [ht])

theorem Grammar.Statements.readable {as : List Assign} (h : Statements ts as)
    (hnames : ∀ t ∈ ts, t.kind = .ident → Token.Name t.text)
    (hmarks : ∀ t ∈ ts, t.kind = .assign → (t.text, Token.Kind.assign) ∈ Token.spellings) :
    ∀ a ∈ as, a.Readable := by
  have hone {s : Statement} {a : Assign} (ha : s.Denotes a)
      (hn : ∀ t ∈ s.yield, t.kind = .ident → Token.Name t.text)
      (hm : ∀ t ∈ s.yield, t.kind = .assign → (t.text, Token.Kind.assign) ∈ Token.spellings) :
      a.Readable := by
    obtain ⟨-, htarget, hop, hvalue⟩ := ha
    refine ⟨?_, ?_, ?_⟩
    · rw [htarget]
      exact hn s.target.1 (by simp [Statement.yield]) s.target.2
    · rw [hop]
      exact hm s.op.1 (by simp [Statement.yield]) s.op.2
    · rw [hvalue]
      exact s.value.readable fun t ht => hn t (by simp [Statement.yield, ht])
  induction h with
  | none => simp
  | skip m h ih =>
    exact ih (fun t ht => hnames t (by simp [ht])) (fun t ht => hmarks t (by simp [ht]))
  | last s ha =>
    intro b hb
    rw [mem_singleton.mp hb]
    exact hone ha hnames hmarks
  | next s ha m h ih =>
    intro b hb
    rcases mem_cons.mp hb with rfl | hb
    · exact hone ha (fun t ht => hnames t (by simp [ht])) (fun t ht => hmarks t (by simp [ht]))
    · exact ih (fun t ht => hnames t (by simp [ht])) (fun t ht => hmarks t (by simp [ht])) b hb

/-- What was read and is printed is read back. An expression comes back with a negation in place of
every negative literal, which folds to the same; a sequence of assignments comes back with the same
marks, names and operators, and with values that are related in this way. -/
theorem text_read_back :
    (∀ (src : Bytes) (e : Expr), Expr.parse src = .ok e →
      Expr.parse (Text.bytes e.text) = .ok e.spelled ∧ e.spelled.fold = e.fold) ∧
    ∀ (src : Bytes) (as : List Assign), Assign.parse src = .ok as →
      Assign.parse (Text.bytes (String.join (as.map Assign.text))) = .ok (as.map Assign.spelled) ∧
        ∀ a ∈ as, a.spelled.value.fold = a.value.fold := by
  constructor
  · intro src e h
    refine ⟨?_, e.fold_spelled⟩
    obtain ⟨d, hd, hread⟩ := (spellsOut_text e (Expr.readable_of_parse h)).expr 0 []
      (by simp [Token.Apart])
    exact (Expr.parse_ok hread.tokenize _).mpr
      ⟨d, ⟨_, rfl, .inl ⟨⟨⟨_, _, _⟩, rfl⟩, rfl⟩⟩, hd⟩
  · intro src as h
    refine ⟨?_, fun a _ => a.value.fold_spelled⟩
    obtain ⟨ts, hts, -⟩ := Outcome.bind_ok.mp h
    obtain ⟨body, stop, rfl, hbody⟩ := (Assign.parse_ok hts as).mp h
    have has := hbody.readable (fun t ht => Token.tokenize_names hts t (by simp [ht]))
      (fun t ht => Token.tokenize_marks hts t (by simp [ht]))
    obtain ⟨us, hus, hread⟩ := reads_assigns has 0
    rw [Text.bytes_join, List.flatMap_map]
    exact (Assign.parse_ok hread.tokenize _).mpr ⟨us, ⟨⟨_, _, _⟩, rfl⟩, rfl, hus⟩

/-- The least word and other negative literals, next to a sign and behind an operator. -/
theorem text_read_back_least :
    (∃ e, Expr.parse (Text.ascii "-0x80000000 - ~4294967295 * k") = .ok e ∧
      e = .binary .sub (.unary .neg (.number (-2147483648)))
        (.binary .mul (.unary .compl (.number (-1))) (.ident "k")) ∧
      e.text = "((--2147483648) - ((~-1) * k))" ∧
      Expr.parse (Text.bytes e.text) = .ok (.binary .sub
        (.unary .neg (.unary .neg (.number (-2147483648))))
        (.binary .mul (.unary .compl (.unary .neg (.number 1))) (.ident "k")))) ∧
    ∃ as, Assign.parse (Text.ascii "int x >>>= 4294967295;; int = x") = .ok as ∧
      as = [⟨true, "x", some .ushr, .number (-1)⟩, ⟨false, "int", none, .ident "x"⟩] ∧
      Assign.parse (Text.bytes (String.join (as.map Assign.text))) =
        .ok [⟨true, "x", some .ushr, .unary .neg (.number 1)⟩,
          ⟨false, "int", none, .ident "x"⟩] := by
  constructor
  · obtain ⟨e, he, heq⟩ := Outcome.exists_ok (Expr.parse (Text.ascii
      "-0x80000000 - ~4294967295 * k")) (· == .binary .sub (.unary .neg (.number (-2147483648)))
        (.binary .mul (.unary .compl (.number (-1))) (.ident "k"))) (by decide +kernel)
    have hback := (text_read_back.1 _ e he).1
    rw [beq_iff_eq] at heq
    subst heq
    exact ⟨_, he, rfl, by decide +kernel, hback⟩
  · obtain ⟨as, has, heq⟩ := Outcome.exists_ok (Assign.parse (Text.ascii
      "int x >>>= 4294967295;; int = x")) (· == [⟨true, "x", some .ushr, .number (-1)⟩,
        ⟨false, "int", none, .ident "x"⟩]) (by decide +kernel)
    have hback := (text_read_back.2 _ as has).1
    rw [beq_iff_eq] at heq
    subst heq
    exact ⟨_, has, rfl, hback⟩

end TiledAutomata
