import TiledAutomata.Expr.Dialect
import TiledAutomata.Proofs.Evaluation
import TiledAutomata.Proofs.Target.Term

/-!
# Printed expressions as phrases

A phrase is a text, cut into pieces, with the term that it is meant to be. Both dialects
write the phrases of one scheme, each with its own words. What holds of the words of a
dialect, and is kept by the scheme, holds of every expression it writes; so neighbouring
pieces always stand apart, and no reader can take two of them for one.
-/

namespace TiledAutomata.Target

open List

variable {op : String}

/-! ## Numerals -/

theorem text_neg {v : Word} (h : v < 0) : v.text = "-" ++ toString v.toInt.natAbs := by
  obtain ⟨n, hn⟩ := Int.eq_negSucc_of_lt_zero (Int32.lt_iff_toInt_lt.mp h)
  apply String.toList_injective
  simp [Word.text, hn, toString, Int.repr]

theorem text_nonneg {v : Word} (h : ¬v < 0) : v.text = toString v.toInt.toNat := by
  have hle : 0 ≤ v.toInt := by simpa [Int32.lt_iff_toInt_lt] using h
  obtain ⟨n, hn⟩ := Int.eq_ofNat_of_zero_le hle
  simp [Word.text, hn, toString, Int.repr]

/-! ## Pieces and phrases -/

inductive Piece where
  | word (s : String)
  | number (s : String)
  | mark (s : String)
  | blank
  deriving DecidableEq

namespace Piece

def text : Piece → String
  | .word s => s
  | .number s => s
  | .mark s => s
  | .blank => " "

def texts (ps : List Piece) : String := ps.foldr (fun a s => a.text ++ s) ""

@[simp] theorem texts_nil : texts [] = "" := rfl

@[simp] theorem texts_cons (a : Piece) (ps : List Piece) : texts (a :: ps) = a.text ++ texts ps :=
  rfl

@[simp] theorem texts_append (ps qs : List Piece) : texts (ps ++ qs) = texts ps ++ texts qs := by
  induction ps with
  | nil => simp
  | cons a ps ih => simp [ih, String.append_assoc]

def brackets : List String := ["(", ")", "[", "]", ","]

def apart : Piece → Option Piece → Bool
  | .blank, _ => true
  | _, none => true
  | .word _, some .blank => true
  | .word _, some (.mark _) => true
  | .number _, some .blank => true
  | .number _, some (.mark m) => m != "."
  | .mark m, some (.word _) => m != ""
  | .mark m, some .blank => m != "."
  | .mark m, some (.number _) => m != "."
  | .mark m, some (.mark n) => brackets.contains m || (m != "." && n == "(")
  | _, _ => false

def Spaced : List Piece → Prop
  | [] => True
  | a :: ps => apart a ps.head? = true ∧ Spaced ps

end Piece

structure Phrase where
  pieces : List Piece
  term : Term

variable {p : Phrase}

namespace Phrase

open Piece

def text (p : Phrase) : String := texts p.pieces

def name (x : String) : Phrase := ⟨[.word x], .name x⟩

def number (s : String) : Phrase := ⟨[.number s], .literal s⟩

def group (p : Phrase) : Phrase := ⟨.mark "(" :: (p.pieces ++ [.mark ")"]), .group p.term⟩

def unary (op : String) (p : Phrase) : Phrase := ⟨.mark op :: p.pieces, .unary op p.term⟩

def binary (op : String) (p q : Phrase) : Phrase :=
  ⟨p.pieces ++ .blank :: .mark op :: .blank :: q.pieces, .binary op p.term q.term⟩

def listed : List Phrase → List Piece
  | [] => []
  | [p] => p.pieces
  | p :: q :: ps => p.pieces ++ .mark "," :: .blank :: listed (q :: ps)

def call (f : String) (ps : List Phrase) : Phrase :=
  ⟨.word f :: .mark "(" :: (listed ps ++ [.mark ")"]),
    .call f [] (.ofList (ps.map Phrase.term))⟩

end Phrase

/-- The words of a dialect, and those of its variables and its input. -/
structure Wording where
  literal : Word → Phrase
  zero : String
  complement : String
  truth : String
  helper : String → String
  cond : Phrase → Phrase → Phrase → Phrase
  ident : String → Phrase
  input : Phrase → Phrase
  inputLength : Phrase

namespace Wording

open Phrase

def holds (w : Wording) (p : Phrase) : Phrase := binary "!=" p (number w.zero)

def unary (w : Wording) : UnaryOp → Phrase → Phrase
  | .neg, p => group (.unary "-" p)
  | .compl, p => group (.unary w.complement p)
  | .not, p => call w.truth [.binary "==" p (number w.zero)]
  | .plus, p => p

def binary (w : Wording) (o : BinaryOp) (p q : Phrase) : Phrase :=
  match Dialect.helper? o with
  | some h => call (w.helper h) [p, q]
  | none =>
    if Dialect.isComparison o then call w.truth [.binary o.text p q]
    else if Dialect.isLogical o then call w.truth [.binary o.text (w.holds p) (w.holds q)]
    else group (.binary o.text p q)

def phrase (w : Wording) : Expr → Phrase
  | .number v => w.literal v
  | .ident x => w.ident x
  | .inputLength => w.inputLength
  | .input i => w.input (w.phrase i)
  | .unary o x => w.unary o (w.phrase x)
  | .binary o x y => w.binary o (w.phrase x) (w.phrase y)
  | .cond c t e => w.cond (w.holds (w.phrase c)) (w.phrase t) (w.phrase e)

structure Writes (w : Wording) (d : Dialect) (env : Dialect.Env) : Prop where
  literal : ∀ v, d.literal v = (w.literal v).text
  ident : ∀ x, env.ident x = (w.ident x).text
  inputLength : env.inputLength = w.inputLength.text
  input : ∀ p, env.input p.text = (w.input p).text
  unary : ∀ o p, d.unary o p.text = (w.unary o p).text
  binary : ∀ o p q, d.binary o p.text q.text = (w.binary o p q).text
  cond : ∀ c t e, d.cond c.text t.text e.text = (w.cond (w.holds c) t e).text

theorem Writes.render {w : Wording} {d : Dialect} {env : Dialect.Env} (h : w.Writes d env)
    (e : Expr) : e.render d env = (w.phrase e).text := by
  induction e with
  | number v => exact h.literal v
  | ident x => exact h.ident x
  | inputLength => exact h.inputLength
  | input i ih => rw [Expr.render, ih, h.input, phrase]
  | unary o x ih => rw [Expr.render, ih, h.unary, phrase]
  | binary o x y ihx ihy => rw [Expr.render, ihx, ihy, h.binary, phrase]
  | cond c t e ihc iht ihe => rw [Expr.render, ihc, iht, ihe, h.cond, phrase]

end Wording

/-! ## Formed phrases -/

structure Lexicon where
  word : String → Prop
  number : String → Prop
  signs : List String
  /-- Whether there are fields of elements. -/
  indexes : Prop

/-- Where a phrase may stand: on either side of an operator, before one, between commas, or alone
in brackets. Each place takes what the one before it takes. -/
inductive Rank where
  | operand
  | signed
  | test
  | inner

/-- The phrases of a language, with the places where they may stand. -/
inductive Formed (L : Lexicon) : Rank → Phrase → Prop where
  | number {s : String} (hs : L.number s) : Formed L .operand (.number s)
  | name {x : String} (hx : L.word x) : Formed L .operand (.name x)
  | field {x f : String} (hx : L.word x) (hf : L.word f) :
      Formed L .operand ⟨[.word x, .mark ".", .word f], .select (.name x) f⟩
  | element {x i f : String} (h : L.indexes) (hx : L.word x) (hi : L.word i) (hf : L.word f) :
      Formed L .operand ⟨[.word x, .mark "[", .word i, .mark "]", .mark ".", .word f],
        .select (.index (.name x) (.name i)) f⟩
  | group {p : Phrase} (h : Formed L .inner p) : Formed L .operand (.group p)
  | call {f : String} (ps : List Phrase) (q : Phrase) (hf : L.word f)
      (hps : ∀ p ∈ ps, Formed L .test p) (hq : Formed L .inner q) :
      Formed L .operand (.call f (ps ++ [q]))
  | signed {p : Phrase} (h : Formed L .operand p) : Formed L .signed p
  | unary {op : String} {p : Phrase} (ho : op ∈ L.signs) (hp : Formed L .operand p) :
      Formed L .signed (.unary op p)
  | test {p : Phrase} (h : Formed L .signed p) : Formed L .test p
  | equal {op : String} {p q : Phrase} (ho : op ∈ ["==", "!="]) (hp : Formed L .operand p)
      (hq : Formed L .operand q) : Formed L .test (.binary op p q)
  | inner {p : Phrase} (h : Formed L .test p) : Formed L .inner p
  | binary {p q : Phrase} (o : BinaryOp) (hh : Dialect.helper? o = none)
      (hl : Dialect.isLogical o = false) (hp : Formed L .signed p) (hq : Formed L .operand q) :
      Formed L .inner (.binary o.text p q)
  | logical {p q r t : Phrase} (o : BinaryOp) (ho : Dialect.isLogical o = true)
      (hp : Formed L .operand p) (hq : Formed L .operand q) (hr : Formed L .operand r)
      (ht : Formed L .operand t) :
      Formed L .inner (.binary o.text (.binary "!=" p q) (.binary "!=" r t))

variable {L : Lexicon}

theorem Formed.tested (h : Formed L .operand p) : Formed L .test p := .test (.signed h)

/-- A dialect writes phrases of a language. -/
structure Wording.Speaks (w : Wording) (L : Lexicon) : Prop where
  literal : ∀ v, Formed L .operand (w.literal v)
  ident : ∀ x, L.word x → Formed L .operand (w.ident x)
  inputLength : Formed L .operand w.inputLength
  input : ∀ p, Formed L .operand p → Formed L .operand (w.input p)
  zero : L.number w.zero
  signs : L.signs = ["-", w.complement]
  truth : L.word w.truth
  helper : ∀ o h, Dialect.helper? o = some h → L.word (w.helper h)
  cond : ∀ c t e, Formed L .test c → Formed L .operand t → Formed L .operand e →
    Formed L .operand (w.cond c t e)

theorem Wording.Speaks.phrase {w : Wording} (h : w.Speaks L) (e : Expr)
    (hn : ∀ x ∈ e.reads, L.word x) : Formed L .operand (w.phrase e) := by
  have hzero : Formed L .operand (.number w.zero) := .number h.zero
  have hsign : ∀ {op p}, op ∈ ["-", w.complement] → Formed L .operand p →
      Formed L .operand (.group (.unary op p)) := fun ho hp =>
    .group (.inner (.test (.unary (h.signs ▸ ho) hp)))
  have htruth : ∀ {p}, Formed L .inner p → Formed L .operand (.call w.truth [p]) := fun hp =>
    .call [] _ h.truth (by simp) hp
  induction e with
  | number v => exact h.literal v
  | inputLength => exact h.inputLength
  | ident x => exact h.ident x (hn x (by simp [Expr.reads_ident]))
  | input i ih =>
    rw [Expr.reads_input] at hn
    exact h.input _ (ih hn)
  | unary o x ih =>
    rw [Expr.reads_unary] at hn
    have hx := ih hn
    cases o with
    | neg => exact hsign (by simp) hx
    | compl => exact hsign (by simp) hx
    | not => exact htruth (.inner (.equal (by decide) hx hzero))
    | plus => exact hx
  | binary o x y ihx ihy =>
    simp only [Expr.reads_binary, mem_append] at hn
    have hx := ihx fun z hz => hn z (Or.inl hz)
    have hy := ihy fun z hz => hn z (Or.inr hz)
    simp only [Wording.phrase, Wording.binary]
    split
    · next f hf => exact .call [_] _ (h.helper o f hf) (by simpa using hx.tested) (.inner hy.tested)
    · next hf =>
      by_cases hl : Dialect.isLogical o = true
      · have hc : Dialect.isComparison o = false := by
          cases o <;> first | rfl | cases hl
        rw [hc, if_neg Bool.false_ne_true, if_pos hl]
        exact htruth (.logical o hl hx hzero hy hzero)
      · have hb := Formed.binary o hf (Bool.not_eq_true _ ▸ hl) hx.signed hy
        split
        · exact htruth hb
        · exact .group hb
  | cond c t e ihc iht ihe =>
    simp only [Expr.reads_cond, mem_append] at hn
    apply h.cond
    · exact .equal (by decide) (ihc fun z hz => hn z (Or.inl (Or.inl hz))) hzero
    · exact iht fun z hz => hn z (Or.inl (Or.inr hz))
    · exact ihe fun z hz => hn z (Or.inr hz)

/-! ## Neighbours stand apart -/

namespace Piece

def closes : Option Piece → Bool
  | none => true
  | some .blank => true
  | some (.mark m) => m == ")" || m == ","
  | _ => false

def opens : Option Piece → Bool
  | some (.word _) => true
  | some (.number _) => true
  | some (.mark m) => m == "("
  | _ => false

theorem apart_bracket {m : String} (h : m ∈ brackets) (next : Option Piece) :
    apart (.mark m) next = true := by
  simp only [brackets, mem_cons, not_mem_nil, or_false] at h
  rcases h with rfl | rfl | rfl | rfl | rfl <;>
    rcases next with _ | _ | _ | _ | _ <;> simp [apart, brackets]

theorem apart_operator {m : String} {next : Option Piece} (hm : m ≠ "") (hd : m ≠ ".")
    (h : opens next = true) : apart (.mark m) next = true := by
  rcases next with _ | _ | _ | _ | _ <;> simp_all [opens, apart]

end Piece

namespace Phrase

open Piece

/-- A phrase keeps its pieces apart, and itself from what may follow it. -/
def Flows (p : Phrase) : Prop :=
  ∀ rest, closes rest.head? = true → Spaced rest → Spaced (p.pieces ++ rest)

structure Stands (p : Phrase) : Prop where
  flows : p.Flows
  opens : opens p.pieces.head? = true

theorem Stands.head (h : p.Stands) (rest : List Piece) :
    Piece.opens (p.pieces ++ rest).head? = true := by
  have ho := h.opens
  cases hp : p.pieces with
  | nil =>
    rw [hp] at ho
    cases ho
  | cons a ps =>
    rw [hp] at ho
    exact ho

theorem stands_name (x : String) : (name x).Stands := by
  refine ⟨?_, rfl⟩
  intro rest hc hs
  refine ⟨?_, hs⟩
  match rest, hc with
  | [], _ => rfl
  | .blank :: _, _ => rfl
  | .mark _ :: _, _ => rfl

theorem stands_number (s : String) : (number s).Stands := by
  refine ⟨?_, rfl⟩
  intro rest hc hs
  refine ⟨?_, hs⟩
  match rest, hc with
  | [], _ => rfl
  | .blank :: _, _ => rfl
  | .mark m :: _, hc =>
    simp only [closes, head?_cons, Bool.or_eq_true, beq_iff_eq] at hc
    rcases hc with rfl | rfl <;> rfl

theorem flows_unary (ho : op ≠ "") (hd : op ≠ ".") (hp : p.Stands) : (unary op p).Flows := by
  intro rest hc hs
  exact ⟨apart_operator ho hd (hp.head rest), hp.flows rest hc hs⟩

theorem flows_binary (hd : op ≠ ".") {q : Phrase} (hp : p.Flows) (hq : q.Flows) :
    (binary op p q).Flows := by
  intro rest hc hs
  simp only [binary, append_assoc, cons_append]
  apply hp _ rfl
  exact ⟨rfl, by simp [apart, hd], rfl, hq rest hc hs⟩

theorem stands_group (hp : p.Flows) : (group p).Stands := by
  refine ⟨?_, rfl⟩
  intro rest _ hs
  simp only [group, cons_append, append_assoc, nil_append]
  refine ⟨apart_bracket (by decide) _, hp _ rfl ⟨apart_bracket (by decide) _, hs⟩⟩

theorem listed_flows {ps : List Phrase} (h : ∀ p ∈ ps, p.Flows) {rest : List Piece}
    (hc : closes rest.head? = true) (hs : Spaced rest) : Spaced (listed ps ++ rest) := by
  match ps with
  | [] => exact hs
  | [p] => exact h p (by simp) rest hc hs
  | p :: q :: ps =>
    have htail : Spaced (listed (q :: ps) ++ rest) :=
      listed_flows (fun r hr => h r (mem_cons_of_mem p hr)) hc hs
    simp only [listed, append_assoc, cons_append]
    exact h p (by simp) _ rfl ⟨apart_bracket (by decide) _, rfl, htail⟩

theorem stands_call (f : String) {ps : List Phrase} (h : ∀ p ∈ ps, p.Flows) :
    (call f ps).Stands := by
  refine ⟨?_, rfl⟩
  intro rest _ hs
  simp only [call, cons_append, append_assoc, nil_append]
  have hclosed : Spaced (.mark ")" :: rest) := ⟨apart_bracket (by decide) _, hs⟩
  exact ⟨rfl, apart_bracket (by decide) _, listed_flows h rfl hclosed⟩

end Phrase

/-! ## What every printed expression has -/

namespace Phrase

def Consists (P : Piece → Prop) (p : Phrase) : Prop := ∀ a ∈ p.pieces, P a

section Consists

variable {P : Piece → Prop}

theorem consists_binary {q : Phrase} (hb : P .blank) (ho : P (.mark op)) (hp : p.Consists P)
    (hq : q.Consists P) : (binary op p q).Consists P := by
  intro a ha
  simp only [binary, mem_append, mem_cons] at ha
  rcases ha with ha | rfl | rfl | rfl | ha
  · exact hp a ha
  · exact hb
  · exact ho
  · exact hb
  · exact hq a ha

theorem consists_group (hm : ∀ m ∈ Piece.brackets, P (.mark m)) (hp : p.Consists P) :
    (group p).Consists P := by
  intro a ha
  simp only [group, mem_append, mem_cons, not_mem_nil, or_false] at ha
  rcases ha with rfl | ha | rfl
  · exact hm "(" (by decide)
  · exact hp a ha
  · exact hm ")" (by decide)

theorem consists_listed {ps : List Phrase} (hb : P .blank) (hc : P (.mark ","))
    (hps : ∀ p ∈ ps, p.Consists P) : ∀ a ∈ listed ps, P a := by
  match ps with
  | [] => simp [listed]
  | [p] => exact hps p (by simp)
  | p :: q :: ps =>
    have hrest : ∀ a ∈ listed (q :: ps), P a :=
      consists_listed hb hc fun r hr => hps r (mem_cons_of_mem p hr)
    intro a ha
    simp only [listed, mem_append, mem_cons] at ha
    rcases ha with ha | rfl | rfl | ha
    · exact hps p (by simp) a ha
    · exact hc
    · exact hb
    · exact hrest a ha

theorem consists_call {f : String} {ps : List Phrase} (hb : P .blank)
    (hm : ∀ m ∈ Piece.brackets, P (.mark m)) (hf : P (.word f))
    (hps : ∀ p ∈ ps, p.Consists P) : (call f ps).Consists P := by
  intro a ha
  simp only [call, mem_append, mem_cons, not_mem_nil, or_false] at ha
  rcases ha with rfl | rfl | ha | rfl
  · exact hf
  · exact hm "(" (by decide)
  · exact consists_listed hb (hm "," (by decide)) hps a ha
  · exact hm ")" (by decide)

end Consists

end Phrase

open Phrase

theorem Formed.flows {r : Rank} (h : Formed L r p)
    (hsigns : ∀ op ∈ L.signs, op ≠ "" ∧ op ≠ ".") : p.Flows ∧ (r = .operand → p.Stands) := by
  have hstands : ∀ {p : Phrase}, p.Stands → p.Flows ∧ (Rank.operand = .operand → p.Stands) :=
    fun h => ⟨h.flows, fun _ => h⟩
  have hpoint : ∀ o : BinaryOp, o.text ≠ "." := by
    intro o
    cases o <;> decide
  induction h with
  | number => exact hstands (stands_number _)
  | name => exact hstands (stands_name _)
  | @field x f =>
    have hf := (stands_name f).flows
    exact hstands ⟨fun rest hc hs => ⟨rfl, rfl, hf rest hc hs⟩, rfl⟩
  | @element x i f =>
    have hf := (stands_name f).flows
    exact hstands ⟨fun rest hc hs => ⟨rfl, rfl, rfl, rfl, rfl, hf rest hc hs⟩, rfl⟩
  | group _ ih => exact hstands (stands_group ih.1)
  | call ps q _ _ _ ihps ihq =>
    refine hstands (stands_call _ (forall_mem_append.mpr ⟨fun p hp => (ihps p hp).1, ?_⟩))
    exact forall_mem_singleton.mpr ihq.1
  | signed _ ih | test _ ih | inner _ ih => exact ⟨ih.1, nofun⟩
  | unary ho _ ih => exact ⟨flows_unary (hsigns _ ho).1 (hsigns _ ho).2 (ih.2 rfl), nofun⟩
  | equal ho _ _ ihp ihq =>
    refine ⟨flows_binary ?_ ihp.1 ihq.1, nofun⟩
    rintro rfl
    exact absurd ho (by decide)
  | binary o _ _ _ _ ihp ihq => exact ⟨flows_binary (hpoint o) ihp.1 ihq.1, nofun⟩
  | logical o _ _ _ _ _ ihp ihq ihr iht =>
    refine ⟨flows_binary (hpoint o) ?_ ?_, nofun⟩
    · exact flows_binary (by decide) ihp.1 ihq.1
    · exact flows_binary (by decide) ihr.1 iht.1

theorem Formed.consists {r : Rank} {P : Piece → Prop} (h : Formed L r p)
    (hword : ∀ s, L.word s → P (.word s)) (hnumber : ∀ s, L.number s → P (.number s))
    (hblank : P .blank) (hmark : ∀ m ∈ Piece.brackets, P (.mark m)) (hpoint : P (.mark "."))
    (hsign : ∀ m ∈ L.signs, P (.mark m))
    (hop : ∀ o, Dialect.helper? o = none → P (.mark o.text)) : p.Consists P := by
  induction h with
  | number hs => exact forall_mem_singleton.mpr (hnumber _ hs)
  | name hx => exact forall_mem_singleton.mpr (hword _ hx)
  | field hx hf => simp [Phrase.Consists, hword, hx, hf, hpoint]
  | element _ hx hi hf =>
    have hopen : P (.mark "[") := hmark _ (by decide)
    have hclose : P (.mark "]") := hmark _ (by decide)
    simp [Phrase.Consists, hword, hx, hi, hf, hpoint, hopen, hclose]
  | group _ ih => exact consists_group hmark ih
  | call ps q hf _ _ ihps ihq =>
    exact consists_call hblank hmark (hword _ hf)
      (forall_mem_append.mpr ⟨ihps, forall_mem_singleton.mpr ihq⟩)
  | signed _ ih | test _ ih | inner _ ih => exact ih
  | unary ho _ ih => exact forall_mem_cons.mpr ⟨hsign _ ho, ih⟩
  | equal ho _ _ ihp ihq =>
    simp only [mem_cons, not_mem_nil, or_false] at ho
    rcases ho with rfl | rfl
    · exact consists_binary hblank (hop .eq rfl) ihp ihq
    · exact consists_binary hblank (hop .ne rfl) ihp ihq
  | binary o hh _ _ _ ihp ihq => exact consists_binary hblank (hop o hh) ihp ihq
  | logical o ho _ _ _ _ ihp ihq ihr iht =>
    have hh : Dialect.helper? o = none := by cases o <;> first | rfl | cases ho
    refine consists_binary hblank (hop o hh) ?_ ?_
    · exact consists_binary hblank (hop .ne rfl) ihp ihq
    · exact consists_binary hblank (hop .ne rfl) ihr iht

end TiledAutomata.Target
