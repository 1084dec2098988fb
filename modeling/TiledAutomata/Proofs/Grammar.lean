import Mathlib.Logic.Basic
import TiledAutomata.Expr.Parse

/-!
# The grammar of expressions

Derivations of the stratified grammar: a conditional stands over ten levels of binary
operators, each left associative, these over signs, and signs over literals, names,
input cells and brackets. A derivation yields tokens and builds a tree. No two
derivations yield the same tokens, also when other tokens follow that continue neither.
-/

open List

namespace TiledAutomata

namespace UnaryOp

theorem ofText?_eq_some {s : String} {o : UnaryOp} : ofText? s = some o ↔ s = o.text := by
  constructor
  · intro h
    unfold ofText? at h
    have hs := List.find?_some h
    exact (beq_iff_eq.mp hs).symm
  · intro h
    subst h
    cases o <;> decide

end UnaryOp

namespace BinaryOp

theorem ofText?_eq_some {s : String} {o : BinaryOp} : ofText? s = some o ↔ s = o.text := by
  constructor
  · intro h
    unfold ofText? at h
    have hs := List.find?_some h
    exact (beq_iff_eq.mp hs).symm
  · intro h
    subst h
    cases o <;> decide

theorem level_pos (o : BinaryOp) : 1 ≤ o.level := by
  cases o <;> decide

theorem level_le (o : BinaryOp) : o.level ≤ 10 := by
  cases o <;> decide

end BinaryOp

namespace Grammar

/-- What the productions define. The binary levels run from 1 to 10; what stands at level 11
has no binary operator outside brackets. -/
inductive Symbol where
  | expr
  | bin (level : Nat)
  | unary
  | primary

def Spells (t : Token) (s : String) : Prop := t.kind = .op ∧ t.text = s

abbrev Mark (k : Token.Kind) := { t : Token // t.kind = k }

abbrev Named (x : String) := { t : Token // t.kind = .ident ∧ t.text = x }

abbrev Variable :=
  { t : Token // t.kind = .ident ∧ t.text ≠ Expr.inputLengthName ∧ t.text ≠ Expr.inputName }

structure Literal where
  token : Token
  value : Nat
  isNumber : token.kind = .number
  read : Text.Numeral.word32 token.text = .ok value

structure Sign where
  token : Token
  op : UnaryOp
  spelled : Spells token op.text

structure Joint (p : Nat) where
  token : Token
  op : BinaryOp
  level : op.level = p
  spelled : Spells token op.text

/-- One constructor for each production. -/
inductive Derivation : Symbol → Type where
  | plain (c : Derivation (.bin 1)) : Derivation .expr
  | cond (c : Derivation (.bin 1)) (q : Mark .question) (y : Derivation .expr)
      (k : Mark .colon) (n : Derivation .expr) : Derivation .expr
  | tighter {p : Nat} (hp : p ≤ 10) (x : Derivation (.bin (p + 1))) : Derivation (.bin p)
  | chain {p : Nat} (x : Derivation (.bin p)) (o : Joint p) (y : Derivation (.bin (p + 1))) :
      Derivation (.bin p)
  | unaries (x : Derivation .unary) : Derivation (.bin 11)
  | sign (o : Sign) (x : Derivation .unary) : Derivation .unary
  | operand (x : Derivation .primary) : Derivation .unary
  | number (n : Literal) : Derivation .primary
  | ident (x : Variable) : Derivation .primary
  | inputLength (x : Named Expr.inputLengthName) : Derivation .primary
  | input (x : Named Expr.inputName) (l : Mark .lbracket) (i : Derivation .expr)
      (r : Mark .rbracket) : Derivation .primary
  | group (l : Mark .lparen) (e : Derivation .expr) (r : Mark .rparen) : Derivation .primary

namespace Derivation

def yield : {σ : Symbol} → Derivation σ → List Token
  | _, .plain c => c.yield
  | _, .cond c q y k n => c.yield ++ q.1 :: (y.yield ++ k.1 :: n.yield)
  | _, .tighter _ x => x.yield
  | _, .chain x o y => x.yield ++ o.token :: y.yield
  | _, .unaries x => x.yield
  | _, .sign o x => o.token :: x.yield
  | _, .operand x => x.yield
  | _, .number n => [n.token]
  | _, .ident x => [x.1]
  | _, .inputLength x => [x.1]
  | _, .input x l i r => x.1 :: l.1 :: (i.yield ++ [r.1])
  | _, .group l e r => l.1 :: (e.yield ++ [r.1])

def expr : {σ : Symbol} → Derivation σ → Expr
  | _, .plain c => c.expr
  | _, .cond c _ y _ n => .cond c.expr y.expr n.expr
  | _, .tighter _ x => x.expr
  | _, .chain x o y => .binary o.op x.expr y.expr
  | _, .unaries x => x.expr
  | _, .sign o x => .unary o.op x.expr
  | _, .operand x => x.expr
  | _, .number n => .number (UInt32.ofNat n.value).toInt32
  | _, .ident x => .ident x.1.text
  | _, .inputLength _ => .inputLength
  | _, .input _ _ i _ => .input i.expr
  | _, .group _ e _ => e.expr

end Derivation

/-! ## A token belongs to one terminal -/

theorem Spells.op_unique {t : Token} {o o' : BinaryOp} (h : Spells t o.text)
    (h' : Spells t o'.text) : o = o' := by
  have hs := BinaryOp.ofText?_eq_some.mpr h.2
  have hs' := BinaryOp.ofText?_eq_some.mpr h'.2
  simpa [hs] using hs'

theorem Sign.eq_of_token {a b : Sign} (h : a.token = b.token) : a = b := by
  cases a with
  | mk t o ho =>
  cases b with
  | mk t' o' ho' =>
  cases h
  have hs := UnaryOp.ofText?_eq_some.mpr ho.2
  have hs' := UnaryOp.ofText?_eq_some.mpr ho'.2
  cases hs.symm.trans hs'
  rfl

theorem Joint.eq_of_token {p : Nat} {a b : Joint p} (h : a.token = b.token) : a = b := by
  cases a with
  | mk t o _ ho =>
  cases b with
  | mk t' o' _ ho' =>
  cases h
  cases ho.op_unique ho'
  rfl

theorem Literal.eq_of_token {a b : Literal} (h : a.token = b.token) : a = b := by
  cases a with
  | mk t n _ hn =>
  cases b with
  | mk t' n' _ hn' =>
  cases h
  cases hn.symm.trans hn'
  rfl

/-- No operator stands at the level of signs. -/
theorem Joint.elim (o : Joint 11) : False := by
  have hle := o.op.level_le
  rw [o.level] at hle
  exact absurd hle (by decide)

/-! ## Chains of one level

A derivation at a level is an operand of the next level with operators and operands of
that level behind it.
-/

structure Link (p : Nat) where
  joint : Joint p
  operand : Derivation (.bin (p + 1))

namespace Link

variable {p : Nat}

def yield (l : Link p) : List Token := l.joint.token :: l.operand.yield

def yields (ls : List (Link p)) : List Token := ls.flatMap yield

@[simp] theorem yields_nil : yields ([] : List (Link p)) = [] := rfl

@[simp] theorem yields_cons (l : Link p) (ls : List (Link p)) :
    yields (l :: ls) = l.joint.token :: (l.operand.yield ++ yields ls) := by
  simp [yields, yield]

end Link

namespace Derivation

variable {p : Nat}

def grow (x : Derivation (.bin p)) : List (Link p) → Derivation (.bin p)
  | [] => x
  | l :: ls => (chain x l.joint l.operand).grow ls

theorem grow_append (x : Derivation (.bin p)) (ls ms : List (Link p)) :
    x.grow (ls ++ ms) = (x.grow ls).grow ms := by
  induction ls generalizing x with
  | nil => rfl
  | cons l ls ih => exact ih _

theorem yield_grow (x : Derivation (.bin p)) (ls : List (Link p)) :
    (x.grow ls).yield = x.yield ++ Link.yields ls := by
  induction ls generalizing x with
  | nil => simp [grow]
  | cons l ls ih => simp [grow, ih, yield]

theorem exists_grow : {p : Nat} → (hp : p ≤ 10) → (d : Derivation (.bin p)) →
    ∃ x ls, d = (tighter hp x).grow ls
  | _, _, .tighter _ x => ⟨x, [], rfl⟩
  | _, hp, .chain x o y => by
    obtain ⟨x0, ls, hx⟩ := exists_grow hp x
    exact ⟨x0, ls ++ [⟨o, y⟩], by rw [grow_append, ← hx]; rfl⟩
  | _, hp, .unaries _ => absurd hp (by decide)

end Derivation

/-! ## Derivations are unique -/

/-- A token that a longer derivation could take after one of the symbol. -/
def Symbol.Continues : Symbol → Token → Prop
  | .expr, t => t.kind = .question ∨ ∃ o : BinaryOp, Spells t o.text
  | .bin p, t => ∃ o : BinaryOp, p ≤ o.level ∧ Spells t o.text
  | .unary, _ => False
  | .primary, _ => False

def Symbol.Ends (σ : Symbol) (r : List Token) : Prop := ∀ t ∈ r.head?, ¬σ.Continues t

namespace Symbol

theorem ends_cons {σ : Symbol} {t : Token} {r : List Token} :
    σ.Ends (t :: r) ↔ ¬σ.Continues t := by
  simp [Ends]

theorem Ends.bin {p : Nat} {r : List Token} (h : Symbol.expr.Ends r) : (Symbol.bin p).Ends r := by
  intro t ht hc
  obtain ⟨o, -, ho⟩ := hc
  exact h t ht (Or.inr ⟨o, ho⟩)

theorem Ends.mono {p q : Nat} {r : List Token} (h : (Symbol.bin p).Ends r) (hpq : p ≤ q) :
    (Symbol.bin q).Ends r := by
  intro t ht hc
  obtain ⟨o, hle, ho⟩ := hc
  exact h t ht ⟨o, Nat.le_trans hpq hle, ho⟩

theorem not_continues {σ : Symbol} {k : Token.Kind} (hk : k ≠ .op ∧ k ≠ .question)
    (m : Mark k) : ¬σ.Continues m.1 := by
  intro hc
  cases σ with
  | expr =>
    rcases hc with hc | ⟨_, hc⟩
    · exact hk.2 (m.2.symm.trans hc)
    · exact hk.1 (m.2.symm.trans hc.1)
  | bin p =>
    obtain ⟨_, _, hc⟩ := hc
    exact hk.1 (m.2.symm.trans hc.1)
  | unary | primary => exact hc

theorem ends_mark {σ : Symbol} {k : Token.Kind} (hk : k ≠ .op ∧ k ≠ .question) (m : Mark k)
    (r : List Token) : σ.Ends (m.1 :: r) :=
  ends_cons.mpr (not_continues hk m)

theorem bin_ends_question {p : Nat} (q : Mark .question) (r : List Token) :
    (Symbol.bin p).Ends (q.1 :: r) := by
  rw [ends_cons]
  rintro ⟨_, _, hc⟩
  have hop := hc.1
  rw [q.2] at hop
  cases hop

theorem ends_links {p : Nat} (ls : List (Link p)) {r : List Token} (h : (Symbol.bin p).Ends r) :
    (Symbol.bin (p + 1)).Ends (Link.yields ls ++ r) := by
  cases ls with
  | nil => exact h.mono (Nat.le_succ p)
  | cons l ls =>
    rw [Link.yields_cons, cons_append, ends_cons]
    rintro ⟨o, hle, ho⟩
    have hl := l.joint.level
    rw [ho.op_unique l.joint.spelled] at hle
    omega

end Symbol

/-- Where a derivation and another one of the same symbol yield beginnings of the same tokens,
and neither could go on, they are the same. -/
def Unambiguous {σ : Symbol} (d : Derivation σ) : Prop :=
  ∀ (d' : Derivation σ) (r r' : List Token), σ.Ends r → σ.Ends r' →
    d.yield ++ r = d'.yield ++ r' → d = d' ∧ r = r'

namespace Derivation

theorem links_unambiguous {p : Nat} {ls : List (Link p)} (hls : ∀ l ∈ ls, Unambiguous l.operand)
    {ms : List (Link p)} {r r' : List Token} (hr : (Symbol.bin p).Ends r)
    (hr' : (Symbol.bin p).Ends r') (h : Link.yields ls ++ r = Link.yields ms ++ r') :
    ls = ms ∧ r = r' := by
  have longer : ∀ (l : Link p) (s : List Token), ¬(Symbol.bin p).Ends (l.joint.token :: s) := by
    intro l s
    rw [Symbol.ends_cons, not_not]
    exact ⟨l.joint.op, Nat.le_of_eq l.joint.level.symm, l.joint.spelled⟩
  induction ls generalizing ms with
  | nil =>
    cases ms with
    | nil => exact ⟨rfl, h⟩
    | cons m ms =>
      simp only [Link.yields_nil, nil_append, Link.yields_cons, cons_append] at h
      subst h
      exact absurd hr (longer m _)
  | cons l ls ih =>
    cases ms with
    | nil =>
      simp only [Link.yields_nil, nil_append, Link.yields_cons, cons_append] at h
      subst h
      exact absurd hr' (longer l _)
    | cons m ms =>
      simp only [Link.yields_cons, cons_append, append_assoc, List.cons.injEq] at h
      obtain ⟨hop, hrest⟩ := h
      obtain ⟨hopd, htail⟩ := hls l (by simp) m.operand _ _ (Symbol.ends_links ls hr)
        (Symbol.ends_links ms hr') hrest
      obtain ⟨htl, hrr⟩ := ih (fun k hk => hls k (by simp [hk])) htail
      refine ⟨?_, hrr⟩
      cases l
      cases m
      cases Joint.eq_of_token hop
      cases hopd
      rw [htl]

theorem grow_unambiguous {p : Nat} (hp : p ≤ 10) {x : Derivation (.bin (p + 1))}
    (hx : Unambiguous x) {ls : List (Link p)} (hls : ∀ l ∈ ls, Unambiguous l.operand) :
    Unambiguous ((tighter hp x).grow ls) := by
  intro d' r r' hr hr' h
  obtain ⟨x', ms, rfl⟩ := exists_grow hp d'
  simp only [yield_grow, append_assoc] at h
  obtain ⟨hxx, htail⟩ := hx x' _ _ (Symbol.ends_links ls hr) (Symbol.ends_links ms hr') h
  obtain ⟨hll, hrr⟩ := links_unambiguous hls hr hr' htail
  exact ⟨by rw [hxx, hll], hrr⟩

theorem unaries_unambiguous {x : Derivation .unary} (hx : Unambiguous x) :
    Unambiguous (unaries x) := by
  intro d' r r' _ _ h
  cases d' with
  | tighter hp _ => exact absurd hp (by decide)
  | chain _ o _ => exact o.elim.elim
  | unaries x' =>
    obtain ⟨hxx, hrr⟩ := hx x' r r' (fun _ _ h => h) (fun _ _ h => h) h
    exact ⟨by rw [hxx], hrr⟩

theorem plain_unambiguous {c : Derivation (.bin 1)} (hc : Unambiguous c) :
    Unambiguous (plain c) := by
  intro d' r r' hr hr' h
  cases d' with
  | plain c' =>
    obtain ⟨hcc, hrr⟩ := hc c' r r' hr.bin hr'.bin h
    exact ⟨by rw [hcc], hrr⟩
  | cond c' q y k n =>
    simp only [yield, append_assoc, cons_append] at h
    obtain ⟨-, hrr⟩ := hc c' r _ hr.bin (Symbol.bin_ends_question q _) h
    subst hrr
    exact absurd (Or.inl q.2) (Symbol.ends_cons.mp hr)

theorem cond_unambiguous {c : Derivation (.bin 1)} {q : Mark .question} {y n : Derivation .expr}
    {k : Mark .colon} (hc : Unambiguous c) (hy : Unambiguous y) (hn : Unambiguous n) :
    Unambiguous (cond c q y k n) := by
  intro d' r r' hr hr' h
  have ends := @Symbol.ends_mark .expr .colon (by decide)
  cases d' with
  | plain c' =>
    simp only [yield, append_assoc, cons_append] at h
    obtain ⟨-, hrr⟩ := hc c' _ r' (Symbol.bin_ends_question q _) hr'.bin h
    subst hrr
    exact absurd (Or.inl q.2) (Symbol.ends_cons.mp hr')
  | cond c' q' y' k' n' =>
    simp only [yield, append_assoc, cons_append] at h
    obtain ⟨hcc, h⟩ := hc c' _ _ (Symbol.bin_ends_question q _) (Symbol.bin_ends_question q' _) h
    obtain ⟨hq, h⟩ := List.cons.inj h
    obtain ⟨hyy, h⟩ := hy y' _ _ (ends k _) (ends k' _) h
    obtain ⟨hk, h⟩ := List.cons.inj h
    obtain ⟨hnn, hrr⟩ := hn n' r r' hr hr' h
    exact ⟨by rw [hcc, Subtype.ext hq, hyy, Subtype.ext hk, hnn], hrr⟩

theorem primary_head : (d : Derivation .primary) → ∃ t ts, d.yield = t :: ts ∧ t.kind ≠ .op
  | .number n => ⟨_, _, rfl, by rw [n.isNumber]; decide⟩
  | .ident x => ⟨_, _, rfl, by rw [x.2.1]; decide⟩
  | .inputLength x => ⟨_, _, rfl, by rw [x.2.1]; decide⟩
  | .input x _ _ _ => ⟨_, _, rfl, by rw [x.2.1]; decide⟩
  | .group l _ _ => ⟨_, _, rfl, by rw [l.2]; decide⟩

theorem sign_unambiguous {o : Sign} {x : Derivation .unary} (hx : Unambiguous x) :
    Unambiguous (sign o x) := by
  intro d' r r' hr hr' h
  cases d' with
  | sign o' x' =>
    obtain ⟨ho, h⟩ := List.cons.inj h
    obtain ⟨hxx, hrr⟩ := hx x' r r' hr hr' h
    exact ⟨by rw [Sign.eq_of_token ho, hxx], hrr⟩
  | operand x' =>
    obtain ⟨t, ts, hts, hk⟩ := primary_head x'
    simp only [yield, hts, cons_append, List.cons.injEq] at h
    exact absurd (h.1 ▸ o.spelled.1) hk

theorem operand_unambiguous {x : Derivation .primary} (hx : Unambiguous x) :
    Unambiguous (operand x) := by
  intro d' r r' hr hr' h
  cases d' with
  | sign o' x' =>
    obtain ⟨t, ts, hts, hk⟩ := primary_head x
    simp only [yield, hts, cons_append, List.cons.injEq] at h
    exact absurd (h.1 ▸ o'.spelled.1) hk
  | operand x' =>
    obtain ⟨hxx, hrr⟩ := hx x' r r' hr hr' h
    exact ⟨by rw [hxx], hrr⟩

/-! The first token of a primary tells which production it comes from. -/

inductive Form where
  | number
  | ident
  | inputLength
  | input
  | group

def Form.ofToken (t : Token) : Form :=
  match t.kind with
  | .number => .number
  | .lparen => .group
  | _ =>
    if t.text = Expr.inputLengthName then .inputLength
    else if t.text = Expr.inputName then .input
    else .ident

def form : Derivation .primary → Form
  | .number _ => .number
  | .ident _ => .ident
  | .inputLength _ => .inputLength
  | .input _ _ _ _ => .input
  | .group _ _ _ => .group

theorem form_head (d : Derivation .primary) (r : List Token) :
    (d.yield ++ r).head?.map Form.ofToken = some d.form := by
  cases d with
  | number n => simp [yield, form, Form.ofToken, n.isNumber]
  | ident x => simp [yield, form, Form.ofToken, x.2]
  | inputLength x => simp [yield, form, Form.ofToken, x.2]
  | input x l i r => simp [yield, form, Form.ofToken, x.2, Expr.inputName, Expr.inputLengthName]
  | group l e r => simp [yield, form, Form.ofToken, l.2]

theorem form_unique {d d' : Derivation .primary} {r r' : List Token}
    (h : d.yield ++ r = d'.yield ++ r') : d.form = d'.form := by
  have hd := form_head d r
  rw [h, form_head d' r'] at hd
  exact (Option.some.inj hd).symm

theorem number_unambiguous (n : Literal) : Unambiguous (number n) := by
  intro d' r r' _ _ h
  have hf := form_unique h
  cases d' with
  | number n' =>
    obtain ⟨hn, hrr⟩ := List.cons.inj h
    exact ⟨by rw [Literal.eq_of_token hn], hrr⟩
  | _ => cases hf

theorem ident_unambiguous (x : Variable) : Unambiguous (ident x) := by
  intro d' r r' _ _ h
  have hf := form_unique h
  cases d' with
  | ident x' =>
    obtain ⟨hx, hrr⟩ := List.cons.inj h
    exact ⟨by rw [Subtype.ext hx], hrr⟩
  | _ => cases hf

theorem inputLength_unambiguous (x : Named Expr.inputLengthName) :
    Unambiguous (inputLength x) := by
  intro d' r r' _ _ h
  have hf := form_unique h
  cases d' with
  | inputLength x' =>
    obtain ⟨hx, hrr⟩ := List.cons.inj h
    exact ⟨by rw [Subtype.ext hx], hrr⟩
  | _ => cases hf

theorem input_unambiguous {x : Named Expr.inputName} {l : Mark .lbracket}
    {i : Derivation .expr} {b : Mark .rbracket} (hi : Unambiguous i) :
    Unambiguous (input x l i b) := by
  intro d' r r' _ _ h
  have hf := form_unique h
  have ends := @Symbol.ends_mark .expr .rbracket (by decide)
  cases d' with
  | input x' l' i' b' =>
    simp only [yield, cons_append, append_assoc, nil_append] at h
    obtain ⟨hx, h⟩ := List.cons.inj h
    obtain ⟨hl, h⟩ := List.cons.inj h
    obtain ⟨hii, h⟩ := hi i' _ _ (ends b _) (ends b' _) h
    obtain ⟨hb, hrr⟩ := List.cons.inj h
    exact ⟨by rw [Subtype.ext hx, Subtype.ext hl, hii, Subtype.ext hb], hrr⟩
  | _ => cases hf

theorem group_unambiguous {l : Mark .lparen} {e : Derivation .expr} {b : Mark .rparen}
    (he : Unambiguous e) : Unambiguous (group l e b) := by
  intro d' r r' _ _ h
  have hf := form_unique h
  have ends := @Symbol.ends_mark .expr .rparen (by decide)
  cases d' with
  | group l' e' b' =>
    simp only [yield, cons_append, append_assoc, nil_append] at h
    obtain ⟨hl, h⟩ := List.cons.inj h
    obtain ⟨hee, h⟩ := he e' _ _ (ends b _) (ends b' _) h
    obtain ⟨hb, hrr⟩ := List.cons.inj h
    exact ⟨by rw [Subtype.ext hl, hee, Subtype.ext hb], hrr⟩
  | _ => cases hf

/-- What the induction carries. At a binary level the left operand of a chain is followed by an
operator of its own level, so it is only settled together with all that follows on that level. -/
def Settled : {σ : Symbol} → Derivation σ → Prop
  | .bin p, d =>
    ∀ ls : List (Link p), (∀ l ∈ ls, Unambiguous l.operand) → Unambiguous (d.grow ls)
  | .expr, d => Unambiguous d
  | .unary, d => Unambiguous d
  | .primary, d => Unambiguous d

theorem Settled.bin {p : Nat} {d : Derivation (.bin p)} (h : Settled d) : Unambiguous d :=
  h [] (by simp)

theorem settled {σ : Symbol} (d : Derivation σ) : Settled d := by
  induction d with
  | plain c hc => exact plain_unambiguous hc.bin
  | cond c q y k n hc hy hn => exact cond_unambiguous hc.bin hy hn
  | tighter hp x hx =>
    intro ls hls
    exact grow_unambiguous hp hx.bin hls
  | chain x o y hx hy =>
    intro ls hls
    apply hx (⟨o, y⟩ :: ls)
    simp only [mem_cons, forall_eq_or_imp]
    exact ⟨hy.bin, hls⟩
  | unaries x hx =>
    intro ls _
    cases ls with
    | nil => exact unaries_unambiguous hx
    | cons l ls => exact l.joint.elim.elim
  | sign o x hx => exact sign_unambiguous hx
  | operand x hx => exact operand_unambiguous hx
  | number n => exact number_unambiguous n
  | ident x => exact ident_unambiguous x
  | inputLength x => exact inputLength_unambiguous x
  | input x l i b hi => exact input_unambiguous hi
  | group l e b he => exact group_unambiguous he

theorem unambiguous (d : Derivation .expr) : Unambiguous d := settled d

end Derivation

end Grammar

end TiledAutomata
