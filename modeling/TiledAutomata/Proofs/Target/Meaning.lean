import TiledAutomata.Proofs.Target.Folded
import TiledAutomata.Proofs.Target.Phrase

/-!
# What a wording means

On a machine on which the words of a dialect mean the operators of words, the phrase of
every folded expression has the value of the expression.
-/

namespace TiledAutomata.Target

structure Setting (V : Type) where
  machine : Machine V
  calls : Calls V
  scope : Scope V

namespace Setting

variable {V : Type} (s : Setting V)

def value (t : Term) : Option V := s.machine.eval s.calls s.scope t

def eval (p : Phrase) : Option V := s.value p.term

theorem eval_call (f : String) (ps : List Phrase) (vs : List V) (h : ps.mapM s.eval = some vs) :
    s.eval (.call f ps) = s.calls f [] vs := by
  have hall : s.machine.evalAll s.calls s.scope (.ofList (ps.map Phrase.term)) = some vs := by
    induction ps generalizing vs with
    | nil =>
      cases h
      rfl
    | cons p ps ih =>
      simp only [List.mapM_cons, Option.bind_eq_bind, Option.bind_eq_some_iff, Option.pure_def,
        Option.some.injEq] at h
      obtain ⟨v, hv, us, hus, rfl⟩ := h
      have hp : s.machine.eval s.calls s.scope p.term = some v := hv
      simp [Terms.ofList, Machine.evalAll, hp, ih us hus]
  simp [eval, value, Phrase.call, Machine.eval, hall]

theorem eval_binary {op : String} (ho : settling? op = none) (p q : Phrase) {x y : V}
    (hp : s.eval p = some x) (hq : s.eval q = some y) :
    s.eval (.binary op p q) = s.machine.binary op x y := by
  have hp : s.machine.eval s.calls s.scope p.term = some x := hp
  have hq : s.machine.eval s.calls s.scope q.term = some y := hq
  simp [eval, value, Phrase.binary, Machine.eval, ho, hp, hq]

end Setting

/-- The words of a dialect mean the operators of words, where values say words; a literal may say
its word in another way than what is computed. -/
structure Wording.Means {V : Type} (w : Wording) (s : Setting V) (Says : Bool → V → Word → Prop)
    (vars : Vars) (input : Words) : Prop where
  literal : ∀ a, ∃ v, s.eval (w.literal a) = some v ∧ Says true v a
  ident : ∀ x, ∃ v, s.eval (w.ident x) = some v ∧ Says false v (vars x)
  inputLength : ∃ v, s.eval w.inputLength = some v ∧ Says false v (Int32.ofNat input.size)
  input : ∀ p x a k, s.eval p = some x → Says k x a →
    ∃ v, s.eval (w.input p) = some v ∧ Says false v (input.cyclic a)
  truth : ∀ b, s.machine.truth (s.machine.bool b) = some b
  zero : ∃ z, s.eval (.number w.zero) = some z ∧ ∀ x a k, Says k x a →
    s.machine.binary "!=" x z = some (s.machine.bool (a != 0)) ∧
      s.machine.binary "==" x z = some (s.machine.bool (a == 0))
  call : ∀ b, ∃ v, s.calls w.truth [] [s.machine.bool b] = some v ∧ Says false v (Word.ofBool b)
  neg : ∀ x a, Says false x a → ∃ v, s.machine.unary "-" x = some v ∧ Says false v (-a)
  compl : ∀ x a, Says false x a →
    ∃ v, s.machine.unary w.complement x = some v ∧ Says false v (~~~a)
  between : ∀ o : BinaryOp, Dialect.helper? o = none → Dialect.isLogical o = false →
    ∀ x y a b j k, Says j x a → Says k y b → (j && k) = false →
      if Dialect.isComparison o then
        ∃ c, s.machine.binary o.text x y = some (s.machine.bool c) ∧
          Word.ofBool c = o.apply a b
      else ∃ v, s.machine.binary o.text x y = some v ∧ Says false v (o.apply a b)
  helper : ∀ o h, Dialect.helper? o = some h → ∀ x y a b j k, Says j x a → Says k y b →
    ∃ v, s.calls (w.helper h) [] [x, y] = some v ∧ Says false v (o.apply a b)
  cond : ∀ c p q b x y a d j k, s.eval c = some (s.machine.bool b) → s.eval p = some x →
    Says j x a → s.eval q = some y → Says k y d →
      ∃ v, s.eval (w.cond c p q) = some v ∧ Says false v (if b then a else d)

namespace Wording.Means

variable {V : Type} {w : Wording} {s : Setting V} {Says : Bool → V → Word → Prop} {vars : Vars}
  {input : Words} (h : w.Means s Says vars input)

include h

theorem eval_holds {p : Phrase} {x : V} {a : Word} {k : Bool} (hp : s.eval p = some x)
    (hx : Says k x a) : s.eval (w.holds p) = some (s.machine.bool (a != 0)) := by
  obtain ⟨z, hz, hcompare⟩ := h.zero
  rw [Wording.holds, s.eval_binary rfl p _ hp hz]
  exact (hcompare x a k hx).1

theorem eval_truth {p : Phrase} {b : Bool} (hp : s.eval p = some (s.machine.bool b)) :
    ∃ v, s.eval (.call w.truth [p]) = some v ∧ Says false v (Word.ofBool b) := by
  rw [s.eval_call w.truth [p] [s.machine.bool b] (by simp [hp])]
  exact h.call b

theorem eval_logical {o : BinaryOp} (ho : Dialect.isLogical o = true) {p q : Phrase} {a b : Bool}
    (hp : s.eval p = some (s.machine.bool a)) (hq : s.eval q = some (s.machine.bool b)) :
    s.eval (.binary o.text p q) =
      some (s.machine.bool (if o = .andAlso then a && b else a || b)) := by
  cases o with
  | andAlso => exact Machine.eval_and h.truth hp hq
  | orElse => exact Machine.eval_or h.truth hp hq
  | _ => cases ho

theorem eval_unary (o : UnaryOp) {p : Phrase} {x : V} {a : Word} (hp : s.eval p = some x)
    (hx : Says false x a) :
    ∃ v, s.eval (w.unary o p) = some v ∧ Says false v (o.apply a) := by
  have heval : s.machine.eval s.calls s.scope p.term = some x := hp
  cases o with
  | neg =>
    obtain ⟨v, hv, hsays⟩ := h.neg x a hx
    exact ⟨v, by simp [Setting.eval, Setting.value, Wording.unary, Phrase.group, Phrase.unary,
      Machine.eval, heval, hv], hsays⟩
  | compl =>
    obtain ⟨v, hv, hsays⟩ := h.compl x a hx
    exact ⟨v, by simp [Setting.eval, Setting.value, Wording.unary, Phrase.group, Phrase.unary,
      Machine.eval, heval, hv], hsays⟩
  | not =>
    obtain ⟨z, hz, hcompare⟩ := h.zero
    apply h.eval_truth
    rw [s.eval_binary rfl p _ hp hz]
    exact (hcompare x a false hx).2
  | plus => exact ⟨x, hp, hx⟩

theorem eval_binary (o : BinaryOp) {p q : Phrase} {x y : V} {a b : Word} {j k : Bool}
    (hp : s.eval p = some x) (hx : Says j x a) (hq : s.eval q = some y) (hy : Says k y b)
    (hjk : (j && k) = false) :
    ∃ v, s.eval (w.binary o p q) = some v ∧ Says false v (o.apply a b) := by
  unfold Wording.binary
  split
  · next f hf =>
    rw [s.eval_call _ [p, q] [x, y] (by simp [hp, hq])]
    exact h.helper o f hf x y a b j k hx hy
  · next hf =>
    by_cases hl : Dialect.isLogical o = true
    · have hc : Dialect.isComparison o = false := by
        cases o <;> first | rfl | cases hl
      have hvalue : Word.ofBool (if o = .andAlso then a != 0 && b != 0 else a != 0 || b != 0) =
          o.apply a b := by
        cases o <;> first | rfl | cases hl
      rw [hc, if_neg Bool.false_ne_true, if_pos hl, ← hvalue]
      exact h.eval_truth (h.eval_logical hl (h.eval_holds hp hx) (h.eval_holds hq hy))
    · have hbetween := h.between o hf (Bool.not_eq_true _ ▸ hl) x y a b j k hx hy hjk
      have hset : settling? o.text = none := by
        cases o <;> first | rfl | exact absurd rfl hl
      have heval := s.eval_binary hset p q hp hq
      by_cases hc : Dialect.isComparison o = true
      · rw [if_pos hc] at hbetween ⊢
        obtain ⟨c, hc, hvalue⟩ := hbetween
        rw [← hvalue]
        exact h.eval_truth (heval.trans hc)
      · rw [if_neg hc] at hbetween ⊢
        obtain ⟨v, hv, hsays⟩ := hbetween
        rw [if_neg hl]
        exact ⟨v, heval.trans hv, hsays⟩

theorem phrase {e : Expr} (he : e.Folded) :
    ∃ v, s.eval (w.phrase e) = some v ∧ Says e.isNumber v (e.eval vars input) := by
  induction he with
  | number v => exact h.literal v
  | ident x => exact h.ident x
  | inputLength => exact h.inputLength
  | input _ ih =>
    obtain ⟨v, hv, hsays⟩ := ih
    exact h.input _ _ _ _ hv hsays
  | unary o _ hn ih =>
    obtain ⟨v, hv, hsays⟩ := ih
    rw [hn] at hsays
    exact h.eval_unary o hv hsays
  | binary o _ _ hn ihx ihy =>
    obtain ⟨x, hx, hxs⟩ := ihx
    obtain ⟨y, hy, hys⟩ := ihy
    exact h.eval_binary o hx hxs hy hys hn
  | cond _ _ _ _ ihc iht ihe =>
    obtain ⟨c, hc, hcs⟩ := ihc
    obtain ⟨t, ht, hts⟩ := iht
    obtain ⟨e, he, hes⟩ := ihe
    exact h.cond _ _ _ _ _ _ _ _ _ _ (h.eval_holds hc hcs) ht hts he hes

end Wording.Means

end TiledAutomata.Target
