import TiledAutomata.Proofs.Grammar
import TiledAutomata.Proofs.Outcome
import TiledAutomata.Proofs.Partition

/-!
# The reader accepts exactly its grammar

A derivation drives the reader from the operand it waits for to the value it stands for,
on any stack. In the other direction every stack that the reader reaches is made of
derivations of the tokens taken so far, one step after another. Together they tell
which token lists are expressions and which are sequences of assignments.
-/

open List

namespace TiledAutomata

variable {e : Expr} {as : List Assign} {s : List Open} {ts us : List Token} {cs : List UInt8}
  {l p q : Nat} {src : Text.Bytes} {t : Token}

namespace Reader

open Grammar Outcome

/-! ## Closing operators -/

/-- What is on top of the stack stays open at an operator of the level: it is looser, or no
operator. -/
def Clear (p : Nat) : List Open → Prop
  | .unary _ :: _ => False
  | .binary _ o :: _ => o.level < p
  | _ => True

theorem Clear.mono (h : Clear p s) (hpq : p ≤ q) : Clear q s := by
  fun_cases Clear q s with
  | case1 => exact h
  | case2 => exact Nat.lt_of_lt_of_le h hpq
  | case3 => trivial

theorem reduce_of_clear (h : Clear l s) (e : Expr) : reduce l e s = (e, s) := by
  fun_cases reduce l e s with
  | case1 => exact h.elim
  | case2 _ _ o s hl => exact absurd hl (Nat.not_le_of_lt h)
  | case3 | case4 => rfl

theorem reduce_zero (e : Expr) (s : List Open) : reduce 0 e s = reduce 1 e s := by
  fun_induction reduce 0 e s with
  | case1 e o s ih => rw [ih, reduce]
  | case2 e x o s _ ih => rw [ih, reduce, if_pos o.level_pos]
  | case3 e x o s h => exact absurd (Nat.zero_le _) h
  | case4 e s hu hb => exact (reduce.eq_3 1 e s hu hb).symm

theorem close_reduce (t : Token) (l : Nat) (e : Expr) (s : List Open) :
    close t (reduce l e s).1 (reduce l e s).2 = close t e s := by
  fun_induction reduce l e s with
  | case1 e o s ih => rw [ih, close]
  | case2 e x o s _ ih => rw [ih, close]
  | case3 | case4 => rfl

/-! ## Steps on the tokens of the grammar -/

theorem run_take {s s' : State} (h : step s t = .take s') (ts : List Token) :
    run s (t :: ts) = run s' ts := by
  simp only [run, h]

theorem step_sign (o : Sign) (s : List Open) :
    step ⟨.operand, s⟩ o.token = .take ⟨.operand, .unary o.op :: s⟩ := by
  simp [step, operand, o.spelled.1, UnaryOp.ofText?_eq_some.mpr o.spelled.2]

theorem step_joint (o : Joint p) (e : Expr) (s : List Open) :
    step ⟨.value e, s⟩ o.token =
      .take ⟨.operand, .binary (reduce p e s).1 o.op :: (reduce p e s).2⟩ := by
  simp [step, value, o.spelled.1, BinaryOp.ofText?_eq_some.mpr o.spelled.2, o.level]

theorem step_question (q : Mark .question) (e : Expr) (s : List Open) :
    step ⟨.value e, s⟩ q.1 = .take ⟨.operand, .yes (reduce 1 e s).1 :: (reduce 1 e s).2⟩ := by
  simp [step, value, q.2, reduce_zero]

theorem step_close (h : ¬Symbol.expr.Continues t) (e : Expr) (s : List Open) :
    step ⟨.value e, s⟩ t = close t e s := by
  have hq : t.kind ≠ .question := fun hq => h (Or.inl hq)
  simp only [step, value]
  split
  · next hop =>
    split
    · next o ho => exact absurd (Or.inr ⟨o, hop, BinaryOp.ofText?_eq_some.mp ho⟩) h
    · rfl
  · next hk => exact absurd hk hq
  · rfl

theorem step_number (n : Literal) (s : List Open) :
    step ⟨.operand, s⟩ n.token =
      .take ⟨.value (.number (UInt32.ofNat n.value).toInt32), s⟩ := by
  simp [step, operand, n.isNumber, number, n.read]

theorem step_ident (x : Variable) (s : List Open) :
    step ⟨.operand, s⟩ x.1 = .take ⟨.value (.ident x.1.text), s⟩ := by
  simp [step, operand, x.2, name]

theorem step_inputLength (x : Named Expr.inputLengthName) (s : List Open) :
    step ⟨.operand, s⟩ x.1 = .take ⟨.value .inputLength, s⟩ := by
  simp [step, operand, x.2, name]

theorem step_input (x : Named Expr.inputName) (s : List Open) :
    step ⟨.operand, s⟩ x.1 = .take ⟨.bracket, s⟩ := by
  simp [step, operand, x.2, name, Expr.inputName, Expr.inputLengthName]

theorem step_lbracket (l : Mark .lbracket) (s : List Open) :
    step ⟨.bracket, s⟩ l.1 = .take ⟨.operand, .index :: s⟩ := by
  simp [step, l.2]

theorem step_lparen (l : Mark .lparen) (s : List Open) :
    step ⟨.operand, s⟩ l.1 = .take ⟨.operand, .group :: s⟩ := by
  simp [step, operand, l.2]

/-! ## A derivation drives the reader -/

/-- The stacks on which an operand of a symbol may be read. -/
def Room : Symbol → List Open → Prop
  | .expr, s => Clear 1 s
  | .bin p, s => Clear p s
  | .unary, _ => True
  | .primary, _ => True

/-- The levels of operators that close an operand of a symbol. -/
def Closes : Symbol → Nat → Prop
  | .expr, _ => False
  | .bin p, l => l ≤ p
  | .unary, _ => True
  | .primary, _ => True

/-- A value with open constructs before it counts as an expression once the next token closes
them. -/
structure Stands (σ : Symbol) (v : Expr) (frames : List Open) (e : Expr) : Prop where
  reduces : ∀ l s, Closes σ l → reduce l v (frames ++ s) = reduce l e s
  closes : ∀ t s, close t v (frames ++ s) = close t e s

/-- Reading the tokens of a derivation ends in a value that stands for its tree. -/
def Drives {σ : Symbol} (d : Derivation σ) : Prop :=
  ∀ s rest, Room σ s → ∃ v frames, run ⟨.operand, s⟩ (d.yield ++ rest) =
    run ⟨.value v, frames ++ s⟩ rest ∧ Stands σ v frames d.expr

theorem Stands.refl (σ : Symbol) (e : Expr) : Stands σ e [] e := ⟨fun _ _ _ => rfl, fun _ _ => rfl⟩

theorem drives_plain {c : Derivation (.bin 1)} (hc : Drives c) : Drives (.plain c) := by
  intro s rest hs
  obtain ⟨v, frames, hrun, hv⟩ := hc s rest hs
  exact ⟨v, frames, hrun, fun _ _ h => h.elim, hv.closes⟩

theorem drives_cond {c : Derivation (.bin 1)} {q : Mark .question} {y n : Derivation .expr}
    {k : Mark .colon} (hc : Drives c) (hy : Drives y) (hn : Drives n) :
    Drives (.cond c q y k n) := by
  intro s rest hs
  obtain ⟨v, frames, hrun, hv⟩ := hc s (q.1 :: (y.yield ++ k.1 :: (n.yield ++ rest))) hs
  obtain ⟨v', frames', hrun', hv'⟩ :=
    hy (.yes c.expr :: s) (k.1 :: (n.yield ++ rest)) (by trivial)
  obtain ⟨v'', frames'', hrun'', hv''⟩ := hn (.no c.expr y.expr :: s) rest (by trivial)
  have hk : step ⟨.value v', frames' ++ .yes c.expr :: s⟩ k.1 =
      .take ⟨.operand, .no c.expr y.expr :: s⟩ := by
    rw [step_close (Symbol.not_continues (by decide) k), hv'.closes, close, if_pos k.2]
  refine ⟨v'', frames'' ++ [.no c.expr y.expr], ?_, fun _ _ h => h.elim, ?_⟩
  · simp only [Derivation.yield, append_assoc, cons_append, nil_append]
    rw [hrun, run_take (step_question q _ _), hv.reduces 1 s (Nat.le_refl 1),
      reduce_of_clear hs, hrun', run_take hk, hrun'']
  · intro t s
    rw [append_assoc, hv''.closes]
    rfl

theorem drives_tighter (hp : p ≤ 10) {x : Derivation (.bin (p + 1))} (hx : Drives x) :
    Drives (.tighter hp x) := by
  intro s rest hs
  obtain ⟨v, frames, hrun, hv⟩ := hx s rest (hs.mono (Nat.le_succ p))
  exact ⟨v, frames, hrun, fun l s h => hv.reduces l s (Nat.le_succ_of_le h), hv.closes⟩

theorem drives_chain {x : Derivation (.bin p)} {o : Joint p} {y : Derivation (.bin (p + 1))}
    (hx : Drives x) (hy : Drives y) : Drives (.chain x o y) := by
  intro s rest hs
  obtain ⟨v, frames, hrun, hv⟩ := hx s (o.token :: (y.yield ++ rest)) hs
  have room : Clear (p + 1) (.binary x.expr o.op :: s) := by
    show o.op.level < p + 1
    rw [o.level]
    exact Nat.lt_succ_self p
  obtain ⟨v', frames', hrun', hv'⟩ := hy (.binary x.expr o.op :: s) rest room
  refine ⟨v', frames' ++ [.binary x.expr o.op], ?_, ?_, ?_⟩
  · simp only [Derivation.yield, append_assoc, cons_append, nil_append]
    rw [hrun, run_take (step_joint o _ _), hv.reduces p s (Nat.le_refl p), reduce_of_clear hs,
      hrun']
  · intro l s hl
    rw [append_assoc, hv'.reduces l _ (Nat.le_succ_of_le hl)]
    show reduce l y.expr (.binary x.expr o.op :: s) = _
    rw [reduce, if_pos (by rw [o.level]; exact hl)]
    rfl
  · intro t s
    rw [append_assoc, hv'.closes]
    rfl

theorem drives_sign {o : Sign} {x : Derivation .unary} (hx : Drives x) : Drives (.sign o x) := by
  intro s rest _
  obtain ⟨v, frames, hrun, hv⟩ := hx (.unary o.op :: s) rest trivial
  refine ⟨v, frames ++ [.unary o.op], ?_, ?_, ?_⟩
  · simp only [Derivation.yield, append_assoc, cons_append, nil_append]
    rw [run_take (step_sign o s), hrun]
  · intro l s _
    rw [append_assoc, hv.reduces l _ trivial]
    rfl
  · intro t s
    rw [append_assoc, hv.closes]
    rfl

theorem run_bracketed {i : Derivation .expr} (hi : Drives i) {b : Open} (hb : Clear 1 (b :: s))
    {k : Token.Kind} (hk : k ≠ .op ∧ k ≠ .question) (m : Mark k)
    (h : close m.1 i.expr (b :: s) = .take ⟨.value e, s⟩) (rest : List Token) :
    run ⟨.operand, b :: s⟩ (i.yield ++ m.1 :: rest) = run ⟨.value e, s⟩ rest := by
  obtain ⟨v, frames, hrun, hv⟩ := hi (b :: s) (m.1 :: rest) hb
  rw [hrun]
  apply run_take
  rw [step_close (Symbol.not_continues hk m), hv.closes, h]

theorem drives_input {x : Named Expr.inputName} {l : Mark .lbracket} {i : Derivation .expr}
    {b : Mark .rbracket} (hi : Drives i) : Drives (.input x l i b) := by
  intro s rest _
  refine ⟨.input i.expr, [], ?_, Stands.refl _ _⟩
  simp only [Derivation.yield, append_assoc, cons_append, nil_append]
  rw [run_take (step_input x s), run_take (step_lbracket l s)]
  exact run_bracketed hi (by trivial) (by decide) b (by rw [close, if_pos b.2]) rest

theorem drives_group {l : Mark .lparen} {e : Derivation .expr} {b : Mark .rparen}
    (he : Drives e) : Drives (.group l e b) := by
  intro s rest _
  refine ⟨e.expr, [], ?_, Stands.refl _ _⟩
  simp only [Derivation.yield, append_assoc, cons_append, nil_append]
  rw [run_take (step_lparen l s)]
  exact run_bracketed he (by trivial) (by decide) b (by rw [close, if_pos b.2]) rest

theorem drives {σ : Symbol} (d : Derivation σ) : Drives d := by
  induction d with
  | plain c hc => exact drives_plain hc
  | cond c q y k n hc hy hn => exact drives_cond hc hy hn
  | tighter hp x hx => exact drives_tighter hp hx
  | chain x o y hx hy => exact drives_chain hx hy
  | unaries x hx =>
    intro s rest _
    obtain ⟨v, frames, hrun, hv⟩ := hx s rest trivial
    exact ⟨v, frames, hrun, fun l s _ => hv.reduces l s trivial, hv.closes⟩
  | sign o x hx => exact drives_sign hx
  | operand x hx =>
    intro s rest hs
    obtain ⟨v, frames, hrun, hv⟩ := hx s rest hs
    exact ⟨v, frames, hrun, hv.reduces, hv.closes⟩
  | number n =>
    intro s rest _
    exact ⟨_, [], run_take (step_number n s) rest, Stands.refl _ _⟩
  | ident x =>
    intro s rest _
    exact ⟨_, [], run_take (step_ident x s) rest, Stands.refl _ _⟩
  | inputLength x =>
    intro s rest _
    exact ⟨_, [], run_take (step_inputLength x s) rest, Stands.refl _ _⟩
  | input x l i b hi => exact drives_input hi
  | group l e b he => exact drives_group he

theorem run_complete (d : Derivation .expr) (h : ¬Symbol.expr.Continues t) (rest : List Token) :
    run .start (d.yield ++ t :: rest) = .ok (d.expr, t :: rest) := by
  obtain ⟨v, frames, hrun, hv⟩ := drives d [] (t :: rest) trivial
  have hdone : step ⟨.value v, frames ++ []⟩ t = .done d.expr := by
    rw [step_close h, hv.closes]
    rfl
  rw [State.start, hrun, run, hdone]

/-! ## A stack is made of derivations -/

inductive Pending : List Open → List Token → Prop where
  | nil : Pending [] []
  | unary {s : List Open} {us : List Token} (o : Sign) (h : Pending s us) :
      Pending (.unary o.op :: s) (us ++ [o.token])
  | binary {s : List Open} {us : List Token} {p : Nat} (x : Derivation (.bin p)) (o : Joint p)
      (h : Pending s us) (hs : Clear p s) :
      Pending (.binary x.expr o.op :: s) (us ++ (x.yield ++ [o.token]))
  | group {s : List Open} {us : List Token} (l : Mark .lparen) (h : Pending s us) :
      Pending (.group :: s) (us ++ [l.1])
  | index {s : List Open} {us : List Token} (x : Named Expr.inputName) (l : Mark .lbracket)
      (h : Pending s us) : Pending (.index :: s) (us ++ [x.1, l.1])
  | yes {s : List Open} {us : List Token} (c : Derivation (.bin 1)) (q : Mark .question)
      (h : Pending s us) (hs : Clear 1 s) : Pending (.yes c.expr :: s) (us ++ (c.yield ++ [q.1]))
  | no {s : List Open} {us : List Token} (c : Derivation (.bin 1)) (q : Mark .question)
      (y : Derivation .expr) (k : Mark .colon) (h : Pending s us) (hs : Clear 1 s) :
      Pending (.no c.expr y.expr :: s) (us ++ (c.yield ++ q.1 :: (y.yield ++ [k.1])))

inductive Reached : State → List Token → Prop where
  | operand {s : List Open} {us : List Token} (h : Pending s us) : Reached ⟨.operand, s⟩ us
  | bracket {s : List Open} {us : List Token} (h : Pending s us) (x : Named Expr.inputName) :
      Reached ⟨.bracket, s⟩ (us ++ [x.1])
  | value {s : List Open} {us : List Token} (h : Pending s us) (d : Derivation .primary) :
      Reached ⟨.value d.expr, s⟩ (us ++ d.yield)

/-- A step gives account of the tokens before it and of its own. -/
def Accounts (us : List Token) (t : Token) : Step → Prop
  | .take s => Reached s (us ++ [t])
  | .done e => ∃ d : Derivation .expr, d.yield = us ∧ d.expr = e
  | .fail _ => True

theorem exists_looser (hpq : p ≤ q) (hq : q ≤ 11) (d : Derivation (.bin q)) :
    ∃ d' : Derivation (.bin p), d'.yield = d.yield ∧ d'.expr = d.expr := by
  induction hpq with
  | refl => exact ⟨d, rfl, rfl⟩
  | step _ ih => exact ih (Nat.le_of_succ_le hq) (.tighter (Nat.le_of_succ_le_succ hq) d)

/-- What closing the operators of a level leaves: a derivation at the level, on a stack that
takes it. -/
def Reduced (l : Nat) (us : List Token) (r : Expr × List Open) : Prop :=
  ∃ (us' : List Token) (d : Derivation (.bin l)),
    Pending r.2 us' ∧ Clear l r.2 ∧ us = us' ++ d.yield ∧ r.1 = d.expr

theorem reduced_clear (hlq : l ≤ q) (hq : q ≤ 11) (h : Pending s us) (hs : Clear l s)
    (d : Derivation (.bin q)) : Reduced l (us ++ d.yield) (reduce l d.expr s) := by
  obtain ⟨d', hy, he⟩ := exists_looser hlq hq d
  rw [reduce_of_clear hs]
  exact ⟨us, d', h, hs, by rw [hy], he.symm⟩

/-- Binary operators on the stack grow looser from top to bottom, so what is closed at the top
is an operand for what lies below. -/
theorem reduced_binaries (hlq : l ≤ q) (hq : q ≤ 11) (h : Pending s us) (hs : Clear q s)
    (d : Derivation (.bin q)) : Reduced l (us ++ d.yield) (reduce l d.expr s) := by
  have hall := h
  induction h generalizing q with
  | unary o h ih => exact hs.elim
  | @binary s us p x o h hp ih =>
    by_cases hlp : l ≤ p
    · have hpq : p < q := o.level ▸ hs
      obtain ⟨d', hy, he⟩ := exists_looser hpq hq d
      have hred := ih hlp (Nat.le_of_lt (Nat.lt_of_lt_of_le hpq hq)) hp (.chain x o d') h
      rw [reduce, if_pos (by rw [o.level]; exact hlp)]
      simpa [Derivation.yield, Derivation.expr, hy, he] using hred
    · apply reduced_clear hlq hq hall _ d
      show o.op.level < l
      rw [o.level]
      exact Nat.lt_of_not_le hlp
  | _ => exact reduced_clear hlq hq hall (by trivial) d

theorem reduced_signs (hl : l ≤ 11) (h : Pending s us) (d : Derivation .unary) :
    Reduced l (us ++ d.yield) (reduce l d.expr s) := by
  have hall := h
  induction h generalizing d with
  | unary o h ih => simpa [reduce, Derivation.yield, Derivation.expr] using ih (.sign o d) h
  | binary x o =>
    exact reduced_binaries hl (Nat.le_refl 11) hall (Nat.lt_succ_of_le o.op.level_le) (.unaries d)
  | _ => exact reduced_binaries hl (Nat.le_refl 11) hall (by trivial) (.unaries d)

/-! ## Every step gives account of its token -/

theorem close_accounts (h : Pending s us) (hs : Clear 1 s) (d : Derivation .expr) (t : Token) :
    Accounts (us ++ d.yield) t (close t d.expr s) := by
  induction h generalizing d with
  | nil => exact ⟨d, rfl, rfl⟩
  | unary o h ih => exact hs.elim
  | binary x o h hp ih => exact absurd o.op.level_pos (Nat.not_le_of_lt hs)
  | group l h ih =>
    rw [close]
    split
    · next hk =>
      simpa [Accounts, Derivation.yield, Derivation.expr] using
        Reached.value h (.group l d ⟨t, hk⟩)
    · trivial
  | index x l h ih =>
    rw [close]
    split
    · next hk =>
      simpa [Accounts, Derivation.yield, Derivation.expr] using
        Reached.value h (.input x l d ⟨t, hk⟩)
    · trivial
  | yes c q h hc ih =>
    rw [close]
    split
    · next hk => simpa [Accounts] using Reached.operand (.no c q d ⟨t, hk⟩ h hc)
    · trivial
  | no c q y k h hc ih =>
    simpa [close, Derivation.yield, Derivation.expr] using ih hc (.cond c q y k d)

theorem value_accounts (h : Pending s us) (d : Derivation .primary) (t : Token) :
    Accounts (us ++ d.yield) t (value d.expr t s) := by
  have closed : Accounts (us ++ d.yield) t (close t d.expr s) := by
    obtain ⟨us', d', hp, hs, hus, he⟩ := reduced_signs (l := 1) (by decide) h (.operand d)
    have hclose := close_accounts hp hs (.plain d') t
    rw [show (Derivation.plain d').expr = _ from he.symm, close_reduce] at hclose
    exact hus ▸ hclose
  unfold value
  split
  · next hop =>
    split
    · next o ho =>
      obtain ⟨us', d', hp, hs, hus, he⟩ :=
        reduced_signs (Nat.le_succ_of_le o.level_le) h (.operand d)
      have hr := Reached.operand
        (.binary d' ⟨t, o, rfl, hop, BinaryOp.ofText?_eq_some.mp ho⟩ hp hs)
      rw [← he, ← append_assoc] at hr
      exact (show us ++ d.yield = us' ++ d'.yield from hus) ▸ hr
    · exact closed
  · next hq =>
    obtain ⟨us', d', hp, hs, hus, he⟩ := reduced_signs (l := 1) (by decide) h (.operand d)
    have hr := Reached.operand (.yes d' ⟨t, hq⟩ hp hs)
    rw [← he, ← append_assoc, ← reduce_zero] at hr
    exact (show us ++ d.yield = us' ++ d'.yield from hus) ▸ hr
  · exact closed

theorem operand_accounts (h : Pending s us) (t : Token) : Accounts us t (operand t s) := by
  unfold operand
  split
  · next hk =>
    unfold number
    split
    · next n hn => exact Reached.value h (.number ⟨t, n, hk, hn⟩)
    · trivial
  · next hk =>
    unfold name
    split
    · next hx => exact Reached.value h (.inputLength ⟨t, hk, hx⟩)
    · next hl =>
      split
      · next hx => exact Reached.bracket h ⟨t, hk, hx⟩
      · next hx => exact Reached.value h (.ident ⟨t, hk, hl, hx⟩)
  · next hk => exact Reached.operand (.group ⟨t, hk⟩ h)
  · next hk =>
    split
    · next o ho => exact Reached.operand (.unary ⟨t, o, hk, UnaryOp.ofText?_eq_some.mp ho⟩ h)
    · trivial
  · trivial
  · trivial

theorem step_accounts {st : State} (h : Reached st us) (t : Token) : Accounts us t (step st t) := by
  cases h with
  | operand h => exact operand_accounts h t
  | bracket h x =>
    simp only [step]
    split
    · next hk => simpa [Accounts] using Reached.operand (.index x ⟨t, hk⟩ h)
    · trivial
  | value h d => exact value_accounts h d t

theorem run_sound {st : State} (h : Reached st us) {rest : List Token}
    (hrun : run st ts = .ok (e, rest)) :
    rest ≠ [] ∧ ∃ d : Derivation .expr, d.yield ++ rest = us ++ ts ∧ d.expr = e := by
  induction ts generalizing st us with
  | nil => cases hrun
  | cons t ts ih =>
    have hstep := step_accounts h t
    rw [run] at hrun
    split at hrun
    · next s' hs =>
      rw [hs] at hstep
      simpa using ih hstep hrun
    · next e' hs =>
      rw [hs] at hstep
      obtain ⟨d, hy, he⟩ := hstep
      cases hrun
      exact ⟨by simp, d, by rw [hy], he⟩
    · cases hrun

end Reader

/-! ## What a scan produces -/

def Assign.mark (o : Option BinaryOp) : String := (o.map BinaryOp.text).getD "" ++ "="

theorem Reader.assignOp_mark (o : Option BinaryOp) : Reader.assignOp (Assign.mark o) = o := by
  cases o with
  | none => decide
  | some o => cases o <;> decide

namespace Token

/-- A token before the end: where it assigns, it is spelled as an assignment. -/
def Proper (t : Token) : Prop :=
  t.kind ≠ .eof ∧ (t.kind = .assign → ∃ o, t.text = Assign.mark o)

inductive Ended : List Token → Prop where
  | stop {t : Token} (h : t.kind = .eof) : Ended [t]
  | cons {t : Token} {ts : List Token} (h : t.Proper) (hts : Ended ts) : Ended (t :: ts)

namespace Ended

theorem of_append {xs ys : List Token} (h : Ended (xs ++ ys)) (hys : ys ≠ []) : Ended ys := by
  induction xs with
  | nil => exact h
  | cons x xs ih =>
    rw [cons_append] at h
    generalize hzs : xs ++ ys = zs at h ih
    cases h with
    | stop => exact absurd (append_eq_nil_iff.mp hzs).2 hys
    | cons _ h => exact ih h

theorem tail_nil (h : Ended (t :: ts)) (ht : t.kind = .eof) : ts = [] := by
  cases h with
  | stop => rfl
  | cons hp _ => exact absurd ht hp.1

theorem tail (h : Ended (t :: ts)) (ht : t.kind ≠ .eof) : Ended ts := by
  cases h with
  | stop hk => exact absurd hk ht
  | cons _ h => exact h

theorem mark (h : Ended (t :: ts)) (ht : t.kind = .assign) : ∃ o, t.text = Assign.mark o := by
  cases h with
  | stop hk => rw [ht] at hk; cases hk
  | cons hp _ => exact hp.2 ht

theorem ne_nil (h : Ended ts) : ts ≠ [] := by
  cases h <;> simp

end Ended

theorem spellings_proper : ∀ s ∈ spellings, s.2 ≠ .eof ∧ (s.2 = .assign →
    (none :: BinaryOp.all.map some).any (fun o => Assign.mark o == s.1) = true) := by
  decide +kernel

theorem Spelled.proper (h : t.Spelled) : t.Proper := by
  rcases h with h | ⟨h, -⟩ | h
  · simp [Proper, h]
  · simp [Proper, h]
  · obtain ⟨hk, hmark⟩ := spellings_proper _ h
    refine ⟨hk, fun ha => ?_⟩
    obtain ⟨o, -, ho⟩ := any_eq_true.mp (hmark ha)
    exact ⟨o, (beq_iff_eq.mp ho).symm⟩

end Token

theorem tokenize_ended (h : tokenize src = .ok ts) : Token.Ended ts := by
  obtain ⟨body, stop, rfl, hbody⟩ := Token.tokenize_spelled h
  clear h
  induction body with
  | nil => exact .stop rfl
  | cons t body ih =>
    exact .cons (hbody t (by simp)).proper (ih fun u hu => hbody u (by simp [hu]))

/-! ## Whole expressions -/

/-- The tokens of a derivation and the end, between them perhaps one semicolon. -/
def Grammar.Derivation.Spans (d : Grammar.Derivation .expr) (ts : List Token) : Prop :=
  ∃ r, ts = d.yield ++ r ∧
    ((∃ stop : Grammar.Mark .eof, r = [stop.1]) ∨
      ∃ (m : Grammar.Mark .semicolon) (stop : Grammar.Mark .eof), r = [m.1, stop.1])

namespace Reader

open Grammar Outcome Token

theorem spans_unique {d d' : Derivation .expr} (h : d.Spans ts) (h' : d'.Spans ts) : d = d' := by
  have ends : ∀ {d : Derivation .expr}, d.Spans ts →
      ∃ r, ts = d.yield ++ r ∧ Symbol.expr.Ends r := by
    rintro d ⟨r, hts, ⟨stop, rfl⟩ | ⟨m, stop, rfl⟩⟩
    · exact ⟨_, hts, Symbol.ends_mark (by decide) stop _⟩
    · exact ⟨_, hts, Symbol.ends_mark (by decide) m _⟩
  obtain ⟨r, hts, hr⟩ := ends h
  obtain ⟨r', hts', hr'⟩ := ends h'
  exact (d.unambiguous d' r r' hr hr' (hts ▸ hts')).1

theorem ended_ok {e' : Expr} (hts : Ended ts) :
    ended e ts = .ok e' ↔ e = e' ∧ ∃ stop : Mark .eof, ts = [stop.1] := by
  cases hts with
  | stop h => simp [ended, h]
  | @cons t ts h hts =>
    simp only [ended, if_neg h.1, reduceCtorEq, false_iff]
    rintro ⟨-, stop, heq⟩
    obtain ⟨-, rfl⟩ := List.cons.inj heq
    exact hts.ne_nil rfl

theorem expression_ok (hts : Ended ts) (e : Expr) :
    expression ts = .ok e ↔ ∃ d : Derivation .expr, d.Spans ts ∧ d.expr = e := by
  constructor
  · intro h
    obtain ⟨⟨e', rest⟩, hrun, h⟩ := bind_ok.mp h
    obtain ⟨hne, d, hy, he⟩ := run_sound (.operand .nil) hrun
    have hrest : Ended rest := (hy ▸ hts : Ended (d.yield ++ rest)).of_append hne
    have hends : e' = e ∧ ((∃ stop : Mark .eof, rest = [stop.1]) ∨
        ∃ (m : Mark .semicolon) (stop : Mark .eof), rest = [m.1, stop.1]) := by
      match rest, hrest, h with
      | t :: more, hrest, h =>
        simp only at h
        split at h
        · next hk =>
          obtain ⟨heq, stop, hmore⟩ := (ended_ok (hrest.tail (by rw [hk]; decide))).mp h
          exact ⟨heq, Or.inr ⟨⟨t, hk⟩, stop, by rw [hmore]⟩⟩
        · obtain ⟨heq, hstop⟩ := (ended_ok hrest).mp h
          exact ⟨heq, Or.inl hstop⟩
    exact ⟨d, ⟨rest, hy.symm, hends.2⟩, he.trans hends.1⟩
  · rintro ⟨d, ⟨r, rfl, hr⟩, rfl⟩
    rcases hr with ⟨stop, rfl⟩ | ⟨m, stop, rfl⟩
    · simp only [expression, run_complete d (Symbol.not_continues (by decide) stop)]
      simp [bind, Except.bind, ended, stop.2]
    · simp only [expression, run_complete d (Symbol.not_continues (by decide) m)]
      simp [bind, Except.bind, ended, m.2, stop.2]

end Reader

/-! ## Sequences of assignments -/

namespace Grammar

/-- A name, an assignment and an expression, perhaps after the word `int`. -/
structure Statement where
  int : Option (Named "int")
  target : Mark .ident
  op : Mark .assign
  value : Derivation .expr

namespace Statement

def yield (s : Statement) : List Token :=
  s.int.toList.map Subtype.val ++ s.target.1 :: s.op.1 :: s.value.yield

def Denotes (s : Statement) (a : Assign) : Prop :=
  a.declares = s.int.isSome ∧ a.target = s.target.1.text ∧ a.opText = s.op.1.text ∧
    a.value = s.value.expr

end Statement

/-- Statements with semicolons between them. Empty ones are allowed, so the last semicolon may
stand or not. -/
inductive Statements : List Token → List Assign → Prop where
  | none : Statements [] []
  | skip {ts : List Token} {as : List Assign} (m : Mark .semicolon) (h : Statements ts as) :
      Statements (m.1 :: ts) as
  | last (s : Statement) {a : Assign} (ha : s.Denotes a) : Statements s.yield [a]
  | next (s : Statement) {a : Assign} (ha : s.Denotes a) (m : Mark .semicolon)
      {ts : List Token} {as : List Assign} (h : Statements ts as) :
      Statements (s.yield ++ m.1 :: ts) (a :: as)

end Grammar

namespace Reader

open Grammar Outcome Token

def finish (a : Assign) : List Token → Except SyntaxError (List Assign)
  | [] => .ok []
  | t :: ts =>
    match t.kind with
    | .semicolon => do return a :: (← assigns .start ts)
    | .eof => .ok [a]
    | _ => .error ⟨t.pos, wanted .semicolon t⟩

theorem finish_ok {a : Assign} :
    finish a (t :: ts) = .ok as ↔
      (t.kind = .eof ∧ as = [a]) ∨
        t.kind = .semicolon ∧ ∃ as', assigns .start ts = .ok as' ∧ as = a :: as' := by
  simp only [finish]
  split
  · next hk =>
    rw [bind_ok]
    simp [hk, pure, Except.pure, eq_comm]
  · next hk => simp [hk, eq_comm]
  · next hs he => simp_all

theorem close_eof (ht : t.kind = .eof) (e : Expr) (s : List Open) (s' : State) :
    close t e s ≠ .take s' := by
  fun_induction close t e s <;> simp_all

theorem step_eof (ht : t.kind = .eof) (s s' : State) : step s t ≠ .take s' := by
  rcases s with ⟨m, s⟩
  cases m with
  | operand => simp [step, operand, ht]
  | bracket => simp [step, ht]
  | value e => simpa [step, value, ht] using close_eof ht e s s'

theorem assigns_value {d : Bool} {x : String} {o : Option BinaryOp} (hts : Ended ts) (s : State) :
    assigns (.value d x o s) ts = run s ts >>= fun r => finish ⟨d, x, o, r.1⟩ r.2 := by
  induction hts generalizing s with
  | @stop t h =>
    rw [assigns, run]
    cases hs : step s t with
    | take s' => exact absurd hs (step_eof h s s')
    | done e => simp [bind, Except.bind, finish, h]
    | fail f => rfl
  | @cons t ts h hts ih =>
    rw [assigns, run]
    cases hs : step s t with
    | take s' => exact ih s'
    | done e => rfl
    | fail f => rfl

theorem assigns_name {d : Bool} {x : String} (hts : Ended ts) :
    assigns (.name d x) ts = .ok as ↔
      ∃ (op : Mark .assign) (v : Derivation .expr) (t : Token) (rest : List Token),
        ts = op.1 :: (v.yield ++ t :: rest) ∧
          finish ⟨d, x, assignOp op.1.text, v.expr⟩ (t :: rest) = .ok as := by
  constructor
  · intro h
    match ts, hts, h with
    | t :: ts, hts, h =>
      rw [assigns] at h
      obtain ⟨ph, hassigned, h⟩ := bind_ok.mp h
      unfold assigned at hassigned
      split at hassigned
      · next hk =>
        cases hassigned
        rw [assigns_value (hts.tail (by rw [hk]; decide))] at h
        obtain ⟨⟨e, rest⟩, hrun, h⟩ := bind_ok.mp h
        obtain ⟨hne, v, hy, rfl⟩ := run_sound (.operand .nil) hrun
        match rest, hne with
        | u :: rest, _ => exact ⟨⟨t, hk⟩, v, u, rest, by rw [hy]; rfl, h⟩
      · cases hassigned
  · rintro ⟨op, v, t, rest, rfl, h⟩
    have hcont : ¬Symbol.expr.Continues t := by
      rcases finish_ok.mp h with ⟨hk, -⟩ | ⟨hk, -⟩
      · exact Symbol.not_continues (k := .eof) (by decide) ⟨t, hk⟩
      · exact Symbol.not_continues (k := .semicolon) (by decide) ⟨t, hk⟩
    have htail := hts.tail (by rw [op.2]; decide)
    simp only [assigns, assigned, if_pos op.2]
    show assigns (.value d x (assignOp op.1.text) .start) _ = _
    rw [assigns_value htail, run_complete v hcont]
    exact h

/-- The word `int` is a name of its own unless another name follows it. -/
theorem assigns_target (x : Mark .ident) (ts : List Token)
    (h : x.1.text = "int" → t.kind ≠ .ident) :
    assigns .start (x.1 :: t :: ts) = assigns (.name false x.1.text) (t :: ts) := by
  rw [assigns, x.2]
  by_cases hint : x.1.text = "int"
  · simp only [hint, if_true]
    rw [assigns, if_neg (h hint), assigns]
  · simp only [if_neg hint]

theorem assigns_int (i : Named "int") (x : Mark .ident) (ts : List Token) :
    assigns .start (i.1 :: x.1 :: ts) = assigns (.name true x.1.text) ts := by
  rw [assigns, i.2.1]
  simp only [i.2.2, if_true]
  rw [assigns, if_pos x.2]

def assignment (s : Statement) : Assign :=
  ⟨s.int.isSome, s.target.1.text, assignOp s.op.1.text, s.value.expr⟩

theorem denotes_assignment {s : Statement} {o : Option BinaryOp}
    (h : s.op.1.text = Assign.mark o) : s.Denotes (assignment s) := by
  refine ⟨rfl, rfl, ?_, rfl⟩
  show Assign.mark (assignOp s.op.1.text) = s.op.1.text
  rw [h, assignOp_mark]

theorem eq_assignment {s : Statement} {a : Assign} (h : s.Denotes a) : a = assignment s := by
  obtain ⟨hd, hx, ho, hv⟩ := h
  have hop : assignOp s.op.1.text = a.op := by
    rw [← ho]
    exact assignOp_mark a.op
  cases a
  simp_all [assignment]

theorem ended_op {s : Statement} {r : List Token} (h : Ended (s.yield ++ r)) :
    Ended (s.op.1 :: (s.value.yield ++ r)) := by
  have hall : Ended ((s.int.toList.map Subtype.val ++ [s.target.1]) ++
      s.op.1 :: (s.value.yield ++ r)) := by
    simpa [Statement.yield] using h
  exact hall.of_append (by simp)

theorem assigns_yield (s : Statement) {rest : List Token} (hts : Ended (s.yield ++ t :: rest))
    (h : finish (assignment s) (t :: rest) = .ok as) :
    assigns .start (s.yield ++ t :: rest) = .ok as := by
  have hname := ended_op hts
  rcases s with ⟨int, x, op, v⟩
  cases int with
  | none =>
    show assigns .start (x.1 :: op.1 :: (v.yield ++ t :: rest)) = _
    rw [assigns_target x _ (fun _ => by rw [op.2]; decide)]
    exact (assigns_name hname).mpr ⟨op, v, t, rest, rfl, h⟩
  | some i =>
    show assigns .start (i.1 :: x.1 :: op.1 :: (v.yield ++ t :: rest)) = _
    rw [assigns_int i x]
    exact (assigns_name hname).mpr ⟨op, v, t, rest, rfl, h⟩

theorem exists_statement {x : Mark .ident} (hts : Ended (x.1 :: ts))
    (h : assigns .start (x.1 :: ts) = .ok as) :
    ∃ (s : Statement) (t : Token) (rest : List Token),
      x.1 :: ts = s.yield ++ t :: rest ∧ finish (assignment s) (t :: rest) = .ok as := by
  have htail := hts.tail (by rw [x.2]; decide)
  match ts, htail, h with
  | y :: ts, htail, h =>
    by_cases hint : x.1.text = "int" ∧ y.kind = .ident
    · let i : Named "int" := ⟨x.1, x.2, hint.1⟩
      rw [show x.1 = i.1 from rfl, assigns_int i ⟨y, hint.2⟩] at h
      obtain ⟨op, v, t, rest, heq, hfin⟩ :=
        (assigns_name (htail.tail (by rw [hint.2]; decide))).mp h
      exact ⟨⟨some i, ⟨y, hint.2⟩, op, v⟩, t, rest, by rw [heq]; rfl, hfin⟩
    · rw [assigns_target x ts (fun hx hy => hint ⟨hx, hy⟩)] at h
      obtain ⟨op, v, t, rest, heq, hfin⟩ := (assigns_name htail).mp h
      exact ⟨⟨none, x, op, v⟩, t, rest, by rw [heq]; rfl, hfin⟩

theorem assigns_sound (hts : Ended ts) (h : assigns .start ts = .ok as) :
    ∃ (body : List Token) (stop : Mark .eof), ts = body ++ [stop.1] ∧ Statements body as := by
  -- A statement takes several tokens at once, so the induction is on the number left.
  induction hn : ts.length using Nat.strongRecOn generalizing ts as with
  | ind n ih =>
    match ts, hts, h with
    | t :: ts, hts, h =>
      by_cases hident : t.kind = .ident
      · obtain ⟨s, u, rest, heq, hfin⟩ := exists_statement (x := ⟨t, hident⟩) hts h
        replace heq : t :: ts = s.yield ++ u :: rest := heq
        rw [heq] at hts hn ⊢
        have hden : s.Denotes (assignment s) := by
          obtain ⟨o, ho⟩ := (ended_op hts).mark s.op.2
          exact denotes_assignment ho
        have hu := hts.of_append (by simp)
        rcases finish_ok.mp hfin with ⟨hk, rfl⟩ | ⟨hk, as', has, rfl⟩
        · exact ⟨s.yield, ⟨u, hk⟩, by rw [hu.tail_nil hk], .last s hden⟩
        · simp only [length_append, length_cons] at hn
          obtain ⟨body, stop, rfl, hb⟩ :=
            ih rest.length (by omega) (hu.tail (by rw [hk]; decide)) has rfl
          exact ⟨s.yield ++ u :: body, stop, by simp, .next s hden ⟨u, hk⟩ hb⟩
      · rw [assigns] at h
        split at h
        · next hk =>
          cases h
          exact ⟨[], ⟨t, hk⟩, by rw [hts.tail_nil hk]; rfl, .none⟩
        · next hk =>
          simp only [length_cons] at hn
          obtain ⟨body, stop, rfl, hb⟩ :=
            ih ts.length (by omega) (hts.tail (by rw [hk]; decide)) h rfl
          exact ⟨t :: body, stop, rfl, .skip ⟨t, hk⟩ hb⟩
        · next hk => exact absurd hk hident
        · cases h

theorem assigns_complete {body : List Token} (h : Statements body as) (stop : Mark .eof)
    (hts : Ended (body ++ [stop.1])) : assigns .start (body ++ [stop.1]) = .ok as := by
  induction h with
  | none => simp [assigns, stop.2]
  | skip m h ih =>
    rw [cons_append, assigns, m.2]
    exact ih (hts.tail (by rw [m.2]; decide))
  | last s ha =>
    apply assigns_yield s hts
    rw [← eq_assignment ha]
    exact finish_ok.mpr (Or.inl ⟨stop.2, rfl⟩)
  | next s ha m h ih =>
    rw [append_assoc] at hts ⊢
    apply assigns_yield s hts
    rw [← eq_assignment ha]
    have htail := (hts.of_append (by simp)).tail (by rw [m.2]; decide)
    exact finish_ok.mpr (Or.inr ⟨m.2, _, ih htail, rfl⟩)

end Reader

/-! ## Sources -/

def Grammar.Sequence (ts : List Token) (as : List Assign) : Prop :=
  ∃ (body : List Token) (stop : Grammar.Mark .eof),
    ts = body ++ [stop.1] ∧ Grammar.Statements body as

open Grammar Outcome

theorem Expr.parse_ok (h : tokenize src = .ok ts) (e : Expr) :
    Expr.parse src = .ok e ↔ ∃ d : Derivation .expr, d.Spans ts ∧ d.expr = e := by
  simp only [Expr.parse, h]
  exact Reader.expression_ok (tokenize_ended h) e

theorem Assign.parse_ok (h : tokenize src = .ok ts) (as : List Assign) :
    Assign.parse src = .ok as ↔ Sequence ts as := by
  simp only [Assign.parse, h]
  constructor
  · exact Reader.assigns_sound (tokenize_ended h)
  · rintro ⟨body, stop, rfl, hb⟩
    exact Reader.assigns_complete hb stop (tokenize_ended h)

theorem Outcome.error_iff {ε α : Type} {x : Except ε α} {P : α → Prop}
    (h : ∀ a, x = .ok a ↔ P a) : (∃ err, x = .error err) ↔ ¬∃ a, P a := by
  simp only [← h]
  cases x <;> simp

/-- The readers accept exactly what the grammar derives and build its trees. An expression has
one derivation; where there is none, and where tokens are no sequence of statements, the answer
is an error. Both readers are recursions on the tokens. -/
theorem parse_iff_derives {src : Text.Bytes} {ts : List Token} (h : tokenize src = .ok ts) :
    (∀ e, Expr.parse src = .ok e ↔ ∃ d : Derivation .expr, d.Spans ts ∧ d.expr = e) ∧
      (∀ d d' : Derivation .expr, d.Spans ts → d'.Spans ts → d = d') ∧
      ((∃ err, Expr.parse src = .error err) ↔ ¬∃ d : Derivation .expr, d.Spans ts) ∧
      (∀ as, Assign.parse src = .ok as ↔ Sequence ts as) ∧
      ((∃ err, Assign.parse src = .error err) ↔ ¬∃ as, Sequence ts as) := by
  refine ⟨Expr.parse_ok h, fun d d' => Reader.spans_unique, ?_, Assign.parse_ok h,
    error_iff (Assign.parse_ok h)⟩
  rw [error_iff (Expr.parse_ok h)]
  simp

/-- Signs, chains, a conditional, an input cell and brackets have one derivation; `int` declares
before a name and is a name before an assignment. -/
theorem parse_iff_derives_mixed :
    (∃ ts, tokenize (Text.ascii "-a - b * c < 2 ? automatonInput[i] : (d);") = .ok ts ∧
      ∃ d : Derivation .expr, d.Spans ts ∧ (∀ d', d'.Spans ts → d' = d) ∧
        d.expr = .cond (.binary .lt (.binary .sub (.unary .neg (.ident "a"))
          (.binary .mul (.ident "b") (.ident "c"))) (.number 2))
          (.input (.ident "i")) (.ident "d")) ∧
    (∃ ts, tokenize (Text.ascii "int x >>>= 1;; int = x") = .ok ts ∧
      Sequence ts [⟨true, "x", some .ushr, .number 1⟩, ⟨false, "int", none, .ident "x"⟩]) := by
  constructor
  · obtain ⟨ts, hts, -⟩ := exists_ok (tokenize (Text.ascii
      "-a - b * c < 2 ? automatonInput[i] : (d);")) (fun _ => true) (by decide +kernel)
    obtain ⟨e, he, heq⟩ := exists_ok (Expr.parse (Text.ascii
      "-a - b * c < 2 ? automatonInput[i] : (d);"))
      (· == .cond (.binary .lt (.binary .sub (.unary .neg (.ident "a"))
        (.binary .mul (.ident "b") (.ident "c"))) (.number 2)) (.input (.ident "i")) (.ident "d"))
      (by decide +kernel)
    obtain ⟨hparse, hunique, -⟩ := parse_iff_derives hts
    obtain ⟨d, hd, hexpr⟩ := (hparse e).mp he
    exact ⟨ts, hts, d, hd, fun d' hd' => hunique d' d hd' hd, hexpr.trans (beq_iff_eq.mp heq)⟩
  · obtain ⟨ts, hts, -⟩ := exists_ok (tokenize (Text.ascii "int x >>>= 1;; int = x"))
      (fun _ => true) (by decide +kernel)
    obtain ⟨as, has, heq⟩ := exists_ok (Assign.parse (Text.ascii "int x >>>= 1;; int = x"))
      (· == [⟨true, "x", some .ushr, .number 1⟩, ⟨false, "int", none, .ident "x"⟩])
      (by decide +kernel)
    obtain ⟨-, -, -, hassigns, -⟩ := parse_iff_derives hts
    exact ⟨ts, hts, beq_iff_eq.mp heq ▸ (hassigns as).mp has⟩

end TiledAutomata
