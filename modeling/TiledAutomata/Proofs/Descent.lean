import TiledAutomata.Proofs.Parsing

/-!
# Reading by recursive descent

Expressions are read by functions that call each other: one for conditionals, one for
operators of a level and tighter with a loop for those that follow each other, one for
signs and one for what has none. Each tells how many tokens it leaves, which is why the
calls end. The reader that takes one token at a time and keeps what is open on a stack
does what these functions do, on any stack they can be called with: it fails at the same
token with the same fault, and where it succeeds it has read the same expression.
-/

open List

namespace TiledAutomata.Descent

open Reader Grammar

def operator? (t : Token) : Option BinaryOp :=
  if t.kind = .op then BinaryOp.ofText? t.text else none

/-- An expression and the tokens behind it, which are fewer than a number. -/
structure Part (n : Nat) (Q : List Token → Prop) where
  expr : Expr
  rest : List Token
  short : rest.length < n
  ends : Q rest

abbrev Fewer (ts : List Token) := { us : List Token // us.length < ts.length }

/-! ## The tokens that come next -/

def after? (k : Token.Kind) : (ts : List Token) → Option (Fewer ts)
  | [] => none
  | t :: us => if t.kind = k then some ⟨us, Nat.lt_succ_self _⟩ else none

def sign? : (ts : List Token) → Option (UnaryOp × Fewer ts)
  | [] => none
  | t :: us =>
    if t.kind = .op then (UnaryOp.ofText? t.text).map (·, ⟨us, Nat.lt_succ_self _⟩) else none

def joint? (l : Nat) : (ts : List Token) → Option (BinaryOp × Fewer ts)
  | [] => none
  | t :: us =>
    match operator? t with
    | some o => if l ≤ o.level then some (o, ⟨us, Nat.lt_succ_self _⟩) else none
    | none => none

def expect (k : Token.Kind) (w : Wanted) : (ts : List Token) → Except SyntaxError (Fewer ts)
  | [] => .error ⟨0, .unexpectedEnd⟩
  | t :: us => if t.kind = k then .ok ⟨us, Nat.lt_succ_self _⟩ else .error ⟨t.pos, wanted w t⟩

theorem operator?_eq_some {t : Token} {o : BinaryOp} :
    operator? t = some o ↔ Spells t o.text := by
  unfold operator? Spells
  split
  · simp [*, BinaryOp.ofText?_eq_some]
  · simp [*]

theorem ends_of_joint? {l : Nat} {ts : List Token} (h : joint? l ts = none) :
    (Symbol.bin l).Ends ts := by
  rintro t ht ⟨o, hl, ho⟩
  obtain ⟨us, rfl⟩ := List.head?_eq_some_iff.mp ht
  rw [joint?, operator?_eq_some.mpr ho] at h
  simp [hl] at h

theorem ends_of_after? {ts : List Token} (hends : (Symbol.bin 1).Ends ts)
    (h : after? .question ts = none) : Symbol.expr.Ends ts := by
  rintro t ht (hq | ⟨o, ho⟩)
  · obtain ⟨us, rfl⟩ := List.head?_eq_some_iff.mp ht
    simp [after?, hq] at h
  · exact hends t ht ⟨o, o.level_pos, ho⟩

/-! ## The functions -/

mutual

def expression (ts : List Token) : Except SyntaxError (Part ts.length Symbol.expr.Ends) := do
  let c ← operators 1 ts
  match h : after? .question c.rest with
  | none => return ⟨c.expr, c.rest, c.short, ends_of_after? c.ends h⟩
  | some us => do
    have := c.short
    have := us.2
    let y ← expression us.1
    have := y.short
    let vs ← expect .colon .colon y.rest
    have := vs.2
    let z ← expression vs.1
    return ⟨.cond c.expr y.expr z.expr, z.rest, by have := z.short; omega, z.ends⟩
termination_by (ts.length, 4)

def operators (l : Nat) (ts : List Token) :
    Except SyntaxError (Part ts.length (Symbol.bin l).Ends) := do
  let x ← signed ts
  have := x.short
  let r ← chain l x.expr x.rest
  return ⟨r.expr, r.rest, by have := r.short; omega, r.ends⟩
termination_by (ts.length, 3)

def chain (l : Nat) (x : Expr) (ts : List Token) :
    Except SyntaxError (Part (ts.length + 1) (Symbol.bin l).Ends) := do
  match h : joint? l ts with
  | none => return ⟨x, ts, Nat.lt_succ_self _, ends_of_joint? h⟩
  | some (o, us) => do
    have := us.2
    let y ← operators (o.level + 1) us.1
    have := y.short
    let r ← chain l (.binary o x y.expr) y.rest
    return ⟨r.expr, r.rest, by have := r.short; omega, r.ends⟩
termination_by (ts.length, 0)

def signed (ts : List Token) : Except SyntaxError (Part ts.length fun _ => True) := do
  match sign? ts with
  | some (o, us) => do
    have := us.2
    let x ← signed us.1
    return ⟨.unary o x.expr, x.rest, by have := x.short; omega, trivial⟩
  | none => primary ts
termination_by (ts.length, 2)

def primary : (ts : List Token) → Except SyntaxError (Part ts.length fun _ => True)
  | [] => .error ⟨0, .unexpectedEnd⟩
  | t :: us =>
    match t.kind with
    | .number => do
      let n ← (Text.Numeral.word32 t.text).mapError fun _ => ⟨t.pos, .badNumber t.text⟩
      return ⟨.number (UInt32.ofNat n).toInt32, us, Nat.lt_succ_self _, trivial⟩
    | .ident =>
      if t.text = Expr.inputLengthName then
        return ⟨.inputLength, us, Nat.lt_succ_self _, trivial⟩
      else if t.text = Expr.inputName then do
        let vs ← expect .lbracket .openBracket us
        have := vs.2
        let i ← expression vs.1
        let ws ← expect .rbracket .closeBracket i.rest
        return ⟨.input i.expr, ws.1, by have := ws.2; have := i.short; simp; omega, trivial⟩
      else return ⟨.ident t.text, us, Nat.lt_succ_self _, trivial⟩
    | .lparen => do
      let e ← expression us
      let vs ← expect .rparen .closeParen e.rest
      return ⟨e.expr, vs.1, by have := vs.2; have := e.short; simp; omega, trivial⟩
    | .eof => .error ⟨t.pos, .unexpectedEnd⟩
    | _ => .error ⟨t.pos, .unexpected t.text⟩
termination_by ts => (ts.length, 1)

end

/-! ## The reader does the same -/

section

variable {c e x y z : Expr} {s : List Open} {ts : List Token}

/-- The reader goes on with an operand that has been read. -/
def Part.resume {n : Nat} {Q : List Token → Prop} (r : Part n Q) (s : List Open) :
    Except SyntaxError (Expr × List Token) :=
  run ⟨.value r.expr, s⟩ r.rest

theorem run_unary_value (o : UnaryOp) (e : Expr) (s : List Open) (ts : List Token) :
    run ⟨.value e, .unary o :: s⟩ ts = run ⟨.value (.unary o e), s⟩ ts := by
  cases ts with
  | nil => rfl
  | cons t ts => simp only [run, step, value, reduce, close]

theorem run_binary_value {o : BinaryOp} (hts : (Symbol.bin (o.level + 1)).Ends ts) :
    run ⟨.value y, .binary x o :: s⟩ ts = run ⟨.value (.binary o x y), s⟩ ts := by
  cases ts with
  | nil => rfl
  | cons t ts =>
    have hstep : step ⟨.value y, .binary x o :: s⟩ t = step ⟨.value (.binary o x y), s⟩ t := by
      simp only [step, value]
      split
      · next hop =>
        split
        · next o' ho' =>
          have hlevel : o'.level ≤ o.level := by
            by_contra hlt
            exact hts t rfl ⟨o', by omega, hop, BinaryOp.ofText?_eq_some.mp ho'⟩
          rw [reduce, if_pos hlevel]
        · rw [close]
      · rw [reduce, if_pos (Nat.zero_le _)]
      · rw [close]
    simp only [run, hstep]

theorem run_cond_value (hts : Symbol.expr.Ends ts) :
    run ⟨.value z, .no c y :: s⟩ ts = run ⟨.value (.cond c y z), s⟩ ts := by
  cases ts with
  | nil => rfl
  | cons t ts =>
    have ht := Symbol.ends_cons.mp hts
    simp only [run, step_close ht, close]

theorem run_expect {st st' : State} {k : Token.Kind} {w : Wanted}
    (hstep : ∀ t ∈ ts.head?, step st t =
      if t.kind = k then .take st' else .fail (wanted w t)) :
    run st ts = expect k w ts >>= fun us => run st' us.1 := by
  cases ts with
  | nil => rfl
  | cons t ts =>
    simp only [run, hstep t rfl, expect]
    by_cases hk : t.kind = k
    · simp only [if_pos hk]
      rfl
    · simp only [if_neg hk]
      rfl

theorem run_question {us : Fewer ts} (hs : Clear 1 s) (h : after? .question ts = some us) :
    run ⟨.value c, s⟩ ts = run ⟨.operand, .yes c :: s⟩ us.1 := by
  cases ts with
  | nil => cases h
  | cons t ts =>
    obtain ⟨hk, rfl⟩ := Option.ite_some_none_eq_some.mp h
    rw [run_take (step_question ⟨t, hk⟩ c s), reduce_of_clear hs]

theorem run_sign {o : UnaryOp} {us : Fewer ts} (h : sign? ts = some (o, us)) :
    run ⟨.operand, s⟩ ts = run ⟨.operand, .unary o :: s⟩ us.1 := by
  cases ts with
  | nil => cases h
  | cons t ts =>
    rw [sign?] at h
    split at h
    · next hop =>
      obtain ⟨o', ho, heq⟩ := Option.map_eq_some_iff.mp h
      cases heq
      exact run_take (step_sign ⟨t, o, hop, UnaryOp.ofText?_eq_some.mp ho⟩ s) ts
    · cases h

theorem run_joint {l : Nat} {o : BinaryOp} {us : Fewer ts} (hs : Clear l s)
    (h : joint? l ts = some (o, us)) :
    run ⟨.value x, s⟩ ts = run ⟨.operand, .binary x o :: s⟩ us.1 := by
  cases ts with
  | nil => cases h
  | cons t ts =>
    rw [joint?] at h
    split at h
    · next o' ho =>
      obtain ⟨hl, heq⟩ := Option.ite_some_none_eq_some.mp h
      cases heq
      rw [run_take (step_joint ⟨t, o, rfl, operator?_eq_some.mp ho⟩ x s),
        reduce_of_clear (hs.mono hl)]
    · cases h

end

mutual

theorem run_expression (ts : List Token) {s : List Open} (hs : Clear 1 s) :
    run ⟨.operand, s⟩ ts = expression ts >>= (·.resume s) := by
  rw [run_operators ts hs, expression, bind_assoc]
  refine bind_congr fun c => ?_
  have := c.short
  split
  · rfl
  · next us hus =>
    have := us.2
    rw [Part.resume, run_question hs hus, run_expression us.1 (s := .yes c.expr :: s) trivial,
      bind_assoc]
    refine bind_congr fun y => ?_
    have := y.short
    have hcolon : y.resume (.yes c.expr :: s) =
        expect .colon .colon y.rest >>= fun vs => run ⟨.operand, .no c.expr y.expr :: s⟩ vs.1 :=
      run_expect fun t ht => step_close (y.ends t ht) _ _
    rw [hcolon, bind_assoc]
    refine bind_congr fun vs => ?_
    have := vs.2
    rw [run_expression vs.1 (s := .no c.expr y.expr :: s) trivial, bind_assoc]
    exact bind_congr fun z => run_cond_value z.ends
termination_by (ts.length, 4)

theorem run_operators {l : Nat} (ts : List Token) {s : List Open} (hs : Clear l s) :
    run ⟨.operand, s⟩ ts = operators l ts >>= (·.resume s) := by
  rw [run_signed ts s, operators, bind_assoc]
  refine bind_congr fun x => ?_
  have := x.short
  rw [Part.resume, run_chain x.expr x.rest hs, bind_assoc]
  rfl
termination_by (ts.length, 3)

theorem run_chain {l : Nat} (x : Expr) (ts : List Token) {s : List Open} (hs : Clear l s) :
    run ⟨.value x, s⟩ ts = chain l x ts >>= (·.resume s) := by
  rw [chain]
  split
  · rfl
  · next o us hus =>
    have := us.2
    rw [run_joint hs hus,
      run_operators us.1 (l := o.level + 1) (s := .binary x o :: s) (Nat.lt_succ_self _),
      bind_assoc]
    refine bind_congr fun y => ?_
    have := y.short
    rw [Part.resume, run_binary_value y.ends, run_chain (.binary o x y.expr) y.rest hs, bind_assoc]
    rfl
termination_by (ts.length, 0)

theorem run_signed (ts : List Token) (s : List Open) :
    run ⟨.operand, s⟩ ts = signed ts >>= (·.resume s) := by
  rw [signed]
  split
  · next o us hus =>
    have := us.2
    rw [run_sign hus, run_signed us.1 (.unary o :: s), bind_assoc]
    exact bind_congr fun x => run_unary_value o x.expr s x.rest
  · next hnone => exact run_primary ts s hnone
termination_by (ts.length, 2)

theorem run_primary (ts : List Token) (s : List Open) (hts : sign? ts = none) :
    run ⟨.operand, s⟩ ts = primary ts >>= (·.resume s) := by
  cases ts with
  | nil =>
    rw [primary]
    rfl
  | cons t us =>
    rw [primary]
    cases hk : t.kind with
    | number =>
      simp only [run, step, operand, hk, number]
      cases Text.Numeral.word32 t.text <;> rfl
    | ident =>
      by_cases hlength : t.text = Expr.inputLengthName
      · simp only [run, step, operand, hk, name, if_pos hlength]
        rfl
      by_cases hinput : t.text = Expr.inputName
      · simp only [run, step, operand, hk, name, if_neg hlength, if_pos hinput]
        have hopen : run ⟨.bracket, s⟩ us =
            expect .lbracket .openBracket us >>= fun vs => run ⟨.operand, .index :: s⟩ vs.1 :=
          run_expect fun _ _ => rfl
        rw [hopen, bind_assoc]
        refine bind_congr fun vs => ?_
        have : vs.1.length < (t :: us).length := Nat.lt_succ_of_lt vs.2
        rw [run_expression vs.1 (s := .index :: s) trivial, bind_assoc]
        refine bind_congr fun i => ?_
        have hclose : i.resume (.index :: s) =
            expect .rbracket .closeBracket i.rest >>= fun ws =>
              run ⟨.value (.input i.expr), s⟩ ws.1 :=
          run_expect fun t ht => step_close (i.ends t ht) _ _
        rw [hclose, bind_assoc]
        rfl
      · simp only [run, step, operand, hk, name, if_neg hlength, if_neg hinput]
        rfl
    | lparen =>
      simp only [run, step, operand, hk]
      rw [run_expression us (s := .group :: s) trivial, bind_assoc]
      refine bind_congr fun e => ?_
      have hclose : e.resume (.group :: s) =
          expect .rparen .closeParen e.rest >>= fun vs => run ⟨.value e.expr, s⟩ vs.1 :=
        run_expect fun t ht => step_close (e.ends t ht) _ _
      rw [hclose, bind_assoc]
      rfl
    | op =>
      have hnone : UnaryOp.ofText? t.text = none := by simpa [sign?, hk] using hts
      simp only [run, step, operand, hk, hnone]
      rfl
    | _ =>
      simp only [run, step, operand, hk]
      rfl
termination_by (ts.length, 1)

end

/-- The reader reads from the start what the descent reads, and then has a token left. -/
theorem run_start (ts : List Token) :
    run .start ts = expression ts >>= fun r =>
      match r.rest with
      | [] => .error ⟨0, .unexpectedEnd⟩
      | t :: us => .ok (r.expr, t :: us) := by
  refine (run_expression ts (s := []) trivial).trans (bind_congr fun r => ?_)
  obtain ⟨e, rest, _, hends⟩ := r
  cases rest with
  | nil => rfl
  | cons t us =>
    have hstep : step ⟨.value e, []⟩ t = .done e := step_close (Symbol.ends_cons.mp hends) e []
    simp only [Part.resume, run, hstep]

end TiledAutomata.Descent
