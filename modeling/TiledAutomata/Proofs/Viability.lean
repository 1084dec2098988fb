import TiledAutomata.Proofs.Parsing

/-!
# Where a syntax error is found

A reader takes tokens as long as some expression goes on so: from every state a few tokens more
lead to a whole expression. Hence a token that it refuses is the first one that spoils the source.
-/

open List

namespace TiledAutomata

open Text (bytes)

/-- Some source has the token. -/
def Token.Lexical (t : Token) : Prop := ∃ rest, Starts t.kind (bytes t.text) rest

def Token.bare (t : Token) : Token := { t with pos := 0 }

namespace Reader

open Grammar Outcome Token

variable {s s' : State} {ts us : List Token} {t u : Token} {e : Expr} {stack : List Open}

/-! ## Tokens that are taken -/

theorem close_bare (t : Token) (e : Expr) (stack : List Open) :
    close t.bare e stack = close t e stack := by
  fun_induction close t e stack <;> simp_all [close, wanted, bare] <;> rfl

/-- The reader does not look at positions. -/
theorem step_bare (s : State) (t : Token) : step s t.bare = step s t := by
  obtain ⟨mode, stack⟩ := s
  cases mode <;> simp only [step, operand, number, name, value, wanted, close_bare] <;> rfl

theorem run_bare (s : State) (ts : List Token) :
    (run s (ts.map bare)).toOption = (run s ts).toOption.map (Prod.map id (map bare)) := by
  fun_induction run s ts with
  | case1 => rfl
  | case2 s t ts s' hs ih => rw [map_cons, run_take ((step_bare s t).trans hs), ih]
  | case3 s t ts e hs | case4 s t ts f hs =>
    rw [map_cons, run, step_bare, hs]
    rfl

theorem ended_bare (e : Expr) (ts : List Token) :
    (ended e (ts.map bare)).toOption = (ended e ts).toOption := by
  cases ts with
  | nil => rfl
  | cons t ts =>
    rw [map_cons, ended, ended, show t.bare.kind = t.kind from rfl]
    split <;> rfl

theorem expression_bare (ts : List Token) :
    (expression (ts.map bare)).toOption = (expression ts).toOption := by
  have hrun := run_bare .start ts
  unfold expression
  generalize run .start (ts.map bare) = x at hrun ⊢
  match x, run .start ts, hrun with
  | .error _, .error _, _ => rfl
  | .ok _, .ok (e, []), rfl => rfl
  | .ok _, .ok (e, t :: rest), rfl =>
    by_cases hsemi : t.kind = .semicolon
    · exact (congrArg _ (if_pos hsemi)).trans
        ((ended_bare e rest).trans (congrArg _ (if_pos hsemi).symm))
    · exact (congrArg _ (if_neg hsemi)).trans
        ((ended_bare e (t :: rest)).trans (congrArg _ (if_neg hsemi).symm))

theorem expression_shape (h : us.map shape = ts.map shape) (e : Expr) :
    expression us = .ok e ↔ expression ts = .ok e := by
  have hbare := congrArg (map fun s => (⟨s.1, s.2, 0⟩ : Token)) h
  rw [map_map, map_map] at hbare
  have hsame := (expression_bare us).symm.trans
    ((congrArg (fun ts => (expression ts).toOption) hbare).trans (expression_bare ts))
  cases hu : expression us <;> cases ht : expression ts <;> simp_all [Except.toOption]

/-- From one state to another by tokens that are taken. -/
def Leads (s : State) (ts : List Token) (s' : State) : Prop := ∀ us, run s (ts ++ us) = run s' us

/-- A reader takes tokens up to the one with which it is done or fails. -/
theorem run_split (hts : Ended ts) (s : State) :
    ∃ before s' t after, ts = before ++ t :: after ∧ Leads s before s' ∧
      ((∃ e, step s' t = .done e) ∨ ∃ f, step s' t = .fail f) := by
  fun_induction run s ts with
  | case1 => exact absurd rfl hts.ne_nil
  | case2 s t ts s' hs ih =>
    have htail := hts.tail fun ht => step_eof ht s s' hs
    obtain ⟨before, s'', u, after, rfl, hleads, hend⟩ := ih htail
    exact ⟨t :: before, s'', u, after, rfl, fun us => (run_take hs _).trans (hleads us), hend⟩
  | case3 s t ts e hs => exact ⟨[], s, t, ts, rfl, fun _ => rfl, .inl ⟨e, hs⟩⟩
  | case4 s t ts f hs => exact ⟨[], s, t, ts, rfl, fun _ => rfl, .inr ⟨f, hs⟩⟩

/-! ## Every state can be completed -/

/-- Tokens that continue no value lead to a whole expression. -/
def Finishes (s : State) : Prop :=
  ∃ more, (∀ t ∈ more, t.Lexical) ∧ Symbol.expr.Ends more ∧
    ∀ stop : Mark .eof, ∃ e, run s (more ++ [stop.1]) = .ok (e, [stop.1])

theorem Finishes.cons {k : Kind} (m : Mark k) (hlex : m.1.Lexical) (hs : Finishes s')
    (h : step s m.1 = .take s') (hk : k ≠ .op ∧ k ≠ .question := by decide) : Finishes s := by
  obtain ⟨more, hmore, -, hrun⟩ := hs
  refine ⟨m.1 :: more, forall_mem_cons.mpr ⟨hlex, hmore⟩, Symbol.ends_mark hk m more,
    fun stop => ?_⟩
  rw [cons_append, run_take h]
  exact hrun stop

/-- A value may stand for another one with less before it where it is closed next. -/
theorem Finishes.closed {e' : Expr} {stack' : List Open} (h : Finishes ⟨.value e', stack'⟩)
    (hclose : ∀ t, close t e stack = close t e' stack') : Finishes ⟨.value e, stack⟩ := by
  have hrun (t : Token) (ts : List Token) (ht : ¬Symbol.expr.Continues t) :
      run ⟨.value e, stack⟩ (t :: ts) = run ⟨.value e', stack'⟩ (t :: ts) := by
    rw [run, run, step_close ht, step_close ht, hclose]
  obtain ⟨more, hmore, hends, hstop⟩ := h
  refine ⟨more, hmore, hends, fun stop => ?_⟩
  obtain ⟨e, he⟩ := hstop stop
  refine ⟨e, Eq.trans ?_ he⟩
  cases more with
  | nil => exact hrun _ _ (Symbol.not_continues (by decide) stop)
  | cons t more => exact hrun t _ (hends t rfl)

theorem lexical_spelling {m : String} {k : Kind} (h : (m, k) ∈ spellings := by decide) :
    Lexical ⟨k, m, 0⟩ := by
  refine ⟨[32], ?_⟩
  rw [show bytes m = _ from (spellings_plain _ h).1]
  exact .spelling h (longest_blank m [])

theorem finishes_operand (h : ∀ e, Finishes ⟨.value e, stack⟩) : Finishes ⟨.operand, stack⟩ :=
  .cons (⟨⟨.number, "0", 0⟩, rfl⟩ : Mark .number)
    ⟨[], .number (c := 48) rfl (by simp) (by simp [Apart])⟩ (h _)
    (step_number ⟨_, 0, rfl, by decide +kernel⟩ stack)

theorem finishes_value (e : Expr) (stack : List Open) : Finishes ⟨.value e, stack⟩ := by
  have step_mark {k : Kind} (m : Mark k) (e : Expr) (stack : List Open)
      (hk : k ≠ .op ∧ k ≠ .question := by decide) :
      step ⟨.value e, stack⟩ m.1 = close m.1 e stack :=
    step_close (Symbol.not_continues hk m) e stack
  induction stack generalizing e with
  | nil =>
    refine ⟨[], by simp, by simp [Symbol.Ends], fun stop => ⟨e, ?_⟩⟩
    rw [nil_append, run, step_mark stop e []]
    rfl
  | cons o stack ih =>
    cases o with
    | unary o => exact (ih (.unary o e)).closed fun _ => rfl
    | binary x o => exact (ih (.binary o x e)).closed fun _ => rfl
    | no c y => exact (ih (.cond c y e)).closed fun _ => rfl
    | yes c =>
      refine .cons ⟨⟨.colon, ":", 0⟩, rfl⟩ lexical_spelling ?_ (step_mark _ e _)
      exact finishes_operand fun n => (ih (.cond c e n)).closed fun _ => rfl
    | group => exact .cons ⟨⟨.rparen, ")", 0⟩, rfl⟩ lexical_spelling (ih e) (step_mark _ e _)
    | index =>
      exact .cons ⟨⟨.rbracket, "]", 0⟩, rfl⟩ lexical_spelling (ih (.input e)) (step_mark _ e _)

theorem finishes (s : State) : Finishes s := by
  obtain ⟨mode, stack⟩ := s
  cases mode with
  | operand => exact finishes_operand fun e => finishes_value e stack
  | bracket =>
    exact .cons ⟨⟨.lbracket, "[", 0⟩, rfl⟩ lexical_spelling
      (finishes_operand fun e => finishes_value e _) (step_lbracket _ stack)
  | value e => exact finishes_value e stack

/-! ## Sources -/

/-- With a few tokens behind them the tokens are an expression. -/
def Viable (ts : List Token) : Prop :=
  ∃ more, (∀ t ∈ more, t.Lexical) ∧
    ∀ stop : Mark .eof, ∃ e, expression (ts ++ more ++ [stop.1]) = .ok e

/-- No expression starts with the tokens. -/
def Spoiled (ts : List Token) : Prop := ∀ rest, ∃ err, expression (ts ++ rest) = .error err

theorem expression_done {rest : List Token} (h : run .start ts = .ok (e, t :: rest)) :
    expression ts = if t.kind = .semicolon then ended e rest else ended e (t :: rest) := by
  rw [expression, h]
  rfl

theorem Leads.viable (h : Leads .start ts s) : Viable ts := by
  obtain ⟨more, hmore, -, hrun⟩ := finishes s
  refine ⟨more, hmore, fun stop => ?_⟩
  obtain ⟨e, he⟩ := hrun stop
  refine ⟨e, ?_⟩
  rw [← h, ← append_assoc] at he
  rw [expression_done he, stop.2, if_neg (by decide), ended, if_pos stop.2]

theorem ended_error {err : SyntaxError} (h : ended e ts = .error err) :
    ∃ t after, ts = t :: after ∧ err.pos = t.pos ∧
      ∀ rest, ∃ err, ended e (t :: rest) = .error err := by
  cases ts with
  | nil => cases h
  | cons t after =>
    rw [ended] at h
    split at h
    · cases h
    · next hk =>
      cases h
      exact ⟨t, after, rfl, rfl, fun rest => ⟨_, if_neg hk⟩⟩

theorem exists_spoiler {err : SyntaxError} (hts : Ended ts) (h : expression ts = .error err) :
    ∃ before t after, ts = before ++ t :: after ∧ err.pos = t.pos ∧ Viable before ∧
      Spoiled (before ++ [t]) := by
  obtain ⟨before, s, t, after, rfl, hleads, ⟨e, hdone⟩ | ⟨f, hfail⟩⟩ := run_split hts .start
  · have hrun (rest : List Token) : run .start (before ++ t :: rest) = .ok (e, t :: rest) := by
      rw [hleads, run, hdone]
    rw [expression_done (hrun after)] at h
    split at h
    · -- The expression and its semicolon are whole, and another token follows.
      next hsemi =>
      obtain ⟨t', after, rfl, hpos, hrefused⟩ := ended_error h
      have hwhole (rest : List Token) : expression (before ++ [t] ++ rest) = ended e rest := by
        rw [append_assoc, singleton_append, expression_done (hrun rest), if_pos hsemi]
      refine ⟨before ++ [t], t', after, by simp, hpos, ⟨[], by simp, fun stop => ⟨e, ?_⟩⟩,
        fun rest => ?_⟩
      · rw [append_nil, hwhole, ended, if_pos stop.2]
      · rw [append_assoc, hwhole]
        exact hrefused rest
    · next hsemi =>
      obtain ⟨t', after', heq, hpos, hrefused⟩ := ended_error h
      obtain ⟨rfl, rfl⟩ := cons.inj heq
      refine ⟨before, t, after, rfl, hpos, hleads.viable, fun rest => ?_⟩
      rw [append_assoc, singleton_append, expression_done (hrun rest), if_neg hsemi]
      exact hrefused rest
  · have hrun (rest : List Token) : expression (before ++ t :: rest) = .error ⟨t.pos, f⟩ := by
      rw [expression, hleads, run, hfail]
      rfl
    rw [hrun] at h
    cases h
    refine ⟨before, t, after, rfl, rfl, hleads.viable, fun rest => ?_⟩
    rw [append_assoc]
    exact ⟨_, hrun rest⟩

/-- Tokens that are viable start a source that is an expression. -/
theorem Viable.source (h : Viable ts) (hts : ∀ t ∈ ts, t.Lexical) :
    ∃ src us e, tokenize src = .ok us ∧ ts.map shape <+: us.map shape ∧
      Expr.parse src = .ok e := by
  obtain ⟨more, hmore, hviable⟩ := h
  have hall : ∀ t ∈ ts ++ more, t.Lexical := forall_mem_append.mpr ⟨hts, hmore⟩
  obtain ⟨us, hscan, hus⟩ := scan_written hall 0
  obtain ⟨e, he⟩ := hviable ⟨⟨.eof, "", 0⟩, rfl⟩
  refine ⟨_, us, e, hscan, ?_, ?_⟩
  · rw [hus, map_append, append_assoc]
    exact prefix_append _ _
  · rw [Expr.parse, show tokenize _ = _ from hscan]
    refine (expression_shape (hus.trans ?_) e).mpr he
    simp [shape]

end Reader

open Token

/-- A source that is no expression is refused at the first token that spoils it: some expression
starts with the tokens before it, and none with that token behind them. -/
theorem error_at_spoiler {src : Text.Bytes} {ts : List Token} {err : SyntaxError}
    (htok : tokenize src = .ok ts) (hparse : Expr.parse src = .error err) :
    ∃ before t after, ts = before ++ t :: after ∧ err.pos = t.pos ∧
      (t.kind = .eof ∧ t.pos = src.length ∨ ∃ rest, src.drop t.pos = bytes t.text ++ rest ∧
        Starts t.kind (bytes t.text) rest) ∧
      (∃ src' us e, tokenize src' = .ok us ∧ before.map shape <+: us.map shape ∧
        Expr.parse src' = .ok e) ∧
      ∀ us rest, us.map shape = (before ++ [t]).map shape →
        ∃ err', Reader.expression (us ++ rest) = .error err' := by
  have hexp : Reader.expression ts = .error err := by rwa [Expr.parse, htok] at hparse
  obtain ⟨before, t, after, hts, hpos, hviable, hspoiled⟩ :=
    Reader.exists_spoiler (tokenize_ended htok) hexp
  have hscan := scan_scanned 0 src
  rw [← tokenize, htok, hts] at hscan
  obtain ⟨body, hbody, hdivides⟩ := hscan
  have hstarts := (hdivides.starts rfl).1
  have hbefore : before <+: body := by
    have hlast := congrArg dropLast hbody
    rw [dropLast_concat, dropLast_append_of_ne_nil (cons_ne_nil t after)] at hlast
    exact ⟨_, hlast⟩
  refine ⟨before, t, after, hts, hpos, ?_, hviable.source fun u hu => ?_, fun us rest hus => ?_⟩
  · have hmem : t ∈ body ++ [⟨.eof, "", 0 + src.length⟩] := by
      rw [← hbody]
      simp
    rcases mem_append.mp hmem with ht | ht
    · exact .inr (hstarts t ht).2
    · rw [mem_singleton.mp ht, Nat.zero_add]
      exact .inl ⟨rfl, rfl⟩
  · obtain ⟨-, rest, -, hu⟩ := hstarts u (hbefore.subset hu)
    exact ⟨rest, hu⟩
  · have hsame : (us ++ rest).map shape = (before ++ [t] ++ rest).map shape := by
      rw [map_append, map_append, hus]
    rw [Outcome.error_iff (Reader.expression_shape hsame)]
    exact (Outcome.error_iff fun _ => Iff.rfl).mp (hspoiled rest)

/-- A bracket that closes nothing is refused where it stands. -/
theorem error_at_spoiler_bracket : ∃ before t after,
    tokenize (Text.ascii "a + (b ] c") = .ok (before ++ t :: after) ∧ t.pos = 7 ∧
      (∃ src us e, tokenize src = .ok us ∧ before.map shape <+: us.map shape ∧
        Expr.parse src = .ok e) ∧
      ∀ us rest, us.map shape = (before ++ [t]).map shape →
        ∃ err, Reader.expression (us ++ rest) = .error err := by
  obtain ⟨ts, hts, -⟩ := Outcome.exists_ok (tokenize (Text.ascii "a + (b ] c")) (fun _ => true)
    (by decide +kernel)
  have herr : Expr.parse (Text.ascii "a + (b ] c") = .error ⟨7, .wanted .closeParen "]"⟩ := by
    decide +kernel
  obtain ⟨before, t, after, rfl, hpos, -, hviable⟩ := error_at_spoiler hts herr
  exact ⟨before, t, after, hts, hpos.symm, hviable⟩

end TiledAutomata
