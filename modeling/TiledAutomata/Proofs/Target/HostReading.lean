import TiledAutomata.Proofs.Target.HostTokens

/-!
# Reading printed host expressions

The reader takes a printed expression for the term it is meant to be, whatever operators
stand around it: operands are names, numbers, calls and groups, and an operator stands only
between operands that bind more tightly.
-/

open List

namespace TiledAutomata.Emit.Host

open Target

variable {us : List Token} {k m : Nat} {x : Node} {p : Phrase} {t : Token}

/-! ## Tokens one by one -/

section Spelling

variable {ts : List Token} {ps qs : List Piece} {s : String}

theorem spells_nil : Spells ts [] ↔ ts = [] := by
  simp [Spells]

theorem spells_mark : Spells ts (.mark s :: ps) ↔
    ∃ t us, ts = t :: us ∧ t.kind = .mark ∧ t.text = s ∧ Spells us ps := by
  simp only [Spells, filterMap_cons, spelled, map_eq_cons_iff, Prod.mk.injEq, and_assoc]

theorem spells_word : Spells ts (.word s :: ps) ↔
    ∃ t us, ts = t :: us ∧ t.kind = .name ∧ t.text = s ∧ Spells us ps := by
  simp only [Spells, filterMap_cons, spelled, map_eq_cons_iff, Prod.mk.injEq, and_assoc]

theorem spells_number : Spells ts (.number s :: ps) ↔
    ∃ t us, ts = t :: us ∧ t.kind = .integer ∧ t.text = s ∧ Spells us ps := by
  simp only [Spells, filterMap_cons, spelled, map_eq_cons_iff, Prod.mk.injEq, and_assoc]

theorem spells_blank : Spells ts (.blank :: ps) ↔ Spells ts ps := by
  simp only [Spells, filterMap_cons, spelled]

theorem spells_append : Spells ts (ps ++ qs) ↔
    ∃ us vs, ts = us ++ vs ∧ Spells us ps ∧ Spells vs qs := by
  simp only [Spells, filterMap_append, map_eq_append_iff]

end Spelling

namespace Token

theorem is_mark (h : t.kind = .mark) (s : String) : t.is s = (t.text == s) := by
  simp [is, h]

theorem isAny_mark (h : t.kind = .mark) (ss : List String) : t.isAny ss = ss.contains t.text := by
  simp [isAny, h]

theorem is_other (hm : t.kind ≠ .mark) (hk : t.kind ≠ .keyword) (s : String) : t.is s = false := by
  simp [is, hm, hk]

def level? (t : Token) : Option Nat := if t.kind = .mark then Host.level? t.text else none

end Token

namespace Reader

variable {t : Token} {ts : List Token}

@[simp] theorem run_peek : peek.run (t :: ts) = some (t, t :: ts) := rfl

@[simp] theorem run_take : take.run (t :: ts) = some (t, ts) := rfl

@[simp] theorem run_failure {α : Type} (us : List Token) : (failure : Reader α).run us = none := rfl

@[simp] theorem run_sees (s : String) : (sees s).run (t :: ts) = some (t.is s, t :: ts) := rfl

theorem run_demand {s : String} (h : t.is s = true) :
    (demand s).run (t :: ts) = some (t.place, ts) := by
  simp [demand, h]

theorem run_name (h : t.kind = .name) : name.run (t :: ts) = some (⟨t.place, t.text⟩, ts) := by
  simp [name, h]

end Reader

/-! ## What may follow -/

/-- Nothing that is selected, indexed, called or listed comes next, and no operator that binds
more tightly than a level. -/
def Follows (m : Nat) (us : List Token) : Prop :=
  ∃ t rest, us = t :: rest ∧ (∀ s ∈ [".", "[", "(", "\x7b"], t.is s = false) ∧
    ∀ l ∈ t.level?, l ≤ m

theorem Follows.mono (h : Follows m us) (hk : m ≤ k) : Follows k us := by
  obtain ⟨t, rest, rfl, hs, hl⟩ := h
  exact ⟨t, rest, rfl, hs, fun l hm => Nat.le_trans (hl l hm) hk⟩

theorem follows_closing {t : Token} (hk : t.kind = .mark) (ht : t.text ∈ [")", ","]) (m : Nat)
    (us : List Token) : Follows m (t :: us) := by
  refine ⟨t, us, rfl, ?_, ?_⟩
  · intro s hs
    rw [Token.is_mark hk]
    revert s
    simp only [mem_cons, not_mem_nil, or_false] at ht
    rcases ht with h | h <;> rw [h] <;> decide
  · intro l hl
    rw [Token.level?, if_pos hk] at hl
    simp only [mem_cons, not_mem_nil, or_false] at ht
    rcases ht with h | h <;> rw [h] at hl <;> cases hl

theorem follows_ends (h : Lexeme.Ends us) (m : Nat) : Follows m us := by
  obtain ⟨hne, hall⟩ := h
  obtain ⟨t, us, rfl⟩ := exists_cons_of_ne_nil hne
  have ht := hall t (by simp)
  have hm : t.kind ≠ .mark := by
    rintro h
    rw [h] at ht
    rcases ht with h | h <;> cases h
  have hk : t.kind ≠ .keyword := by
    rintro h
    rw [h] at ht
    rcases ht with h | h <;> cases h
  refine ⟨t, us, rfl, fun s _ => Token.is_other hm hk s, ?_⟩
  rw [Token.level?, if_neg hm]
  intro l hl
  cases hl

theorem follows_operator (hk : t.kind = .mark) (hl : level? t.text = some m) (us : List Token) :
    Follows m (t :: us) := by
  refine ⟨t, us, rfl, ?_, ?_⟩
  · intro s hs
    rw [Token.is_mark hk, beq_eq_false_iff_ne]
    rintro rfl
    have hnone : ∀ s ∈ [".", "[", "(", "\x7b"], level? s = none := by decide
    rw [hnone _ hs] at hl
    cases hl
  · intro l hm
    rw [Token.level?, if_pos hk, hl] at hm
    cases hm
    exact Nat.le_refl m

/-! ## Operands and the operators between them -/

def Operand (p : Phrase) : Prop :=
  ∀ ts us m n, Spells ts p.pieces → Follows m us → 2 * ts.length + 2 ≤ n →
    ∃ x, x.term? = some p.term ∧
      (Reader.readUnary (Grammar.ofDepth n) false).run (ts ++ us) = some (x, us)

/-- A phrase whose operators bind at a level or more tightly. Where such are read, it is read
whole, and the reader goes on behind it. -/
def Binds (m : Nat) (p : Phrase) : Prop :=
  ∀ ts us n l, Spells ts p.pieces → Follows m us → 2 * ts.length + 3 ≤ n → l ≤ m →
    ∃ x k, x.term? = some p.term ∧ n ≤ k + ts.length ∧
      (Reader.readExpr (Grammar.ofDepth n) false l).run (ts ++ us) =
        (Reader.operators (Grammar.ofDepth n) false l k x).run us

theorem Operand.binds (h : Operand p) (m : Nat) : Binds m p := by
  intro ts us n l hts hus hn _
  obtain ⟨n, rfl⟩ : ∃ k, n = k + 1 := ⟨n - 1, by omega⟩
  obtain ⟨x, hx, hrun⟩ := h ts us m n hts hus (by omega)
  refine ⟨x, n + 1, hx, by omega, ?_⟩
  rw [Reader.readExpr, StateT.run_bind]
  show (Reader.readUnary (Grammar.ofDepth n) false).run (ts ++ us) >>= _ = _
  rw [hrun]
  rfl

theorem run_operators_end {g : Grammar} {l : Nat} (hus : Follows m us) (hl : m < l) :
    (Reader.operators g false l (k + 1) x).run us = some (x, us) := by
  obtain ⟨t, rest, rfl, -, hlevel⟩ := hus
  rw [Reader.operators, StateT.run_bind, Reader.run_peek, Option.bind_eq_bind, Option.bind_some]
  dsimp only
  rw [← Token.level?]
  cases ht : t.level? with
  | none => rfl
  | some q =>
    have hq := hlevel q (by rw [ht]; rfl)
    show StateT.run (if q < l then _ else _) _ = _
    rw [if_pos (by omega)]
    rfl

theorem run_operators_step {g : Grammar} {l : Nat} (ht : t.level? = some m) (hl : l ≤ m) :
    (Reader.operators g false l (k + 1) x).run (t :: us) = (do
      let (y, vs) ← (g.expr false (m + 1)).run us
      (Reader.operators g false l k (.binary x t.place t.text y)).run vs) := by
  rw [Reader.operators, StateT.run_bind, Reader.run_peek, Option.bind_eq_bind, Option.bind_some]
  dsimp only
  rw [← Token.level?, ht]
  show StateT.run (if m < l then _ else _) _ = _
  rw [if_neg (by omega)]
  rfl

theorem Binds.whole {n : Nat} (h : Binds m p) (hm : 1 ≤ m) {ts : List Token}
    (hts : Spells ts p.pieces) (hus : Follows 0 us) (hn : 2 * ts.length + 3 ≤ n) :
    ∃ x, x.term? = some p.term ∧
      (Reader.readExpr (Grammar.ofDepth n) false 1).run (ts ++ us) = some (x, us) := by
  obtain ⟨x, k, hx, hk, hrun⟩ := h ts us n 1 hts (hus.mono (by omega)) hn hm
  obtain ⟨k, rfl⟩ : ∃ j, k = j + 1 := ⟨k - 1, by omega⟩
  exact ⟨x, hx, hrun.trans (run_operators_end hus (by omega))⟩

theorem Binds.binary {op : String} {a b : Nat} {q : Phrase} (ho : level? op = some m)
    (hp : Binds a p) (hq : Binds b q) (ha : m ≤ a) (hb : m < b) : Binds m (.binary op p q) := by
  intro ts us n l hts hus hn hl
  simp only [Phrase.binary, spells_append, spells_blank, spells_mark] at hts
  obtain ⟨ts, vs, rfl, hts, t, ys, rfl, hk, ht, hys⟩ := hts
  simp only [length_append, length_cons] at hn ⊢
  have hop : Follows m (t :: (ys ++ us)) := follows_operator hk (by rw [ht]; exact ho) _
  obtain ⟨x, k, hx, hkn, hrun⟩ := hp ts _ n l hts (hop.mono ha) (by omega) (Nat.le_trans hl ha)
  obtain ⟨k, rfl⟩ : ∃ j, k = j + 1 := ⟨k - 1, by omega⟩
  obtain ⟨n, rfl⟩ : ∃ j, n = j + 1 := ⟨n - 1, by omega⟩
  obtain ⟨y, j, hy, hjn, hright⟩ := hq ys us n (m + 1) hys (hus.mono (by omega)) (by omega) hb
  obtain ⟨j, rfl⟩ : ∃ i, j = i + 1 := ⟨j - 1, by omega⟩
  rw [run_operators_end hus (Nat.lt_succ_self m)] at hright
  refine ⟨.binary x t.place t.text y, k, ?_, by omega, ?_⟩
  · simp [Node.term?, hx, hy, ht, Phrase.binary]
  · have hlevel : Token.level? t = some m := by rw [Token.level?, if_pos hk, ht, ho]
    rw [append_assoc, cons_append, hrun, run_operators_step hlevel hl]
    show (Reader.readExpr (Grammar.ofDepth n) false (m + 1)).run (ys ++ us) >>= _ = _
    rw [hright]
    rfl

/-! ## Operands -/

def Opens (t : Token) : Prop :=
  t.kind = .name ∨ t.kind = .integer ∨ (t.kind = .mark ∧ t.text = "(")

section Steps

variable {g : Grammar} {t : Token} {ts : List Token}

theorem run_readUnary_operand (ht : Opens t) :
    (Reader.readUnary g false).run (t :: ts) = (do
      let (x, us) ← (Reader.operand g).run (t :: ts)
      (Reader.suffixes g false g.fuel x).run us) := by
  have hsign : t.isAny ["+", "-", "!", "^", "&", "~"] = false ∧ t.is "<-" = false ∧
      t.is "*" = false := by
    rcases ht with h | h | ⟨h, ht⟩
    · simp [Token.isAny, Token.is, h]
    · simp [Token.isAny, Token.is, h]
    · simp [Token.isAny, Token.is, h, ht]
  simp [Reader.readUnary, hsign]

theorem run_readUnary_sign (hk : t.kind = .mark) (ht : t.text ∈ ["-", "^"]) :
    (Reader.readUnary g false).run (t :: ts) = (do
      let (x, us) ← (g.unary false).run ts
      some (.unary t.place t.text x, us)) := by
  have hsign : t.isAny ["+", "-", "!", "^", "&", "~"] = true := by
    rw [Token.isAny_mark hk]
    simp only [mem_cons, not_mem_nil, or_false] at ht
    rcases ht with h | h <;> rw [h] <;> decide
  simp [Reader.readUnary, hsign, Option.map_eq_bind]

theorem run_operand_name (hk : t.kind = .name) :
    (Reader.operand g).run (t :: ts) = some (.name ⟨t.place, t.text⟩, ts) := by
  simp [Reader.operand, hk, Reader.run_name hk]

theorem run_operand_literal (hk : t.kind = .integer) :
    (Reader.operand g).run (t :: ts) = some (.literal t.literal, ts) := by
  simp [Reader.operand, hk, Token.isLiteral]

theorem run_operand_group (hk : t.kind = .mark) (ht : t.text = "(") :
    (Reader.operand g).run (t :: ts) = (do
      let (x, us) ← (g.expr false 1).run ts
      let (c, vs) ← (Reader.demand ")").run us
      some (.group t.place x c, vs)) := by
  simp [Reader.operand, hk, ht, Token.isLiteral, Token.is, Reader.inner, Option.map_eq_bind]

theorem run_suffixes_end (hus : Follows m us) :
    (Reader.suffixes g false (k + 1) x).run us = some (x, us) := by
  obtain ⟨t, rest, rfl, hs, -⟩ := hus
  simp [Reader.suffixes, hs]

theorem run_suffixes_select {n : Token} (hk : t.kind = .mark) (ht : t.text = ".")
    (hn : n.kind = .name) :
    (Reader.suffixes g false (k + 1) x).run (t :: n :: ts) =
      (Reader.suffixes g false k (.select x ⟨n.place, n.text⟩)).run ts := by
  have hnot : n.is "(" = false := by simp [Token.is, hn]
  simp [Reader.suffixes, Token.is_mark hk, ht, hnot, Reader.run_name hn]

theorem run_suffixes_call {k : Nat} {x : Node} (hk : t.kind = .mark) (ht : t.text = "(") :
    (Reader.suffixes g false (k + 1) x).run (t :: ts) = (do
      let ((args, spread), us) ← (Reader.arguments g g.fuel #[]).run ts
      let (c, vs) ← (Reader.demand ")").run us
      (Reader.suffixes g false k (.call x t.place args spread c)).run vs) := by
  simp [Reader.suffixes, Token.is_mark hk, ht]

end Steps

theorem ofDepth_fuel (n : Nat) : (Grammar.ofDepth n).fuel = n := by
  cases n <;> rfl

theorem Operand.number (s : String) : Operand (.number s) := by
  intro ts us m n hts hus hn
  simp only [Phrase.number, spells_number, spells_nil] at hts
  obtain ⟨t, vs, rfl, hk, ht, rfl⟩ := hts
  obtain ⟨n, rfl⟩ : ∃ j, n = j + 1 := ⟨n - 1, by omega⟩
  refine ⟨.literal t.literal, by simp [Node.term?, Token.literal, hk, ht, Phrase.number], ?_⟩
  rw [singleton_append, run_readUnary_operand (.inr (.inl hk)), run_operand_literal hk,
    ofDepth_fuel]
  exact run_suffixes_end hus

theorem Operand.name (x : String) : Operand (.name x) := by
  intro ts us m n hts hus hn
  simp only [Phrase.name, spells_word, spells_nil] at hts
  obtain ⟨t, vs, rfl, hk, ht, rfl⟩ := hts
  obtain ⟨n, rfl⟩ : ∃ j, n = j + 1 := ⟨n - 1, by omega⟩
  refine ⟨.name ⟨t.place, t.text⟩, by simp [Node.term?, ht, Phrase.name], ?_⟩
  rw [singleton_append, run_readUnary_operand (.inl hk), run_operand_name hk, ofDepth_fuel]
  exact run_suffixes_end hus

theorem Operand.select (x f : String) :
    Operand ⟨[.word x, .mark ".", .word f], .select (.name x) f⟩ := by
  intro ts us m n hts hus hn
  simp only [spells_word, spells_mark, spells_nil] at hts
  obtain ⟨t, vs, rfl, htk, htt, d, vs, rfl, hdk, hdt, u, vs, rfl, huk, hut, rfl⟩ := hts
  obtain ⟨n, rfl⟩ : ∃ j, n = j + 2 := ⟨n - 2, by omega⟩
  refine ⟨.select (.name ⟨t.place, t.text⟩) ⟨u.place, u.text⟩, by simp [Node.term?, htt, hut], ?_⟩
  simp only [cons_append, nil_append]
  rw [run_readUnary_operand (.inl htk), run_operand_name htk, ofDepth_fuel]
  exact (run_suffixes_select hdk hdt huk).trans (run_suffixes_end hus)

theorem Operand.unary {op : String} (ho : op ∈ ["-", "^"]) (hp : Operand p) :
    Operand (.unary op p) := by
  intro ts us k n hts hus hn
  simp only [Phrase.unary, spells_mark] at hts
  obtain ⟨t, ts, rfl, hk, ht, hts⟩ := hts
  simp only [length_cons] at hn
  obtain ⟨n, rfl⟩ : ∃ j, n = j + 1 := ⟨n - 1, by omega⟩
  obtain ⟨x, hx, hrun⟩ := hp ts us k n hts hus (by omega)
  refine ⟨.unary t.place t.text x, by simp [Node.term?, hx, ht, Phrase.unary], ?_⟩
  rw [cons_append, run_readUnary_sign hk (by rw [ht]; exact ho)]
  show (Reader.readUnary (Grammar.ofDepth n) false).run (ts ++ us) >>= _ = _
  rw [hrun]
  rfl

theorem Operand.group (hp : Binds m p) (hm : 1 ≤ m) : Operand (.group p) := by
  intro ts us k n hts hus hn
  simp only [Phrase.group, spells_mark, spells_append, spells_nil] at hts
  obtain ⟨o, vs, rfl, hok, hot, ts, cs, rfl, hts, c, rest, rfl, hck, hct, rfl⟩ := hts
  simp only [length_cons, length_append, length_nil] at hn
  obtain ⟨n, rfl⟩ : ∃ j, n = j + 1 := ⟨n - 1, by omega⟩
  have hclosing : Follows 0 (c :: us) := follows_closing hck (by rw [hct]; decide) 0 us
  obtain ⟨x, hx, hrun⟩ := hp.whole hm hts hclosing (by omega : 2 * ts.length + 3 ≤ n)
  refine ⟨.group o.place x c.place, by simp [Node.term?, hx, Phrase.group], ?_⟩
  simp only [cons_append, append_assoc, nil_append]
  rw [run_readUnary_operand (.inr (.inr ⟨hok, hot⟩)), run_operand_group hok hot, ofDepth_fuel]
  show ((Reader.readExpr (Grammar.ofDepth n) false 1).run (ts ++ c :: us) >>= _) >>= _ = _
  have hc : c.is ")" = true := by rw [Token.is_mark hck, hct]; rfl
  rw [hrun]
  simp only [Option.bind_eq_bind, Option.bind_some, Reader.run_demand hc]
  exact run_suffixes_end hus

/-! ## Calls -/

def Argument (p : Phrase) : Prop := ∃ m, 1 ≤ m ∧ Binds m p

theorem run_readExpr_closing {t : Token} (h : t.is ")" = true) (n l : Nat) (ts : List Token) :
    (Reader.readExpr (Grammar.ofDepth n) false l).run (t :: ts) = none := by
  have ht : t.text = ")" := by
    simp only [Token.is, Bool.and_eq_true, beq_iff_eq] at h
    exact h.2
  have hk : t.kind ≠ .name ∧ t.isLiteral = false := by
    simp only [Token.is, Bool.and_eq_true, Bool.or_eq_true, decide_eq_true_eq] at h
    rcases h.1 with h | h <;> simp [Token.isLiteral, h]
  cases n with
  | zero => rfl
  | succ n =>
    have hunary : (Reader.readUnary (Grammar.ofDepth n) false).run (t :: ts) = none := by
      cases n with
      | zero => simp [Reader.readUnary, Reader.operand, Reader.type, Grammar.ofDepth, Token.isAny,
          Token.is, hk, ht]
      | succ n =>
        have htype : (Grammar.ofDepth (n + 1)).type?.run (t :: ts) = some (none, t :: ts) := by
          show (Reader.readType? (Grammar.ofDepth n)).run (t :: ts) = _
          simp [Reader.readType?, Token.is, hk, ht]
        simp [Reader.readUnary, Reader.operand, Reader.type, htype, Token.isAny, Token.is,
          hk, ht]
    rw [Reader.readExpr, StateT.run_bind]
    show (Reader.readUnary (Grammar.ofDepth n) false).run (t :: ts) >>= _ = _
    rw [hunary]
    rfl

theorem run_arguments_step {n k : Nat} {xs : Array Node} {x : Node} {c : Token}
    {ts us : List Token}
    (hx : (Reader.readExpr (Grammar.ofDepth n) false 1).run ts = some (x, c :: us))
    (hck : c.kind = .mark) (hct : c.text ∈ [")", ","]) :
    (Reader.arguments (Grammar.ofDepth (n + 1)) (k + 1) xs).run ts =
      if c.text = "," then
        (Reader.arguments (Grammar.ofDepth (n + 1)) k (xs.push x)).run us
      else some (((xs.push x).toList, 0), c :: us) := by
  cases ts with
  | nil => cases n <;> cases hx
  | cons t ts =>
    have ht : t.is ")" = false := by
      rw [← Bool.not_eq_true]
      intro h
      rw [run_readExpr_closing h] at hx
      cases hx
    have hinner : (Reader.inner (Grammar.ofDepth (n + 1))).run (t :: ts) = some (x, c :: us) := hx
    simp only [mem_cons, not_mem_nil, or_false] at hct
    rcases hct with h | h <;>
      simp [Reader.arguments, ht, hinner, Token.is_mark hck, h, Reader.goesOn]

theorem run_arguments {n k : Nat} {ps : List Phrase} (hps : ∀ p ∈ ps, Argument p)
    {ts : List Token} {c : Token} (hck : c.kind = .mark) (hct : c.text = ")")
    (hts : Spells ts (Phrase.listed ps)) (hn : 2 * ts.length + 3 ≤ n) (hk : ps.length < k)
    (xs : Array Node) (us : List Token) :
    ∃ ys, terms? ys = some (.ofList (ps.map Phrase.term)) ∧
      (Reader.arguments (Grammar.ofDepth (n + 1)) k xs).run (ts ++ c :: us) =
        some ((xs.toList ++ ys, 0), c :: us) := by
  obtain ⟨k, rfl⟩ : ∃ j, k = j + 1 := ⟨k - 1, by omega⟩
  have hclosing : Follows 0 (c :: us) := follows_closing hck (by rw [hct]; decide) 0 us
  match ps with
  | [] =>
    simp only [Phrase.listed, spells_nil] at hts
    subst hts
    refine ⟨[], rfl, ?_⟩
    simp [Reader.arguments, Token.is_mark hck, hct]
  | [p] =>
    obtain ⟨m, hm, hp⟩ := hps p (by simp)
    obtain ⟨x, hx, hrun⟩ := hp.whole hm hts hclosing hn
    refine ⟨[x], by simp [terms?, hx, Terms.ofList], ?_⟩
    rw [run_arguments_step hrun hck (by rw [hct]; decide), hct]
    simp
  | p :: q :: ps =>
    obtain ⟨m, hm, hp⟩ := hps p (by simp)
    simp only [Phrase.listed, spells_append, spells_mark, spells_blank] at hts
    obtain ⟨ts, vs, rfl, hts, d, vs, rfl, hdk, hdt, hvs⟩ := hts
    simp only [length_append, length_cons] at hn hk
    have hcomma : Follows 0 (d :: (vs ++ c :: us)) := follows_closing hdk (by rw [hdt]; decide) 0 _
    obtain ⟨x, hx, hrun⟩ := hp.whole hm hts hcomma (by omega : 2 * ts.length + 3 ≤ n)
    obtain ⟨ys, hys, hrest⟩ := run_arguments (fun r hr => hps r (mem_cons_of_mem p hr)) hck hct
      hvs (by omega : 2 * vs.length + 3 ≤ n) (by simpa using hk : (q :: ps).length < k)
      (xs.push x) us
    refine ⟨x :: ys, ?_, ?_⟩
    · rw [terms?, hx, hys]
      rfl
    · rw [append_assoc, cons_append, run_arguments_step hrun hdk (by rw [hdt]; decide),
        hdt, if_pos rfl, hrest]
      simp

theorem length_of_listed {ts : List Token} {ps : List Phrase}
    (h : Spells ts (Phrase.listed ps)) : ps.length ≤ ts.length + 1 := by
  match ps with
  | [] => simp
  | [p] => simp
  | p :: q :: ps =>
    simp only [Phrase.listed, spells_append, spells_mark, spells_blank] at h
    obtain ⟨us, vs, rfl, -, d, vs, rfl, -, -, hvs⟩ := h
    have hrest := length_of_listed hvs
    simp only [length_append, length_cons] at hrest ⊢
    omega

theorem Operand.call (f : String) {ps : List Phrase} (hps : ∀ p ∈ ps, Argument p) :
    Operand (.call f ps) := by
  intro ts us m n hts hus hn
  simp only [Phrase.call, spells_word, spells_mark, spells_append, spells_nil] at hts
  obtain ⟨t, vs, rfl, htk, htt, o, vs, rfl, hok, hot, ts, cs, rfl, hts, c, rest, rfl, hck, hct,
    rfl⟩ := hts
  simp only [length_cons, length_append, length_nil] at hn
  obtain ⟨n, rfl⟩ : ∃ j, n = j + 2 := ⟨n - 2, by omega⟩
  have hlen := length_of_listed hts
  obtain ⟨ys, hys, hargs⟩ := run_arguments hps hck hct hts (by omega : 2 * ts.length + 3 ≤ n + 1)
    (by omega : ps.length < n + 2) #[] us
  refine ⟨.call (.name ⟨t.place, t.text⟩) o.place ys 0 c.place, ?_, ?_⟩
  · simp [Node.term?, hys, htt, Phrase.call]
  · simp only [cons_append, append_assoc, nil_append]
    rw [run_readUnary_operand (.inl htk), run_operand_name htk, ofDepth_fuel]
    refine (run_suffixes_call hok hot).trans ?_
    have hc : c.is ")" = true := by rw [Token.is_mark hck, hct]; rfl
    rw [ofDepth_fuel, hargs]
    simp only [Option.bind_eq_bind, Option.bind_some, Reader.run_demand hc]
    exact run_suffixes_end hus

/-! ## Every expression -/

open Phrase

abbrev lexicon : Lexicon := ⟨FieldName, fun s => ∃ n : Nat, s = toString n, ["-", "^"], False⟩

theorem wording_speaks : wording.Speaks lexicon := by
  have hinput : Formed lexicon .operand (name "input") := .name (by decide)
  constructor
  case literal =>
    intro v
    simp only [wording]
    split
    · exact .group (.inner (.test (.unary (by decide) (.number ⟨_, rfl⟩))))
    · next h => exact .number ⟨_, text_nonneg h⟩
  case ident => exact fun x hx => .field (by decide) hx
  case inputLength =>
    have hlen : Formed lexicon .operand (call "len" [name "input"]) :=
      .call [] _ (by decide) (by simp) (.inner hinput.tested)
    exact .call [] _ (by decide) (by simp) (.inner hlen.tested)
  case input =>
    exact fun p hp => .call [_] _ (by decide) (by simpa using hinput.tested) (.inner hp.tested)
  case zero => exact ⟨0, rfl⟩
  case signs => rfl
  case truth =>
    show FieldName "caBool"
    decide
  case helper =>
    intro o h ho
    show FieldName ("ca" ++ h)
    cases o <;> cases ho <;> decide
  case cond =>
    exact fun c t e hc ht he => .call [c, t] e (by decide) (by simp [hc, ht.tested])
      (.inner he.tested)

theorem level?_text {o : BinaryOp} (h : Dialect.helper? o = none) :
    ∃ m, 1 ≤ m ∧ level? o.text = some m := by
  cases o <;> first | exact ⟨_, by decide, rfl⟩ | cases h

def Reads : Rank → Phrase → Prop
  | .operand | .signed => Operand
  | .test => Binds 3
  | .inner => Argument

theorem reads_formed {r : Rank} (h : Formed lexicon r p) : Reads r p := by
  have hequal : ∀ {op p q}, op ∈ ["==", "!="] → Operand p → Operand q →
      Binds 3 (.binary op p q) := by
    intro op p q ho hp hq
    have hlevel : ∀ op ∈ ["==", "!="], level? op = some 3 := by decide
    exact .binary (hlevel op ho) (hp.binds 3) (hq.binds 4) (Nat.le_refl 3) (by decide)
  induction h with
  | number => exact .number _
  | name => exact .name _
  | field => exact .select _ _
  | element h => exact h.elim
  | group _ ih =>
    obtain ⟨m, hm, hp⟩ := ih
    exact Operand.group hp hm
  | call ps q _ _ _ ihps ihq =>
    exact Operand.call _ (forall_mem_append.mpr
      ⟨fun p hp => ⟨3, by decide, ihps p hp⟩, forall_mem_singleton.mpr ihq⟩)
  | signed _ ih => exact ih
  | unary ho _ ih => exact Operand.unary ho ih
  | test _ ih => exact Operand.binds ih 3
  | equal ho _ _ ihp ihq => exact hequal ho ihp ihq
  | inner _ ih => exact ⟨3, by decide, ih⟩
  | binary o hh _ _ _ ihp ihq =>
    obtain ⟨m, hm, hl⟩ := level?_text hh
    exact ⟨m, hm, .binary hl (Operand.binds ihp m) (Operand.binds ihq (m + 1)) (Nat.le_refl m)
      (Nat.lt_succ_self m)⟩
  | logical o ho _ _ _ _ ihp ihq ihr iht =>
    -- A comparison binds more tightly than what joins two of them.
    have hlevel : ∃ m, 1 ≤ m ∧ m < 3 ∧ level? o.text = some m := by
      cases o <;> first | exact ⟨_, by decide, by decide, rfl⟩ | cases ho
    obtain ⟨m, hm, hlt, hl⟩ := hlevel
    exact ⟨m, hm, .binary hl (hequal (by decide) ihp ihq) (hequal (by decide) ihr iht)
      (Nat.le_of_lt hlt) hlt⟩

theorem plain_formed {r : Rank} (h : Formed lexicon r p) : p.Consists Plain := by
  refine h.consists (fun _ => id) (fun _ => id) trivial ?_ ?_ ?_ fun o ho => ?_ <;> unfold Plain
  · decide
  · decide
  · decide
  · cases o <;> first | decide | cases ho

theorem expression?_render (e : Expr) (hn : ∀ x ∈ e.reads, FieldName x) :
    expression? (e.render Dialect.host Package.env) = some (wording.phrase e).term := by
  have hformed := wording_speaks.phrase e hn
  have hreads : Operand (wording.phrase e) := reads_formed hformed
  have hspaced : Piece.Spaced (wording.phrase e).pieces := by
    simpa using (hformed.flows (by decide)).1 [] rfl trivial
  obtain ⟨s, ts, tail, hsource, htokens, hts, htail⟩ :=
    Source.ofText_pieces hspaced (plain_formed hformed)
  have hn : 2 * ts.length + 3 ≤ 16 * s.tokens.length + 16 := by
    rw [htokens, length_append]
    omega
  obtain ⟨x, hx, hrun⟩ := (hreads.binds 1).whole (Nat.le_refl 1) hts (follows_ends htail 0) hn
  have hrest : tail.all (fun t => t.kind = .separator false || t.kind = .stop) = true := by
    simpa [all_eq_true] using htail.2
  rw [wording_writes.render]
  simp only [expression?, Phrase.text, hsource, Option.bind_eq_bind, Option.bind_some]
  rw [← htokens] at hrun
  rw [hrun]
  simp only [Option.bind_some, hrest, if_true, hx]

end TiledAutomata.Emit.Host
