import TiledAutomata.Proofs.Target.ShaderTokens

/-!
# Comparisons are no lists of types

In a printed expression a comparison stands alone in its brackets. So a `<` that is pending
is given up at the closing bracket, before a `>` at its own depth could make a list of it.
The search for lists comes out of every operand as it went in.
-/

open List

namespace TiledAutomata.Emit.Shader

open Target

variable {c : Char} {s t u : Search}

/-! ## Steps of the search -/

namespace Search

/-- Nothing is found on the way, and what was pending still is, at the same depth, or nothing is. -/
structure Keeps (s t : Search) : Prop where
  skips : t.skips = false
  found : t.found = s.found
  pending : (t.pending = s.pending ∧ t.depth = s.depth) ∨ t.pending = []

/-- All that is pending is around what comes now. -/
def Around (s : Search) : Prop := s.skips = false ∧ ∀ p ∈ s.pending, p.2 < s.depth

/-- All that is pending is around what comes now or beside it. -/
def Beside (s : Search) : Prop := s.skips = false ∧ ∀ p ∈ s.pending, p.2 ≤ s.depth

theorem Around.beside (h : s.Around) : s.Beside :=
  ⟨h.1, fun p hp => Nat.le_of_lt (h.2 p hp)⟩

theorem Keeps.trans (h : Keeps s t) (h' : Keeps t u) : Keeps s u := by
  refine ⟨h'.skips, h'.found.trans h.found, ?_⟩
  rcases h'.pending with ⟨hp, hd⟩ | hp
  · rcases h.pending with ⟨hq, he⟩ | hq
    · exact .inl ⟨hp.trans hq, hd.trans he⟩
    · exact .inr (hp.trans hq)
  · exact .inr hp

theorem Keeps.around (h : Keeps s t) (hs : s.Around) : t.Around := by
  refine ⟨h.skips, ?_⟩
  rcases h.pending with ⟨hp, hd⟩ | hp
  · rw [hp, hd]
    exact hs.2
  · simp [hp]

theorem Keeps.beside (h : Keeps s t) (hs : s.Beside) : t.Beside := by
  refine ⟨h.skips, ?_⟩
  rcases h.pending with ⟨hp, hd⟩ | hp
  · rw [hp, hd]
    exact hs.2
  · simp [hp]

theorem run_append (next : Option Atom) (s : Search) (as bs : List Atom) :
    run next s (as ++ bs) = run next (run (bs.head?.or next) s as) bs := by
  induction as generalizing s with
  | nil => rfl
  | cons a as ih =>
    rw [cons_append, run, ih, run, List.head?_append, Option.or_assoc]

theorem keeps_gap (hs : s.skips = false) (next : Option Atom) : Keeps s (s.step .gap next) := by
  simp only [step, hs]
  exact ⟨rfl, rfl, .inl ⟨rfl, rfl⟩⟩

theorem keeps_word (hs : s.skips = false) (w : List Char) (next : Option Atom) :
    Keeps s (s.step (.word w) next) := by
  simp only [step, hs]
  exact ⟨rfl, rfl, .inl ⟨rfl, rfl⟩⟩

theorem keeps_sign (hs : s.skips = false) (hc : c ∈ [',', '.', '-', '~', '+', '*', '^'])
    (next : Option Atom) : Keeps s (s.step (.sign c) next) := by
  simp only [mem_cons, not_mem_nil, or_false] at hc
  rcases hc with rfl | rfl | rfl | rfl | rfl | rfl | rfl <;>
    simp only [step, hs] <;> exact ⟨rfl, rfl, .inl ⟨rfl, rfl⟩⟩

structure Opens (s t : Search) : Prop where
  skips : t.skips = false
  found : t.found = s.found
  pending : ∃ p, t.pending = (p, s.depth) :: s.pending
  depth : t.depth = s.depth

theorem Opens.beside (h : Opens s t) (hs : s.Around) : t.Beside := by
  obtain ⟨p, hp⟩ := h.pending
  refine ⟨h.skips, ?_⟩
  rw [hp, h.depth]
  intro q hq
  rcases mem_cons.mp hq with rfl | hq
  · exact Nat.le_refl _
  · exact Nat.le_of_lt (hs.2 q hq)

theorem settle_eq (hs : s.Around) : s.settle = s.pending := by
  unfold settle
  cases h : s.pending with
  | nil => rfl
  | cons p ps =>
    have hp := hs.2 p (by simp [h])
    rw [dropWhile_cons, if_neg (by simpa using hp)]

theorem run_equality (hs : s.skips = false) (hc : c = '=' ∨ c = '!') :
    Keeps s (run (some .gap) s [.sign c, .sign '=']) := by
  rcases hc with rfl | rfl <;> simp [run, step, hs] <;> exact ⟨rfl, rfl, .inl ⟨rfl, rfl⟩⟩

theorem run_bitwise (hs : s.skips = false) (hc : c = '&' ∨ c = '|') :
    Keeps s (run (some .gap) s [.sign c]) := by
  rcases hc with rfl | rfl <;> simp [run, step, hs] <;> exact ⟨rfl, rfl, .inl ⟨rfl, rfl⟩⟩

theorem run_logical (hs : s.Around) (hc : c = '&' ∨ c = '|') :
    Keeps s (run (some .gap) s [.sign c, .sign c]) := by
  have hskip := hs.1
  have hsettle := settle_eq hs
  rcases hc with rfl | rfl <;> simp [run, step, hskip, hsettle] <;>
    exact ⟨rfl, rfl, .inl ⟨rfl, rfl⟩⟩

theorem run_greater (hs : s.Around) {as : List Atom} (ha : as = [] ∨ as = [.sign '=']) :
    Keeps s (run (some .gap) s (.sign '>' :: as)) := by
  have hskip := hs.1
  cases hp : s.pending with
  | nil =>
    rcases ha with rfl | rfl <;> simp [run, step, hskip, hp] <;>
      exact ⟨rfl, rfl, .inl ⟨hp.symm, rfl⟩⟩
  | cons p ps =>
    have hlt := hs.2 p (by simp [hp])
    have hne : p.2 ≠ s.depth := Nat.ne_of_lt hlt
    rcases ha with rfl | rfl <;> simp [run, step, hskip, hp, hne] <;>
      exact ⟨rfl, rfl, .inl ⟨hp.symm, rfl⟩⟩

theorem run_less (hs : s.skips = false) :
    Keeps s (run (some .gap) s [.sign '<']) ∨ Opens s (run (some .gap) s [.sign '<']) := by
  by_cases hn : s.named = true
  · simp [run, step, hs, hn]
    exact .inr ⟨rfl, rfl, ⟨_, rfl⟩, rfl⟩
  · simp [run, step, hs, hn]
    exact .inl ⟨rfl, rfl, .inl ⟨rfl, rfl⟩⟩

/-- Behind what is no name, the search takes the second character for an assignment and gives up
all that is pending. -/
theorem run_lessEqual (hs : s.skips = false) :
    Keeps s (run (some .gap) s [.sign '<', .sign '=']) := by
  by_cases hn : s.named = true
  · simp [run, step, hs, hn]
    exact ⟨rfl, rfl, .inl ⟨rfl, rfl⟩⟩
  · simp [run, step, hs, hn]
    exact ⟨rfl, rfl, .inr rfl⟩

theorem step_open {s : Search} (hs : s.Beside) {c : Char} (hc : c = '(' ∨ c = '[')
    (next : Option Atom) :
    (s.step (.sign c) next).Around ∧ (s.step (.sign c) next).pending = s.pending ∧
      (s.step (.sign c) next).depth = s.depth + 1 ∧ (s.step (.sign c) next).found = s.found := by
  have hskip := hs.1
  have hlt : ∀ p ∈ s.pending, p.2 < s.depth + 1 := fun p hp => Nat.lt_succ_of_le (hs.2 p hp)
  rcases hc with rfl | rfl <;> simp only [step, hskip] <;> exact ⟨⟨rfl, hlt⟩, rfl, rfl, rfl⟩

theorem step_close {s : Search} (hs : s.skips = false) {c : Char} (hc : c = ')' ∨ c = ']')
    (next : Option Atom) :
    (s.step (.sign c) next).pending = s.settle ∧ (s.step (.sign c) next).depth = s.depth - 1 ∧
      (s.step (.sign c) next).found = s.found ∧ (s.step (.sign c) next).skips = false := by
  rcases hc with rfl | rfl <;> simp only [step, hs] <;> exact ⟨rfl, rfl, rfl, rfl⟩

/-- What a closing bracket leaves of a search. -/
structure Closes (s t : Search) : Prop where
  skips : t.skips = false
  found : t.found = s.found
  settle : (t.settle = s.pending ∧ t.depth = s.depth) ∨ t.settle = []

theorem Keeps.closes (h : Keeps s t) (hs : s.Around) : Closes s t := by
  refine ⟨h.skips, h.found, ?_⟩
  rw [settle_eq (h.around hs)]
  exact h.pending

theorem Keeps.trans_closes (h : Keeps s t) (h' : Closes t u) : Closes s u := by
  refine ⟨h'.skips, h'.found.trans h.found, ?_⟩
  rcases h'.settle with ⟨hp, hd⟩ | hp
  · rcases h.pending with ⟨hq, he⟩ | hq
    · exact .inl ⟨hp.trans hq, hd.trans he⟩
    · exact .inr (hp.trans hq)
  · exact .inr hp

/-- A closing bracket gives up the `<` that its own bracket has around it. -/
theorem Opens.closes (h : Opens s t) (h' : Keeps t u) (hs : s.Around) : Closes s u := by
  refine ⟨h'.skips, h'.found.trans h.found, ?_⟩
  obtain ⟨p, hp⟩ := h.pending
  rcases h'.pending with ⟨hq, he⟩ | hq
  · refine .inl ⟨?_, he.trans h.depth⟩
    rw [settle, hq, hp, he, h.depth, dropWhile_cons, if_pos (by simp)]
    exact settle_eq hs
  · exact .inr (by rw [settle, hq]; rfl)

end Search

/-! ## Pieces that leave nothing behind -/

open Search

/-- Pieces that the search comes out of as it went into them, beside what is pending. -/
def Calm (ps : List Piece) : Prop :=
  ∀ s next, s.Beside → Keeps s (run next s (ps.flatMap atomsOf))

def Bracketed (ps : List Piece) : Prop :=
  ∀ s next, s.Around → Closes s (run next s (ps.flatMap atomsOf))

section Calm

variable {ps qs : List Piece}

theorem Calm.append (hp : Calm ps) (hq : Calm qs) : Calm (ps ++ qs) := by
  intro s next hs
  rw [flatMap_append, run_append]
  have h := hp s ((qs.flatMap atomsOf).head?.or next) hs
  exact h.trans (hq _ next (h.beside hs))

theorem Calm.bracketed (hp : Calm ps) : Bracketed ps := fun s next hs =>
  (hp s next hs.beside).closes hs

theorem Calm.append_bracketed (hp : Calm ps) (hq : Bracketed qs) : Bracketed (ps ++ qs) := by
  intro s next hs
  rw [flatMap_append, run_append]
  have h := hp s ((qs.flatMap atomsOf).head?.or next) hs.beside
  exact h.trans_closes (hq _ next (h.around hs))

theorem calm_word (x : String) : Calm [.word x] := fun _ next hs => keeps_word hs.1 _ next

theorem calm_number (x : String) : Calm [.number x] := fun _ next hs => keeps_word hs.1 _ next

theorem calm_blank : Calm [.blank] := fun _ next hs => keeps_gap hs.1 next

theorem calm_sign {m : String} (hm : m ∈ [",", ".", "-", "~", "+", "*", "^"]) :
    Calm [.mark m] := by
  intro s next hs
  simp only [mem_cons, not_mem_nil, or_false] at hm
  rcases hm with rfl | rfl | rfl | rfl | rfl | rfl | rfl <;>
    exact keeps_sign hs.1 (by decide) next

theorem calm_brackets {o c : String} (h : (o = "(" ∧ c = ")") ∨ (o = "[" ∧ c = "]"))
    (hp : Bracketed ps) : Calm (.mark o :: (ps ++ [.mark c])) := by
  intro s next hs
  obtain ⟨a, b, ho, hc, hopen, hclose⟩ : ∃ a b, atomsOf (.mark o) = [.sign a] ∧
      atomsOf (.mark c) = [.sign b] ∧ (a = '(' ∨ a = '[') ∧ (b = ')' ∨ b = ']') := by
    rcases h with ⟨rfl, rfl⟩ | ⟨rfl, rfl⟩
    · exact ⟨'(', ')', rfl, rfl, by decide, by decide⟩
    · exact ⟨'[', ']', rfl, rfl, by decide, by decide⟩
  have hatoms : (Piece.mark o :: (ps ++ [.mark c])).flatMap atomsOf =
      .sign a :: (ps.flatMap atomsOf ++ [.sign b]) := by
    simp [ho, hc]
  have hstep := step_open hs hopen ((ps.flatMap atomsOf ++ [Atom.sign b]).head?.or next)
  rw [hatoms, run, run_append]
  generalize s.step (.sign a) _ = t at hstep ⊢
  obtain ⟨haround, hpending, hdepth, hfound⟩ := hstep
  have hinner := hp t (some (.sign b)) haround
  show Keeps s ((run (some (.sign b)) t (ps.flatMap atomsOf)).step (.sign b) next)
  generalize run _ t _ = u at hinner ⊢
  obtain ⟨hpend, hdep, hfnd, hskip⟩ := step_close hinner.skips hclose next
  refine ⟨hskip, hfnd.trans (hinner.found.trans hfound), ?_⟩
  rcases hinner.settle with ⟨hsettle, hd⟩ | hsettle
  · left
    constructor
    · rw [hpend, hsettle, hpending]
    · rw [hdep, hd, hdepth, Nat.add_sub_cancel]
  · exact .inr (hpend.trans hsettle)

theorem flatMap_operator (op : String) (qs : List Piece) :
    (Piece.mark op :: .blank :: qs).flatMap atomsOf =
      atomsOf (.mark op) ++ ([Piece.blank] ++ qs).flatMap atomsOf := by
  simp

theorem bracketed_binary {op : String} (hp : Calm ps) (hq : Calm qs)
    (ho : ∀ s : Search, s.Around → Keeps s (run (some .gap) s (atomsOf (.mark op))) ∨
      Opens s (run (some .gap) s (atomsOf (.mark op)))) :
    Bracketed (ps ++ .blank :: .mark op :: .blank :: qs) := by
  apply hp.append_bracketed (calm_blank.append_bracketed _)
  intro s next hs
  rw [flatMap_operator, run_append]
  have hrest := calm_blank.append hq
  rcases ho s hs with h | h
  · exact h.trans_closes ((hrest _ next (h.beside hs.beside)).closes (h.around hs))
  · exact h.closes (hrest _ next (h.beside hs)) hs

theorem calm_equality {op : String} (ho : op = "==" ∨ op = "!=") (hp : Calm ps) (hq : Calm qs) :
    Calm (ps ++ .blank :: .mark op :: .blank :: qs) := by
  apply hp.append (calm_blank.append _)
  intro s next hs
  rw [flatMap_operator, run_append]
  have hop : Keeps s (run (some .gap) s (atomsOf (.mark op))) := by
    rcases ho with rfl | rfl
    · exact run_equality hs.1 (.inl rfl)
    · exact run_equality hs.1 (.inr rfl)
  exact hop.trans (calm_blank.append hq _ next (hop.beside hs))

theorem bracketed_listed {ps : List Phrase} {q : Phrase} (hp : ∀ p ∈ ps, Calm p.pieces)
    (hq : Bracketed q.pieces) : Bracketed (Phrase.listed (ps ++ [q])) := by
  induction ps with
  | nil => exact hq
  | cons p ps ih =>
    have hrest := ih fun r hr => hp r (by simp [hr])
    have hfirst := hp p (by simp)
    have hcomma : Calm [.mark ","] := calm_sign (by decide)
    have hlisted : Phrase.listed (p :: ps ++ [q]) =
        p.pieces ++ ([.mark ","] ++ ([.blank] ++ Phrase.listed (ps ++ [q]))) := by
      cases ps <;> rfl
    rw [hlisted]
    exact hfirst.append_bracketed (hcomma.append_bracketed (calm_blank.append_bracketed hrest))

theorem calm_call {f : String} {ps : List Phrase} {q : Phrase} (hp : ∀ p ∈ ps, Calm p.pieces)
    (hq : Bracketed q.pieces) : Calm (Phrase.call f (ps ++ [q])).pieces :=
  (calm_word f).append (calm_brackets (.inl ⟨rfl, rfl⟩) (bracketed_listed hp hq))

end Calm

theorem tokenize_texts {ps : List Piece} (hs : Piece.Spaced ps) (hp : ∀ a ∈ ps, Plain a)
    (hc : Calm ps) : tokenize (Piece.texts ps).toList = ps.filterMap tokenOf := by
  have hlists : lists (ps.flatMap atomsOf) = [] := (hc {} none ⟨rfl, by simp⟩).found
  rw [tokenize, atoms_texts hs hp, hlists]
  exact tokens_texts hs hp 0

/-! ## Every expression -/

def Settles : Rank → Phrase → Prop
  | .operand, p | .signed, p | .test, p => Calm p.pieces
  | .inner, p => Bracketed p.pieces

theorem settles_formed {r : Rank} {p : Phrase} (h : Formed lexicon r p) : Settles r p := by
  have hfield : ∀ f : String, Calm ([.mark "."] ++ [.word f]) := fun f =>
    (calm_sign (by decide)).append (calm_word f)
  have hnotEqual : ∀ {p q : Phrase}, Calm p.pieces → Calm q.pieces →
      Calm (Phrase.binary "!=" p q).pieces := calm_equality (.inr rfl)
  induction h with
  | number => exact calm_number _
  | name => exact calm_word _
  | @field x f => exact (calm_word x).append (hfield f)
  | @element x i f =>
    have hindex : Calm (.mark "[" :: ([.word i] ++ [.mark "]"])) :=
      calm_brackets (.inr ⟨rfl, rfl⟩) (calm_word i).bracketed
    exact (calm_word x).append (hindex.append (hfield f))
  | group _ ih => exact calm_brackets (.inl ⟨rfl, rfl⟩) ih
  | call ps q _ _ _ ihps ihq => exact calm_call ihps ihq
  | signed _ ih | test _ ih => exact ih
  | @unary op p ho _ ih =>
    have hop : Calm [.mark op] := calm_sign (by revert op; decide)
    exact hop.append ih
  | equal ho _ _ ihp ihq => exact calm_equality (by simpa using ho) ihp ihq
  | inner _ ih => exact Calm.bracketed ih
  | binary o hh hl _ _ ihp ihq =>
    refine bracketed_binary ihp ihq fun s hs => ?_
    cases o with
    | mul | add | sub | xor => exact .inl (keeps_sign hs.1 (by decide) _)
    | and => exact .inl (run_bitwise hs.1 (.inl rfl))
    | or => exact .inl (run_bitwise hs.1 (.inr rfl))
    | eq => exact .inl (run_equality hs.1 (.inl rfl))
    | ne => exact .inl (run_equality hs.1 (.inr rfl))
    | lt => exact run_less hs.1
    | le => exact .inl (run_lessEqual hs.1)
    | gt => exact .inl (run_greater hs (.inl rfl))
    | ge => exact .inl (run_greater hs (.inr rfl))
    | andAlso | orElse => cases hl
    | _ => cases hh
  | logical o ho _ _ _ _ ihp ihq ihr iht =>
    refine bracketed_binary (hnotEqual ihp ihq) (hnotEqual ihr iht) fun s hs => ?_
    cases o with
    | andAlso => exact .inl (run_logical hs (.inl rfl))
    | orElse => exact .inl (run_logical hs (.inr rfl))
    | _ => cases ho

end TiledAutomata.Emit.Shader
