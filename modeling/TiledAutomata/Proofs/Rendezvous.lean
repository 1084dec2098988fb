import Mathlib
import TiledAutomata.Barrier

/-!
# Phases between the waits at a barrier

Parties wait at one barrier again and again, each as often as it likes. What a party does under
the lock is one move: it arrives, or it wakes up and looks at the generation again. In every order
of moves the parties stay within one phase of each other: a fast one may be back before a slow
one has looked, but it cannot get past the next wait.
-/

namespace TiledAutomata.Barrier

open Finset Function

inductive Move (n : Nat) where
  | arrive (p : Fin n)
  | wake (p : Fin n)

/-- A barrier and its parties: the waits that each has entered and those it has returned from.
A party inside a wait holds the generation in which it arrived. -/
structure Hall (n : Nat) where
  barrier : Barrier
  entered : Fin n → Nat := fun _ => 0
  returned : Fin n → Nat := fun _ => 0
  held : Fin n → Option UInt64 := fun _ => none

namespace Hall

variable {n : Nat} {s : Hall n} {p : Fin n} {g : UInt64}

/-- A party returns from its wait if the generation is over, and else sleeps on. -/
def check (s : Hall n) (p : Fin n) (g : UInt64) : Hall n :=
  if s.barrier.isOver g then
    { s with returned := update s.returned p (s.returned p + 1), held := update s.held p none }
  else { s with held := update s.held p (some g) }

def step (s : Hall n) : Move n → Hall n
  | .arrive p =>
    match s.held p with
    | none =>
      let (g, b) := s.barrier.arrive
      { s with barrier := b, entered := update s.entered p (s.entered p + 1) }.check p g
    | some _ => s
  | .wake p =>
    match s.held p with
    | none => s
    | some g => s.check p g

def run (s : Hall n) (ms : List (Move n)) : Hall n := ms.foldl step s

/-- In generation `k` each party has entered `k` waits, or one more. Those with one more are the
ones the barrier counts, and they are inside that wait. -/
structure Phase (k : Nat) (s : Hall n) : Prop where
  parties : s.barrier.parties = n
  generation : s.barrier.generation = UInt64.ofNat k
  entered : ∀ p, s.entered p = k ∨ s.entered p = k + 1 ∧ s.held p ≠ none
  waiting : s.barrier.waiting = #{p | s.entered p = k + 1}
  short : s.barrier.waiting < n
  returned : ∀ p, s.entered p = s.returned p + if s.held p = none then 0 else 1
  held : ∀ p g, s.held p = some g → g = UInt64.ofNat (s.entered p - 1)

theorem isOver_next {b : Barrier} (hb : b.generation = g + 1) : b.isOver g = true := by
  simp [isOver, hb]

namespace Phase

variable {k : Nat} (h : Phase k s)

include h

theorem isOver_iff (hg : s.held p = some g) : s.barrier.isOver g = true ↔ s.entered p = k := by
  have hentered := h.returned p
  rw [hg, if_neg nofun] at hentered
  rw [h.held p g hg]
  rcases h.entered p with hk | ⟨hk, -⟩
  · refine iff_of_true (isOver_next ?_) hk
    rw [h.generation, ← hk, hentered, UInt64.ofNat_add]
    rfl
  · simp [isOver, h.generation, hk]

theorem wake (hg : s.held p = some g) : Phase k (s.check p g) := by
  have hentered := h.returned p
  rw [hg, if_neg nofun] at hentered
  unfold check
  split
  · next hover =>
    have hk := (h.isOver_iff hg).mp hover
    refine ⟨h.parties, h.generation, fun q => ?_, h.waiting, h.short, fun q => ?_, fun q g' => ?_⟩
    all_goals by_cases hq : q = p
    · exact .inl (hq ▸ hk)
    · simpa [hq] using h.entered q
    · simp [hq, hentered]
    · simpa [hq] using h.returned q
    · simp [hq]
    · simpa [hq] using h.held q g'
  · rwa [← hg, update_eq_self]

theorem entered_of_out (hp : s.held p = none) : s.entered p = k := by
  rcases h.entered p with hk | ⟨-, hin⟩
  · exact hk
  · exact absurd hp hin

theorem counted (hp : s.held p = none) :
    #{q | update s.entered p (k + 1) q = k + 1} = s.barrier.waiting + 1 := by
  have hjoin : univ.filter (fun q => update s.entered p (k + 1) q = k + 1) =
      insert p (univ.filter fun q => s.entered q = k + 1) := by
    ext q
    by_cases hq : q = p <;> simp [update_apply, hq]
  rw [hjoin, card_insert_of_notMem (by simp [h.entered_of_out hp]), h.waiting]

theorem arrive (hp : s.held p = none) : ∃ k', Phase k' (s.step (.arrive p)) := by
  have hk := h.entered_of_out hp
  have hcount := h.counted hp
  have hreturned := h.returned p
  rw [if_pos hp, hk] at hreturned
  by_cases hlast : s.barrier.waiting + 1 = s.barrier.parties
  · -- All have entered the wait now, and it is over.
    have hall : ∀ q, update s.entered p (k + 1) q = k + 1 := by
      have hfull := card_filter_eq_iff.mp (hcount.trans (by simp [hlast, h.parties]))
      exact fun q => hfull q (mem_univ q)
    simp only [Hall.step, hp, Barrier.arrive, if_pos hlast, hk, check, isOver_next, if_true]
    refine ⟨k + 1, h.parties, ?_, fun q => .inl (hall q), by simp [hall], p.pos, fun q => ?_,
      fun q g' => ?_⟩
    · rw [h.generation, UInt64.ofNat_add]
      rfl
    all_goals by_cases hq : q = p
    · simp [hq, hreturned]
    · simpa [hq] using h.returned q
    · simp [hq]
    · simpa [hq] using h.held q g'
  · have hless : s.barrier.waiting + 1 < n :=
      Nat.lt_of_le_of_ne h.short fun heq => hlast (heq.trans h.parties.symm)
    simp only [Hall.step, hp, Barrier.arrive, if_neg hlast, hk, check, isOver, bne_self_eq_false,
      Bool.false_eq_true, if_false]
    refine ⟨k, h.parties, h.generation, fun q => ?_, hcount.symm, hless, fun q => ?_,
      fun q g' => ?_⟩
    all_goals by_cases hq : q = p
    · simp [hq]
    · simpa [hq] using h.entered q
    · simp [hq, hreturned]
    · simpa [hq] using h.returned q
    · simp [hq, h.generation, eq_comm]
    · simpa [hq] using h.held q g'

theorem step (m : Move n) : ∃ k', Phase k' (s.step m) := by
  cases m with
  | arrive p =>
    cases hp : s.held p with
    | none => exact h.arrive hp
    | some g => exact ⟨k, by simpa only [Hall.step, hp] using h⟩
  | wake p =>
    cases hp : s.held p with
    | none => exact ⟨k, by simpa only [Hall.step, hp] using h⟩
    | some g => exact ⟨k, by simpa only [Hall.step, hp] using h.wake hp⟩

theorem run (ms : List (Move n)) : ∃ k', Phase k' (s.run ms) := by
  induction ms generalizing s k with
  | nil => exact ⟨k, h⟩
  | cons m ms ih =>
    obtain ⟨k', hk'⟩ := h.step m
    exact ih hk'

theorem le_entered (p : Fin n) : k ≤ s.entered p := by
  rcases h.entered p with hk | ⟨hk, -⟩ <;> omega

theorem returned_le (p : Fin n) : s.returned p ≤ k ∧ s.entered p ≤ s.returned p + 1 := by
  have hr := h.returned p
  rcases h.entered p with hk | ⟨hk, hin⟩
  · split at hr <;> omega
  · rw [if_neg hin] at hr
    omega

/-- The last of the parties to enter a wait ends its generation. -/
theorem over_of_entered {j : Nat} (hall : ∀ q, j ≤ s.entered q) : j ≤ k := by
  by_contra hlt
  have hevery : ∀ q, s.entered q = k + 1 := by
    intro q
    have hq := hall q
    rcases h.entered q with hk | ⟨hk, -⟩ <;> omega
  have hshort := h.short
  simp [h.waiting, hevery] at hshort

end Phase

theorem phase_start (hn : 1 ≤ n) : Phase 0 ({ barrier := { parties := n } } : Hall n) := by
  refine ⟨rfl, rfl, ?_, ?_, hn, ?_, ?_⟩ <;> simp

end Hall

open Hall

/-- In every order of moves: if one party has returned from a wait, all have entered it; no party
is two returns ahead of another; and once all have entered a wait its generation is over, so
that a party that wakes up in it returns. -/
theorem phases_separated (n : Nat) (hn : 1 ≤ n) : ∃ b, create n = .ok b ∧
    ∀ ms : List (Move n), ∀ s : Hall n, s = Hall.run { barrier := b } ms →
      (∀ p q k, k ≤ s.returned p → k ≤ s.entered q) ∧
      (∀ p q, s.returned p ≤ s.returned q + 1) ∧
      ∀ k, (∀ q, k ≤ s.entered q) →
        ((∃ q, s.entered q < 2 ^ 64) → k ≤ s.barrier.generation.toNat) ∧
        ∀ p, s.entered p = k → s.held p ≠ none →
          (s.step (.wake p)).held p = none ∧ (s.step (.wake p)).returned p = k := by
  refine ⟨{ parties := n }, by simp [create]; omega, fun ms s hs => ?_⟩
  obtain ⟨c, h⟩ := (phase_start hn).run ms
  rw [← hs] at h
  refine ⟨fun p q k hk => ?_, fun p q => ?_, fun k hall => ⟨?_, fun p hp hin => ?_⟩⟩
  · exact hk.trans ((h.returned_le p).1.trans (h.le_entered q))
  · have hp := (h.returned_le p).1
    have hq := (h.returned_le q).2
    have hle := h.le_entered q
    omega
  · rintro ⟨q, hq⟩
    have hlt := (h.le_entered q).trans_lt hq
    rw [h.generation, UInt64.toNat_ofNat', Nat.mod_eq_of_lt hlt]
    exact h.over_of_entered hall
  · obtain ⟨g, hg⟩ := Option.ne_none_iff_exists'.mp hin
    have hc : s.entered p = c := by
      have hle := h.over_of_entered hall
      have hge := h.le_entered p
      omega
    have hover := (h.isOver_iff hg).mpr hc
    have hr := h.returned p
    rw [if_neg hin] at hr
    simp [Hall.step, hg, check, hover]
    omega

/-- The second party is in its next wait before the first has looked: that one returns still. -/
theorem phases_separated_fast : ∃ b, create 2 = .ok b ∧
    ∀ s, s = Hall.run { barrier := b } [.arrive (0 : Fin 2), .arrive 1, .arrive 1] →
      s.entered 1 = 2 ∧ s.held 0 = some 0 ∧
        (s.step (.wake 0)).held 0 = none ∧ (s.step (.wake 0)).returned 0 = 1 := by
  obtain ⟨b, hb, hrun⟩ := phases_separated 2 (by decide)
  have hparties : b = { parties := 2 } := by simpa [create, eq_comm] using hb
  refine ⟨b, hb, fun s hs => ?_⟩
  obtain ⟨-, -, hover⟩ := hrun _ s hs
  rw [hparties] at hs
  have hfacts : (∀ q, 1 ≤ s.entered q) ∧ s.entered 0 = 1 ∧ s.entered 1 = 2 ∧ s.held 0 = some 0 := by
    subst hs
    decide
  obtain ⟨hall, hfirst, hsecond, hheld⟩ := hfacts
  exact ⟨hsecond, hheld, (hover 1 hall).2 0 hfirst (by simp [hheld])⟩

end TiledAutomata.Barrier
