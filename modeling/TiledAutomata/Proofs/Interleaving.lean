import Mathlib.Logic.Relation
import TiledAutomata.Proofs.Phases
import TiledAutomata.Proofs.Program

/-!
# Every interleaving of the units gives the same state

Units advance one at a time in any order, and none passes a meeting point before all
have reached it. What a unit owns is then at all times what it owns after as many
actions of all units taken together, so an execution that ends has taken the whole
script and leaves the state that a run of the plan leaves. The order in which units
advance is not an input of the result.
-/

open List

namespace TiledAutomata.WorkGroup

open Option

variable {p : Plan} {input : Words} {g h s : WorkGroup} {u v k : Nat} {a : Action}

def Step (p : Plan) (input : Words) (g h : WorkGroup) : Prop := ∃ u, g.advance? p input u = some h

abbrev Reaches (p : Plan) (input : Words) : WorkGroup → WorkGroup → Prop :=
  Relation.ReflTransGen (Step p input)

def Ended (p : Plan) (input : Words) (g : WorkGroup) : Prop :=
  ∀ u, g.advance? p input u = none

theorem SameAt.with_todo (hsame : SameAt p u g h) (t : Array (List Action)) :
    SameAt p u { g with todo := t } h :=
  ⟨hsame.frame, hsame.shown, hsame.column⟩

theorem advance?_some (hadv : g.advance? p input u = some h) :
    ∃ a left, g.todo.getD u [] = a :: left ∧ (a = .meet → g.allReached (a :: left)) ∧
      h = { g.perform p input u a with
        todo := (g.perform p input u a).todo.setIfInBounds u left } := by
  unfold advance? at hadv
  split at hadv
  · cases hadv
  · rename_i a left hleft
    split at hadv
    · cases hadv
    · rename_i hcond
      refine ⟨a, left, hleft, fun hmeet => ?_, (some.inj hadv).symm⟩
      simpa [hmeet] using hcond

theorem iterations_snapshot (n : Nat) (hk : (iterations n)[k]? = some .snapshot) :
    (k = 0 ∨ ∃ j, k = j + 1 ∧ (iterations n)[j]? = some .meet) ∧
      (iterations n)[k + 1]? = some .meet := by
  induction n generalizing k with
  | zero => simp [iterations] at hk
  | succ n ih =>
    rw [iterations] at hk ⊢
    by_cases hlt : k < 6
    · rw [List.getElem?_append_left (by simpa [iteration] using hlt)] at hk
      have hk0 : k = 0 := by
        simp only [iteration] at hk
        cases k with
        | zero => rfl
        | succ j => grind
      subst hk0
      exact ⟨Or.inl rfl, rfl⟩
    · obtain ⟨m, rfl⟩ : ∃ m, k = 6 + m := ⟨k - 6, by omega⟩
      have hrest : ∀ m, (iteration ++ iterations n)[6 + m]? = (iterations n)[m]? := by
        intro m
        rw [List.getElem?_append_right (by simp [iteration])]
        simp [iteration]
      rw [hrest] at hk
      obtain ⟨hbefore, hafter⟩ := ih hk
      refine ⟨Or.inr ?_, by rw [Nat.add_assoc, hrest]; exact hafter⟩
      rcases hbefore with rfl | ⟨j, rfl, hj⟩
      · exact ⟨5, rfl, rfl⟩
      · exact ⟨6 + j, by omega, by rw [hrest]; exact hj⟩

theorem script_snapshot (hk : (script p)[k]? = some .snapshot) :
    ∃ j, k = j + 1 ∧ (script p)[j]? = some .meet ∧ (script p)[k + 1]? = some .meet := by
  have hge : 3 ≤ k := by
    match k, hk with
    | 0, hk => simp [script] at hk
    | 1, hk => simp [script] at hk
    | 2, hk => simp [script] at hk
    | k + 3, _ => omega
  obtain ⟨m, rfl⟩ : ∃ m, k = 3 + m := ⟨k - 3, by omega⟩
  have hrest : ∀ m, (script p)[3 + m]? = (iterations p.iterations ++ [.store])[m]? := by
    intro m
    rw [script, append_assoc, List.getElem?_append_right (by simp)]
    simp
  have hlt : m < (iterations p.iterations).length := by
    by_contra hge
    rw [hrest, List.getElem?_append_right (by omega)] at hk
    have := mem_of_getElem? hk
    simp at this
  rw [hrest, List.getElem?_append_left hlt] at hk
  obtain ⟨hbefore, hafter⟩ := iterations_snapshot _ hk
  have hnext : (script p)[3 + m + 1]? = some .meet := by
    rw [Nat.add_assoc, hrest]
    exact List.getElem?_append_left (List.getElem?_eq_some_iff.mp hafter).1 |>.trans hafter
  rcases hbefore with rfl | ⟨j, rfl, hj⟩
  · exact ⟨2, rfl, rfl, hnext⟩
  · refine ⟨3 + j, by omega, ?_, hnext⟩
    rw [hrest, List.getElem?_append_left (by omega)]
    exact hj

def together (p : Plan) (input : Words) (s : WorkGroup) (k : Nat) : WorkGroup :=
  lockstep p input ((script p).take k) s

theorem together_succ (hk : (script p)[k]? = some a) :
    together p input s (k + 1) = phase p input (together p input s k) a := by
  unfold together
  rw [take_add_one, hk, lockstep_append]
  rfl

theorem together_scratch (hk : (script p)[k]? = some a) (h1 : a ≠ .load) (h2 : a ≠ .publish) :
    (together p input s (k + 1)).workspace.scratch =
      (together p input s k).workspace.scratch := by
  rw [together_succ hk, phase_scratch h1 h2]

/-- Where the units of a group stand in the script, and that each owns what it owns when all
units have come that far. -/
structure Along (p : Plan) (input : Words) (s : WorkGroup) (pos : Nat → Nat) (g : WorkGroup) :
    Prop where
  size : g.todo.size = p.units
  todo : ∀ u < p.units, g.todo[u]? = some ((script p).drop (pos u))
  le : ∀ u < p.units, pos u ≤ (script p).length
  barrier : ∀ u < p.units, ∀ v < p.units, ∀ k, (script p)[k]? = some .meet → k < pos u → k ≤ pos v
  same : ∀ u < p.units, SameAt p u g (together p input s (pos u))
  idle : p.units = 0 → g = s

namespace Along

variable {pos : Nat → Nat}

theorem start (p : Plan) (input : Words) (ws : Workspace) (state : Words) :
    Along p input (start p ws state) (fun _ => 0) (start p ws state) where
  size := by simp [WorkGroup.start]
  todo u hu := by simp [WorkGroup.start, hu]
  le u _ := Nat.zero_le _
  barrier u _ v _ k _ hk := absurd hk (Nat.not_lt_zero k)
  same u _ := SameAt.refl p u _
  idle _ := rfl

section

variable (hg : Along p input s pos g)

include hg

theorem next (hu : u < p.units) {left : List Action} (htodo : g.todo.getD u [] = a :: left) :
    (script p)[pos u]? = some a ∧ left = (script p).drop (pos u + 1) := by
  rw [Array.getD_eq_getD_getElem?, hg.todo u hu, getD_some] at htodo
  have hlt : pos u < (script p).length := by
    by_contra hge
    rw [drop_eq_nil_of_le (by omega)] at htodo
    cases htodo
  rw [drop_eq_getElem_cons hlt] at htodo
  obtain ⟨rfl, rfl⟩ := List.cons.inj htodo
  exact ⟨List.getElem?_eq_getElem hlt, rfl⟩

/-- A unit at a meeting point goes on only when all units are there. -/
theorem reached (hu : u < p.units) {left : List Action} (htodo : g.todo.getD u [] = a :: left)
    (hall : g.allReached (a :: left)) (hv : v < p.units) : pos u ≤ pos v := by
  have hself : (script p).drop (pos u) = a :: left := by
    rw [← htodo, Array.getD_eq_getD_getElem?, hg.todo u hu, getD_some]
  have hmem : (script p).drop (pos v) ∈ g.todo := Array.mem_of_getElem? (hg.todo v hv)
  have hle := Array.all_eq_true_iff_forall_mem.mp hall _ hmem
  rw [decide_eq_true_eq, ← hself, length_drop, length_drop] at hle
  have := hg.le u hu
  have := hg.le v hv
  omega

theorem scratch (hu : u < p.units) (hsnap : (script p)[pos u]? = some .snapshot) (n : Nat) :
    g.workspace.scratch[n]? = (together p input s (pos u)).workspace.scratch[n]? := by
  -- the unit that owns the word
  obtain ⟨v, hv, k, rfl⟩ : ∃ v < p.units, ∃ k, n = k * p.units + v :=
    ⟨n % p.units, Nat.mod_lt _ (Nat.zero_lt_of_lt hu), n / p.units, (Nat.div_add_mod' n _).symm⟩
  obtain ⟨j, hj, hbefore, hafter⟩ := script_snapshot hsnap
  have hlo : j ≤ pos v := hg.barrier u hu v hv j hbefore (by omega)
  have hhi : pos v ≤ pos u + 1 := by
    by_contra hgt
    have := hg.barrier v hv u hu (pos u + 1) hafter (by omega)
    omega
  have hpre : (together p input s (pos u)).workspace.scratch =
      (together p input s j).workspace.scratch := by
    rw [hj]
    exact together_scratch hbefore (by decide) (by decide)
  have hpost : (together p input s (pos u + 1)).workspace.scratch =
      (together p input s (pos u)).workspace.scratch :=
    together_scratch hsnap (by decide) (by decide)
  rw [(hg.same v hv).shown]
  -- no unit is further than the meeting points on both sides of the snapshot
  rcases (by omega : pos v = j ∨ pos v = pos u ∨ pos v = pos u + 1) with heq | heq | heq
  · rw [heq, hpre]
  · rw [heq]
  · rw [heq, hpost]

theorem advance (hadv : g.advance? p input u = some h) :
    u < p.units ∧ Along p input s (Function.update pos u (pos u + 1)) h := by
  obtain ⟨a, left, htodo, hmeet, rfl⟩ := advance?_some hadv
  have hu : u < p.units := by
    by_contra hge
    rw [Array.getD_eq_getD_getElem?,
      Array.getElem?_eq_none (by rw [hg.size]; exact Nat.le_of_not_lt hge)] at htodo
    cases htodo
  obtain ⟨hact, rfl⟩ := hg.next hu htodo
  refine ⟨hu, ?_⟩
  have hpos : ∀ v, pos v ≤ Function.update pos u (pos u + 1) v := by
    intro v
    by_cases hv : v = u
    · subst hv
      simp
    · simp [hv]
  constructor
  case size => simp [perform_todo, hg.size]
  case todo =>
    intro v hv
    simp only [perform_todo, Array.getElem?_setIfInBounds]
    by_cases hvu : u = v
    · subst hvu
      simp [hg.size, hu]
    · simp [hvu, Ne.symm hvu, hg.todo v hv]
  case le =>
    intro v hv
    by_cases hvu : v = u
    · subst hvu
      rw [Function.update_self]
      exact (List.getElem?_eq_some_iff.mp hact).1
    · rw [Function.update_of_ne hvu]
      exact hg.le v hv
  case barrier =>
    intro v hv w hw k hk hlt
    by_cases hvu : v = u
    · subst hvu
      rw [Function.update_self] at hlt
      by_cases hnew : k = pos v
      · subst hnew
        rw [hact] at hk
        cases hk
        exact Nat.le_trans (hg.reached hv htodo (hmeet rfl) hw) (hpos w)
      · exact Nat.le_trans (hg.barrier v hv w hw k hk (by omega)) (hpos w)
    · rw [Function.update_of_ne hvu] at hlt
      exact Nat.le_trans (hg.barrier v hv w hw k hk hlt) (hpos w)
  case same =>
    intro v hv
    by_cases hvu : v = u
    · subst hvu
      rw [Function.update_self, together_succ hact]
      have hown : SameAt p v (g.perform p input v a)
          ((together p input s (pos v)).perform p input v a) :=
        perform_congr hv (hg.same v hv) fun hsnap n => hg.scratch hv (hsnap ▸ hact) n
      exact (hown.trans (phase_sameAt hv).symm).with_todo _
    · rw [Function.update_of_ne hvu]
      exact ((perform_other hu hv hvu).trans (hg.same v hv)).with_todo _
  case idle => omega

theorem advance?_ne_none (hu : u < p.units) (hlt : pos u < (script p).length)
    (hlast : ∀ v < p.units, pos u ≤ pos v) : g.advance? p input u ≠ none := by
  have htodo : g.todo.getD u [] = (script p)[pos u] :: (script p).drop (pos u + 1) := by
    rw [Array.getD_eq_getD_getElem?, hg.todo u hu, Option.getD_some, drop_eq_getElem_cons hlt]
  have hall : g.allReached ((script p)[pos u] :: (script p).drop (pos u + 1)) := by
    refine Array.all_eq_true_iff_forall_mem.mpr fun t ht => ?_
    obtain ⟨v, hv⟩ := Array.mem_iff_getElem?.mp ht
    have hvu : v < p.units := hg.size ▸ (Array.getElem?_eq_some_iff.mp hv).1
    rw [hg.todo v hvu, Option.some.injEq] at hv
    have := hlast v hvu
    rw [decide_eq_true_eq, ← hv, ← drop_eq_getElem_cons hlt, length_drop,
      length_drop]
    omega
  unfold advance?
  rw [htodo]
  simp only [hall, Bool.not_true, Bool.and_false]
  simp

/-- Where no unit can go on, all have taken the whole script: the unit that is furthest behind
never has to wait. -/
theorem done (hend : Ended p input g) (hu : u < p.units) : pos u = (script p).length := by
  induction hk : pos u using Nat.strongRecOn generalizing u with
  | ind k ih =>
    subst hk
    by_contra hne
    have hlt : pos u < (script p).length := Nat.lt_of_le_of_ne (hg.le u hu) hne
    have hlast : ∀ v < p.units, pos u ≤ pos v := by
      intro v hv
      by_contra hbehind
      have := ih (pos v) (by omega) hv rfl
      omega
    exact hg.advance?_ne_none hu hlt hlast (hend u)

theorem state_eq (hpos : ∀ u < p.units, pos u = k) : g.state = (together p input s k).state := by
  rcases Nat.eq_zero_or_pos p.units with hzero | hunits
  · have hidle : ∀ as s, lockstep p input as s = s := by
      intro as
      induction as with
      | nil => exact fun _ => rfl
      | cons a as ih =>
        intro s
        rw [lockstep, ih, phase, Plan.eachUnit, hzero]
        rfl
    rw [hg.idle hzero, together, hidle]
  · refine Array.ext_getElem? fun i => ?_
    have hu : i % p.units < p.units := Nat.mod_lt _ hunits
    have := (hg.same _ hu).column (i / p.units)
    rwa [hpos _ hu, Nat.div_add_mod'] at this

end

end Along

theorem Reaches.along {ws : Workspace} {state : Words}
    (hreach : Reaches p input (start p ws state) g) :
    ∃ pos, Along p input (start p ws state) pos g := by
  induction hreach with
  | refl => exact ⟨_, Along.start p input ws state⟩
  | tail _ hstep ih =>
    obtain ⟨pos, hg⟩ := ih
    obtain ⟨u, hadv⟩ := hstep
    exact ⟨_, (hg.advance hadv).2⟩

theorem together_script (p : Plan) (ws : Workspace) (state input : Words) :
    (together p input (start p ws state) (script p).length).state = (p.run ws state input).2 := by
  rw [together, take_length, run_eq_lockstep]

theorem round_along {pos : Nat → Nat} (hg : Along p input s pos g) (hpos : ∀ u < p.units, pos u = k)
    (hk : k < (script p).length) :
    ∃ pos', Along p input s pos' (round p input g) ∧ ∀ u < p.units, pos' u = k + 1 := by
  -- after `j` units of the round, these are one action ahead of the others
  have hpart : ∀ j ≤ p.units, ∃ pos',
      Along p input s pos' ((List.range j).foldl (advance p input) g) ∧
        ∀ u < p.units, pos' u = if u < j then k + 1 else k := by
    intro j hj
    induction j with
    | zero => exact ⟨pos, hg, by simpa using hpos⟩
    | succ j ih =>
      obtain ⟨pos', hg', hpos'⟩ := ih (by omega)
      have hj' : pos' j = k := by simpa using hpos' j (by omega)
      have hnext := hg'.advance?_ne_none (u := j) (by omega) (by omega) fun v hv => by
        rw [hj', hpos' v hv]
        split <;> omega
      obtain ⟨h, hadv⟩ := Option.ne_none_iff_exists'.mp hnext
      refine ⟨Function.update pos' j (pos' j + 1), ?_, fun u hu => ?_⟩
      · rw [range_succ, foldl_append, foldl_cons, foldl_nil, advance, hadv]
        exact (hg'.advance hadv).2
      · by_cases huj : u = j
        · subst huj
          simp [hj']
        · rw [Function.update_of_ne huj, hpos' u hu]
          grind
  obtain ⟨pos', hg', hpos'⟩ := hpart p.units (Nat.le_refl _)
  exact ⟨pos', hg', fun u hu => by simpa [hu] using hpos' u hu⟩

theorem rounds_along {pos : Nat → Nat} (n : Nat) (hg : Along p input s pos g)
    (hpos : ∀ u < p.units, pos u = k) (hk : k + n ≤ (script p).length) :
    ∃ pos', Along p input s pos' (rounds p input n g) ∧ ∀ u < p.units, pos' u = k + n := by
  induction n generalizing g pos k with
  | zero => exact ⟨pos, hg, hpos⟩
  | succ n ih =>
    obtain ⟨pos', hg', hpos'⟩ := round_along hg hpos (by omega)
    obtain ⟨pos'', hg'', hpos''⟩ := ih hg' hpos' (by omega)
    exact ⟨pos'', hg'', fun u hu => by rw [hpos'' u hu]; omega⟩

/-- Units that take turns leave the state that a run of the plan leaves. -/
theorem run_state (p : Plan) (ws : Workspace) (state input : Words) :
    (run p ws state input).2 = (p.run ws state input).2 := by
  obtain ⟨pos, hg, hpos⟩ := rounds_along (script p).length (Along.start p input ws state)
    (fun _ _ => rfl) (by omega)
  rw [Nat.zero_add] at hpos
  exact (hg.state_eq hpos).trans (together_script p ws state input)

theorem run_fits {ws : Workspace} (hws : ws.Fits p) (state input : Words) :
    (run p ws state input).1.Fits p := by
  have hadvance : ∀ (g : WorkGroup) (u : Nat), g.workspace.Fits p →
      (g.advance p input u).workspace.Fits p := by
    intro g u hg
    unfold advance
    cases hadv : g.advance? p input u with
    | none => exact hg
    | some h =>
      obtain ⟨a, left, -, -, rfl⟩ := advance?_some hadv
      exact perform_fits hg
  have hround : ∀ g : WorkGroup, g.workspace.Fits p → (round p input g).workspace.Fits p :=
    fun g hg => foldlRecOn _ _ (motive := fun h : WorkGroup => h.workspace.Fits p) hg
      fun h hh u _ => hadvance h u hh
  have hrounds : ∀ (n : Nat) (g : WorkGroup), g.workspace.Fits p →
      (rounds p input n g).workspace.Fits p := by
    intro n
    induction n with
    | zero => exact fun g hg => hg
    | succ n ih => exact fun g hg => ih _ (hround g hg)
  exact hrounds _ _ hws

def follow (p : Plan) (input : Words) : List Nat → WorkGroup → Option WorkGroup
  | [], g => some g
  | u :: us, g => (g.advance? p input u).bind (follow p input us)

theorem follow_reaches {us : List Nat} (h : follow p input us g = some s) :
    Reaches p input g s := by
  induction us generalizing g with
  | nil =>
    cases h
    exact Relation.ReflTransGen.refl
  | cons u us ih =>
    obtain ⟨g', hadv, hrest⟩ := bind_eq_some_iff.mp h
    exact Relation.ReflTransGen.head ⟨u, hadv⟩ (ih hrest)

theorem ended_of_todo (h : ∀ t ∈ g.todo, t = []) : Ended p input g := by
  intro u
  have htodo : g.todo.getD u [] = [] := by
    rw [Array.getD_eq_getD_getElem?]
    cases ht : g.todo[u]? with
    | none => rfl
    | some t => exact h t (Array.mem_of_getElem? ht)
  rw [advance?, htodo]

/-- An execution that cannot go on has taken the whole script in every unit, and has left the state
that a run of the plan leaves. -/
theorem interleaving_state {p : Plan} {ws : Workspace} {state input : Words} {g : WorkGroup}
    (hreach : Reaches p input (start p ws state) g) (hend : Ended p input g) :
    (∀ u < p.units, g.todo[u]? = some []) ∧ g.state = (p.run ws state input).2 := by
  obtain ⟨pos, hg⟩ := hreach.along
  constructor
  · intro u hu
    rw [hg.todo u hu, hg.done hend hu, List.drop_length]
  · rw [hg.state_eq fun u hu => hg.done hend hu, together_script]

/-- Two units that pass each other in turn, each as far as it can go. -/
theorem interleaving_state_leapfrog : ∃ a g,
    Automaton.compile (some Descriptor.relay) = .ok a ∧
    Reaches a.plan #[] (start a.plan a.plan.workspace #[1, 2, 3, 4, 5, 6]) g ∧
    Ended a.plan #[] g ∧ g.state = (a.plan.run a.plan.workspace #[1, 2, 3, 4, 5, 6] #[]).2 := by
  obtain ⟨a, ha, hrun⟩ := Outcome.exists_ok (Automaton.compile (some Descriptor.relay))
    (fun a =>
      (follow a.plan #[]
        ([1, 1] ++ (List.replicate 3 [0, 0, 0, 0, 1, 1, 1, 1]).flatten ++ [0, 0, 0, 0, 1, 1])
        (start a.plan a.plan.workspace #[1, 2, 3, 4, 5, 6])).any fun g =>
          g.todo == #[[], []])
    (by decide +kernel)
  obtain ⟨g, hg, htodo⟩ := Outcome.exists_some _ _ hrun
  have hreach := follow_reaches hg
  have hend : Ended a.plan #[] g := by
    refine ended_of_todo ?_
    rw [eq_of_beq htodo]
    simp
  exact ⟨a, g, ha, hreach, hend, (interleaving_state hreach hend).2⟩

end TiledAutomata.WorkGroup
