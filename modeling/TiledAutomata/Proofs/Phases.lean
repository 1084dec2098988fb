import Mathlib.Data.List.Basic
import TiledAutomata.WorkGroup

/-!
# What a phase of one unit touches

A unit owns its frame, and its columns of the arena and of the state. A phase of a unit
changes only what the unit owns. It reads only that too, except that a snapshot reads what
all units have published. A phase taken by all units in turn
therefore does to each unit what it would do by itself.
-/

open List

namespace TiledAutomata

open Plan

variable {place : Nat → Nat} {input state : Words}

namespace Plan

variable {p : Plan} {ws : Workspace} {u v : Nat}

theorem publish_frames : (p.publish ws u).frames = ws.frames := by
  unfold publish
  split <;> rfl

theorem load_frame_other (h : v ≠ u) : (p.load state input ws u).frames[v]? = ws.frames[v]? := by
  simp [load, publish_frames, h.symm]

theorem load_frame :
    (p.load state input ws u).frames[u]? = ws.frames[u]?.map fun _ => p.loaded state input u := by
  simp only [load, publish_frames, Array.getElem?_setIfInBounds, if_true]
  by_cases hu : u < ws.frames.size <;> simp [hu]

theorem loaded_congr {state' : Words}
    (h : ∀ s, state[s * p.units + u]? = state'[s * p.units + u]?) :
    p.loaded state input u = p.loaded state' input u := by
  simp only [loaded, Array.getD_eq_getD_getElem?, h]

theorem getElem?_foldl_set (hinj : Function.Injective place) (value : Nat → Word) (ss : List Nat)
    (state : Words) (s : Nat) :
    (ss.foldl (fun st s => st.setIfInBounds (place s) (value s)) state)[place s]? =
      if s ∈ ss then state[place s]?.map fun _ => value s else state[place s]? := by
  induction ss generalizing state with
  | nil => simp
  | cons t ss ih =>
    rw [foldl_cons, ih, Array.getElem?_setIfInBounds]
    by_cases hst : t = s
    · subst hst
      by_cases hp : place t < state.size <;> simp [hp]
    · have hplace : place t ≠ place s := fun h => hst (hinj h)
      simp [hplace, Ne.symm hst]

theorem foldl_set_frame (value : Nat → Word) (ss : List Nat) (state : Words) {i : Nat}
    (h : ∀ s ∈ ss, place s ≠ i) :
    (ss.foldl (fun st s => st.setIfInBounds (place s) (value s)) state)[i]? = state[i]? := by
  refine foldlRecOn ss _ (motive := fun st => st[i]? = state[i]?) rfl fun st hst s hs => ?_
  rw [Array.getElem?_setIfInBounds, if_neg (h s hs), hst]

theorem foldl_set_size (value : Nat → Word) (ss : List Nat) (state : Words) :
    (ss.foldl (fun st s => st.setIfInBounds (place s) (value s)) state).size = state.size := by
  refine foldlRecOn ss _ (motive := fun st : Words => st.size = state.size) rfl fun st hst s _ => ?_
  rw [Array.size_setIfInBounds, hst]

theorem store_size : (p.store ws state u).size = state.size := by
  unfold store
  split
  · exact foldl_set_size _ _ _
  · rfl

theorem column_ne (hu : u < p.units) (hv : v < p.units) (h : v ≠ u) (s t : Nat) :
    s * p.units + u ≠ t * p.units + v := by
  intro heq
  have := congrArg (· % p.units) heq
  simp only [Nat.mul_add_mod_of_lt hu, Nat.mul_add_mod_of_lt hv] at this
  omega

theorem column_injective (hu : u < p.units) : Function.Injective fun s => s * p.units + u := by
  intro s t h
  have := congrArg (· / p.units) h
  simpa [Nat.mul_add_div (Nat.zero_lt_of_lt hu), Nat.mul_comm _ p.units,
    Nat.div_eq_of_lt hu] using this

theorem visible_size (f : Frame) : (p.visible f).size = p.inlets.length := by simp [visible]

theorem publish_size : (p.publish ws u).scratch.size = ws.scratch.size := by
  unfold publish
  split
  · exact foldl_set_size _ _ _
  · rfl

theorem publish_column_other (hu : u < p.units) (hv : v < p.units) (h : v ≠ u) (k : Nat) :
    (p.publish ws u).scratch[k * p.units + v]? = ws.scratch[k * p.units + v]? := by
  unfold publish
  split
  · exact foldl_set_frame _ _ _ fun t _ => column_ne hu hv h t k
  · rfl

theorem publish_column (hu : u < p.units) (k : Nat) :
    (p.publish ws u).scratch[k * p.units + u]? =
      match ws.frames[u]? with
      | some f =>
        if k < p.inlets.length then
          ws.scratch[k * p.units + u]?.map fun _ => (p.visible f).getD k 0
        else ws.scratch[k * p.units + u]?
      | none => ws.scratch[k * p.units + u]? := by
  unfold publish
  cases ws.frames[u]? with
  | some f =>
    simp only [visible_size, ← mem_range (n := p.inlets.length)]
    exact getElem?_foldl_set (column_injective hu) (fun k => (p.visible f).getD k 0) _ _ k
  | none => rfl

theorem load_column_other (hu : u < p.units) (hv : v < p.units) (h : v ≠ u) (k : Nat) :
    (p.load state input ws u).scratch[k * p.units + v]? = ws.scratch[k * p.units + v]? :=
  publish_column_other hu hv h k

theorem load_column (hu : u < p.units) (k : Nat) :
    (p.load state input ws u).scratch[k * p.units + u]? =
      match ws.frames[u]? with
      | some _ =>
        if k < p.inlets.length then
          ws.scratch[k * p.units + u]?.map fun _ =>
            (p.visible (p.loaded state input u)).getD k 0
        else ws.scratch[k * p.units + u]?
      | none => ws.scratch[k * p.units + u]? := by
  have hf : (p.load state input ws u).frames[u]? = _ := load_frame
  rw [load, publish_frames] at hf
  rw [load, publish_column hu, hf]
  cases ws.frames[u]? <;> rfl

theorem store_column_other (hu : u < p.units) (hv : v < p.units) (h : v ≠ u) (s : Nat) :
    (p.store ws state u)[s * p.units + v]? = state[s * p.units + v]? := by
  unfold store
  split
  · exact foldl_set_frame _ _ _ fun t _ => column_ne hu hv h t s
  · rfl

theorem store_column (hu : u < p.units) (s : Nat) :
    (p.store ws state u)[s * p.units + u]? =
      match ws.frames[u]? with
      | some f =>
        if s ∈ p.stored then state[s * p.units + u]?.map fun _ => f.vars.getD s 0
        else state[s * p.units + u]?
      | none => state[s * p.units + u]? := by
  unfold store
  cases ws.frames[u]? with
  | some f => exact getElem?_foldl_set (column_injective hu) (fun s => f.vars.getD s 0) _ _ s
  | none => rfl

end Plan

/-- Room for every unit of a plan. What stands in it does not matter. -/
structure Workspace.Fits (p : Plan) (ws : Workspace) : Prop where
  frames : ws.frames.size = p.units
  scratch : ws.scratch.size = p.inlets.length * p.units

namespace Workspace.Fits

variable {p : Plan} {ws : Workspace} {u : Nat}

theorem frame (h : ws.Fits p) (hu : u < p.units) : ∃ f, ws.frames[u]? = some f :=
  ⟨_, Array.getElem?_eq_getElem (by rw [h.frames]; exact hu)⟩

theorem word (h : ws.Fits p) {n : Nat} (hn : n < p.inlets.length * p.units) :
    ∃ w, ws.scratch[n]? = some w :=
  ⟨_, Array.getElem?_eq_getElem (by rw [h.scratch]; exact hn)⟩

end Workspace.Fits

theorem Plan.workspace_fits (p : Plan) : p.workspace.Fits p :=
  ⟨by simp [workspace], by simp [workspace]⟩

theorem Plan.publish_fits {p : Plan} {ws : Workspace} {u : Nat} (h : ws.Fits p) :
    (p.publish ws u).Fits p :=
  ⟨by rw [publish_frames, h.frames], by rw [publish_size, h.scratch]⟩

namespace WorkGroup

variable {p : Plan} {input : Words} {g h k : WorkGroup} {u v : Nat} {a : Action}

attribute [local simp] perform Array.getElem?_modify

structure SameAt (p : Plan) (u : Nat) (g h : WorkGroup) : Prop where
  frame : g.workspace.frames[u]? = h.workspace.frames[u]?
  shown : ∀ k, g.workspace.scratch[k * p.units + u]? = h.workspace.scratch[k * p.units + u]?
  column : ∀ s, g.state[s * p.units + u]? = h.state[s * p.units + u]?

namespace SameAt

theorem refl (p : Plan) (u : Nat) (g : WorkGroup) : SameAt p u g g :=
  ⟨rfl, fun _ => rfl, fun _ => rfl⟩

theorem symm (h1 : SameAt p u g h) : SameAt p u h g :=
  ⟨h1.frame.symm, fun k => (h1.shown k).symm, fun s => (h1.column s).symm⟩

theorem trans (h1 : SameAt p u g h) (h2 : SameAt p u h k) : SameAt p u g k :=
  ⟨h1.frame.trans h2.frame, fun k => (h1.shown k).trans (h2.shown k),
    fun s => (h1.column s).trans (h2.column s)⟩

end SameAt

theorem perform_other (hu : u < p.units) (hv : v < p.units) (hne : v ≠ u) :
    SameAt p v (g.perform p input u a) g := by
  cases a with
  | load => exact ⟨load_frame_other hne, load_column_other hu hv hne, fun _ => rfl⟩
  | constants =>
    exact ⟨by simp [Plan.constants, hne.symm], fun _ => rfl, fun _ => rfl⟩
  | snapshot =>
    exact ⟨by simp [Plan.snapshot, hne.symm], fun _ => rfl, fun _ => rfl⟩
  | step => exact ⟨by simp [Plan.step, hne.symm], fun _ => rfl, fun _ => rfl⟩
  | publish =>
    exact ⟨by simp [publish_frames], publish_column_other hu hv hne, fun _ => rfl⟩
  | store => exact ⟨rfl, fun _ => rfl, fun s => store_column_other hu hv hne s⟩
  | meet => exact SameAt.refl p v g

theorem perform_congr (hu : u < p.units) (hsame : SameAt p u g h)
    (hpub : a = .snapshot → ∀ n : Nat, g.workspace.scratch[n]? = h.workspace.scratch[n]?) :
    SameAt p u (g.perform p input u a) (h.perform p input u a) := by
  obtain ⟨hframe, hshown, hcol⟩ := hsame
  cases a with
  | load =>
    refine ⟨?_, fun k => ?_, hcol⟩
    · simp only [perform, load_frame, hframe, loaded_congr hcol]
    · simp only [perform, load_column hu, hframe, hshown, loaded_congr hcol]
  | constants =>
    exact ⟨by simp [Plan.constants, hframe], hshown, hcol⟩
  | snapshot =>
    refine ⟨?_, hshown, hcol⟩
    have hobserve : p.observe g.workspace.scratch u = p.observe h.workspace.scratch u := by
      funext f
      simp only [Plan.observe, Plan.received, hpub rfl]
    simp [Plan.snapshot, hframe, hobserve]
  | step => exact ⟨by simp [Plan.step, hframe], hshown, hcol⟩
  | publish =>
    refine ⟨?_, fun k => ?_, hcol⟩
    · simpa [publish_frames] using hframe
    · simp only [perform, publish_column hu, hframe, hshown]
  | store =>
    refine ⟨hframe, hshown, fun s => ?_⟩
    simp only [perform, store_column hu, hframe, hcol]
  | meet => exact ⟨hframe, hshown, hcol⟩

theorem perform_scratch (h1 : a ≠ .load) (h2 : a ≠ .publish) :
    (g.perform p input u a).workspace.scratch = g.workspace.scratch := by
  cases a with
  | load => exact absurd rfl h1
  | publish => exact absurd rfl h2
  | _ => rfl

theorem perform_todo : (g.perform p input u a).todo = g.todo := by
  cases a <;> rfl

theorem perform_fits (hfits : g.workspace.Fits p) : (g.perform p input u a).workspace.Fits p := by
  cases a with
  | load => exact publish_fits ⟨by simp [hfits.frames], hfits.scratch⟩
  | publish => exact publish_fits hfits
  | constants => exact ⟨by simp [constants, hfits.frames], hfits.scratch⟩
  | snapshot => exact ⟨by simp [snapshot, hfits.frames], hfits.scratch⟩
  | step => exact ⟨by simp [step, hfits.frames], hfits.scratch⟩
  | store | meet => exact hfits

def phase (p : Plan) (input : Words) (g : WorkGroup) (a : Action) : WorkGroup :=
  p.eachUnit (fun g u => g.perform p input u a) g

theorem foldl_perform_scratch (us : List Nat) (h1 : a ≠ .load) (h2 : a ≠ .publish) :
    (us.foldl (fun g u => g.perform p input u a) g).workspace.scratch =
      g.workspace.scratch := by
  refine foldlRecOn us _
    (motive := fun h : WorkGroup => h.workspace.scratch = g.workspace.scratch) rfl
    fun h hh u _ => ?_
  rw [perform_scratch h1 h2, hh]

theorem foldl_perform_other (us : List Nat) (hus : ∀ w ∈ us, w < p.units) (hv : v < p.units)
    (hnot : v ∉ us) : SameAt p v (us.foldl (fun g u => g.perform p input u a) g) g := by
  refine foldlRecOn us _ (motive := fun h => SameAt p v h g) (SameAt.refl p v g)
    fun h hh u hu => (perform_other (hus u hu) hv fun heq => hnot (heq ▸ hu)).trans hh

/-- A phase taken by all units does to each what it would do by itself. -/
theorem phase_sameAt (hu : u < p.units) :
    SameAt p u (phase p input g a) (g.perform p input u a) := by
  -- the units before `u`, then `u`, then the units after it
  have hsplit : List.range p.units =
      List.range u ++ u :: (List.range (p.units - u - 1)).map (u + 1 + ·) := by
    conv_lhs => rw [show p.units = u + 1 + (p.units - u - 1) by omega, range_add,
      range_succ]
    simp
  have hbefore : ∀ w ∈ List.range u, w < p.units := by
    intro w hw
    rw [mem_range] at hw
    omega
  have hafter : ∀ w ∈ (List.range (p.units - u - 1)).map (u + 1 + ·), w < p.units ∧ w ≠ u := by
    intro w hw
    obtain ⟨j, hj, rfl⟩ := mem_map.mp hw
    rw [mem_range] at hj
    omega
  unfold phase Plan.eachUnit
  rw [hsplit, foldl_append, foldl_cons]
  refine (foldl_perform_other _ (fun w hw => (hafter w hw).1) hu
    fun hm => (hafter u hm).2 rfl).trans
      (perform_congr hu (foldl_perform_other _ hbefore hu (by simp)) ?_)
  rintro rfl n
  rw [foldl_perform_scratch (List.range u) (by decide) (by decide)]

theorem phase_scratch (h1 : a ≠ .load) (h2 : a ≠ .publish) :
    (phase p input g a).workspace.scratch = g.workspace.scratch :=
  foldl_perform_scratch _ h1 h2

def lockstep (p : Plan) (input : Words) : List Action → WorkGroup → WorkGroup
  | [], g => g
  | a :: as, g => lockstep p input as (phase p input g a)

theorem lockstep_append (as bs : List Action) (g : WorkGroup) :
    lockstep p input (as ++ bs) g = lockstep p input bs (lockstep p input as g) := by
  induction as generalizing g with
  | nil => rfl
  | cons a as ih => exact ih _

theorem phase_workspace {f : Workspace → Nat → Workspace}
    (h : ∀ ws u, perform p input { g with workspace := ws } u a = { g with workspace := f ws u }) :
    phase p input g a = { g with workspace := p.eachUnit f g.workspace } := by
  have hfold : ∀ (us : List Nat) (ws : Workspace),
      us.foldl (fun g u => g.perform p input u a) { g with workspace := ws } =
        { g with workspace := us.foldl f ws } := by
    intro us
    induction us with
    | nil => exact fun _ => rfl
    | cons u us ih =>
      intro ws
      rw [foldl_cons, foldl_cons, h, ih]
  exact hfold _ g.workspace

theorem phase_load :
    phase p input g .load =
      { g with workspace := p.eachUnit (p.load g.state input) g.workspace } :=
  phase_workspace fun _ _ => rfl

theorem phase_constants :
    phase p input g .constants = { g with workspace := p.eachUnit p.constants g.workspace } :=
  phase_workspace fun _ _ => rfl

theorem phase_snapshot :
    phase p input g .snapshot = { g with workspace := p.eachUnit p.snapshot g.workspace } :=
  phase_workspace fun _ _ => rfl

theorem phase_step :
    phase p input g .step = { g with workspace := p.eachUnit p.step g.workspace } :=
  phase_workspace fun _ _ => rfl

theorem phase_publish :
    phase p input g .publish = { g with workspace := p.eachUnit p.publish g.workspace } :=
  phase_workspace fun _ _ => rfl

theorem phase_store :
    phase p input g .store = { g with state := p.eachUnit (p.store g.workspace) g.state } := by
  have hfold : ∀ (us : List Nat) (state : Words),
      us.foldl (fun g u => g.perform p input u .store) { g with state } =
        { g with state := us.foldl (p.store g.workspace) state } := by
    intro us
    induction us with
    | nil => exact fun _ => rfl
    | cons u us ih => exact fun state => ih _
  exact hfold _ g.state

theorem phase_meet : phase p input g .meet = g := by
  unfold phase Plan.eachUnit
  induction List.range p.units with
  | nil => rfl
  | cons u us ih => exact ih

theorem lockstep_iteration :
    lockstep p input iteration g = { g with workspace := p.iterate g.workspace } := by
  simp only [iteration, lockstep, phase_meet, phase_snapshot, phase_step, phase_publish]
  rfl

theorem lockstep_iterations (n : Nat) (g : WorkGroup) :
    lockstep p input (iterations n) g = { g with workspace := p.iterateN n g.workspace } := by
  induction n generalizing g with
  | zero => rfl
  | succ n ih =>
    rw [iterations, lockstep_append, lockstep_iteration, ih]
    rfl

theorem phase_fits (hfits : g.workspace.Fits p) : (phase p input g a).workspace.Fits p :=
  foldlRecOn _ _ (motive := fun h : WorkGroup => h.workspace.Fits p) hfits
    fun _ hh _ _ => perform_fits hh

theorem lockstep_fits (as : List Action) (hfits : g.workspace.Fits p) :
    (lockstep p input as g).workspace.Fits p := by
  induction as generalizing g with
  | nil => exact hfits
  | cons a as ih => exact ih (phase_fits hfits)

theorem run_eq_lockstep (p : Plan) (ws : Workspace) (state input : Words) :
    p.run ws state input =
      ((lockstep p input (script p) (start p ws state)).workspace,
        (lockstep p input (script p) (start p ws state)).state) := by
  rw [script, lockstep_append, lockstep_append, lockstep_iterations]
  simp only [lockstep, phase_store, phase_meet, phase_load, phase_constants]
  rfl

end WorkGroup

theorem Plan.run_fits {p : Plan} {ws : Workspace} (h : ws.Fits p) (state input : Words) :
    (p.run ws state input).1.Fits p := by
  rw [WorkGroup.run_eq_lockstep]
  exact WorkGroup.lockstep_fits _ h

end TiledAutomata
