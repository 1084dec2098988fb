import TiledAutomata.Cpu
import TiledAutomata.Proofs.Interleaving
import TiledAutomata.Proofs.Lanes
import TiledAutomata.Proofs.Synchronous

/-!
# Updates of carried instances

An automaton whose statements are all bitwise advances what its words carry in a lane as
it would advance the carried words themselves. This holds for a run of the plan, and for
a whole update of an instance with its maps, whichever schedule and workspace either
side uses.
-/

open Array

namespace TiledAutomata

def Program.bitwise (p : Program) : Bool :=
  p.constant.all Assign.bitwise && p.dynamic.all Assign.bitwise

namespace Lane

variable {l : Lane} {state state' input input' : Words}

structure CarriesAll (l : Lane) (ws vs : Words) : Prop where
  size : ws.size = vs.size
  word : ∀ i, l.Carries (ws.getD i 0) (vs.getD i 0)

structure CarriesMoment (l : Lane) (m m' : Program.Moment) : Prop where
  own : ∀ u, l.CarriesVars (m.own u) (m'.own u)
  shown : ∀ u, l.CarriesVars (m.shown u) (m'.shown u)

theorem CarriesAll.loaded (h : l.CarriesAll state state') (p : Program) (u : Nat) :
    l.CarriesVars (p.loaded state u) (p.loaded state' u) := by
  intro x
  unfold Program.loaded
  split
  · exact h.word _
  · exact Carries.zero

theorem CarriesMoment.observed {m m' : Program.Moment} (h : l.CarriesMoment m m') (p : Program)
    (u : Nat) :
    l.CarriesVars (p.observed m.shown u (m.own u)) (p.observed m'.shown u (m'.own u)) := by
  intro x
  unfold Program.observed
  split
  · rename_i k _
    unfold Program.reading
    cases p.place? u k with
    | none => exact Carries.zero
    | some n =>
      unfold Program.found
      rw [Option.bind_some, Option.bind_some]
      cases p.readings[n / p.unitCount]? with
      | none => exact Carries.zero
      | some r => exact h.shown _ _
  · exact h.own u x

theorem CarriesMoment.next {m m' : Program.Moment} (h : l.CarriesMoment m m') {p : Program}
    (hp : p.dynamic.all Assign.bitwise = true) :
    l.CarriesMoment (p.next input m) (p.next input' m') :=
  ⟨fun u => (h.observed p u).execAll hp, fun u => (h.observed p u).execAll hp⟩

theorem CarriesAll.moment {p : Program} (hp : p.bitwise = true) (h : l.CarriesAll state state')
    (t : Nat) : l.CarriesMoment (p.moment state input t) (p.moment state' input' t) := by
  obtain ⟨hconstant, hdynamic⟩ := Bool.and_eq_true_iff.mp hp
  induction t with
  | zero => exact ⟨fun u => (h.loaded p u).execAll hconstant, h.loaded p⟩
  | succ t ih => exact ih.next hdynamic

theorem CarriesAll.of_getElem? {ws vs : Words} (hsize : ws.size = vs.size)
    (h : ∀ i < ws.size, ∃ w v, ws[i]? = some w ∧ vs[i]? = some v ∧ l.Carries w v) :
    l.CarriesAll ws vs := by
  refine ⟨hsize, fun i => ?_⟩
  rw [getD_eq_getD_getElem?, getD_eq_getD_getElem?]
  by_cases hi : i < ws.size
  · obtain ⟨w, v, hw, hv, hcarries⟩ := h i hi
    rw [hw, hv]
    exact hcarries
  · rw [Array.getElem?_eq_none (by omega), Array.getElem?_eq_none (by omega)]
    exact Carries.zero

theorem CarriesAll.getElem? {ws vs : Words} (h : l.CarriesAll ws vs) {i : Nat}
    (hi : i < ws.size) : ∃ w v, ws[i]? = some w ∧ vs[i]? = some v ∧ l.Carries w v := by
  have hi' : i < vs.size := h.size ▸ hi
  have hword := h.word i
  rw [getD_eq_getD_getElem?, getD_eq_getD_getElem?, Array.getElem?_eq_getElem hi,
    Array.getElem?_eq_getElem hi'] at hword
  exact ⟨_, _, Array.getElem?_eq_getElem hi, Array.getElem?_eq_getElem hi', hword⟩

end Lane

namespace Automaton.Built

variable {d : Descriptor} {a : Automaton} {w : Wiring} {cs : List Program.Compiled}
  {ws ws' : Workspace}

theorem run_word (hb : a.Built d w cs) (i : Nat) :
    (∃ u x, ∀ ws : Workspace, ws.Fits a.plan → ∀ state input : Words, i < state.size →
      (a.plan.run ws state input).2[i]? =
        some ((a.program.moment state input a.plan.iterations).own u x)) ∨
    ∀ ws : Workspace, ws.Fits a.plan → ∀ state input : Words,
      (a.plan.run ws state input).2[i]? = state[i]? := by
  by_cases hi : ∃ x ∈ Program.outputVars a.program.layout, ∃ s,
      a.program.layout.slot? x = some s ∧ ∃ u < a.plan.units, i = s * a.plan.units + u
  · obtain ⟨x, hx, s, hs, u, hu, rfl⟩ := hi
    exact Or.inl ⟨u, x, fun ws hws state input hlt => hb.run_output hws state input hx hs hu hlt⟩
  · refine Or.inr fun ws hws state input => hb.run_other hws state input ?_
    exact fun x hx s hs u hu heq => hi ⟨x, hx, s, hs, u, hu, heq⟩

/-- What a workspace held before does not matter. -/
theorem run_workspace (hb : a.Built d w cs) (hws : ws.Fits a.plan) (hws' : ws'.Fits a.plan)
    (state input : Words) : (a.plan.run ws state input).2 = (a.plan.run ws' state input).2 := by
  refine ext_getElem? fun i => ?_
  by_cases hi : i < state.size
  · rcases hb.run_word i with ⟨u, x, hout⟩ | hother
    · rw [hout ws hws state input hi, hout ws' hws' state input hi]
    · rw [hother ws hws, hother ws' hws']
  · rw [Array.getElem?_eq_none (by rw [hb.run_size hws]; omega),
      Array.getElem?_eq_none (by rw [hb.run_size hws']; omega)]

theorem run_carries (hb : a.Built d w cs) (hbits : a.program.bitwise = true)
    (hws : ws.Fits a.plan) (hws' : ws'.Fits a.plan) {l : Lane} {state state' : Words}
    (h : l.CarriesAll state state') (input input' : Words) :
    l.CarriesAll (a.plan.run ws state input).2 (a.plan.run ws' state' input').2 := by
  have hsize := hb.run_size hws state input
  refine Lane.CarriesAll.of_getElem? (by rw [hsize, hb.run_size hws', h.size]) fun i hi => ?_
  rw [hsize] at hi
  rcases hb.run_word i with ⟨u, x, hout⟩ | hother
  · exact ⟨_, _, hout ws hws state input hi, hout ws' hws' state' input' (h.size ▸ hi),
      (h.moment hbits a.plan.iterations).own u x⟩
  · rw [hother ws hws, hother ws' hws']
    exact h.getElem? hi

end Automaton.Built

namespace Lane

variable {l : Lane} {ws vs : Words}

theorem CarriesAll.set (h : l.CarriesAll ws vs) (i : Nat) {w v : Word} (hwv : l.Carries w v) :
    l.CarriesAll (ws.setIfInBounds i w) (vs.setIfInBounds i v) := by
  refine ⟨by simp [h.size], fun j => ?_⟩
  simp only [getD_eq_getD_getElem?, Array.getElem?_setIfInBounds, h.size]
  by_cases hij : i = j
  · by_cases hi : i < vs.size
    · simpa [hij, hij ▸ hi] using hwv
    · simpa [hij, hij ▸ hi] using Carries.zero
  · have hword := h.word j
    simpa [hij, getD_eq_getD_getElem?] using hword

theorem CarriesAll.forall₂ (h : l.CarriesAll ws vs) :
    List.Forall₂ l.Carries ws.toList vs.toList := by
  refine List.forall₂_iff_get.mpr ⟨by simpa using h.size, fun i hi hi' => ?_⟩
  have hword := h.word i
  rw [length_toList] at hi hi'
  simpa [getD_eq_getD_getElem?, hi, hi'] using hword

theorem CarriesAll.scatter {input input' : Words} (h : l.CarriesAll ws vs)
    (hin : l.CarriesAll input input') (map : Words) :
    l.CarriesAll (Cpu.scatter ws map input) (Cpu.scatter vs map input') := by
  have hfold : ∀ (ms is js : List Word), List.Forall₂ l.Carries is js → ∀ ws vs : Words,
      l.CarriesAll ws vs →
      l.CarriesAll ((ms.zip is).foldl (fun st sv => st.setIfInBounds sv.1.toInt.toNat sv.2) ws)
        ((ms.zip js).foldl (fun st sv => st.setIfInBounds sv.1.toInt.toNat sv.2) vs) := by
    intro ms is js hij
    induction hij generalizing ms with
    | nil => simp
    | cons hwv _ ih =>
      cases ms with
      | nil => simp
      | cons m ms => exact fun ws vs h => ih ms _ _ (h.set _ hwv)
  unfold Cpu.scatter
  rw [← foldl_toList, ← foldl_toList, toList_zip, toList_zip]
  exact hfold _ _ _ hin.forall₂ _ _ h

theorem CarriesAll.gather (h : l.CarriesAll ws vs) (map : Words) :
    l.CarriesAll (Cpu.gather ws map) (Cpu.gather vs map) := by
  unfold Cpu.gather
  refine CarriesAll.of_getElem? (by simp) fun i hi => ?_
  rw [size_map] at hi
  exact ⟨_, _, by simp [hi], by simp [hi], h.word (map[i]).toInt.toNat⟩

structure CarriesInstance (l : Lane) (x y : HostBuffers.Instance) : Prop where
  state : l.CarriesAll x.state y.state
  input : l.CarriesAll x.input y.input
  inputMap : x.inputMap = y.inputMap
  outputMap : x.outputMap = y.outputMap
  output : l.CarriesAll x.output y.output

end Lane

namespace Cpu

def advanced (p : Plan) (x : HostBuffers.Instance) : HostBuffers.Instance :=
  (advance .units p p.workspace x).2

variable {d : Descriptor} {a : Automaton} {w : Wiring} {cs : List Program.Compiled}
  {ws : Workspace}

theorem transition_state (hb : a.Built d w cs) (hws : ws.Fits a.plan) (s : Schedule)
    (state input : Words) :
    (transition s a.plan ws state input).2 = (a.plan.run a.plan.workspace state input).2 := by
  cases s with
  | units => exact hb.run_workspace hws a.plan.workspace_fits state input
  | workGroup =>
    exact (WorkGroup.run_state a.plan ws state input).trans
      (hb.run_workspace hws a.plan.workspace_fits state input)

theorem transition_fits {p : Plan} (hws : ws.Fits p) (s : Schedule) (state input : Words) :
    (transition s p ws state input).1.Fits p := by
  cases s with
  | units => exact Plan.run_fits hws state input
  | workGroup => exact WorkGroup.run_fits hws state input

theorem advance_eq (hb : a.Built d w cs) (hws : ws.Fits a.plan) (s : Schedule)
    (x : HostBuffers.Instance) : (advance s a.plan ws x).2 = advanced a.plan x := by
  simp only [advanced, advance, transition_state hb hws,
    transition_state hb a.plan.workspace_fits]

theorem advance_fits {p : Plan} (hws : ws.Fits p) (s : Schedule) (x : HostBuffers.Instance) :
    (advance s p ws x).1.Fits p :=
  transition_fits hws s _ _

theorem advanced_carries (hb : a.Built d w cs) (hbits : a.program.bitwise = true) {l : Lane}
    {x y : HostBuffers.Instance} (h : l.CarriesInstance x y) :
    l.CarriesInstance (advanced a.plan x) (advanced a.plan y) := by
  have hscatter : l.CarriesAll (scatter x.state x.inputMap x.input)
      (scatter y.state y.inputMap y.input) := by
    rw [h.inputMap]
    exact h.state.scatter h.input _
  have hrun := hb.run_carries hbits a.plan.workspace_fits a.plan.workspace_fits hscatter
    x.input y.input
  refine ⟨hrun, h.input, h.inputMap, h.outputMap, ?_⟩
  have hgather := hrun.gather x.outputMap
  rw [h.outputMap] at hgather
  simpa only [advanced, advance, transition, h.outputMap] using hgather

end Cpu

end TiledAutomata
