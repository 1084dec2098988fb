import Mathlib.Data.List.Perm.Basic
import Std.Data.String.ToNat
import TiledAutomata.Program
import TiledAutomata.Proofs.Wiring

/-!
# Slots of a layout

No name has two slots, and every output of the unit has one. The names of external
cells differ from each other.
-/

namespace TiledAutomata.Layout

open List

open Outcome

variable {l : Layout} {w : Wiring}

theorem assign_ok {names names' : List String} (hn : names.Nodup) {es : List Entry} :
    assign names es = .ok names' ↔
      (names ++ es.map (·.name)).Nodup ∧ names' = names ++ es.map (·.name) := by
  induction es generalizing names with
  | nil => simp [assign, hn, eq_comm]
  | cons e es ih =>
    rw [assign]
    split
    · rename_i hold
      have hrepeat : ¬(names ++ (e :: es).map (·.name)).Nodup := fun h =>
        (nodup_append.mp h).2.2 e.name (by simpa using hold) e.name (by simp) rfl
      exact ⟨nofun, fun h => absurd h.1 hrepeat⟩
    · rename_i hnew
      rw [ih (hn.append (by simp) (by simpa using hnew))]
      simp

/-- The outputs of all cells in their order, each with the position of its cell. -/
def placedOutputs (w : Wiring) : List (Nat × Site × Output) :=
  w.sites.zipIdx.flatMap fun (s, i) => s.type.outputList.map fun o => (i, s, o)

/-- The names that a wiring asks to persist: outputs that an external cell reads, the other
outputs, and cell by cell the parameters and the parameters of outputs. -/
def persisted (w : Wiring) : List String :=
  let read (x : Nat × Site × Output) : Prop :=
    ∃ e ∈ w.externals, e.source = x.1 ∧ e.output = x.2.2.id
  let name (x : Nat × Site × Output) : String := outputVar x.2.1.id x.2.2.id
  ((placedOutputs w).filter fun x => decide (read x)).map name ++
    ((placedOutputs w).filter fun x => decide ¬read x).map name ++
    w.sites.flatMap fun s => s.type.params.map (paramVar s.id) ++
      s.type.outputList.flatMap fun o => o.params.map (outputParamVar s.id o.id)

theorem entries_names (w : Wiring) : (entries w).map (·.name) = persisted w := by
  have hread : ∀ i o, w.feedsExternal i o =
      decide (∃ e ∈ w.externals, e.source = i ∧ e.output = o) := by
    intro i o
    rw [Wiring.feedsExternal, Bool.eq_iff_iff]
    simp
  simp only [entries, outputEntries, paramEntries, persisted, placedOutputs, hread,
    map_append, map_flatMap, map_map, filter_flatMap, filter_map,
    Function.comp_def, beq_true, beq_false, decide_not]

theorem build_eq_ok_iff : build w = .ok l ↔
    checkSites w.sites = .ok () ∧ (persisted w).Nodup ∧ l = ⟨w, persisted w⟩ := by
  simp only [build, bind_ok, assign_ok nodup_nil, entries_names, nil_append]
  constructor
  · rintro ⟨_, hcheck, _, ⟨hnodup, rfl⟩, hl⟩
    exact ⟨hcheck, hnodup, (Except.ok.inj hl).symm⟩
  · rintro ⟨hcheck, hnodup, rfl⟩
    exact ⟨(), hcheck, _, ⟨hnodup, rfl⟩, rfl⟩

theorem wiring_of_build (h : build w = .ok l) : l.wiring = w := by
  rw [(build_eq_ok_iff.mp h).2.2]

theorem persisted_perm (w : Wiring) : (persisted w).Perm
    ((w.sites.flatMap fun s => s.type.outputList.map fun o => outputVar s.id o.id) ++
      w.sites.flatMap fun s => s.type.params.map (paramVar s.id) ++
        s.type.outputList.flatMap fun o => o.params.map (outputParamVar s.id o.id)) := by
  have hplaced : (w.sites.flatMap fun s => s.type.outputList.map fun o => outputVar s.id o.id) =
      (placedOutputs w).map fun x => outputVar x.2.1.id x.2.2.id := by
    conv_lhs => rw [← zipIdx_map_fst 0 w.sites, flatMap_map]
    simp [placedOutputs, map_flatMap, Function.comp_def]
  rw [persisted, hplaced, ← map_append]
  simp only [decide_not]
  exact ((filter_append_perm _ _).map _).append_right _

theorem outputVars_sub (h : build w = .ok l) {x : String} (hx : x ∈ Program.outputVars l) :
    x ∈ l.names := by
  obtain ⟨-, -, rfl⟩ := build_eq_ok_iff.mp h
  exact (persisted_perm w).mem_iff.mpr (mem_append_left _ hx)

theorem outputVars_nodup (h : build w = .ok l) : (Program.outputVars l).Nodup := by
  obtain ⟨-, hnodup, rfl⟩ := build_eq_ok_iff.mp h
  exact (nodup_append.mp ((persisted_perm w).nodup_iff.mp hnodup)).1

theorem externalVar_injective {j k : Nat} (h : externalVar j = externalVar k) : j = k := by
  have hid := (String.append_right_inj _).mp h
  have hnum := (String.append_right_inj _).mp hid
  have := Nat.repr_injective hnum
  omega

theorem readings_nodup (l : Layout) : ((Program.readingsOf l).map (·.name)).Nodup := by
  have hnames : (Program.readingsOf l).map (·.name) =
      (range l.wiring.externals.length).map externalVar := by
    unfold Program.readingsOf
    rw [map_map, ← zipIdx_map_snd 0 l.wiring.externals |>.trans range_eq_range'.symm,
      map_map]
    rfl
  rw [hnames]
  exact nodup_range.map fun j k h => externalVar_injective h

theorem reading_source (hl : build w = .ok l)
    (hw : ∀ e ∈ w.externals, Wiring.External.Real w.sites e) {r : Program.Reading}
    (hr : r ∈ Program.readingsOf l) : r.source ∈ Program.outputVars l := by
  have hwiring := wiring_of_build hl
  obtain ⟨⟨e, k⟩, hek, rfl⟩ := mem_map.mp hr
  have he : e ∈ w.externals := by
    rw [← hwiring]
    exact (mem_zipIdx' hek).2 ▸ getElem_mem _
  obtain ⟨s, hs, o, ho, hid⟩ := (hw e he).source
  have hget : l.wiring.sites.getD e.source default = s := by
    rw [hwiring, getD_eq_getElem?_getD, hs, Option.getD_some]
  simp only [hget]
  refine mem_flatMap.mpr ⟨s, ?_, mem_map.mpr ⟨o, ho, by rw [hid]⟩⟩
  rw [hwiring]
  exact mem_of_getElem? hs

end TiledAutomata.Layout
