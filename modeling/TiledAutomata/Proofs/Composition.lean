import Mathlib.Data.List.GetD
import TiledAutomata.Proofs.Creation
import TiledAutomata.Proofs.Crews

/-!
# Composites of new simulators

A composite of new processor simulators shows the fleet that a new simulator of all their
instances holds. So no sequence of demands tells the two apart.
-/

open List

namespace TiledAutomata

open Composite (Route)

structure Cpu.New (a : Automaton) (x : Cpu) : Prop where
  stateSize : x.buffers.stateSize = a.stateSize
  count_pos : 0 < x.buffers.count.toInt
  alloc : Allocator.create x.buffers.count = .ok x.buffers.alloc
  holds : x.buffers.shape.Countable → x.Holds a x.buffers.shape (Fleet.zeros x.buffers.shape)

theorem Cpu.create_new {a : Automaton} {config : Config} {o : Options} {x : Cpu}
    (h : create (some a) config o = .ok x) (ho : 0 < o.processors) : x.New a := by
  have hshape := create_shape h
  have hcount : x.buffers.count = config.effective.instances := congrArg Shape.size hshape
  refine ⟨congrArg Shape.stateSize hshape, hcount ▸ config.effective_pos.1, ?_, fun hs => ?_⟩
  · obtain ⟨b, hb, h⟩ := Outcome.bind_ok.mp h
    obtain ⟨pool, -, h⟩ := Outcome.bind_ok.mp h
    cases h
    rw [hcount]
    exact (HostBuffers.create_ok (s := shapeFor a config) hb).2.1
  · rw [hshape] at hs ⊢
    exact create_holds h ho hs

theorem Allocator.create_free {n : Int64} {x : Allocator} (h : create n = .ok x) :
    x.free = List.range n.toInt.toNat := by
  unfold create at h
  split at h
  · cases h
    rfl
  · cases h

theorem Composite.checkWidths_ok {σ : Type} {first : Simulator σ} {cs : Components σ}
    (h : ∀ c ∈ cs, widths c.2 = widths first) : checkWidths first cs = .ok () := by
  induction cs with
  | nil => rfl
  | cons c cs ih =>
    rw [checkWidths, if_pos (h c mem_cons_self)]
    exact ih fun c' hc' => h c' (mem_cons_of_mem c hc')

namespace Rig

def Fresh (a : Automaton) (r : Rig) (n : Nat) (handle : Handle) : Prop :=
  ∃ config o x, 0 < o.processors ∧ Cpu.create (some a) config o = .ok x ∧ r.cpus[n]? = some x ∧
    handle.sim = x.simulator (cpuSlot n x) journalSlot

variable {a : Automaton} {r r1 : Rig} {n : Nat} {handle other : Handle} {config : Config}
  {o : Options}

theorem Fresh.newCpu (hfresh : Fresh a r n handle) {b : Option Automaton}
    (h : (newCpu b config o).Gives r other r1) : Fresh a r1 n handle := by
  obtain ⟨config', o', x, ho, hx, hget, hsim⟩ := hfresh
  obtain ⟨y, -, -, hcpus⟩ := newCpu_pushes h
  have hn : n < r.cpus.size := (Array.getElem?_eq_some_iff.mp hget).1
  refine ⟨config', o', x, ho, hx, ?_, hsim⟩
  rw [hcpus, Array.getElem?_push_lt hn, ← hget, Array.getElem?_eq_getElem hn]

def memberSim (p : Nat × Cpu) : Simulator Rig := p.2.simulator (cpuSlot p.1 p.2) journalSlot

section Teams

variable {t : Nat × Cpu} {team : List (Nat × Cpu)} {i j : Nat}

theorem getD_mem (hi : i < team.length) : team.getD i t ∈ team := by
  rw [getD_eq_getElem _ _ hi]
  exact getElem_mem hi

theorem index_inj (hdistinct : (team.map Prod.fst).Nodup) (hi : i < team.length)
    (hj : j < team.length) : (team.getD i t).1 = (team.getD j t).1 ↔ i = j := by
  have hget : ∀ {k} (hk : k < team.length),
      (team.map Prod.fst)[k]? = some (team.getD k t).1 := by
    intro k hk
    rw [List.getElem?_map, List.getElem?_eq_getElem hk, getD_eq_getElem _ _ hk]
    rfl
  rw [← Option.some_inj, ← hget hi, ← hget hj]
  exact List.getElem?_inj (by rwa [length_map]) hdistinct

variable (t team) in
/-- Simulators at different indices. Past the last one stands a given one. -/
def crew (hdistinct : (team.map Prod.fst).Nodup) : Crew Rig where
  size := team.length
  slot i := cpuSlot (team.getD i t).1 (team.getD i t).2
  init i := (team.getD i t).2
  journal := journalSlot
  Has r := ∀ p ∈ team, p.1 < r.cpus.size
  slot_set {r i} x hi hr := by
    have hlt := hr _ (getD_mem (t := t) hi)
    refine ⟨fun p hp => ?_, fun j hj => ?_⟩
    · show p.1 < (r.cpus.setIfInBounds _ x).size
      rw [Array.size_setIfInBounds]
      exact hr p hp
    · show (r.cpus.setIfInBounds _ x).getD _ _ = if j = i then x else r.cpus.getD _ _
      rw [Array.getD_eq_getD_getElem?, Array.getElem?_setIfInBounds, Array.getD_eq_getD_getElem?]
      by_cases hji : j = i
      · rw [hji, if_pos rfl, if_pos hlt, if_pos rfl]
        rfl
      · rw [if_neg fun heq => hji ((index_inj hdistinct hi hj).mp heq).symm, if_neg hji]

theorem range_getD {α : Type} (g : Nat × Cpu → α) :
    (List.range team.length).map (fun i => g (team.getD i t)) = team.map g := by
  refine ext_getElem (by simp) fun i hi hi' => ?_
  rw [length_map] at hi'
  rw [getElem_map, getElem_map, getElem_range, getD_eq_getElem _ _ hi']

theorem components_crew (hdistinct : (team.map Prod.fst).Nodup) :
    ((team.map memberSim).zipIdx.map fun (s, i) => (i, s)) =
      (crew t team hdistinct).components := by
  rw [← range_getD (t := t) memberSim]
  exact Composite.zipIdx_range _ _

variable {s : Shape}

/-- New simulators of a shape up to the number of their instances, which add up to that of the
shape. -/
structure Adds (a : Automaton) (s : Shape) (r : Rig) (team : List (Nat × Cpu)) : Prop where
  distinct : (team.map Prod.fst).Nodup
  fresh : ∀ p ∈ team, p.2.New a
  here : ∀ p ∈ team, r.cpus[p.1]? = some p.2
  shape : ∀ p ∈ team, p.2.buffers.shape = s.resize p.2.buffers.count
  size : s.size.toInt = (team.map fun p => p.2.buffers.count.toInt).sum
  countable : s.Countable

theorem Adds.sum (h : Adds a s r team) :
    (team.map fun p => p.2.buffers.count.toInt.toNat).sum = s.size.toInt.toNat := by
  have hsum : ∀ l : List (Nat × Cpu), (∀ p ∈ l, 0 < p.2.buffers.count.toInt) →
      ((l.map fun p => p.2.buffers.count.toInt.toNat).sum : Nat) =
        (l.map fun p => p.2.buffers.count.toInt).sum := by
    intro l hl
    induction l with
    | nil => rfl
    | cons p l ih =>
      obtain ⟨hp, hl⟩ := forall_mem_cons.mp hl
      have hrest := ih hl
      simp only [map_cons, sum_cons]
      omega
  have hteam := hsum team fun p hp => (h.fresh p hp).count_pos
  have hsize := h.size
  omega

theorem Adds.countable_member (h : Adds a s r team) {p : Nat × Cpu} (hp : p ∈ team) :
    p.2.buffers.shape.Countable := by
  have hpos := (h.fresh p hp).count_pos
  have hle : p.2.buffers.count.toInt.toNat ≤ s.size.toInt.toNat :=
    h.sum ▸ le_sum_of_mem (mem_map_of_mem hp)
  have hwidth : ∀ q, (s.resize p.2.buffers.count).width q = s.width q := fun q => by
    cases q <;> rfl
  rw [h.shape p hp]
  refine ⟨hpos.le, fun q => hwidth q ▸ h.countable.width_nonneg q, fun q => ?_⟩
  rw [hwidth q]
  exact (Int.mul_le_mul_of_nonneg_right (by show p.2.buffers.count.toInt ≤ _; omega)
    (h.countable.width_nonneg q)).trans_lt (h.countable.bound q)

theorem Adds.stocked (h : Adds a s r team) :
    (crew t team h.distinct).Stocked a (fun i => s.resize (team.getD i t).2.buffers.count)
      (fun _ => Fleet.zeros s)
      (fun i => List.range (team.getD i t).2.buffers.count.toInt.toNat) r := by
  have hget : ∀ i < team.length,
      ((crew t team h.distinct).slot i).get r = (team.getD i t).2 := by
    intro i hi
    show r.cpus.getD _ _ = _
    rw [Array.getD_eq_getD_getElem?, h.here _ (getD_mem hi)]
    rfl
  refine ⟨⟨fun p hp => (Array.getElem?_eq_some_iff.mp (h.here p hp)).1, fun i hi => ?_⟩,
    fun i hi => ?_⟩
  · have hp := getD_mem (t := t) hi
    have hholds := (h.fresh _ hp).holds (h.countable_member hp)
    have hzeros : Fleet.zeros (s.resize (team.getD i t).2.buffers.count) = Fleet.zeros s := by
      funext q j
      cases q <;> rfl
    rw [h.shape _ hp, hzeros] at hholds
    rw [hget i hi]
    exact hholds
  · rw [hget i hi]
    exact Allocator.create_free (h.fresh _ (getD_mem hi)).alloc

theorem Adds.newComposite {ts : List (Nat × Cpu)} (h : Adds a s r (t :: ts)) {alloc : Allocator}
    (halloc : Allocator.create s.size = .ok alloc) (arrangement : Composite.Arrangement) :
    ∃ handle r1 routes slot,
      (newComposite ((t :: ts).map memberSim) arrangement).Gives r handle r1 ∧
      handle.sim = Composite.simulator (memberSim t) (crew t (t :: ts) h.distinct).components
        routes slot ∧
      handle.sim.shape = s ∧
      (crew t (t :: ts) h.distinct).Routed s
        (fun i => ((t :: ts).getD i t).2.buffers.count) routes ∧
      (crew t (t :: ts) h.distinct).Shows a s
        (fun i => ((t :: ts).getD i t).2.buffers.count) routes (Fleet.zeros s) r1 := by
  obtain ⟨rs, r1, hroutes, hstaffed, hperm⟩ :=
    Crew.buildRoutes_gives arrangement (h.stocked (t := t)) fun _ _ => nodup_range
  have hrouted : (crew t (t :: ts) h.distinct).Routed s
      (fun i => ((t :: ts).getD i t).2.buffers.count) rs.toArray :=
    Crew.routed_of_perm hperm (by
      rw [← h.sum]
      exact congrArg List.sum (range_getD fun p => p.2.buffers.count.toInt.toNat))
  have hsize : Int64.ofNat rs.toArray.size = s.size := by
    rw [hrouted.size]
    exact Int64.ofNat_toNat h.countable.count_nonneg
  have hwidths : ∀ p ∈ t :: ts,
      Composite.widths (memberSim p) = [s.inputSize, s.stateSize, s.outputSize] := by
    intro p hp
    show [p.2.buffers.shape.inputSize, p.2.buffers.shape.stateSize,
      p.2.buffers.shape.outputSize] = _
    rw [h.shape p hp]
    rfl
  have hfirst := hwidths t mem_cons_self
  have hcheck : Composite.checkWidths (memberSim t) (crew t (t :: ts) h.distinct).components =
      .ok () := by
    refine Composite.checkWidths_ok fun c hc => ?_
    obtain ⟨i, hi, rfl⟩ := mem_map.mp hc
    exact (hwidths _ (getD_mem (mem_range.mp hi))).trans hfirst.symm
  have hbuild : (Composite.build ((t :: ts).map memberSim) arrangement).Gives r
      (memberSim t, (crew t (t :: ts) h.distinct).components, rs.toArray) r1 := by
    rw [← components_crew] at hcheck hroutes ⊢
    exact (Act.gives_ofExcept hcheck r).bind (hroutes.bind (Act.gives_pure _ _))
  rw [← hsize] at halloc
  refine ⟨_, _, rs.toArray, _, hbuild.bind ((Act.gives_ofExcept halloc _).bind
    ((gives_add _ _ alloc _).bind (Act.gives_pure _ _))), rfl, ?_, hrouted,
    fun _ => Fleet.zeros s, ⟨hstaffed.has, hstaffed.holds⟩, fun _ _ _ _ => rfl⟩
  show t.2.buffers.shape.resize (Int64.ofNat rs.toArray.size) = s
  rw [h.shape t mem_cons_self, hsize]
  rfl

end Teams

end Rig

def Demand.sample : List Demand :=
  [.call (.setStates ((Array.range 18).map fun j => Int32.ofNat (1000 * j))),
    .call (.setInput 1 #[-1]), .call (.setInputMap 2 #[5]), .call (.setOutputMap 0 #[4]),
    .call .update, .abandoned, .call (.state 3 (Array.replicate 6 0)), .call (.output 0 #[]),
    .call (.outputs (Array.replicate 3 0)), .call (.states (Array.replicate 18 0))]

end TiledAutomata
