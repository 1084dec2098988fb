import TiledAutomata.Proofs.Allocation
import TiledAutomata.Proofs.Composition

/-!
# A composite enumerates the free ids of its components

The ids of an allocator that was used in any way are free or in use. Building a composite takes
each free id of each component once, in the order in which allocators hand them out, and does so
for one component after the other or in rounds. It takes none if it fails.
-/

open List

namespace TiledAutomata

open Composite (Route)

namespace Allocator

inductive Reached : Allocator → Prop
  | create {n : Int64} {x : Allocator} : create n = .ok x → Reached x
  | allocate {x y : Allocator} {k : Nat} : Reached x → x.allocate = .ok (k, y) → Reached y
  | deallocate {x y : Allocator} {id : Int64} : Reached x → x.deallocate id = .ok y → Reached y

def Vacant (x : Allocator) (k : Nat) : Prop := x.inUse[k]? = some false

/-- The ids that an allocator hands out, one after the other, until it has none. -/
inductive HandsOut : Allocator → List Nat → Prop
  | done {x : Allocator} {e : Error} : x.allocate = .error e → HandsOut x []
  | next {x y : Allocator} {k : Nat} {ks : List Nat} :
    x.allocate = .ok (k, y) → HandsOut y ks → HandsOut x (k :: ks)

theorem handsOut_free (x : Allocator) : HandsOut x x.free := by
  generalize hfree : x.free = ks
  induction ks generalizing x with
  | nil => exact .done (by rw [allocate, hfree])
  | cons k ks ih => exact .next (by rw [allocate, hfree]) (ih ⟨ks, _⟩ rfl)

theorem Reached.agrees {x : Allocator} (h : x.Reached) : ∃ n < 2 ^ 63, ∃ hist, Agrees n hist x := by
  induction h with
  | @create n _ h =>
    have hn := n.toInt_lt
    exact ⟨_, by omega, [], .create h⟩
  | allocate _ h ih =>
    obtain ⟨n, hn, hist, hi⟩ := ih
    have hnext := hi.step hn .allocate
    rw [step, h] at hnext
    exact ⟨n, hn, _, hnext⟩
  | @deallocate _ _ id _ h ih =>
    obtain ⟨n, hn, hist, hi⟩ := ih
    have hnext := hi.step hn (.deallocate id)
    rw [step, h] at hnext
    exact ⟨n, hn, _, hnext⟩

theorem Reached.free {x : Allocator} (h : x.Reached) :
    x.free.Nodup ∧ ∀ k, k ∈ x.free ↔ x.Vacant k := by
  obtain ⟨n, -, hist, hi⟩ := h.agrees
  refine ⟨hi.free_nodup, fun k => ?_⟩
  rw [hi.free, ← hi.used, ← hi.size, Vacant]
  cases hk : x.inUse[k]? with
  | none => simpa using hk
  | some u =>
    obtain ⟨hlt, -⟩ := Array.getElem?_eq_some_iff.mp hk
    cases u <;> simp [hlt]

end Allocator

namespace Stock

variable {σ : Type} {S : Stock σ} {free : Nat → List Nat} {w : σ} {i : Nat}

/-- Routes to the ids of one component are in the order of its free ids. -/
theorem arranged_component (arrangement : Composite.Arrangement)
    (hnodup : ∀ i < S.size, (free i).Nodup) (hi : i < S.size) :
    ((S.arranged free arrangement).filter (·.component = i)).map (·.index) = free i := by
  have hsorted : ((S.arranged free arrangement).filter (·.component = i)).Pairwise
      fun p q => round free p < round free q := by
    refine ((arranged_sorted arrangement hnodup).filter _).imp_of_mem fun {p q} hp hq hbefore => ?_
    have hp' : p.component = i := by simpa using (mem_filter.mp hp).2
    have hq' : q.component = i := by simpa using (mem_filter.mp hq).2
    cases arrangement with
    | interleaved => exact hbefore.resolve_right fun h => absurd h.2 (by omega)
    | concatenated => exact (hbefore.resolve_left (by omega)).2
  have hperm : ((S.arranged free arrangement).filter (·.component = i)).Perm (routes free i) := by
    have hroutes : (routes free i).Nodup :=
      (hnodup i hi).map fun k l hkl => congrArg Route.index hkl
    refine (perm_ext_iff_of_nodup ((arranged_nodup arrangement hnodup).filter _) hroutes).mpr
      fun r => ?_
    rw [mem_filter, mem_arranged, decide_eq_true_eq, routes, mem_map]
    constructor
    · rintro ⟨⟨-, hk⟩, rfl⟩
      exact ⟨_, hk, rfl⟩
    · rintro ⟨k, hk, rfl⟩
      exact ⟨⟨hi, hk⟩, rfl⟩
  have hsame := hperm.eq_of_pairwise (fun p q _ _ hpq hqp => absurd hpq hqp.asymm) hsorted
    (routes_sorted (hnodup i hi))
  rw [hsame, routes, map_map]
  exact map_id _

def sims (S : Stock σ) : List (Simulator σ) := (List.range S.size).map S.sim

theorem components_sims (S : Stock σ) :
    (S.sims.zipIdx.map fun (s, i) => (i, s)) = S.components :=
  Composite.zipIdx_range _ _

theorem sims_eq_cons (hpos : 0 < S.size) : ∃ rest, S.sims = S.sim 0 :: rest := by
  obtain ⟨n, hn⟩ := Nat.exists_eq_succ_of_ne_zero hpos.ne'
  exact ⟨_, by rw [sims, hn, range_succ_eq_map, map_cons]⟩

theorem build_eq (arrangement : Composite.Arrangement) (hpos : 0 < S.size) :
    Composite.build S.sims arrangement = (do
      Act.ofExcept (Composite.checkWidths (S.sim 0) S.components)
      let routes ← Composite.buildRoutes arrangement S.components
      return (S.sim 0, S.components, routes.toArray) : Act σ _) := by
  obtain ⟨rest, hrest⟩ := sims_eq_cons hpos
  rw [← components_sims, hrest]
  rfl

theorem build_gives {arrangement : Composite.Arrangement} {rs : List Route} {w' : σ}
    (hpos : 0 < S.size) (hcheck : Composite.checkWidths (S.sim 0) S.components = .ok ())
    (hroutes : (Composite.buildRoutes arrangement S.components).Gives w rs w') :
    (Composite.build S.sims arrangement).Gives w (S.sim 0, S.components, rs.toArray) w' := by
  rw [build_eq arrangement hpos]
  exact (Act.gives_ofExcept hcheck w).bind (hroutes.bind (Act.gives_pure _ _))

theorem round_of_new {n : Nat → Int64} (hnew : ∀ i < S.size, free i = List.range (n i).toInt.toNat)
    {arrangement : Composite.Arrangement} {r : Route} (hr : r ∈ S.arranged free arrangement) :
    round free r = r.index := by
  obtain ⟨hi, hk⟩ := (mem_arranged _).mp hr
  rw [hnew _ hi, mem_range] at hk
  refine round_eq (hnew _ hi ▸ nodup_range) ?_
  rw [hnew _ hi]
  exact List.getElem?_range hk

/-- Building a composite of simulators with allocators of their own, used in any way before, takes
each id that is not in use once and leaves none. It ends by itself, as soon as every component has
been asked once more than it has ids. It takes those of a component in the order in
which its allocator hands them out, and those of all components in the order of the arrangement.
For new components taking turns this is the order of ids, then of components. What fails leaves
the world as it was. -/
theorem build_enumerates (S : Stock σ) (arrangement : Composite.Arrangement) (hhas : S.Has w)
    (hreached : ∀ i < S.size, ((S.sim i).allocator.get w).Reached) :
    (0 < S.size → (∀ i < S.size, Composite.widths (S.sim i) = Composite.widths (S.sim 0)) →
      ∃ (rs : List Route) (w' : σ),
        (Composite.build S.sims arrangement).Gives w (S.sim 0, S.components, rs.toArray) w' ∧
        (∀ n, (∀ i < S.size, ((S.sim i).allocator.get w).available < n) →
          (Composite.routesWithin n arrangement S.components).Gives w rs w') ∧
        rs.Nodup ∧
        (∀ r, r ∈ rs ↔
          r.component < S.size ∧ ((S.sim r.component).allocator.get w).Vacant r.index) ∧
        (∀ i < S.size, ((S.sim i).allocator.get w').available = 0) ∧
        (∀ i < S.size, ((S.sim i).allocator.get w).HandsOut
          ((rs.filter (·.component = i)).map (·.index))) ∧
        rs.Pairwise (Before (fun i => ((S.sim i).allocator.get w).free) arrangement) ∧
        ∀ n : Nat → Int64,
          (∀ i < S.size, Allocator.create (n i) = .ok ((S.sim i).allocator.get w)) →
          (∀ r, r ∈ rs ↔ r.component < S.size ∧ r.index < (n r.component).toInt.toNat) ∧
          (arrangement = .interleaved →
            rs.Pairwise fun p q => p.index < q.index ∨
              p.index = q.index ∧ p.component < q.component)) ∧
    ∀ e w', (Composite.build S.sims arrangement).outcome w = (.error e, w') → w' = w := by
  have hnodup : ∀ i < S.size, (((S.sim i).allocator.get w).free).Nodup :=
    fun i hi => (hreached i hi).free.1
  have hfree : S.Offers (fun i => ((S.sim i).allocator.get w).free) w := ⟨hhas, fun _ _ => rfl⟩
  obtain ⟨w', hroutes, hoffers⟩ := buildRoutes_gives arrangement hfree
  have hsorted := arranged_sorted (S := S) arrangement hnodup
  refine ⟨fun hpos hwidths => ⟨_, w', ?_, fun n hn => ?_, ?_, fun r => ?_, fun i hi => ?_,
    fun i hi => ?_, hsorted, fun n hnew => ⟨fun r => ?_, ?_⟩⟩, fun e w₁ herror => ?_⟩
  · have hcheck : Composite.checkWidths (S.sim 0) S.components = .ok () := by
      refine Composite.checkWidths_ok fun c hc => ?_
      obtain ⟨i, hi, rfl⟩ := List.mem_map.mp hc
      exact hwidths i (List.mem_range.mp hi)
    exact build_gives hpos hcheck hroutes
  · exact routesWithin_gives arrangement hfree hn hroutes
  · exact arranged_nodup arrangement hnodup
  · rw [mem_arranged]
    exact and_congr_right fun hi => (hreached _ hi).free.2 _
  · exact congrArg List.length (hoffers.free i hi)
  · rw [arranged_component arrangement hnodup hi]
    exact Allocator.handsOut_free _
  · rw [mem_arranged]
    refine and_congr_right fun hi => ?_
    rw [Allocator.create_free (hnew _ hi), List.mem_range]
  · rintro rfl
    have hranges := fun i hi => Allocator.create_free (hnew i hi)
    refine hsorted.imp_of_mem fun hp hq hbefore => ?_
    rwa [Before, round_of_new hranges hp, round_of_new hranges hq] at hbefore
  · rcases Nat.eq_zero_or_pos S.size with hzero | hpos
    · have hnone : S.sims = [] := by rw [sims, hzero]; rfl
      rw [hnone] at herror
      exact (congrArg Prod.snd herror).symm
    · cases hcheck : Composite.checkWidths (S.sim 0) S.components with
      | error e' =>
        rw [build_eq arrangement hpos, hcheck] at herror
        exact (congrArg Prod.snd herror).symm
      | ok _ => cases (build_gives hpos hcheck hroutes).symm.trans herror

def shelf : Stock (Nat → Allocator) where
  size := 2
  sim i :=
    { size := 2, inputSize := 0, stateSize := 0, outputSize := 0
      allocator := ⟨fun w => w i, fun w x => Function.update w i x⟩
      state := fun _ => pure, setState := fun _ _ => pure (), setInput := fun _ _ => pure ()
      output := fun _ => pure, setInputMap := fun _ _ => pure ()
      setOutputMap := fun _ _ => pure (), states := pure, setStates := fun _ => pure ()
      setInputs := fun _ => pure (), outputs := pure, update := fun _ => pure (), close := pure () }
  Has _ := True
  set _ _ _ := ⟨trivial, fun _ _ => Function.update_apply ..⟩

theorem build_enumerates_shelf :
    ∃ (rs : List Route) (w' : Nat → Allocator), (Composite.build shelf.sims .interleaved).Gives
        (fun i => if i = 0 then ⟨[1], #[true, false]⟩ else ⟨[0, 1], #[false, false]⟩)
        (shelf.sim 0, shelf.components, rs.toArray) w' ∧
      rs.Nodup ∧ ⟨0, 1⟩ ∈ rs ∧ ⟨0, 0⟩ ∉ rs := by
  have hnew : Allocator.create 2 = .ok ⟨[0, 1], #[false, false]⟩ := by
    rw [Allocator.create, if_pos (by decide)]
    rfl
  obtain ⟨hbuild, -⟩ := build_enumerates shelf .interleaved
    (w := fun i => if i = 0 then ⟨[1], #[true, false]⟩ else ⟨[0, 1], #[false, false]⟩) trivial
    fun i _ => by
      show Allocator.Reached (if i = 0 then _ else _)
      split
      · exact .allocate (.create hnew) (k := 0) rfl
      · exact .create hnew
  obtain ⟨rs, w', hgives, -, hnodup, hmem, -⟩ := hbuild (by decide) fun _ _ => rfl
  refine ⟨rs, w', hgives, hnodup, (hmem _).mpr ⟨by decide, rfl⟩, fun h => ?_⟩
  exact absurd ((hmem _).mp h).2 (by simp [Allocator.Vacant, shelf])

end Stock

end TiledAutomata
