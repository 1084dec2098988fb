import Mathlib.Algebra.Order.BigOperators.Group.List
import TiledAutomata.Composite
import TiledAutomata.Proofs.Fleet

/-!
# The routes of a composite

Whether ids are taken from the components in turn or from one after the other, every free
id of every component is taken once, and none is left: the routes are a permutation of all of
them. What the components hold is left as it was.
-/

namespace TiledAutomata

open Act Function List

open Composite (Route)

variable {fuel : Nat} {r : Route}

theorem Composite.zipIdx_range {α : Type} (n : Nat) (f : Nat → α) :
    (((List.range n).map f).zipIdx.map fun (s, i) => (i, s)) =
      (List.range n).map fun i => (i, f i) := by
  refine List.ext_getElem (by simp) fun i hi hi' => ?_
  simp

namespace Composite

variable {σ : Type} {m n : Nat} {c : Nat × Simulator σ} {cs : Components σ} {rs : List Route}
  {w w' : σ}

theorem interleave_mono (h : (interleave n cs).Gives w rs w') (hle : n ≤ m) :
    (interleave m cs).Gives w rs w' := by
  induction n generalizing m cs rs w w' with
  | zero =>
    cases cs with
    | nil => simpa only [interleave] using h
    | cons c cs => cases h
  | succ n ih =>
    obtain ⟨m, rfl⟩ := Nat.exists_eq_add_of_lt hle
    cases cs with
    | nil => exact h
    | cons c cs =>
      obtain ⟨⟨taken, active⟩, w₁, hround, hrest⟩ := h.of_bind
      obtain ⟨later, w₂, hlater, hpure⟩ := hrest.of_bind
      exact hround.bind ((ih hlater (by omega)).bind hpure)

theorem drain_mono (h : (drain n c).Gives w rs w') (hle : n ≤ m) : (drain m c).Gives w rs w' := by
  induction n generalizing m rs w w' with
  | zero => cases h
  | succ n ih =>
    obtain ⟨m, rfl⟩ := Nat.exists_eq_add_of_lt hle
    obtain ⟨taken, w₁, htake, hrest⟩ := h.of_bind
    cases taken with
    | none => exact htake.bind hrest
    | some r =>
      obtain ⟨later, w₂, hlater, hpure⟩ := hrest.of_bind
      exact htake.bind ((ih hlater (by omega)).bind hpure)

theorem concatenate_mono (h : (concatenate n cs).Gives w rs w') (hle : n ≤ m) :
    (concatenate m cs).Gives w rs w' := by
  induction cs generalizing rs w w' with
  | nil => exact h
  | cons c cs ih =>
    obtain ⟨first, w₁, hdrain, hrest⟩ := h.of_bind
    obtain ⟨later, w₂, hlater, hpure⟩ := hrest.of_bind
    exact (drain_mono hdrain hle).bind ((ih hlater).bind hpure)

theorem routesWithin_mono {arrangement : Arrangement}
    (h : (routesWithin n arrangement cs).Gives w rs w') (hle : n ≤ m) :
    (routesWithin m arrangement cs).Gives w rs w' := by
  cases arrangement with
  | interleaved => exact interleave_mono h hle
  | concatenated => exact concatenate_mono h hle

end Composite

/-- Simulators whose allocators are separate parts of a world. -/
structure Stock (σ : Type) where
  size : Nat
  sim : Nat → Simulator σ
  /-- The worlds that have these parts. -/
  Has : σ → Prop
  set : ∀ {w i} (x : Allocator), i < size → Has w → Has ((sim i).allocator.set w x) ∧
    ∀ j < size, (sim j).allocator.get ((sim i).allocator.set w x) =
      if j = i then x else (sim j).allocator.get w

namespace Stock

variable {σ : Type} (S : Stock σ)

def component (i : Nat) : Nat × Simulator σ := (i, S.sim i)

def components : Composite.Components σ := (List.range S.size).map S.component

structure Offers (free : Nat → List Nat) (w : σ) : Prop where
  has : S.Has w
  free : ∀ i < S.size, ((S.sim i).allocator.get w).free = free i

variable {S} {free : Nat → List Nat} {w : σ} {i : Nat} {is : List Nat}

theorem take_none (h : S.Offers free w) (hi : i < S.size) (hfree : free i = []) :
    (Composite.take (S.component i)).Gives w none w := by
  refine (Slot.gives_read _ w).bind ?_
  have havailable : ((S.component i).2.allocator.get w).available = 0 := by
    show ((S.sim i).allocator.get w).free.length = 0
    rw [h.free i hi, hfree]
    rfl
  rw [if_pos havailable]
  exact gives_pure none w

theorem take_some (h : S.Offers free w) (hi : i < S.size) {k : Nat} {ks : List Nat}
    (hfree : free i = k :: ks) :
    ∃ w', (Composite.take (S.component i)).Gives w (some ⟨i, k⟩) w' ∧
      S.Offers (Function.update free i ks) w' := by
  have halloc : ((S.sim i).allocator.get w).free = k :: ks := (h.free i hi).trans hfree
  obtain ⟨hhas, hget⟩ :=
    S.set ⟨ks, ((S.sim i).allocator.get w).inUse.setIfInBounds k true⟩ hi h.has
  refine ⟨_, (Slot.gives_read _ w).bind ?_, hhas, fun j hj => ?_⟩
  · have havailable : ((S.component i).2.allocator.get w).available ≠ 0 := by
      show ((S.sim i).allocator.get w).free.length ≠ 0
      rw [halloc]
      exact Nat.succ_ne_zero _
    have hallocate : ((S.sim i).allocator.get w).allocate =
        .ok (k, ⟨ks, ((S.sim i).allocator.get w).inUse.setIfInBounds k true⟩) := by
      rw [Allocator.allocate, halloc]
    rw [if_neg havailable]
    refine Act.Gives.bind (Act.Gives.during ?_) (gives_pure _ _)
    exact (Slot.gives_read _ w).bind ((gives_ofExcept hallocate w).bind rfl)
  · rw [hget j hj, update_apply]
    split
    · rfl
    · exact h.free j hj

def routes (free : Nat → List Nat) (i : Nat) : List Route := (free i).map (Route.mk i)

theorem mem_routes :
    r ∈ is.flatMap (routes free) ↔ r.component ∈ is ∧ r.index ∈ free r.component := by
  simp only [mem_flatMap, routes, mem_map]
  constructor
  · rintro ⟨i, hi, k, hk, rfl⟩
    exact ⟨hi, hk⟩
  · rintro ⟨hi, hk⟩
    exact ⟨_, hi, _, hk, rfl⟩

theorem routes_nodup (hnodup : is.Nodup) (hfree : ∀ i ∈ is, (free i).Nodup) :
    (is.flatMap (routes free)).Nodup := by
  refine nodup_flatMap.mpr ⟨fun i hi => ?_, hnodup.imp fun {i j} hij => ?_⟩
  · exact (hfree i hi).map fun k l hkl => congrArg Route.index hkl
  · refine disjoint_left.mpr fun r hr hr' => hij ?_
    obtain ⟨k, -, rfl⟩ := mem_map.mp hr
    obtain ⟨l, -, hl⟩ := mem_map.mp hr'
    exact (congrArg Route.component hl).symm

def turn (free : Nat → List Nat) (is : List Nat) (n : Nat) : List Route :=
  is.filterMap fun i => (free i)[n]?.map (Route.mk i)

def active (free : Nat → List Nat) (is : List Nat) : List Nat := is.filter fun i => free i ≠ []

def left (free : Nat → List Nat) (is : List Nat) : Nat → List Nat := fun i =>
  if i ∈ is then (free i).tail else free i

theorem turn_congr {free' : Nat → List Nat} (h : ∀ i ∈ is, free i = free' i) (n : Nat) :
    turn free is n = turn free' is n :=
  filterMap_congr fun i hi => by rw [h i hi]

theorem takeRound_gives (h : S.Offers free w) (hnodup : is.Nodup) (his : ∀ i ∈ is, i < S.size) :
    ∃ w', (Composite.takeRound (is.map S.component)).Gives w
        (turn free is 0, (active free is).map S.component) w' ∧ S.Offers (left free is) w' := by
  induction is generalizing free w with
  | nil => exact ⟨w, gives_pure _ w, h⟩
  | cons i is ih =>
    obtain ⟨hfresh, hrest⟩ := nodup_cons.mp hnodup
    have hi := his i mem_cons_self
    have his' : ∀ j ∈ is, j < S.size := fun j hj => his j (mem_cons_of_mem i hj)
    cases hfree : free i with
    | nil =>
      obtain ⟨w', hround, hoffers⟩ := ih h hrest his'
      refine ⟨w', (take_none h hi hfree).bind ?_, ?_⟩
      · have hturn : turn free (i :: is) 0 = turn free is 0 := by simp [turn, hfree]
        have hactive : active free (i :: is) = active free is := by simp [active, hfree]
        rw [hturn, hactive]
        exact hround
      · have hleft : left free (i :: is) = left free is := by
          funext j
          by_cases hj : j = i
          · simp [left, hj, hfree]
          · simp [left, hj]
        rw [hleft]
        exact hoffers
    | cons k ks =>
      obtain ⟨w1, htake, h1⟩ := take_some h hi hfree
      obtain ⟨w', hround, hoffers⟩ := ih h1 hrest his'
      have hother : ∀ j ∈ is, update free i ks j = free j := fun j hj =>
        update_of_ne (ne_of_mem_of_not_mem hj hfresh) _ _
      refine ⟨w', htake.bind (hround.bind ?_), ?_⟩
      · have hturn : turn free (i :: is) 0 = ⟨i, k⟩ :: turn (update free i ks) is 0 := by
          rw [turn_congr hother]
          simp [turn, hfree]
        have hactive : active free (i :: is) = i :: active (update free i ks) is := by
          have hsame : active (update free i ks) is = active free is :=
            filter_congr fun j hj => by rw [hother j hj]
          rw [hsame]
          simp [active, hfree]
        rw [hturn, hactive]
        exact gives_pure _ w'
      · have hleft : left free (i :: is) = left (update free i ks) is := by
          funext j
          by_cases hj : j = i
          · subst hj
            simp [left, hfree, hfresh]
          · simp [left, hj]
        rw [hleft]
        exact hoffers

/-- The rounds after the first one are those of what it has left. -/
theorem turn_succ (free : Nat → List Nat) (is : List Nat) (n : Nat) :
    turn free is (n + 1) = turn (left free is) (active free is) n := by
  have hleft : turn (left free is) (active free is) n =
      turn (fun i => (free i).tail) (active free is) n :=
    turn_congr (fun i hi => if_pos (mem_filter.mp hi).1) n
  rw [hleft]
  clear hleft
  induction is with
  | nil => rfl
  | cons i is ih =>
    unfold turn active at ih ⊢
    cases hfree : free i with
    | nil => simpa [hfree] using ih
    | cons k ks => simp [hfree, filterMap_cons, ih]

theorem interleave_gives (h : S.Offers free w) (hnodup : is.Nodup) (his : ∀ i ∈ is, i < S.size)
    (hfuel : ∀ i ∈ is, (free i).length < fuel) :
    ∃ w', (Composite.interleave fuel (is.map S.component)).Gives w
        ((List.range fuel).flatMap (turn free is)) w' ∧
      S.Offers (fun i => if i ∈ is then [] else free i) w' := by
  induction fuel generalizing is free w with
  | zero =>
    obtain rfl : is = [] := eq_nil_iff_forall_not_mem.mpr fun i hi => by
      have := hfuel i hi
      omega
    exact ⟨w, gives_pure _ w, by simpa using h⟩
  | succ fuel ih =>
    cases is with
    | nil =>
      have hturns : (range (fuel + 1)).flatMap (turn free []) = [] :=
        flatMap_eq_nil_iff.mpr fun _ _ => rfl
      rw [hturns]
      exact ⟨w, gives_pure _ w, by simpa using h⟩
    | cons i is =>
      obtain ⟨w1, hround, h1⟩ := takeRound_gives h hnodup his
      have hactive : ∀ j ∈ active free (i :: is), j ∈ i :: is ∧ free j ≠ [] := fun j hj => by
        simpa using mem_filter.mp hj
      have hshorter : ∀ j ∈ active free (i :: is), (left free (i :: is) j).length < fuel := by
        intro j hj
        obtain ⟨hmem, hsome⟩ := hactive j hj
        have hlt := hfuel j hmem
        have hpos := length_pos_of_ne_nil hsome
        rw [left, if_pos hmem, length_tail]
        omega
      obtain ⟨w', hrest, h'⟩ := ih h1 (hnodup.filter _)
        (fun j hj => his j (hactive j hj).1) hshorter
      refine ⟨w', ?_, h'.has, fun j hj => (h'.free j hj).trans ?_⟩
      · rw [range_succ_eq_map, flatMap_cons, flatMap_map]
        simp only [turn_succ]
        exact hround.bind (hrest.bind (gives_pure _ _))
      · by_cases hmem : j ∈ i :: is
        · rw [if_pos hmem, left, if_pos hmem]
          by_cases hsome : free j = []
          · rw [hsome, tail_nil, ite_self]
          · exact if_pos (mem_filter.mpr ⟨hmem, by simpa using hsome⟩)
        · rw [if_neg hmem, left, if_neg hmem]
          exact if_neg fun hj' => hmem (hactive j hj').1

theorem drain_gives (h : S.Offers free w) (hi : i < S.size) (hfuel : (free i).length < fuel) :
    ∃ w', (Composite.drain fuel (S.component i)).Gives w (routes free i) w' ∧
      S.Offers (Function.update free i []) w' := by
  induction fuel generalizing free w with
  | zero => omega
  | succ fuel ih =>
    cases hfree : free i with
    | nil =>
      refine ⟨w, (take_none h hi hfree).bind ?_, ?_⟩
      · rw [routes, hfree]
        exact gives_pure _ w
      · rwa [← hfree, update_eq_self]
    | cons k ks =>
      obtain ⟨w1, htake, h1⟩ := take_some h hi hfree
      obtain ⟨w', hrest, h'⟩ := ih h1 (by
        rw [hfree, length_cons] at hfuel
        rw [update_self]
        omega)
      rw [update_idem] at h'
      refine ⟨w', htake.bind (hrest.bind ?_), h'⟩
      rw [routes, routes, hfree, update_self]
      exact gives_pure _ w'

theorem concatenate_gives (h : S.Offers free w) (hnodup : is.Nodup) (his : ∀ i ∈ is, i < S.size)
    (hfuel : ∀ i ∈ is, (free i).length < fuel) :
    ∃ w', (Composite.concatenate fuel (is.map S.component)).Gives w
        (is.flatMap (routes free)) w' ∧ S.Offers (fun i => if i ∈ is then [] else free i) w' := by
  induction is generalizing free w with
  | nil => exact ⟨w, gives_pure _ w, by simpa using h⟩
  | cons i is ih =>
    obtain ⟨hfresh, hrest⟩ := nodup_cons.mp hnodup
    obtain ⟨w1, hdrain, h1⟩ := drain_gives h (his i mem_cons_self) (hfuel i mem_cons_self)
    have hother : ∀ j ∈ is, update free i [] j = free j := fun j hj =>
      update_of_ne (ne_of_mem_of_not_mem hj hfresh) _ _
    obtain ⟨w', hgives, h'⟩ := ih h1 hrest (fun j hj => his j (mem_cons_of_mem i hj))
      (fun j hj => by rw [hother j hj]; exact hfuel j (mem_cons_of_mem i hj))
    have hsame : is.flatMap (routes (update free i [])) = is.flatMap (routes free) :=
      flatMap_congr fun j hj => by rw [routes, hother j hj, routes]
    rw [hsame] at hgives
    refine ⟨w', hdrain.bind (hgives.bind (gives_pure _ _)), h'.has,
      fun j hj => (h'.free j hj).trans ?_⟩
    by_cases hji : j = i
    · simp [hji]
    · simp [hji]

theorem totalFree_gives (h : S.Offers free w) (his : ∀ i ∈ is, i < S.size) :
    (Composite.totalFree (is.map S.component)).Gives w (is.map fun i => (free i).length).sum w := by
  induction is with
  | nil => exact gives_pure _ w
  | cons i is ih =>
    have hfirst : ((S.sim i).allocator.get w).available = (free i).length :=
      congrArg List.length (h.free i (his i mem_cons_self))
    refine (Slot.gives_read _ w).bind
      ((ih fun j hj => his j (mem_cons_of_mem i hj)).bind ?_)
    rw [map_cons, sum_cons, ← hfirst]
    exact gives_pure _ w

variable (S) in
def arranged (free : Nat → List Nat) : Composite.Arrangement → List Route
  | .interleaved =>
    (List.range (((List.range S.size).map fun i => (free i).length).sum + 1)).flatMap
      (turn free (List.range S.size))
  | .concatenated => (List.range S.size).flatMap (routes free)

theorem length_lt_sum (free : Nat → List Nat) (hi : i < S.size) :
    (free i).length < ((List.range S.size).map fun i => (free i).length).sum + 1 :=
  Nat.lt_succ_of_le (le_sum_of_mem (mem_map_of_mem (mem_range.mpr hi)))

theorem routesWithin_ends (arrangement : Composite.Arrangement) (h : S.Offers free w)
    (hfuel : ∀ i < S.size, (free i).length < fuel) :
    ∃ rs w', (Composite.routesWithin fuel arrangement S.components).Gives w rs w' := by
  have his : ∀ i ∈ range S.size, i < S.size := fun i hi => mem_range.mp hi
  cases arrangement with
  | interleaved =>
    obtain ⟨w', hgives, -⟩ := interleave_gives h nodup_range his fun i hi => hfuel i (his i hi)
    exact ⟨_, w', hgives⟩
  | concatenated =>
    obtain ⟨w', hgives, -⟩ := concatenate_gives h nodup_range his fun i hi => hfuel i (his i hi)
    exact ⟨_, w', hgives⟩

/-- Loops that end by themselves come to the same whatever else they are allowed. -/
theorem routesWithin_gives (arrangement : Composite.Arrangement) (h : S.Offers free w)
    (hfuel : ∀ i < S.size, (free i).length < fuel) {rs : List Route} {w' : σ}
    (hgives : (Composite.buildRoutes arrangement S.components).Gives w rs w') :
    (Composite.routesWithin fuel arrangement S.components).Gives w rs w' := by
  obtain ⟨total, w₁, htotal, hroutes⟩ := hgives.of_bind
  obtain ⟨-, rfl⟩ := htotal.unique (totalFree_gives h fun i hi => mem_range.mp hi)
  obtain ⟨rs', w₂, hends⟩ := routesWithin_ends arrangement h hfuel
  rcases Nat.le_total fuel (total + 1) with hle | hle
  · obtain ⟨rfl, rfl⟩ := hroutes.unique (Composite.routesWithin_mono hends hle)
    exact hends
  · exact Composite.routesWithin_mono hroutes hle

theorem buildRoutes_gives (arrangement : Composite.Arrangement) (h : S.Offers free w) :
    ∃ w', (Composite.buildRoutes arrangement S.components).Gives w
        (S.arranged free arrangement) w' ∧ S.Offers (fun _ => []) w' := by
  have his : ∀ i ∈ range S.size, i < S.size := fun i hi => mem_range.mp hi
  have hfuel : ∀ i ∈ range S.size, _ := fun i hi => length_lt_sum free (his i hi)
  have hnone : ∀ {w'}, S.Offers (fun i => if i ∈ range S.size then [] else free i) w' →
      S.Offers (fun _ => []) w' := fun h' =>
    ⟨h'.has, fun i hi => (h'.free i hi).trans (if_pos (mem_range.mpr hi))⟩
  cases arrangement with
  | interleaved =>
    obtain ⟨w', hgives, h'⟩ := interleave_gives h nodup_range his hfuel
    exact ⟨w', (totalFree_gives h his).bind hgives, hnone h'⟩
  | concatenated =>
    obtain ⟨w', hgives, h'⟩ := concatenate_gives h nodup_range his hfuel
    exact ⟨w', (totalFree_gives h his).bind hgives, hnone h'⟩

def round (free : Nat → List Nat) (r : Route) : Nat := (free r.component).idxOf r.index

theorem round_eq {k n : Nat} (hnodup : (free i).Nodup) (h : (free i)[n]? = some k) :
    round free ⟨i, k⟩ = n := by
  obtain ⟨hn, rfl⟩ := List.getElem?_eq_some_iff.mp h
  exact hnodup.idxOf_getElem n hn

theorem mem_turn {n : Nat} :
    r ∈ turn free is n ↔ r.component ∈ is ∧ (free r.component)[n]? = some r.index := by
  simp only [turn, mem_filterMap, Option.map_eq_some_iff]
  constructor
  · rintro ⟨i, hi, k, hk, rfl⟩
    exact ⟨hi, hk⟩
  · rintro ⟨hi, hk⟩
    exact ⟨_, hi, _, hk, rfl⟩

theorem routes_sorted (hnodup : (free i).Nodup) :
    (routes free i).Pairwise fun p q => round free p < round free q := by
  refine pairwise_iff_getElem.mpr fun m n hm hn hlt => ?_
  rw [routes, length_map] at hm hn
  simp only [routes, getElem_map]
  rwa [round_eq hnodup (getElem?_eq_getElem hm), round_eq hnodup (getElem?_eq_getElem hn)]

/-- The order of routes in an arrangement. -/
def Before (free : Nat → List Nat) : Composite.Arrangement → Route → Route → Prop
  | .interleaved, p, q => round free p < round free q ∨
      round free p = round free q ∧ p.component < q.component
  | .concatenated, p, q => p.component < q.component ∨
      p.component = q.component ∧ round free p < round free q

theorem arranged_sorted (arrangement : Composite.Arrangement)
    (hnodup : ∀ i < S.size, (free i).Nodup) :
    (S.arranged free arrangement).Pairwise (Before free arrangement) := by
  cases arrangement with
  | interleaved =>
    have hround : ∀ {n r}, r ∈ turn free (range S.size) n → round free r = n := by
      intro n r hr
      obtain ⟨hi, hk⟩ := mem_turn.mp hr
      exact round_eq (hnodup _ (mem_range.mp hi)) hk
    refine pairwise_flatMap.mpr ⟨fun n _ => ?_, pairwise_lt_range.imp fun hlt p hp q hq =>
      .inl (by rwa [hround hp, hround hq])⟩
    have hcomponents : (turn free (range S.size) n).Pairwise
        fun p q => p.component < q.component :=
      pairwise_lt_range.filterMap _ fun i j hij p hp q hq => by
        obtain ⟨k, -, rfl⟩ := Option.map_eq_some_iff.mp hp
        obtain ⟨l, -, rfl⟩ := Option.map_eq_some_iff.mp hq
        exact hij
    exact hcomponents.imp_of_mem fun hp hq hlt => .inr ⟨(hround hp).trans (hround hq).symm, hlt⟩
  | concatenated =>
    have hcomponent : ∀ {i r}, r ∈ routes free i → r.component = i := by
      intro i r hr
      obtain ⟨k, -, rfl⟩ := mem_map.mp hr
      rfl
    refine pairwise_flatMap.mpr ⟨fun i hi => ?_, pairwise_lt_range.imp fun hlt p hp q hq =>
      .inl (by rwa [hcomponent hp, hcomponent hq])⟩
    exact (routes_sorted (hnodup i (mem_range.mp hi))).imp_of_mem fun hp hq hlt =>
      .inr ⟨(hcomponent hp).trans (hcomponent hq).symm, hlt⟩

theorem mem_arranged (arrangement : Composite.Arrangement) :
    r ∈ S.arranged free arrangement ↔ r.component < S.size ∧ r.index ∈ free r.component := by
  cases arrangement with
  | interleaved =>
    simp only [arranged, List.mem_flatMap, mem_turn, List.mem_range]
    constructor
    · rintro ⟨n, -, hi, hk⟩
      exact ⟨hi, List.mem_of_getElem? hk⟩
    · rintro ⟨hi, hk⟩
      obtain ⟨n, hn⟩ := List.mem_iff_getElem?.mp hk
      have hlength := (List.getElem?_eq_some_iff.mp hn).1
      exact ⟨n, hlength.trans (length_lt_sum free hi), hi, hn⟩
  | concatenated => exact mem_routes.trans (and_congr_left' List.mem_range)

theorem not_before_self {arrangement : Composite.Arrangement} : ¬Before free arrangement r r := by
  cases arrangement <;> simp [Before]

theorem arranged_nodup (arrangement : Composite.Arrangement)
    (hnodup : ∀ i < S.size, (free i).Nodup) : (S.arranged free arrangement).Nodup := by
  refine (arranged_sorted arrangement hnodup).imp ?_
  rintro p q hbefore rfl
  exact not_before_self hbefore

theorem arranged_perm (arrangement : Composite.Arrangement)
    (hnodup : ∀ i < S.size, (free i).Nodup) :
    (S.arranged free arrangement).Perm ((List.range S.size).flatMap (routes free)) := by
  refine (perm_ext_iff_of_nodup (arranged_nodup arrangement hnodup) ?_).mpr fun r => ?_
  · exact routes_nodup nodup_range fun i hi => hnodup i (mem_range.mp hi)
  · rw [mem_arranged, mem_routes, mem_range]

end Stock

theorem Cpu.Holds.withAlloc {x : Cpu} {a : Automaton} {s : Shape} {f : Fleet} (h : x.Holds a s f)
    (alloc : Allocator) : ({ x with buffers := { x.buffers with alloc } } : Cpu).Holds a s f := by
  have hpart : ∀ p, ({ x.buffers with alloc } : HostBuffers).part p = x.buffers.part p :=
    fun p => by cases p <;> rfl
  refine ⟨h.automaton, h.opened, h.workers, h.buffers.shape, fun p => ?_, fun p i hi => ?_⟩
  · rw [hpart]
    exact h.buffers.spans p
  · rw [hpart]
    exact h.buffers.window p i hi

structure Crew (σ : Type) where
  size : Nat
  slot : Nat → Slot σ Cpu
  /-- The simulators when they were created. -/
  init : Nat → Cpu
  journal : Slot σ Journal
  /-- The worlds that have these parts. -/
  Has : σ → Prop
  slot_set : ∀ {w i} (x : Cpu), i < size → Has w → Has ((slot i).set w x) ∧
    ∀ j < size, (slot j).get ((slot i).set w x) = if j = i then x else (slot j).get w

namespace Crew

variable {σ : Type} (C : Crew σ)

def sim (i : Nat) : Simulator σ := (C.init i).simulator (C.slot i) C.journal

def component (i : Nat) : Nat × Simulator σ := (i, C.sim i)

structure Staffed (a : Automaton) (shape : Nat → Shape) (fs : Nat → Fleet) (w : σ) : Prop where
  has : C.Has w
  holds : ∀ i < C.size, ((C.slot i).get w).Holds a (shape i) (fs i)

/-- As `Staffed`, and the simulators have ids that are free. -/
structure Stocked (a : Automaton) (shape : Nat → Shape) (fs : Nat → Fleet) (free : Nat → List Nat)
    (w : σ) : Prop extends C.Staffed a shape fs w where
  free : ∀ i < C.size, ((C.slot i).get w).buffers.alloc.free = free i

variable {C} {a : Automaton} {shape : Nat → Shape} {fs : Nat → Fleet} {free : Nat → List Nat}
  {w : σ}

variable (C a shape fs) in
/-- The allocators of the simulators are parts of worlds in which they hold fleets. -/
def stock : Stock σ where
  size := C.size
  sim := C.sim
  Has := C.Staffed a shape fs
  set := by
    intro w i x hi h
    obtain ⟨hhas, hget⟩ := C.slot_set { (C.slot i).get w with buffers :=
      { ((C.slot i).get w).buffers with alloc := x } } hi h.has
    refine ⟨⟨hhas, fun j hj => ?_⟩, fun j hj => ?_⟩
    · refine (congrArg (Cpu.Holds · a (shape j) (fs j)) (hget j hj)).mpr ?_
      split
      · rename_i hji
        exact hji ▸ (h.holds i hi).withAlloc _
      · exact h.holds j hj
    · refine (congrArg (fun y : Cpu => y.buffers.alloc) (hget j hj)).trans ?_
      split <;> rfl

variable (C) in
def components : Composite.Components σ := (List.range C.size).map C.component

theorem buildRoutes_gives (arrangement : Composite.Arrangement) (h : C.Stocked a shape fs free w)
    (hnodup : ∀ i < C.size, (free i).Nodup) :
    ∃ rs w', (Composite.buildRoutes arrangement C.components).Gives w rs w' ∧
      C.Staffed a shape fs w' ∧ rs.Perm ((List.range C.size).flatMap (Stock.routes free)) := by
  obtain ⟨w', hgives, h'⟩ := Stock.buildRoutes_gives (S := C.stock a shape fs) arrangement
    ⟨h.toStaffed, h.free⟩
  exact ⟨_, w', hgives, h'.has, Stock.arranged_perm arrangement hnodup⟩

end Crew

end TiledAutomata
