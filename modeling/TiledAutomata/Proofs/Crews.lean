import TiledAutomata.Proofs.Refusals
import TiledAutomata.Proofs.Routing

/-!
# A composite shows one fleet

Behind the ids of a composite stand instances of its components, each behind one id. So the
fleets of the components make one fleet, and a composite does what this fleet does: calls
for an instance reach the one behind its id, and bulk calls and updates reach all.
-/

open List

namespace TiledAutomata

open Fleet Function Act

open Composite (Route)

section Following

variable {σ : Type} {x y : Act σ Words} {w : σ} {S S' : Fleet → σ → Prop} {r : Option Cause}
  {o o' : Option (Fleet × Words)}

theorem Act.Follows.transfer (h : x.Follows w S r o) (hxy : y.outcome w = x.outcome w)
    (hwords : o'.map Prod.snd = o.map Prod.snd)
    (hS : ∀ f f' ws w', o = some (f, ws) → o' = some (f', ws) → S f w' → S' f' w') :
    y.Follows w S' r o' := by
  cases o with
  | none =>
    obtain ⟨e, he, hsignals⟩ := h
    rw [Option.map_eq_none_iff.mp hwords]
    exact ⟨e, hxy.trans he, hsignals⟩
  | some answer =>
    obtain ⟨f, ws⟩ := answer
    obtain ⟨w', hgives, hw'⟩ := h
    obtain ⟨⟨f', ws'⟩, rfl, hws⟩ := Option.map_eq_some_iff.mp hwords
    obtain rfl : ws' = ws := hws
    exact ⟨w', hxy.trans hgives, hS f f' ws' w' rfl rfl hw'⟩

end Following

def Call.retarget (k : Call) (i : Int64) : Call :=
  match k with
  | .setState _ buf => .setState i buf
  | .setInput _ buf => .setInput i buf
  | .setInputMap _ m => .setInputMap i m
  | .setOutputMap _ m => .setOutputMap i m
  | .state _ buf => .state i buf
  | .output _ buf => .output i buf
  | k => k

section Retargeting

variable {k : Call} {i j : Int64} {s : Shape} {f g : Fleet} {a : Automaton}

theorem Call.retarget_instance (hk : k.instance? = some i) :
    (k.retarget j).instance? = some j := by
  cases k <;> first | rfl | cases hk

theorem Call.exact_of_instance (hk : k.instance? = some i) : k.Exact s := by
  cases k <;> first | exact trivial | cases hk

def Shape.resize (s : Shape) (n : Int64) : Shape := { s with size := n }

theorem Fleet.answer_retarget {n : Int64} (hk : k.instance? = some i) (hi : s.Valid i)
    (hj : (s.resize n).Valid j) (hfg : ∀ p, f p i.toInt.toNat = g p j.toInt.toNat) :
    (f.answer a s (.call k)).map Prod.snd =
        (g.answer a (s.resize n) (.call (k.retarget j))).map Prod.snd ∧
      ∀ p, f.next a s (.call k) p i.toInt.toNat =
        g.next a (s.resize n) (.call (k.retarget j)) p j.toInt.toNat := by
  have hput : ∀ q ws p, f.put q i.toInt.toNat ws p i.toInt.toNat =
      g.put q j.toInt.toNat ws p j.toInt.toNat := by
    intro q ws p
    unfold put
    rw [hfg p]
    simp only [and_true]
  have heach : ∀ q ws p, f.putEach q (slotMates 1 i) ws p i.toInt.toNat =
      g.putEach q (slotMates 1 j) ws p j.toInt.toNat := by
    intro q ws p
    rw [putEach_one, putEach_one]
    exact hput q ws p
  have hacc : ∀ {width buf}, HostBuffers.Accepts (s.resize n) width j buf ↔
      HostBuffers.Accepts s width i buf := and_congr_left' (iff_of_true hj hi)
  -- both calls are accepted or both are refused
  have hboth : ∀ {width buf} {x y : Fleet × Words}, x.2 = y.2 →
      (∀ p, x.1 p i.toInt.toNat = y.1 p j.toInt.toNat) →
      (if HostBuffers.Accepts s width i buf then some x else none).map Prod.snd =
          (if HostBuffers.Accepts (s.resize n) width j buf then some y else none).map Prod.snd ∧
        ∀ p, ((if HostBuffers.Accepts s width i buf then some x else none).map Prod.fst).getD f p
            i.toInt.toNat =
          ((if HostBuffers.Accepts (s.resize n) width j buf then some y else none).map
            Prod.fst).getD g p j.toInt.toNat := by
    intro width buf x y hwords hwindows
    by_cases h : HostBuffers.Accepts s width i buf
    · rw [if_pos h, if_pos (hacc.mpr h)]
      exact ⟨congrArg some hwords, hwindows⟩
    · rw [if_neg h, if_neg fun h' => h (hacc.mp h')]
      exact ⟨rfl, hfg⟩
  cases k with
  | setStates | setInputs | update | states | outputs => cases hk
  | setState i' buf | setInput i' buf =>
    cases hk
    exact hboth rfl (hput _ _)
  | setInputMap i' m | setOutputMap i' m =>
    cases hk
    exact hboth rfl (heach _ _)
  | state i' buf =>
    cases hk
    exact hboth (congrArg (buf.overlay 0) (hfg .state)) hfg
  | output i' buf =>
    cases hk
    exact hboth (congrArg (buf.overlay 0) (hfg .output)) hfg

end Retargeting

def Fleet.advanceAll (f : Fleet) (p : Plan) : Fleet := fun q j =>
  q.of (Cpu.advanced p (f.instanceAt j))

namespace Composite

variable {σ : Type} {first c : Simulator σ} {cs : Components σ} {routes : Array Route}
  {alloc : Slot σ Allocator} {r : Route} {k : Call} {i : Int64} {e : Error}

theorem perform_routed (hk : k.instance? = some i) (hr : routeOf routes i = .ok r)
    (hc : cs.lookup r.component = some c) (w : σ) :
    ((simulator first cs routes alloc).perform k).outcome w =
      (c.perform (k.retarget (Int64.ofNat r.index))).outcome w := by
  have hforward : ∀ {α : Type} {next : Route → Act σ α} {call : Act σ α}, next r = call →
      (Act.ofExcept (routeOf routes i) >>= next).outcome w = call.outcome w := by
    rintro α next _ rfl
    exact (gives_ofExcept hr w).bind_outcome
  have hreturn : ∀ {x y : Act σ Unit}, x.outcome w = y.outcome w →
      Act.outcome (do x; return #[] : Act σ Words) w =
        Act.outcome (do y; return #[] : Act σ Words) w := by
    intro x y hxy
    rw [outcome_bind, outcome_bind, hxy]
  cases k with
  | setStates | setInputs | update | states | outputs => cases hk
  | setState | setInput | setInputMap | setOutputMap =>
    cases hk
    exact hreturn (hforward (by rw [hc]))
  | state | output =>
    cases hk
    exact hforward (by rw [hc]; rfl)

theorem perform_unrouted (hk : k.instance? = some i) (hr : routeOf routes i = .error e) (w : σ) :
    ((simulator first cs routes alloc).perform k).outcome w = (.error e, w) := by
  have hrefused : (Act.ofExcept (routeOf routes i) : Act σ Route).outcome w = (.error e, w) := by
    rw [hr]
    rfl
  have hforward : ∀ {α : Type} (next : Route → Act σ α),
      (Act.ofExcept (routeOf routes i) >>= next).outcome w = (.error e, w) :=
    outcome_bind_error hrefused
  cases k with
  | setStates | setInputs | update | states | outputs => cases hk
  | setState | setInput | setInputMap | setOutputMap =>
    cases hk
    exact outcome_bind_error (hforward _) _
  | state | output =>
    cases hk
    exact hforward _

theorem failures_aborted {label : Nat → String} {n : Nat} {x : Act σ Unit} {text : Option String}
    {w : σ} (hx : x.outcome w = (.error (.abort text), w)) (xs : List (Nat × Act σ Unit)) :
    (failures label ((n, x) :: xs)).outcome w = (.error (.abort text), w) := by
  refine outcome_bind_error ?_ _
  rw [outcome_attempt, hx]

theorem failures_refused {xs : List (Nat × Act σ Unit)} {cause : Cause} {w : σ}
    (h : ∀ x ∈ xs, x.2.outcome w = (.error (.cause cause), w)) (label : Nat → String) :
    ∃ es, (failures label xs).Gives w es w ∧ es.length = xs.length ∧
      ∀ e ∈ es, e.Signals (some cause) := by
  induction xs with
  | nil => exact ⟨[], gives_pure _ w, rfl, fun e he => by cases he⟩
  | cons x xs ih =>
    obtain ⟨es, hes, hlength, hsignals⟩ := ih fun y hy => h y (mem_cons_of_mem x hy)
    have hattempt : x.2.attempt.Gives w (.error (.cause cause)) w := by
      rw [Act.Gives, outcome_attempt, h x mem_cons_self]
    refine ⟨_, hattempt.bind (hes.bind (gives_pure _ w)), congrArg Nat.succ hlength, ?_⟩
    exact forall_mem_cons.mpr ⟨(Error.signals_cause cause).within _, hsignals⟩

theorem routeOf_valid {s : Shape} (hsize : routes.size = s.size.toInt.toNat) (hi : s.Valid i) :
    ∃ r, routes[i.toInt.toNat]? = some r ∧ routeOf routes i = .ok r := by
  have hlt : i.toInt.toNat < routes.size := hsize ▸ hi.nat.1
  refine ⟨routes[i.toInt.toNat], Array.getElem?_eq_getElem hlt, ?_⟩
  rw [routeOf, if_neg (Int64.not_lt.mpr hi.1), Array.getElem?_eq_getElem hlt]

theorem routeOf_invalid {s : Shape} (hsize : routes.size = s.size.toInt.toNat) (hi : ¬s.Valid i) :
    routeOf routes i = .error (badInstance "composite" i (Int64.ofNat routes.size)) := by
  unfold routeOf
  split
  · rfl
  · rename_i hnonneg
    have hge : s.size ≤ i := Int64.not_lt.mp fun hlt => hi ⟨Int64.not_lt.mp hnonneg, hlt⟩
    have hle := Int64.le_iff_toInt_le.mp hge
    rw [Array.getElem?_eq_none (by omega)]

end Composite

namespace Crew

variable {σ : Type} {C : Crew σ} {first : Simulator σ} {alloc : Slot σ Allocator} {a : Automaton}
  {s : Shape} {sizes : Nat → Int64} {routes : Array Route} {f g : Fleet} {fs : Nat → Fleet} {w : σ}
  {k : Call} {i : Int64} {c : Nat} {d : Descriptor} {wiring : Wiring}
  {compiled : List Program.Compiled}

/-- An instance of a component stands behind each id, and behind no other. -/
structure Routed (C : Crew σ) (s : Shape) (sizes : Nat → Int64) (routes : Array Route) : Prop where
  size : routes.size = s.size.toInt.toNat
  bounded : ∀ {j : Nat} {r}, routes[j]? = some r →
    r.component < C.size ∧ r.index < (sizes r.component).toInt.toNat
  distinct : ∀ {j j' : Nat} {r}, routes[j]? = some r → routes[j']? = some r → j = j'

theorem routed_of_perm {rs : List Route}
    (hperm : rs.Perm ((List.range C.size).flatMap
      (Stock.routes fun c => List.range (sizes c).toInt.toNat)))
    (hsum : ((List.range C.size).map fun c => (sizes c).toInt.toNat).sum = s.size.toInt.toNat) :
    C.Routed s sizes rs.toArray := by
  have hnodup : rs.Nodup :=
    hperm.nodup_iff.mpr (Stock.routes_nodup nodup_range fun _ _ => nodup_range)
  refine ⟨?_, fun {j r} hr => ?_, fun {j j' r} hr hr' => ?_⟩
  · rw [size_toArray, hperm.length_eq, length_flatMap, ← hsum]
    simp only [Stock.routes, length_map, length_range]
  · rw [List.getElem?_toArray] at hr
    obtain ⟨hcomponent, hindex⟩ := Stock.mem_routes.mp (hperm.mem_iff.mp (mem_of_getElem? hr))
    exact ⟨mem_range.mp hcomponent, mem_range.mp hindex⟩
  · rw [List.getElem?_toArray] at hr hr'
    exact (List.getElem?_inj (List.getElem?_eq_some_iff.mp hr).1 hnodup).mp (hr.trans hr'.symm)

def Shows (C : Crew σ) (a : Automaton) (s : Shape) (sizes : Nat → Int64) (routes : Array Route)
    (f : Fleet) (w : σ) : Prop :=
  ∃ fs, C.Staffed a (fun c => s.resize (sizes c)) fs w ∧
    ∀ (j : Nat) r, routes[j]? = some r → ∀ p, f p j = fs r.component p r.index

theorem lookup_components (hc : c < C.size) : C.components.lookup c = some (C.sim c) := by
  have hlookup : ∀ is : List Nat, c ∈ is → (is.map C.component).lookup c = some (C.sim c) := by
    intro is hmem
    induction is with
    | nil => cases hmem
    | cons i is ih =>
      rw [map_cons, component, lookup_cons]
      by_cases hci : c = i
      · simp [hci]
      · rw [beq_false_of_ne hci]
        exact ih (mem_of_ne_of_mem hci hmem)
  exact hlookup _ (mem_range.mpr hc)

def Others (C : Crew σ) (c : Nat) (w u : σ) : Prop :=
  C.Has u ∧ ∀ j < C.size, j ≠ c → (C.slot j).get u = (C.slot j).get w

theorem slot_lawful (hc : c < C.size) (w : σ) : (C.slot c).Lawful (C.Others c w) := by
  intro u x hu
  obtain ⟨hhas, hget⟩ := C.slot_set x hc hu.1
  refine ⟨⟨hhas, fun j hj hjc => ?_⟩, ?_⟩
  · rw [hget j hj, if_neg hjc]
    exact hu.2 j hj hjc
  · rw [hget c hc, if_pos rfl]

theorem Staffed.change {shape : Nat → Shape} {u : σ} (h : C.Staffed a shape fs w)
    (hu : Cpu.Seen (C.Others c w) (C.slot c) a (shape c) g u) :
    C.Staffed a shape (Function.update fs c g) u := by
  refine ⟨hu.world.1, fun j hj => ?_⟩
  by_cases hjc : j = c
  · subst hjc
    rw [update_self]
    exact hu.holds
  · rw [update_of_ne hjc, hu.world.2 j hj hjc]
    exact h.holds j hj

theorem Shows.call (hb : a.Built d wiring compiled) (hr : C.Routed s sizes routes)
    (h : C.Shows a s sizes routes f w) (hk : k.instance? = some i) :
    ((Composite.simulator first C.components routes alloc).perform k).Follows w
      (C.Shows a s sizes routes) (k.refusal s) (f.answer a s (.call k)) := by
  by_cases hi : s.Valid i
  · obtain ⟨fs, hstaffed, hwindow⟩ := h
    obtain ⟨r, hroute, hrouteOf⟩ := Composite.routeOf_valid hr.size hi
    obtain ⟨hcomponent, hindex⟩ := hr.bounded hroute
    obtain ⟨hj, hjid⟩ := Shape.valid_ofNat (s := s.resize (sizes r.component)) hindex
    have hfg : ∀ p, f p i.toInt.toNat = fs r.component p (Int64.ofNat r.index).toInt.toNat := by
      rw [hjid]
      exact hwindow _ r hroute
    have hanswer := Fleet.answer_retarget (a := a) hk hi hj hfg
    have hinstance := Call.retarget_instance (j := Int64.ofNat r.index) hk
    have hrefusal : (k.retarget (Int64.ofNat r.index)).refusal (s.resize (sizes r.component)) =
        k.refusal s := by
      simp [Call.refusal, hk, hinstance, hi, hj]
    have hrun := Cpu.runs (C.init r.component) C.journal hb (C.slot_lawful hcomponent w)
      (fs r.component) w ⟨⟨hstaffed.has, fun _ _ _ => rfl⟩, hstaffed.holds _ hcomponent⟩
      (.call (k.retarget (Int64.ofNat r.index))) (Call.exact_of_instance hinstance)
    rw [← hrefusal]
    refine hrun.transfer (Composite.perform_routed hk hrouteOf (lookup_components hcomponent) w)
      hanswer.1 fun g' f' ws u hg' hf' hu => ⟨_, hstaffed.change hu, fun j q hq p => ?_⟩
    have hnext : f.next a s (.call k) = f' := by rw [Fleet.next, hf']; rfl
    have hnext' : (fs r.component).next a (s.resize (sizes r.component))
        (.call (k.retarget (Int64.ofNat r.index))) = g' := by rw [Fleet.next, hg']; rfl
    rw [hnext, hnext', hjid] at hanswer
    by_cases hji : j = i.toInt.toNat
    · obtain rfl : r = q := Option.some.inj (hroute.symm.trans (hji ▸ hq))
      rw [hji, Function.update_self]
      exact hanswer.2 p
    · rw [← hnext, Fleet.next_other hk hji, hwindow j q hq]
      by_cases hqc : q.component = r.component
      · have hqi : q.index ≠ (Int64.ofNat r.index).toInt.toNat := fun heq => by
          obtain rfl : q = r := congrArg₂ Route.mk hqc (heq.trans hjid)
          exact hji (hr.distinct hq hroute)
        rw [hqc, Function.update_self, ← hnext', Fleet.next_other hinstance hqi]
      · rw [Function.update_of_ne hqc]
  · have hnone := Fleet.answer_refused (f := f) (a := a) hk hi
    rw [hnone]
    refine ⟨_, Composite.perform_unrouted hk (Composite.routeOf_invalid hr.size hi) w, ?_⟩
    simp only [Call.refusal, hk, Option.map_some, if_neg hi]
    exact Error.signals_badInstance _ _ _

variable (first alloc) in
theorem Shows.answered (hb : a.Built d wiring compiled) (hr : C.Routed s sizes routes)
    (h : C.Shows a s sizes routes f w) (hk : k.instance? = some i) {ws : Words}
    (hanswer : f.answer a s (.call k) = some (g, ws)) :
    ∃ w', ((Composite.simulator first C.components routes alloc).perform k).Gives w ws w' ∧
      C.Shows a s sizes routes g w' := by
  have hcall : ((Composite.simulator first C.components routes alloc).perform k).Follows w _ _ _ :=
    h.call hb hr hk
  rwa [hanswer] at hcall

variable (first alloc) in
theorem Shows.wrote (hb : a.Built d wiring compiled) (hr : C.Routed s sizes routes)
    (h : C.Shows a s sizes routes f w) (hk : k.instance? = some i) {x : Act σ Unit}
    (hx : (Composite.simulator first C.components routes alloc).perform k = do x; return #[])
    (hanswer : f.answer a s (.call k) = some (g, #[])) :
    ∃ w', x.Gives w () w' ∧ C.Shows a s sizes routes g w' := by
  obtain ⟨w', hgives, hw'⟩ := h.answered first alloc hb hr hk hanswer
  rw [hx] at hgives
  obtain ⟨_, u, hcall, hreturn⟩ := hgives.of_bind
  obtain ⟨-, rfl⟩ := hreturn.unique (gives_pure _ _)
  exact ⟨_, hcall, hw'⟩

theorem Shows.size_window (hr : C.Routed s sizes routes) (h : C.Shows a s sizes routes f w)
    {j : Nat} (hj : j < s.size.toInt.toNat) (p : Part) :
    (f p j).size = (s.width p).toInt.toNat := by
  obtain ⟨fs, hstaffed, hwindow⟩ := h
  have hlt : j < routes.size := hr.size ▸ hj
  have hroute : routes[j]? = some routes[j] := Array.getElem?_eq_getElem hlt
  obtain ⟨hcomponent, hindex⟩ := hr.bounded hroute
  rw [hwindow j _ hroute p, (hstaffed.holds _ hcomponent).buffers.size_window hindex]
  cases p <;> rfl

theorem Shows.congr (hr : C.Routed s sizes routes) (h : C.Shows a s sizes routes f w)
    (hfg : ∀ p, ∀ j < s.size.toInt.toNat, f p j = g p j) : C.Shows a s sizes routes g w := by
  obtain ⟨fs, hstaffed, hwindow⟩ := h
  refine ⟨fs, hstaffed, fun j r hroute p => ?_⟩
  have hj : j < routes.size := (Array.getElem?_eq_some_iff.mp hroute).1
  rw [← hfg p j (hr.size ▸ hj), hwindow j r hroute p]

theorem update_gives (hb : a.Built d wiring compiled) {shape : Nat → Shape} {is : List Nat}
    (hunits : ∀ c, a.runnable ∧ 0 < (shape c).stateSize) (hnodup : is.Nodup)
    (his : ∀ c ∈ is, c < C.size) (h : C.Staffed a shape fs w) (label : Nat → String) :
    ∃ w', (Composite.failures label (is.map fun c => (c, (C.sim c).update false))).Gives w [] w' ∧
      C.Staffed a shape (fun c => if c ∈ is then (fs c).advanceAll a.plan else fs c) w' := by
  induction is generalizing fs w with
  | nil => exact ⟨w, gives_pure _ w, h⟩
  | cons c is ih =>
    obtain ⟨hfresh, hrest⟩ := nodup_cons.mp hnodup
    have hc := his c mem_cons_self
    obtain ⟨x, hgives, hx⟩ : ∃ x, ((C.sim c).update false).Gives w () ((C.slot c).set w x) ∧
        x.Holds a (shape c) ((fs c).advanceAll a.plan) :=
      Cpu.gives_update hb (h.holds c hc) (hunits c)
    have hseen : Cpu.Seen (C.Others c w) (C.slot c) a (shape c) ((fs c).advanceAll a.plan)
        ((C.slot c).set w x) :=
      Cpu.Seen.set (slot_lawful hc w) ⟨h.has, fun _ _ _ => rfl⟩ hx
    obtain ⟨w', hothers, hw'⟩ := ih hrest (fun j hj => his j (mem_cons_of_mem c hj))
      (h.change hseen)
    refine ⟨w', hgives.attempt.bind hothers, ?_⟩
    convert hw' using 2 with j
    by_cases hj : j = c
    · subst hj
      rw [if_pos mem_cons_self, if_neg hfresh, update_self]
    · rw [update_of_ne hj]
      simp only [mem_cons, hj, false_or]

theorem components_updates (cancelled : Bool) :
    (C.components.map fun (c, sim) => (c, sim.update cancelled)) =
      (List.range C.size).map fun c => (c, (C.sim c).update cancelled) :=
  map_map

/-- The components may be updated in any order. All succeed, and what the instances show after
that does not depend on the order. -/
theorem Shows.updated (hb : a.Built d wiring compiled) (hr : C.Routed s sizes routes)
    (h : C.Shows a s sizes routes f w) (hunits : a.runnable ∧ 0 < s.stateSize) {is : List Nat}
    (his : is.Perm (List.range C.size)) (label : Nat → String) :
    ∃ w', (Composite.failures label (is.map fun c => (c, (C.sim c).update false))).Gives w [] w' ∧
      C.Shows a s sizes routes (f.advanceAll a.plan) w' := by
  obtain ⟨fs, hstaffed, hwindow⟩ := h
  have hall : ∀ c, a.runnable ∧ 0 < (s.resize (sizes c)).stateSize := fun _ => hunits
  obtain ⟨w', hgives, hw'⟩ := update_gives hb hall (his.nodup_iff.mpr nodup_range)
    (fun c hc => mem_range.mp (his.mem_iff.mp hc)) hstaffed label
  refine ⟨w', hgives, _, hw', fun j r hroute p => ?_⟩
  have hinstance : f.instanceAt j = (fs r.component).instanceAt r.index := by
    simp only [Fleet.instanceAt, hwindow j r hroute]
  rw [if_pos (his.mem_iff.mpr (mem_range.mpr (hr.bounded hroute).1))]
  exact congrArg (fun x => p.of (Cpu.advanced a.plan x)) hinstance

theorem Shows.update (hb : a.Built d wiring compiled) (hpos : 0 < C.size)
    (hr : C.Routed s sizes routes) (h : C.Shows a s sizes routes f w) :
    ((Composite.simulator first C.components routes alloc).meet (.call .update)).Follows w
      (C.Shows a s sizes routes) none (f.answer a s (.call .update)) := by
  dsimp only [Fleet.answer, Fleet.reply]
  split
  · rename_i hunits
    obtain ⟨w', hgives, hw'⟩ := h.updated hb hr hunits (.refl _)
      fun c => "composite: component " ++ toString c
    rw [← components_updates] at hgives
    exact ⟨w', (hgives.bind (gives_pure () w')).bind (gives_pure _ w'), hw'⟩
  · rename_i hbad
    obtain ⟨fs, hstaffed, -⟩ := h
    refine ⟨.abort none, outcome_bind_error (outcome_bind_error ?_ _) _,
      Error.signals_abort _⟩
    obtain ⟨n, hn⟩ : ∃ n, C.size = n + 1 := ⟨C.size - 1, by omega⟩
    rw [components_updates, hn, range_succ_eq_map, map_cons]
    exact Composite.failures_aborted
      (Slot.outcome_change (Cpu.update_error (hstaffed.holds 0 hpos) hbad)) _

theorem Shows.abandoned (hpos : 0 < C.size) (h : C.Shows a s sizes routes f w) :
    ((Composite.simulator first C.components routes alloc).meet .abandoned).Follows w
      (C.Shows a s sizes routes) (some .canceled) none := by
  obtain ⟨fs, hstaffed, -⟩ := h
  have hrefused : ∀ x ∈ (List.range C.size).map fun c => (c, (C.sim c).update true),
      x.2.outcome w = (.error (.cause .canceled), w) := by
    intro x hx
    obtain ⟨c, hc, rfl⟩ := mem_map.mp hx
    exact Slot.outcome_change (Cpu.update_cancelled (hstaffed.holds c (mem_range.mp hc)))
  obtain ⟨es, hes, hlength, hsignals⟩ := Composite.failures_refused hrefused
    fun c => "composite: component " ++ toString c
  have hsome : es ≠ [] := by
    rintro rfl
    exact hpos.ne (by simpa using hlength)
  rw [← components_updates] at hes
  refine ⟨.joined es, outcome_bind_error ?_ _, Error.signals_joined hsome hsignals⟩
  refine hes.bind_outcome.trans ?_
  rw [isEmpty_eq_false_iff.mpr hsome]
  rfl

theorem runs (hb : a.Built d wiring compiled) (hpos : 0 < C.size) (hs : s.Countable)
    (hr : C.Routed s sizes routes)
    (hshape : (Composite.simulator first C.components routes alloc).shape = s) :
    (Composite.simulator first C.components routes alloc).Runs a s
      (C.Shows a s sizes routes) := by
  intro f w h x hx
  obtain rfl := hshape
  cases x with
  | abandoned => exact h.abandoned hpos
  | call k =>
    cases k with
    | setState | setInput | setInputMap | setOutputMap | state | output => exact h.call hb hr rfl
    | update => exact h.update hb hpos hr
    | setStates buf =>
      obtain ⟨w', hgives, hw'⟩ := gives_setAll (p := .state) (hs.spans (p := .state) hx)
        (fun _ _ _ h => h.congr hr) (fun _ _ i ws h hacc =>
          h.wrote first alloc hb hr (k := .setState i ws) rfl rfl (if_pos hacc)) _ _ h
      exact ⟨w', hgives.bind (gives_pure _ _), hw'⟩
    | setInputs buf =>
      obtain ⟨w', hgives, hw'⟩ := gives_setAll (p := .input) (hs.spans (p := .input) hx)
        (fun _ _ _ h => h.congr hr) (fun _ _ i ws h hacc =>
          h.wrote first alloc hb hr (k := .setInput i ws) rfl rfl (if_pos hacc)) _ _ h
      exact ⟨w', hgives.bind (gives_pure _ _), hw'⟩
    | states buf =>
      exact gives_getAll (hs.spans (p := .state) hx) _
        (fun j hj => h.size_window hr hj .state) (fun _ i ws h hacc =>
          h.answered first alloc hb hr (k := .state i ws) rfl (if_pos hacc)) _ _ h
    | outputs buf =>
      exact gives_getAll (hs.spans (p := .output) hx) _
        (fun j hj => h.size_window hr hj .output) (fun _ i ws h hacc =>
          h.answered first alloc hb hr (k := .output i ws) rfl (if_pos hacc)) _ _ h

end Crew

end TiledAutomata
