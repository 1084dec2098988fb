import TiledAutomata.Proofs.Composition
import TiledAutomata.Proofs.Pending

/-!
# Simulators that can be wrapped

What a packed simulator asks of the simulator under it holds of every simulator that
answers as a fleet does, in worlds that keep the caches beside it. Among these are the
simulators on the processor and the composites of them.
-/

namespace TiledAutomata

open Act

variable {σ : Type} {a : Automaton} {s : Shape} {f : Fleet} {w : σ} {y : Packed}

theorem Act.Follows.ends_unit {x : Act σ Unit} {S : Fleet → σ → Prop} {r : Option Cause}
    {o : Option (Fleet × Words)} (h : Follows (do x; return #[]) w S r o) :
    x.Ends w (fun _ w' => ∃ g, o = some (g, #[]) ∧ S g w') fun _ w' => o = none ∧ w' = w := by
  have hends := h.ends
  unfold Ends at hends ⊢
  rw [outcome_bind] at hends
  rcases hx : x.outcome w with ⟨_ | _, w'⟩ <;> rw [hx] at hends <;> exact hends

namespace Simulator

variable (sim : Simulator σ) (p : Slot σ Packed) (S : Packed → Fleet → σ → Prop)

/-- What a read of a state returns. -/
def readState (w : σ) (j : Nat) : Words :=
  if j < sim.size.toInt.toNat then
    match ((sim.state (Int64.ofNat j)
      (Array.replicate sim.stateSize.toInt.toNat 0)).outcome w).1 with
    | .ok ws => ws
    | .error _ => #[]
  else #[]

/-- A simulator under caches, in the worlds that have a fleet for it. -/
def wrapped : Wrapped σ where
  sim := sim
  pack := p
  Has w := ∃ f, S (p.get w) f w
  state := sim.readState

theorem wrapped_state : (sim.wrapped p S).state = sim.readState := rfl

/-- A simulator answers as a fleet does, whatever the caches beside it are. -/
structure RunsBeside (a : Automaton) : Prop where
  runs : ∀ y, sim.Runs a sim.shape (S y)
  width_nonneg : 0 ≤ sim.stateSize.toInt
  pack : ∀ {y f w}, S y f w → p.get w = y
  set_pack : ∀ {y f w} z, S y f w → S z f (p.set w z)
  size_state : ∀ {y f w}, S y f w → ∀ j < sim.size.toInt.toNat,
    (f .state j).size = sim.stateSize.toInt.toNat

namespace RunsBeside

variable {sim p S} (h : sim.RunsBeside p S a)

include h

theorem meets (hw : S y f w) (x : Demand) (hx : x.Exact sim.shape) :
    (sim.meet x).Follows w (S y) (x.refusal sim.shape) (f.answer a sim.shape x) :=
  h.runs y f w hw x hx

theorem accepts {j : Nat} (hj : j < sim.size.toInt.toNat) {buf : Words}
    (hbuf : buf.size = sim.stateSize.toInt.toNat) :
    HostBuffers.Accepts sim.shape sim.shape.stateSize (Int64.ofNat j) buf ∧
      (Int64.ofNat j).toInt.toNat = j :=
  HostBuffers.accepts_ofNat h.width_nonneg hj hbuf

theorem gives_state (hw : S y f w) {j : Nat} (hj : j < sim.size.toInt.toNat) {buf : Words}
    (hbuf : buf.size = sim.stateSize.toInt.toNat) :
    ∃ w', (sim.state (Int64.ofNat j) buf).Gives w (f .state j) w' ∧ S y f w' := by
  obtain ⟨hacc, hid⟩ := h.accepts hj hbuf
  have hmeet := h.meets hw (.call (.state (Int64.ofNat j) buf)) trivial
  rw [Fleet.answer, Fleet.reply, if_pos hacc, hid,
    Words.overlay_all ((h.size_state hw j hj).trans hbuf.symm)] at hmeet
  exact hmeet

theorem readState_eq (hw : S y f w) :
    sim.readState w = fun j => if j < sim.size.toInt.toNat then f .state j else #[] := by
  funext j
  unfold readState
  by_cases hj : j < sim.size.toInt.toNat
  · obtain ⟨w', hgives, -⟩ := h.gives_state hw hj Array.size_replicate
    unfold Gives at hgives
    rw [if_pos hj, if_pos hj, hgives]
  · rw [if_neg hj, if_neg hj]

theorem same {g : Fleet} {w' : σ} (hw : S y f w) (hw' : S y g w') (hfg : g .state = f .state) :
    (sim.wrapped p S).Same w w' := by
  refine ⟨⟨g, (h.pack hw').symm ▸ hw'⟩, (h.pack hw').trans (h.pack hw).symm, ?_⟩
  rw [wrapped_state, h.readState_eq hw, h.readState_eq hw', hfg]

theorem spares {x : Act σ Unit} {d : Demand} (hx : sim.meet d = do x; return #[])
    (hd : d.Exact sim.shape)
    (hanswer : ∀ {f g ws}, Fleet.answer f a sim.shape d = some (g, ws) → g .state = f .state) :
    (sim.wrapped p S).Spares x := by
  rintro w ⟨f, hw⟩
  have hmeet := h.meets hw d hd
  rw [hx] at hmeet
  refine hmeet.ends_unit.mono ?_ ?_
  · rintro _ w' ⟨g, hg, hw'⟩
    exact h.same hw hw' (hanswer hg)
  · rintro _ w' ⟨-, rfl⟩
    exact h.same hw hw rfl

theorem spares_output (i : Int64) (buf : Words) : (sim.wrapped p S).Spares (sim.output i buf) := by
  rintro w ⟨f, hw⟩
  refine (h.meets hw (.call (.output i buf)) trivial).ends.mono ?_ ?_
  · rintro ws w' ⟨g, hg, hw'⟩
    obtain ⟨-, heq⟩ := Option.ite_some_none_eq_some.mp hg
    cases heq
    exact h.same hw hw' rfl
  · rintro _ w' ⟨-, rfl⟩
    exact h.same hw hw rfl

theorem ends_update (cancelled : Bool) (hw : S y f w) :
    (sim.update cancelled).Ends w (fun _ w' => ∃ g, S y g w') fun _ w' => ∃ g, S y g w' := by
  obtain ⟨r, o, hmeet⟩ : ∃ r o, Follows (do sim.update cancelled; return #[]) w (S y) r o := by
    cases cancelled with
    | true => exact ⟨_, _, h.meets hw .abandoned trivial⟩
    | false => exact ⟨_, _, h.meets hw (.call .update) trivial⟩
  refine hmeet.ends_unit.mono ?_ ?_
  · rintro _ w' ⟨g, -, hw'⟩
    exact ⟨g, hw'⟩
  · rintro _ w' ⟨-, rfl⟩
    exact ⟨f, hw⟩

theorem lawful : (sim.wrapped p S).Lawful True where
  width_nonneg := h.width_nonneg
  set_pack w z hw := by
    obtain ⟨f, hw⟩ := hw
    have hz := h.set_pack z hw
    have hget := h.pack hz
    refine ⟨⟨f, hget.symm ▸ hz⟩, hget, ?_⟩
    exact (h.readState_eq hz).trans (h.readState_eq hw).symm
  size_state w hw j hj := by
    obtain ⟨f, hw⟩ := hw
    rw [wrapped_state, h.readState_eq hw]
    exact (congrArg Array.size (if_pos hj)).trans (h.size_state hw j hj)
  getState w hw j hj buf hbuf := by
    obtain ⟨f, hw⟩ := hw
    obtain ⟨w', hgives, hw'⟩ := h.gives_state hw hj hbuf
    refine hgives.ends ⟨?_, h.same hw hw' rfl⟩
    rw [wrapped_state, h.readState_eq hw]
    exact (if_pos hj).symm
  setState w hw j hj buf hbuf := by
    obtain ⟨f, hw⟩ := hw
    have hj : j < sim.size.toInt.toNat := hj
    have hbuf : buf.size = sim.shape.stateSize.toInt.toNat := hbuf
    obtain ⟨hacc, hid⟩ := h.accepts hj hbuf
    have hmeet := h.meets hw (.call (.setState (Int64.ofNat j) buf)) trivial
    rw [Fleet.answer, Fleet.reply, if_pos hacc, hid] at hmeet
    refine hmeet.ends_unit.mono (fun _ w' => ?_) fun _ w' => ?_
    · rintro ⟨g, hg, hw'⟩
      cases hg
      refine ⟨⟨_, (h.pack hw').symm ▸ hw'⟩, (h.pack hw').trans (h.pack hw).symm, ?_⟩
      rw [wrapped_state, h.readState_eq hw, h.readState_eq hw']
      funext i
      by_cases hi : i = j
      · subst hi
        rw [Function.update_self, if_pos hj, Fleet.put_self, ← hbuf, Array.extract_size]
      · rw [Function.update_of_ne hi, Fleet.put_other f fun _ => hi]
    · rintro ⟨hnone, -⟩
      cases hnone
  setInput i buf := h.spares (d := .call (.setInput i buf)) rfl trivial fun hg => by
    obtain ⟨-, heq⟩ := Option.ite_some_none_eq_some.mp hg
    cases heq
    exact funext fun j => Fleet.put_other _ (fun hp => by cases hp) _
  output := h.spares_output
  setInputMap i m := h.spares (d := .call (.setInputMap i m)) rfl trivial fun hg => by
    obtain ⟨-, heq⟩ := Option.ite_some_none_eq_some.mp hg
    cases heq
    exact funext fun j => if_neg fun hp => by cases hp.1
  setOutputMap i m := h.spares (d := .call (.setOutputMap i m)) rfl trivial fun hg => by
    obtain ⟨-, heq⟩ := Option.ite_some_none_eq_some.mp hg
    cases heq
    exact funext fun j => if_neg fun hp => by cases hp.1
  update cancelled w hw := by
    obtain ⟨f, hw⟩ := hw
    refine (h.ends_update cancelled hw).mono ?_ ?_ <;>
    · rintro _ w' ⟨g, hw'⟩
      exact ⟨⟨g, (h.pack hw').symm ▸ hw'⟩, h.pack hw'⟩

end RunsBeside

end Simulator

variable {d : Descriptor} {wiring : Wiring} {cs : List Program.Compiled} {W : σ → Prop}
  {p : Slot σ Packed}

theorem Cpu.runsBeside {c : Slot σ Cpu} (x : Cpu) (journal : Slot σ Journal)
    (hb : a.Built d wiring cs) (hcp : c.Apart W p) (hcount : x.buffers.shape.Countable) :
    (x.simulator c journal).RunsBeside p
      (fun y => Seen (fun w => W w ∧ p.get w = y) c a x.buffers.shape) a where
  runs y := by
    refine Cpu.runs x journal hb fun w z hw => ?_
    obtain ⟨hworld, hget⟩ := hcp.left w z hw.1
    exact ⟨⟨hworld, (hcp.leaves_right w z hw.1).trans hw.2⟩, hget⟩
  width_nonneg := hcount.width_nonneg .state
  pack h := h.world.2
  set_pack {y f w} z h := by
    obtain ⟨hworld, hget⟩ := hcp.right w z h.world.1
    exact ⟨⟨hworld, hget⟩, (hcp.leaves_left w z h.world.1).symm ▸ h.holds⟩
  size_state h j hj := h.holds.buffers.size_window hj .state

namespace Crew

/-- The simulators of a crew and the caches over them are separate parts of a world. -/
structure Apart (C : Crew σ) (W : σ → Prop) (p : Slot σ Packed) : Prop where
  lawful : p.Lawful W
  kept : ∀ {w i} (x : Cpu), i < C.size → W w → W ((C.slot i).set w x)
  has : ∀ {w} (y : Packed), C.Has w → C.Has (p.set w y)
  leaves_pack : ∀ {w i} (x : Cpu), i < C.size → p.get ((C.slot i).set w x) = p.get w
  leaves_slot : ∀ {w i} (y : Packed), i < C.size → (C.slot i).get (p.set w y) = (C.slot i).get w

/-- A crew in worlds with these caches. -/
def beside (C : Crew σ) (hp : C.Apart W p) (y : Packed) : Crew σ where
  size := C.size
  slot := C.slot
  init := C.init
  journal := C.journal
  Has w := C.Has w ∧ W w ∧ p.get w = y
  slot_set {w i} x hi hw := by
    obtain ⟨hhas, hget⟩ := C.slot_set x hi hw.1
    exact ⟨⟨hhas, hp.kept x hi hw.2.1, (hp.leaves_pack x hi).trans hw.2.2⟩, hget⟩

theorem runsBeside {C : Crew σ} {first : Simulator σ} {alloc : Slot σ Allocator}
    {sizes : Nat → Int64} {routes : Array Composite.Route} (hp : C.Apart W p)
    (hb : a.Built d wiring cs) (hpos : 0 < C.size) (hr : C.Routed s sizes routes)
    (hcount : s.Countable)
    (hshape : (Composite.simulator first C.components routes alloc).shape = s) :
    (Composite.simulator first C.components routes alloc).RunsBeside p
      (fun y => (C.beside hp y).Shows a s sizes routes) a where
  runs y := by
    rw [hshape]
    exact runs (C := C.beside hp y) hb hpos hcount ⟨hr.size, hr.bounded, hr.distinct⟩ hshape
  width_nonneg := by
    have hwidth := hcount.width_nonneg .state
    rw [← hshape] at hwidth
    exact hwidth
  pack h := by
    obtain ⟨fs, hstaffed, -⟩ := h
    exact hstaffed.has.2.2
  set_pack {y f w} z h := by
    obtain ⟨fs, hstaffed, hwindow⟩ := h
    obtain ⟨hhas, hworld, -⟩ := hstaffed.has
    obtain ⟨hworld', hget⟩ := hp.lawful w z hworld
    refine ⟨fs, ⟨⟨hp.has z hhas, hworld', hget⟩, fun i hi => ?_⟩, hwindow⟩
    exact (hp.leaves_slot z hi).symm ▸ hstaffed.holds i hi
  size_state h j hj := by
    obtain rfl := hshape
    exact h.size_window (C := C.beside hp _) ⟨hr.size, hr.bounded, hr.distinct⟩ hj .state

end Crew

namespace Rig

variable {r r1 r2 : Rig} {wrapped packed : Handle} {b : Int64}

/-- A new simulator on the processor can be wrapped where it was made. -/
theorem wraps_cpu (hb : a.Built d wiring cs) {config : Config} {o : Options}
    (ho : 0 < o.processors) (hwrapped : (newCpu (some a) config o).Gives r wrapped r1)
    (hpacked : (newPacked wrapped.sim b).Gives r1 packed r2) :
    ∃ (K : Wrapped Rig) (y : Packed), K.Lawful True ∧ K.sim = wrapped.sim ∧
      Packed.create wrapped.sim b = .ok y ∧ K.pack = packSlot r1.packs.size y ∧ K.Has r2 ∧
      K.pack.get r2 = y := by
  obtain ⟨x, hx, hsim, hn, hget⟩ := newCpu_gives hwrapped
  obtain ⟨y, hy, -, hcpus, hm, hgety⟩ := newPacked_gives hpacked
  obtain ⟨v, -, -, -, hcaches⟩ := Packed.create_ok hy
  have hnew := Cpu.create_new hx ho
  rw [hsim] at hcaches
  obtain ⟨hcount, -⟩ :=
    Packed.countable_of_caches (v := v) hnew.count_pos fun k => ⟨_, _, hcaches k⟩
  have hbeside := Cpu.runsBeside x journalSlot hb (cpuSlot_apart r.cpus.size r1.packs.size x y)
    hcount
  refine ⟨_, y, hbeside.lawful, hsim.symm, hy, rfl, ⟨Fleet.zeros x.buffers.shape,
    ⟨⟨?_, hm⟩, rfl⟩, ?_⟩, hgety⟩
  · rw [hcpus]
    exact hn
  · rw [cpuSlot_get_eq hcpus, hget]
    exact hnew.holds hcount

variable {t : Nat × Cpu} {team : List (Nat × Cpu)}

theorem crew_apart (hdistinct : (team.map Prod.fst).Nodup) (m : Nat) (y : Packed) :
    (crew t team hdistinct).Apart (fun r => m < r.packs.size) (packSlot m y) where
  lawful := packSlot_lawful m y
  kept _ _ hr := hr
  has _ hr := hr
  leaves_pack _ _ := rfl
  leaves_slot _ _ := rfl

/-- So can a composite of such simulators. -/
theorem wraps_composite (hb : a.Built d wiring cs) {ts : List (Nat × Cpu)}
    (h : Adds a s r (t :: ts)) {alloc : Allocator} (halloc : Allocator.create s.size = .ok alloc)
    {arrangement : Composite.Arrangement}
    (hwrapped : (newComposite ((t :: ts).map memberSim) arrangement).Gives r wrapped r1)
    (hpacked : (newPacked wrapped.sim b).Gives r1 packed r2) :
    ∃ (K : Wrapped Rig) (y : Packed), K.Lawful True ∧ K.sim = wrapped.sim ∧
      Packed.create wrapped.sim b = .ok y ∧ K.pack = packSlot r1.packs.size y ∧ K.Has r2 ∧
      K.pack.get r2 = y := by
  obtain ⟨handle, r', routes, slot, hgives, hsim, hshape, hrouted, hshows⟩ :=
    h.newComposite halloc arrangement
  obtain ⟨rfl, rfl⟩ := hwrapped.unique hgives
  obtain ⟨y, hy, -, hcpus, hm, hgety⟩ := newPacked_gives hpacked
  obtain ⟨fs, hstaffed, hwindow⟩ := hshows
  have hbeside := Crew.runsBeside (crew_apart h.distinct r1.packs.size y) hb (Nat.succ_pos _)
    hrouted h.countable (hsim ▸ hshape)
  refine ⟨_, y, hbeside.lawful, hsim.symm, hy, rfl, ⟨Fleet.zeros s, fs, ⟨⟨?_, hm, rfl⟩, ?_⟩,
    hwindow⟩, hgety⟩
  · intro p hp
    rw [hcpus]
    exact hstaffed.has p hp
  · intro i hi
    exact (cpuSlot_get_eq hcpus _ _).symm ▸ hstaffed.holds i hi

end Rig

end TiledAutomata
