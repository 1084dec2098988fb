import TiledAutomata.Proofs.Pending

/-!
# Simulators that fail when they have advanced

The cache of the states of a packed simulator is coherent, up to updates of the wrapped simulator
that fail when they have advanced it.
-/

namespace TiledAutomata

open Array Demand Rig Slot

def Demand.halves : List Demand :=
  [.call (.setStates ((Array.range 12).map fun j => Int32.ofNat (1000 * j))), .call .update]

namespace Wrapped

open HostBuffers (Accepts)

open Packed (logical)

/-- The cache of the states is coherent after every history, unless the wrapped simulator has failed
half way through an update behind it. A read returns the last write to an instance while it is
pending, and else what the wrapped simulator holds, if that can be read. When states are stored, an
instance is given the write that is pending and keeps what the wrapped simulator holds if there is
none; where storing fails, instances may be left that have not been given theirs. -/
theorem state_cache_coherent {σ : Type} {K : Wrapped σ} {reliable : Prop}
    (hK : K.Lawful reliable) {bits : Nat} {L : Ledger} {w : σ} (h : K.Reached bits L w)
    (hmissed : ¬L.missed) :
    (∀ (i : Int64) (buf : Words), Accepts (logical K.sim.shape bits) K.sim.stateSize i buf →
      ((Packed.simulator K.sim bits K.pack).state i buf).Ends w
        (fun ws _ => ws = buf.overlay 0
          ((L.pending i.toInt.toNat).getD (K.lane bits w i.toInt.toNat)))
        fun _ _ => ¬reliable) ∧
    K.storeStates.Ends w
      (fun _ w' => ∀ i < (logical K.sim.shape bits).size.toInt.toNat,
        K.lane bits w' i = (L.pending i).getD (K.lane bits w i))
      fun _ w' => ¬reliable ∧ ∀ i < (logical K.sim.shape bits).size.toInt.toNat,
        K.lane bits w' i = K.lane bits w i ∨ L.pending i = some (K.lane bits w' i) := by
  obtain ⟨v, rfl, hw⟩ := h.coherent hK
  rw [hw.sized.count]
  exact ⟨fun i buf hacc => (hw.get hK "state" i buf).mono (fun _ _ h' => h'.2 hmissed)
    fun _ _ h' => h'.2 hacc, (hw.storeStates hK).mono (fun _ _ h' => h'.2 hmissed)
    fun _ _ h' => ⟨h'.1, h'.2.2 hmissed⟩⟩

section Late

def blank : Packed where
  bits := 16
  alloc := {}
  state := { width := 6, words := #[Array.replicate 6 0], valid := true }
  input := { width := 1, words := #[], valid := true }
  output := { width := 1, words := #[], valid := true }

def drawer : Slot Rig Words :=
  (Rig.packSlot 1 blank).part (·.state.words.getD 0 #[]) fun y ws =>
    { y with state := { y.state with words := #[ws] } }

def late : Simulator Rig where
  size := 1
  inputSize := 1
  stateSize := 6
  outputSize := 1
  allocator := (Rig.packSlot 1 blank).part (·.alloc) fun y alloc => { y with alloc }
  state _ _ := drawer.read
  setState _ := drawer.write
  setInput _ _ := pure ()
  output _ := pure
  setInputMap _ _ := pure ()
  setOutputMap _ _ := pure ()
  states := pure
  setStates _ := pure ()
  setInputs _ := pure ()
  outputs := pure
  update _ := do
    drawer.update (·.map (· + 1))
    throw (.plain "late")
  close := pure ()

def latecomer : Wrapped Rig where
  sim := late
  pack := Rig.packSlot 0 blank
  Has r := r.packs.size = 2 ∧ (drawer.get r).size = 6
  state r j := if j = 0 then drawer.get r else #[]

variable {r : Rig}

theorem drawer_set (hr : latecomer.Has r) {ws : Words} (hws : ws.size = 6) :
    latecomer.Has (drawer.set r ws) ∧
      latecomer.pack.get (drawer.set r ws) = latecomer.pack.get r ∧
      latecomer.state (drawer.set r ws) = Function.update (latecomer.state r) 0 ws := by
  have hget : drawer.get (drawer.set r ws) = ws := by
    simp [drawer, part, packSlot, entry, getD_eq_getD_getElem?, hr.1]
  refine ⟨⟨?_, by rw [hget, hws]⟩, ?_, ?_⟩
  · simpa [drawer, part, packSlot, entry] using hr.1
  · simp [latecomer, drawer, part, packSlot, entry, getD_eq_getD_getElem?]
  · funext j
    simp only [latecomer, hget, Function.update_apply]
    split <;> simp_all

theorem latecomer_spares {α : Type} (x : α) : latecomer.Spares (pure x) :=
  fun _ hr => Act.ends_pure ⟨hr, rfl, rfl⟩

theorem latecomer_lawful : latecomer.Lawful True where
  width_nonneg := by decide
  set_pack r y hr := by
    have hkept : drawer.get (latecomer.pack.set r y) = drawer.get r := by
      simp [latecomer, drawer, part, packSlot, entry, getD_eq_getD_getElem?]
    refine ⟨⟨?_, hkept.symm ▸ hr.2⟩, ?_, ?_⟩
    · simpa [latecomer, packSlot, entry] using hr.1
    · simp [latecomer, packSlot, entry, getD_eq_getD_getElem?, hr.1]
    · funext j
      exact congrArg (fun ws => if j = 0 then ws else #[]) hkept
  size_state r hr j hj := by
    obtain rfl := Nat.lt_one_iff.mp hj
    exact hr.2
  getState r hr j hj _ _ := by
    obtain rfl := Nat.lt_one_iff.mp hj
    exact (gives_read drawer r).ends ⟨rfl, hr, rfl, rfl⟩
  setState r hr j hj ws hws := by
    obtain rfl := Nat.lt_one_iff.mp hj
    have hwritten : (drawer.write ws).Gives r () (drawer.set r ws) := rfl
    exact hwritten.ends (drawer_set hr hws)
  setInput _ _ := latecomer_spares ()
  output _ := latecomer_spares
  setInputMap _ _ := latecomer_spares ()
  setOutputMap _ _ := latecomer_spares ()
  update _ r hr := by
    obtain ⟨hhas, hpack, -⟩ := drawer_set hr ((size_map (f := (· + 1))).trans hr.2)
    exact (gives_update drawer _ r).bind_ends (Act.ends_throw ⟨hhas, hpack⟩)

end Late

/-- Two instances in the halves of one that advances and fails. What is read then is what was
written before, although it has been stored, and it is the advanced state as soon as the caches are
dropped. -/
theorem state_cache_coherent_straggler :
    ∃ (K : Wrapped Rig) (L : Ledger) (w w' u u' : Rig) (old new : Words),
      K.Lawful True ∧ K.Reached 16 L w ∧ L.pending 0 = none ∧ K.Reached 16 {} w' ∧
      K.state w' = K.state w ∧ K.lane 16 w 0 = new ∧ old ≠ new ∧
      ((Packed.simulator K.sim 16 K.pack).state 0 (Array.replicate 6 0)).Gives w old u ∧
      ((Packed.simulator K.sim 16 K.pack).state 0 (Array.replicate 6 0)).Gives w' new u' := by
  let packed := Packed.simulator late 16 latecomer.pack
  obtain ⟨y, hy, heval⟩ := Outcome.exists_ok (Packed.create late 16)
    (fun y => (packed.state 0 (replicate 6 0)).givesSuch
        (packed.after halves { packs := #[y, blank] })
        (fun ws _ => decide (ws = #[0, 1000, 2000, 3000, 4000, 5000])) &&
      decide (latecomer.lane 16 (packed.after halves { packs := #[y, blank] }) 0 =
        #[1, 1001, 2001, 3001, 4001, 5001]))
    (by decide +kernel)
  simp only [Bool.and_eq_true, decide_eq_true_eq] at heval
  obtain ⟨hold, hlane⟩ := heval
  obtain ⟨_, u, hold, hwords⟩ := Act.exists_gives hold
  obtain rfl := of_decide_eq_true hwords
  obtain ⟨L, hreached, hnone⟩ : ∃ L, latecomer.Reached 16 L
      (packed.after halves { packs := #[y, blank] }) ∧ L.pending 0 = none := by
    have hfresh : latecomer.Reached 16 {} { packs := #[y, blank] } :=
      .fresh (b := 16) ⟨rfl, rfl⟩ rfl hy
    have hwritten := hfresh.step (.meet halves[0])
    exact ⟨_, hwritten.step (.meet halves[1]), hwritten.none_pending latecomer_lawful false 0⟩
  generalize packed.after halves { packs := #[y, blank] } = w at *
  have hw : latecomer.Has w := (hreached.coherent latecomer_lawful).choose_spec.2.has
  obtain ⟨-, -, hsame⟩ := latecomer_lawful.set_pack w (latecomer.pack.get w).invalidate hw
  have hacc : Accepts (logical late.shape 16) late.stateSize 0 (replicate 6 0) := by
    refine ⟨by decide +kernel, by decide +kernel⟩
  rcases ((state_cache_coherent latecomer_lawful (hreached.step .invalidate) id).1 0 _ hacc).cases
    with ⟨ws, u', hread, hws⟩ | ⟨_, _, _, hfalse⟩
  · have hkept : latecomer.lane 16 ((latecomer.access 16 .invalidate).outcome w).2 0 =
        latecomer.lane 16 w 0 := lane_congr hsame 16 0
    obtain rfl : ws = #[1, 1001, 2001, 3001, 4001, 5001] := by
      rw [hws]
      refine (congrArg _ (hkept.trans hlane)).trans ?_
      decide +kernel
    exact ⟨latecomer, L, w, _, u, u', _, _, latecomer_lawful, hreached, hnone,
      hreached.step .invalidate, hsame, hlane, by decide +kernel, hold, hread⟩
  · exact absurd trivial hfalse

end Wrapped

end TiledAutomata
