import TiledAutomata.Proofs.BulkWrites
import TiledAutomata.Proofs.Creation
import TiledAutomata.Proofs.Refusals

/-!
# Writes that are not stored yet

A packed simulator keeps the states that it is told to set until the next update. What it
shows of an instance is the last write that is pending, and without one what the wrapped
simulator holds; a flush stores pending writes and nothing else. This holds after every
history, as long as no update failed that had changed a state already: then the cache is
not loaded again, and it stays behind until an update succeeds or the caches are dropped.
-/

open List

namespace TiledAutomata

open Act

namespace Act

variable {σ α β : Type} {I : σ → Prop} {x : Act σ α} {f : α → Act σ β}

/-- A property that operations have when those have it that they are made of. -/
structure Composes (P : ∀ α : Type, Act σ α → Prop) : Prop where
  pure : ∀ {α : Type} (a : α), P α (Pure.pure a)
  throw : ∀ {α : Type} (e : Error), P α (MonadExcept.throw e)
  bind : ∀ {α β : Type} {x : Act σ α} {f : α → Act σ β}, P α x → (∀ a, P β (f a)) → P β (x >>= f)

namespace Composes

variable {P : ∀ α : Type, Act σ α → Prop}

theorem ofExcept (h : Composes P) (r : Except Error α) : P α (Act.ofExcept r) := by
  cases r with
  | ok a => exact h.pure a
  | error e => exact h.throw e

theorem discarded (h : Composes P) (hx : P α x) : P Unit (discard x) := by
  rw [discard_eq]
  exact h.bind hx fun _ => h.pure ()

theorem eachWindow (h : Composes P) {call : Int64 → Words → Act σ Words}
    (hcall : ∀ i ws, P Words (call i ws)) (width : Int64) (is : List Nat) (buf : Words) :
    P Words (eachWindow buf width call is) := by
  induction is generalizing buf with
  | nil => exact h.pure buf
  | cons i is ih =>
    refine h.bind ?_ fun ws => h.bind (hcall _ ws) fun _ => ih _
    unfold orAbort
    split
    · exact h.pure _
    · exact h.throw _

theorem bulk (h : Composes P) {call : Int64 → Words → Act σ Words}
    (hcall : ∀ i ws, P Words (call i ws)) (who what : String) (n width : Int64) (buf : Words) :
    P Words (bulk who what n width call buf) := by
  unfold TiledAutomata.bulk
  split
  · exact h.throw _
  · exact h.eachWindow hcall width _ buf

end Composes

def Keeps (I : σ → Prop) (x : Act σ α) : Prop := ∀ w, I w → x.Ends w (fun _ => I) fun _ => I

theorem keeps_pure (a : α) : Keeps I (pure a) := fun _ hw => ends_pure hw

theorem Keeps.bind (hx : Keeps I x) (hf : ∀ a, Keeps I (f a)) : Keeps I (x >>= f) :=
  fun w hw => (hx w hw).bind hf

variable (I) in
theorem keeps_composes : Composes fun _ => Keeps I :=
  ⟨keeps_pure, fun _ _ hw => ends_throw hw, Keeps.bind⟩

theorem keeps_ofExcept (r : Except Error α) : Keeps I (ofExcept r) := (keeps_composes I).ofExcept r

theorem Keeps.during {context : String} (hx : Keeps I x) : Keeps I (Act.during context x) :=
  fun w hw => (hx w hw).during

theorem keeps_read (s : Slot σ α) : Keeps I s.read := fun w hw => (s.gives_read w).ends hw

theorem keeps_update {s : Slot σ α} {g : α → α} (h : ∀ w, I w → I (s.set w (g (s.get w)))) :
    Keeps I (s.update g) :=
  fun w hw => (s.gives_update g w).ends (h w hw)

end Act

namespace Lane

variable {l k : Lane} {ws buf : Words}

theorem carriesAll_get (l : Lane) (ws : Words) : l.CarriesAll ws (ws.map l.get) := by
  refine CarriesAll.of_getElem? (by rw [Array.size_map]) fun j hj => ?_
  refine ⟨ws[j], l.get ws[j], by simp [hj], by simp [hj], fun i hi => ?_⟩
  rw [bit_get, decide_eq_true hi, Bool.true_and]

theorem extract_insert_other (hapart : l.Apart k) (ws buf : Words) :
    Packed.extract k.bits k.shift (Packed.insert l.bits l.shift ws buf) =
      Packed.extract k.bits k.shift ws := by
  have hown := carriesAll_get k ws
  rw [(hown.insert_other hapart buf).extract, hown.extract]

theorem extract_insert_self (l : Lane) (h : ws.size ≤ buf.size) :
    Packed.extract l.bits l.shift (Packed.insert l.bits l.shift ws buf) =
      (buf.extract 0 ws.size).map (Word.low l.bits) :=
  (CarriesAll.insert_self l h).extract

end Lane

namespace Split

variable (v : Split) (i : Nat)

theorem index_div : i * v.bits / 32 = i / v.lanes := by
  rw [← v.whole, Nat.mul_comm v.bits, Nat.mul_div_mul_right _ _ v.bits_pos]

theorem index_mod : i * v.bits % 32 = (v.lane i).shift := by
  rw [← v.whole, Nat.mul_comm v.bits, Nat.mul_mod_mul_right, lane]

end Split

/-- What is asked of a packed simulator: what is asked of any simulator, or to drop its caches. -/
inductive Access where
  | meet (x : Demand)
  | invalidate

def Packed.access {σ : Type} (sim : Simulator σ) (bits : Nat) (p : Slot σ Packed) :
    Access → Act σ Words
  | .meet x => (simulator sim bits p).meet x
  | .invalidate => do
    p.update invalidate
    return #[]

namespace Access

def cache? : Access → Option Cached
  | .meet (.call (.setState _ _)) | .meet (.call (.setStates _)) | .meet (.call (.state _ _))
  | .meet (.call (.states _)) => some .state
  | .meet (.call (.setInput _ _)) | .meet (.call (.setInputs _)) => some .input
  | .meet (.call (.output _ _)) | .meet (.call (.outputs _)) => some .output
  | _ => none

def writes? : Access → Option Cached
  | .meet (.call (.setState _ _)) | .meet (.call (.setStates _)) => some .state
  | .meet (.call (.setInput _ _)) | .meet (.call (.setInputs _)) => some .input
  | _ => none

def updates : Access → Bool
  | .meet (.call .update) | .meet .abandoned => true
  | _ => false

theorem cache?_of_updates : ∀ {x : Access}, x.updates = true → x.cache? = none
  | .meet (.call .update), _ | .meet .abandoned, _ => rfl

theorem cache?_of_writes? : ∀ {x : Access} {k : Cached}, x.writes? = some k → x.cache? = some k
  | .meet (.call (.setState _ _)), _, h | .meet (.call (.setStates _)), _, h
  | .meet (.call (.setInput _ _)), _, h | .meet (.call (.setInputs _)), _, h => h

/-- Inputs are written and never read. -/
theorem writes?_of_cache? : ∀ {x : Access}, x.cache? = some .input → x.writes? = some .input
  | .meet (.call (.setInput _ _)), _ | .meet (.call (.setInputs _)), _ => rfl

end Access

theorem Act.Composes.access {σ : Type} {P : ∀ α : Type, Act σ α → Prop} (h : Act.Composes P)
    (sim : Simulator σ) (bits : Nat) (p : Slot σ Packed) (x : Access)
    (hstate : x.cache? = some .state →
      ∀ i buf, P Words ((Packed.simulator sim bits p).state i buf))
    (hsetState : x.writes? = some .state →
      ∀ i buf, P Unit ((Packed.simulator sim bits p).setState i buf))
    (hsetInput : x.writes? = some .input →
      ∀ i buf, P Unit ((Packed.simulator sim bits p).setInput i buf))
    (houtput : x.cache? = some .output →
      ∀ i buf, P Words ((Packed.simulator sim bits p).output i buf))
    (hmaps : x.cache? = none →
      (∀ i m, P Unit ((Packed.simulator sim bits p).setInputMap i m)) ∧
        ∀ i m, P Unit ((Packed.simulator sim bits p).setOutputMap i m))
    (hupdate : x.updates = true → ∀ cancelled, P Unit (Packed.update sim p cancelled))
    (hdrop : x = .invalidate → P Unit (p.update Packed.invalidate)) :
    P Words (Packed.access sim bits p x) := by
  have hdone : ∀ {y : Act σ Unit}, P Unit y → P Words (do y; return #[]) :=
    fun hy => h.bind hy fun _ => h.pure _
  have hall : ∀ {set : Int64 → Words → Act σ Unit}, (∀ i ws, P Unit (set i ws)) →
      ∀ who what n width buf, P Unit (discard
        (TiledAutomata.bulk who what n width (fun i ws => do set i ws; return ws) buf)) :=
    fun hset _ _ _ _ _ => h.discarded (h.bulk (fun i ws => h.bind (hset i ws) fun _ => h.pure _)
      _ _ _ _ _)
  match x with
  | .invalidate => exact hdone (hdrop rfl)
  | .meet .abandoned => exact hdone (hupdate rfl true)
  | .meet (.call .update) => exact hdone (hupdate rfl false)
  | .meet (.call (.setState i buf)) => exact hdone (hsetState rfl i buf)
  | .meet (.call (.setStates buf)) => exact hdone (hall (hsetState rfl) _ _ _ _ buf)
  | .meet (.call (.setInput i buf)) => exact hdone (hsetInput rfl i buf)
  | .meet (.call (.setInputs buf)) => exact hdone (hall (hsetInput rfl) _ _ _ _ buf)
  | .meet (.call (.setInputMap i m)) => exact hdone ((hmaps rfl).1 i m)
  | .meet (.call (.setOutputMap i m)) => exact hdone ((hmaps rfl).2 i m)
  | .meet (.call (.state i buf)) => exact hstate rfl i buf
  | .meet (.call (.states buf)) => exact h.bulk (hstate rfl) _ _ _ _ buf
  | .meet (.call (.output i buf)) => exact houtput rfl i buf
  | .meet (.call (.outputs buf)) => exact h.bulk (houtput rfl) _ _ _ _ buf

/-- A simulator in a world that also holds the caches of a packed simulator over it. -/
structure Wrapped (σ : Type) where
  sim : Simulator σ
  pack : Slot σ Packed
  /-- The worlds that have both. -/
  Has : σ → Prop
  /-- The state of each instance. -/
  state : σ → Nat → Words

namespace Wrapped

section Contract

variable {σ : Type} (K : Wrapped σ)

def count : Nat := K.sim.size.toInt.toNat

def width : Nat := K.sim.stateSize.toInt.toNat

def Same (w w' : σ) : Prop :=
  K.Has w' ∧ K.pack.get w' = K.pack.get w ∧ K.state w' = K.state w

/-- An operation that leaves states and caches alone, whether it succeeds or not. -/
def Spares {α : Type} (x : Act σ α) : Prop :=
  ∀ w, K.Has w → x.Ends w (fun _ => K.Same w) fun _ => K.Same w

/-- What is asked of a simulator to be wrapped. Its states can be read and written one by one,
unless it is unreliable. An update may change them in any way, also one that fails. -/
structure Lawful (reliable : Prop) : Prop where
  width_nonneg : 0 ≤ K.sim.stateSize.toInt
  set_pack : ∀ w y, K.Has w → K.Has (K.pack.set w y) ∧ K.pack.get (K.pack.set w y) = y ∧
    K.state (K.pack.set w y) = K.state w
  size_state : ∀ w, K.Has w → ∀ j < K.count, (K.state w j).size = K.width
  getState : ∀ w, K.Has w → ∀ j < K.count, ∀ buf : Words, buf.size = K.width →
    (K.sim.state (Int64.ofNat j) buf).Ends w (fun ws w' => ws = K.state w j ∧ K.Same w w')
      fun _ w' => K.Same w w' ∧ ¬reliable
  setState : ∀ w, K.Has w → ∀ j < K.count, ∀ buf : Words, buf.size = K.width →
    (K.sim.setState (Int64.ofNat j) buf).Ends w
      (fun _ w' => K.Has w' ∧ K.pack.get w' = K.pack.get w ∧
        K.state w' = Function.update (K.state w) j buf)
      fun _ w' => K.Same w w' ∧ ¬reliable
  setInput : ∀ i buf, K.Spares (K.sim.setInput i buf)
  output : ∀ i buf, K.Spares (K.sim.output i buf)
  setInputMap : ∀ i m, K.Spares (K.sim.setInputMap i m)
  setOutputMap : ∀ i m, K.Spares (K.sim.setOutputMap i m)
  update : ∀ cancelled w, K.Has w → (K.sim.update cancelled).Ends w
    (fun _ w' => K.Has w' ∧ K.pack.get w' = K.pack.get w)
    fun _ w' => K.Has w' ∧ K.pack.get w' = K.pack.get w

def access (bits : Nat) : Access → Act σ Words := Packed.access K.sim bits K.pack

def lane (bits : Nat) (w : σ) (i : Nat) : Words :=
  Packed.extract bits (i * bits % 32) (K.state w (i * bits / 32))

def storeStates : Act σ Unit := LaneCache.flush (Packed.stateSlot K.pack) K.sim.setState

def store : Act σ Unit := do
  K.storeStates
  LaneCache.flush (Packed.inputSlot K.pack) K.sim.setInput

/-- An update after which a valid cache is behind: all writes are stored, and then the wrapped
simulator fails when it has changed a state. -/
def Strays (cancelled : Bool) (w : σ) : Prop :=
  ∃ w₁ e w₂, K.store.Gives w () w₁ ∧ (K.pack.get w₁).state.valid = true ∧
    (K.sim.update cancelled).outcome w₁ = (.error e, w₂) ∧ K.state w₂ ≠ K.state w₁

end Contract

/-- What a history tells of the states that a packed simulator has to show. -/
structure Ledger where
  /-- The last write to a logical instance, unless it was stored or dropped. -/
  pending : Nat → Option Words := fun _ => none
  /-- Whether a valid cache is behind. -/
  missed : Prop := False

namespace Ledger

def put (L : Ledger) (i : Nat) (ws : Words) : Ledger :=
  { L with pending := Function.update L.pending i (some ws) }

theorem pending_put (L : Ledger) (i : Nat) (ws : Words) (j : Nat) :
    (L.put i ws).pending j = if j = i then some ws else L.pending j :=
  Function.update_apply _ _ _ _

def putEach (L : Ledger) (is : List Nat) (f : Nat → Words) : Ledger :=
  { L with pending := fun i => if i ∈ is then some (f i) else L.pending i }

theorem putEach_cons (L : Ledger) (i : Nat) (is : List Nat) (f : Nat → Words) :
    L.putEach (i :: is) f = (L.put i (f i)).putEach is f := by
  have hpending : ∀ j, (L.putEach (i :: is) f).pending j =
      ((L.put i (f i)).putEach is f).pending j := by
    intro j
    simp only [putEach, pending_put, mem_cons]
    grind
  exact congrArg (Ledger.mk · L.missed) (funext hpending)

def stored (L : Ledger) : Ledger := { L with pending := fun _ => none }

variable {σ : Type} (K : Wrapped σ)

/-- An update ends what was pending if it stores the states, and what was missed if it succeeds. -/
def updated (L : Ledger) (w : σ) (cancelled : Bool) : Ledger where
  pending := if (K.storeStates.outcome w).1.isOk then fun _ => none else L.pending
  missed := ((Packed.update K.sim K.pack cancelled).outcome w).1.isOk = false ∧
    (L.missed ∨ K.Strays cancelled w)

/-- The ledger after a packed simulator was asked something. A write counts when it succeeds. -/
def after (bits : Nat) (L : Ledger) (w : σ) (x : Access) : Ledger :=
  match x with
  | .invalidate => {}
  | .meet (.call .update) => L.updated K w false
  | .meet .abandoned => L.updated K w true
  | .meet (.call (.setState i buf)) =>
    if ((K.access bits x).outcome w).1.isOk then
      L.put i.toInt.toNat ((buf.extract 0 K.width).map (Word.low bits))
    else L
  | .meet (.call (.setStates buf)) =>
    if ((K.access bits x).outcome w).1.isOk then
      L.putEach (List.range (K.sim.size * Packed.lanes bits).toInt.toNat)
        fun i => (buf.window i K.width).map (Word.low bits)
    else L
  | .meet (.call _) => L

end Ledger

inductive Reached {σ : Type} (K : Wrapped σ) (bits : Nat) : Ledger → σ → Prop
  | fresh {w : σ} {b : Int64} (hw : K.Has w) (hb : b.toInt.toNat = bits)
      (hnew : Packed.create K.sim b = .ok (K.pack.get w)) : Reached K bits {} w
  | step {L : Ledger} {w : σ} (h : Reached K bits L w) (x : Access) :
      Reached K bits (L.after K bits w x) ((K.access bits x).outcome w).2

open Packed (cacheSlot stateSlot logical)

variable {σ : Type} {K : Wrapped σ} {reliable : Prop} {v : Split} {L : Ledger} {w w' : σ}

abbrev total (K : Wrapped σ) (v : Split) : Int64 := (logical K.sim.shape v.bits).size

/-- An index and a buffer that a call for a state is not refused for. -/
abbrev Admits (K : Wrapped σ) (v : Split) (i : Int64) (buf : Words) : Prop :=
  HostBuffers.Accepts (logical K.sim.shape v.bits) K.sim.stateSize i buf

structure Sized (K : Wrapped σ) (v : Split) : Prop where
  count : (logical K.sim.shape v.bits).size.toInt.toNat = K.count * v.lanes
  nonneg : 0 ≤ (logical K.sim.shape v.bits).size.toInt
  bound : (logical K.sim.shape v.bits).size.toInt * K.sim.stateSize.toInt < 2 ^ 63

/-- A world in which the cache of the states agrees with a ledger. -/
structure Coherent (K : Wrapped σ) (v : Split) (L : Ledger) (w : σ) : Prop where
  sized : K.Sized v
  has : K.Has w
  fits : (K.pack.get w).state.Fits K.count K.sim.stateSize
  clean : (K.pack.get w).state.dirty = false → ∀ i < K.count * v.lanes, L.pending i = none
  shown : ¬L.missed → (K.pack.get w).state.valid = true → ∀ i < K.count * v.lanes,
    Packed.extract v.bits (v.lane i).shift ((K.pack.get w).state.words.getD (i / v.lanes) #[]) =
      (L.pending i).getD (K.lane v.bits w i)

theorem lane_eq (K : Wrapped σ) (v : Split) (w : σ) (i : Nat) :
    K.lane v.bits w i =
      Packed.extract v.bits (v.lane i).shift (K.state w (i / v.lanes)) := by
  rw [lane, v.index_div, v.index_mod]

theorem lane_congr (h : K.state w' = K.state w) (bits i : Nat) :
    K.lane bits w' i = K.lane bits w i := by
  rw [lane, lane, h]

namespace Coherent

theorem unchanged (h : K.Coherent v L w) (hhas : K.Has w')
    (hcache : (K.pack.get w').state = (K.pack.get w).state) (hstate : K.state w' = K.state w) :
    K.Coherent v L w' := by
  refine ⟨h.sized, hhas, hcache ▸ h.fits, hcache ▸ h.clean, fun hmissed hvalid i hi => ?_⟩
  rw [hcache] at hvalid ⊢
  rw [lane_congr hstate]
  exact h.shown hmissed hvalid i hi

theorem same (h : K.Coherent v L w) (hw : K.Same w w') : K.Coherent v L w' :=
  h.unchanged hw.1 (congrArg Packed.state hw.2.1) hw.2.2

theorem congr {M : Ledger} (h : K.Coherent v L w) (hmissed : L.missed → M.missed)
    (hpending : ∀ i < K.count * v.lanes, M.pending i = L.pending i) : K.Coherent v M w := by
  refine ⟨h.sized, h.has, h.fits, fun hdirty i hi => ?_, fun hnot hvalid i hi => ?_⟩
  · rw [hpending i hi, h.clean hdirty i hi]
  · rw [hpending i hi, h.shown (fun hm => hnot (hmissed hm)) hvalid i hi]

end Coherent

theorem Spares.keeps {α : Type} {x : Act σ α} (hx : K.Spares x) :
    Act.Keeps (K.Coherent v L) x :=
  fun w hw => (hx w hw.has).mono (fun _ _ => hw.same) fun _ _ => hw.same

section OtherCaches

variable {k : Cached}

section

variable (hK : K.Lawful reliable) (hk : k ≠ .state)

include hK hk

theorem Coherent.set_other (h : K.Coherent v L w) (x : LaneCache) :
    K.Coherent v L ((cacheSlot K.pack k).set w x) := by
  obtain ⟨hw, -⟩ := Packed.Settable.lawful hK.set_pack k w w x ⟨h.has, rfl, fun _ _ => rfl⟩
  exact h.unchanged hw.has (hw.others .state hk.symm) hw.seen

theorem keeps_change (f : LaneCache → LaneCache) :
    Act.Keeps (K.Coherent v L) ((cacheSlot K.pack k).update f) :=
  keeps_update fun _ hw => hw.set_other hK hk _

theorem keeps_ensure (load : Option (Int64 → Words → Act σ Words))
    (hload : ∀ l ∈ load, ∀ i buf, K.Spares (l i buf)) :
    Act.Keeps (K.Coherent v L) (LaneCache.ensure (cacheSlot K.pack k) load) := by
  have hslots : ∀ l ∈ load, ∀ js,
      Act.Keeps (K.Coherent v L) (LaneCache.loadSlots (cacheSlot K.pack k) l js) := by
    intro l hl js
    induction js with
    | nil => exact keeps_pure ()
    | cons j js ih =>
      exact (keeps_read _).bind fun _ => (hload l hl _ _).keeps.bind fun _ =>
        (keeps_change hK hk _).bind fun _ => ih
  refine (keeps_read _).bind fun x => ?_
  dsimp only
  split
  · exact keeps_pure ()
  · cases load with
    | none => exact keeps_change hK hk _
    | some l => exact (hslots l rfl _).bind fun _ => keeps_change hK hk _

theorem keeps_opened (n : Int64) {load : Option (Int64 → Words → Act σ Words)}
    (hload : ∀ l ∈ load, ∀ i buf, K.Spares (l i buf)) (what text : String) (i : Int64)
    (buf : Words) :
    Act.Keeps (K.Coherent v L)
      (Packed.opened n v.bits (cacheSlot K.pack k) load what text i buf) := by
  refine (keeps_ofExcept _).bind fun _ => (keeps_read _).bind fun x => ?_
  dsimp only
  split
  · exact fun _ hw => ends_throw hw
  · exact (keeps_ensure hK hk load hload).during.bind fun _ => keeps_pure _

theorem keeps_flush {store : Int64 → Words → Act σ Unit}
    (hstore : ∀ i buf, K.Spares (store i buf)) :
    Act.Keeps (K.Coherent v L) (LaneCache.flush (cacheSlot K.pack k) store) := by
  have hslots : ∀ js,
      Act.Keeps (K.Coherent v L) (LaneCache.storeSlots (cacheSlot K.pack k) store js) := by
    intro js
    induction js with
    | nil => exact keeps_pure ()
    | cons j js ih =>
      exact (keeps_read _).bind fun _ => (hstore _ _).keeps.bind fun _ => ih
  refine (keeps_read _).bind fun x => ?_
  split
  · exact (hslots _).bind fun _ => keeps_change hK hk _
  · exact keeps_pure ()

end

end OtherCaches

section Loading

theorem gives_change (hK : K.Lawful reliable) (hw : K.Has w) (f : LaneCache → LaneCache) :
    ∃ w', ((stateSlot K.pack).update f).Gives w () w' ∧ K.Has w' ∧
      (K.pack.get w').state = f (K.pack.get w).state ∧ K.state w' = K.state w := by
  obtain ⟨hhas, hget, hstate⟩ :=
    hK.set_pack w { K.pack.get w with state := f (K.pack.get w).state } hw
  exact ⟨_, Slot.gives_update _ f w, hhas, congrArg Packed.state hget, hstate⟩

theorem loads_states (hK : K.Lawful reliable) (hw : K.Has w) :
    LaneCache.Loads (stateSlot K.pack) K.sim.state K.count K.sim.stateSize
      (Packed.Beside K.pack K.Has K.state .state w) (fun j ws => ws = K.state w j)
      fun _ _ => ¬reliable := by
  refine ⟨Packed.Settable.lawful hK.set_pack .state w,
    fun j hj ws hws => hws ▸ hK.size_state w hw j hj, fun w1 h1 j hj buf hbuf => ?_,
    fun _ _ _ _ _ => id⟩
  have hsame : ∀ {w2}, K.Same w1 w2 → Packed.Beside K.pack K.Has K.state .state w w2 ∧
      (stateSlot K.pack).get w2 = (stateSlot K.pack).get w1 := by
    rintro w2 ⟨hhas, hpack, hstate⟩
    exact ⟨⟨hhas, hstate.trans h1.seen, hpack ▸ h1.others⟩, congrArg Packed.state hpack⟩
  exact (hK.getState w1 h1.has j hj buf hbuf).mono
    (fun _ _ h => ⟨h.1.trans (congrFun h1.seen j), hsame h.2⟩)
    fun _ _ h => ⟨fun _ => h.2, hsame h.1⟩

theorem Coherent.ensure (hK : K.Lawful reliable) (h : K.Coherent v L w) :
    (LaneCache.ensure (stateSlot K.pack) (some K.sim.state)).Ends w
      (fun _ w' => K.Coherent v L w' ∧ K.state w' = K.state w ∧
        (K.pack.get w').state.valid = true)
      fun _ w' => K.Coherent v L w' ∧ (K.pack.get w).state.valid = false ∧ ¬reliable := by
  cases hvalid : (K.pack.get w).state.valid with
  | true => exact (LaneCache.gives_ensure _ hvalid).ends ⟨h, rfl, hvalid⟩
  | false =>
    -- a cache that is not valid is not dirty, so nothing is pending
    have hnone := h.clean (h.fits.dirty_eq_false hvalid)
    refine ((loads_states hK h.has).ensure
      ⟨⟨h.has, rfl, fun _ _ => rfl⟩, h.fits, hvalid⟩).mono ?_ ?_
    · rintro _ w' ⟨hw', hfits, hvalid', -, hwords⟩
      refine ⟨⟨h.sized, hw'.has, hfits, fun _ => hnone, fun _ _ i hi => ?_⟩, hw'.seen, hvalid'⟩
      rw [hnone i hi, Option.getD_none, lane_congr hw'.seen, lane_eq]
      exact congrArg _ (hwords _ (Split.slot_lt hi))
    · rintro _ w' ⟨hw', hfailed⟩
      refine ⟨⟨h.sized, hw'.kept.has, hw'.fits, fun _ => hnone, fun _ hv => ?_⟩, rfl, hfailed⟩
      cases hw'.valid.symm.trans hv

end Loading

section Calls

open HostBuffers (Accepts)

variable {i : Int64} {buf : Words}

theorem Coherent.index_lt (h : K.Coherent v L w) {width : Int64}
    (hacc : Accepts (logical K.sim.shape v.bits) width i buf) :
    i.toInt.toNat < K.count * v.lanes :=
  h.sized.count ▸ hacc.1.nat.1

section

variable (hK : K.Lawful reliable) (h : K.Coherent v L w)

include hK h

theorem Coherent.opened (what text : String) (i : Int64) (buf : Words) :
    (Packed.opened (K.total v) v.bits (stateSlot K.pack) (some K.sim.state)
        what text i buf).Ends w
      (fun place w' => place = (i.toInt.toNat / v.lanes, (v.lane i.toInt.toNat).shift) ∧
        K.Admits v i buf ∧ K.Coherent v L w' ∧
        K.state w' = K.state w ∧ (K.pack.get w').state.valid = true)
      fun _ w' => K.Coherent v L w' ∧
        (K.Admits v i buf →
          (K.pack.get w).state.valid = false ∧ ¬reliable) := by
  have hwidth : ((stateSlot K.pack).get w).width = K.sim.stateSize := h.fits.width_eq
  by_cases hacc : K.Admits v i buf
  · refine (gives_ofExcept (Packed.locate_ok hacc.1) w).bind_ends
      ((Slot.gives_read _ w).bind_ends ?_)
    simp only [hwidth, hacc.2]
    refine (h.ensure hK).during.andThen (fun _ _ h' => ⟨h'.1, fun _ => h'.2⟩) fun _ _ hw' => ?_
    rw [v.slotOf_eq, v.shiftOf_eq]
    exact ends_pure ⟨rfl, hacc, hw'⟩
  · exact (Packed.stops_opened hwidth hacc _ _ _).ends ⟨h, fun hacc' => absurd hacc' hacc⟩

theorem Coherent.get (what : String) (i : Int64) (buf : Words) :
    (Packed.get (K.total v) v.bits (stateSlot K.pack) K.sim.state what i
        buf).Ends w
      (fun ws w' => K.Coherent v L w' ∧ (¬L.missed → ws = buf.overlay 0
        ((L.pending i.toInt.toNat).getD (K.lane v.bits w i.toInt.toNat))))
      fun _ w' => K.Coherent v L w' ∧
        (K.Admits v i buf → ¬reliable) := by
  rw [Packed.get_eq]
  refine (h.opened hK what _ i buf).andThen (fun _ _ h' => ⟨h'.1, fun hacc => (h'.2 hacc).2⟩) ?_
  rintro _ w' ⟨rfl, hacc, hw', hstate, hvalid⟩
  refine (Slot.gives_read _ w').bind_ends (ends_pure ⟨hw', fun hmissed => ?_⟩)
  have hshown := hw'.shown hmissed hvalid _ (h.index_lt hacc)
  rw [lane_congr hstate] at hshown
  exact congrArg (buf.overlay 0) hshown

theorem Coherent.put (hvalid : (K.pack.get w).state.valid = true) {i : Nat}
    (hi : i < K.count * v.lanes) (hbuf : K.width ≤ buf.size) :
    ∃ w', ((stateSlot K.pack).update
        (LaneCache.written v.bits (i / v.lanes) (v.lane i).shift buf)).Gives w () w' ∧
      K.Coherent v (L.put i ((buf.extract 0 K.width).map (Word.low v.bits))) w' ∧
      (K.pack.get w').state.valid = true := by
  have hslot : i / v.lanes < K.count := Split.slot_lt hi
  obtain ⟨w', hset, hhas, hget, hstate⟩ := gives_change hK h.has
    (LaneCache.written v.bits (i / v.lanes) (v.lane i).shift buf)
  have hwindow : ((K.pack.get w).state.words.getD (i / v.lanes) #[]).size = K.width :=
    h.fits.window _ hslot
  refine ⟨w', hset, ⟨h.sized, hhas, ?_, fun hd => ?_, fun hmissed _ j hj => ?_⟩, ?_⟩
  · rw [hget]
    exact h.fits.written hvalid _ _ _ _
  · rw [hget] at hd
    cases hd
  · have hold := h.shown hmissed hvalid j hj
    rw [hget, h.fits.getD_written hslot, lane_congr hstate, Ledger.pending_put]
    by_cases hji : j = i
    · rw [hji, if_pos rfl, if_pos rfl, Option.getD_some]
      rw [← hwindow] at hbuf ⊢
      exact (v.lane i).extract_insert_self hbuf
    · rw [if_neg hji, ← hold]
      -- another lane of the slot that is written, or of another slot
      by_cases hsame : j / v.lanes = i / v.lanes
      · rw [if_pos hsame, hsame]
        exact Lane.extract_insert_other (Split.lane_apart (Ne.symm hji) hsame.symm) _ _
      · rw [if_neg hsame]
  · rw [hget]
    exact hvalid

theorem Coherent.set (what : String) (i : Int64) (buf : Words) :
    (Packed.set (K.total v) v.bits (stateSlot K.pack) (some K.sim.state) what
        i buf).Ends w
      (fun _ w' => K.Coherent v
          (L.put i.toInt.toNat ((buf.extract 0 K.width).map (Word.low v.bits))) w' ∧
        (K.pack.get w').state.valid = true)
      fun _ w' => K.Coherent v L w' ∧
        (K.Admits v i buf →
          (K.pack.get w).state.valid = false) := by
  rw [Packed.set_eq]
  refine (h.opened hK what _ i buf).andThen (fun _ _ h' => ⟨h'.1, fun hacc => (h'.2 hacc).1⟩) ?_
  rintro _ w1 ⟨rfl, hacc, hw1, -, hvalid⟩
  obtain ⟨w', hset, hw'⟩ :=
    hw1.put hK hvalid (h.index_lt hacc) (Words.le_size_of_not_lacks hacc.2)
  exact hset.ends hw'

theorem Coherent.writeWindows (hvalid : (K.pack.get w).state.valid = true) (what : String)
    (hbuf : Words.Reaches (K.total v) K.sim.stateSize buf) {is : List Nat}
    (his : ∀ i ∈ is, i < (K.total v).toInt.toNat) :
    (writeWindows (Packed.set (K.total v) v.bits (stateSlot K.pack)
        (some K.sim.state) what) K.sim.stateSize buf is).Ends w
      (fun _ => K.Coherent v
        (L.putEach is fun i => (buf.window i K.width).map (Word.low v.bits)))
      fun _ _ => False := by
  induction is generalizing w L with
  | nil =>
    refine ends_pure (h.congr id fun i _ => ?_)
    simp [Ledger.putEach]
  | cons i is ih =>
    have hi := his i mem_cons_self
    have hsize : (buf.window i K.width).size = K.width := Words.size_window (hbuf.le hi)
    obtain ⟨hacc, hid⟩ := HostBuffers.accepts_ofNat hK.width_nonneg hi hsize
    have hfirst := h.set hK what (Int64.ofNat i) (buf.window i K.width)
    rw [hid, Array.extract_eq_self_of_le (Nat.le_of_eq hsize)] at hfirst
    refine hfirst.andThen (fun _ _ hfailed => ?_) fun _ w1 hw1 => ?_
    · rw [hfailed.2 hacc] at hvalid
      cases hvalid
    · rw [Ledger.putEach_cons]
      exact ih hw1.1 hw1.2 fun j hj => his j (mem_cons_of_mem i hj)

theorem Coherent.setAll (who what one : String) (buf : Words) :
    (discard (bulk who what (K.total v) K.sim.stateSize (fun i ws => do
        Packed.set (K.total v) v.bits (stateSlot K.pack) (some K.sim.state) one i ws
        return ws) buf)).Ends w
      (fun _ => K.Coherent v (L.putEach (List.range (K.total v).toInt.toNat)
        fun i => (buf.window i K.width).map (Word.low v.bits)))
      fun _ => K.Coherent v L := by
  rw [discard_eq, bulk]
  split
  · exact ends_throw h
  · rename_i hlacks
    have hmul := Int64.toInt_mul_eq (a := K.total v)
      (Int.le_trans (by decide) (Int.mul_nonneg h.sized.nonneg hK.width_nonneg)) h.sized.bound
    have hbuf : Words.Reaches (K.total v) K.sim.stateSize buf := by
      refine ⟨h.sized.nonneg, hK.width_nonneg, h.sized.bound, ?_⟩
      rw [← Int.toNat_mul h.sized.nonneg hK.width_nonneg, ← hmul]
      exact Words.le_size_of_not_lacks (Bool.eq_false_iff.mpr hlacks)
    rw [eachWindow_writing _ hbuf fun i hi => mem_range.mp hi]
    simp only [bind_assoc, pure_bind, bind_pure_unit]
    -- what can fail is the load before the first write
    cases hn : (K.total v).toInt.toNat with
    | zero =>
      refine ends_pure (h.congr id fun i _ => ?_)
      simp [Ledger.putEach]
    | succ n =>
      have hi : 0 < (K.total v).toInt.toNat := by omega
      have hsize : (buf.window 0 K.width).size = K.width := Words.size_window (hbuf.le hi)
      have hfirst := h.set hK one (Int64.ofNat 0) (buf.window 0 K.width)
      rw [(Shape.valid_ofNat hi).2, Array.extract_eq_self_of_le (Nat.le_of_eq hsize)] at hfirst
      rw [range_succ_eq_map, Ledger.putEach_cons]
      refine hfirst.andThen (fun _ _ hfailed => hfailed.1) fun _ w1 hw1 => ?_
      refine (hw1.1.writeWindows hK hw1.2 one hbuf fun i hi => ?_).mono (fun _ _ => id)
        fun _ _ => False.elim
      obtain ⟨j, hj, rfl⟩ := mem_map.mp hi
      have := mem_range.mp hj
      omega

end

end Calls

section Storing

theorem ends_storeSlots (hK : K.Lawful reliable) {js : List Nat} (hjs : ∀ j ∈ js, j < K.count)
    (hw : K.Has w) (hfits : (K.pack.get w).state.Fits K.count K.sim.stateSize) :
    (LaneCache.storeSlots (stateSlot K.pack) K.sim.setState js).Ends w
      (fun _ w' => K.Has w' ∧ K.pack.get w' = K.pack.get w ∧ ∀ i, K.state w' i =
        if i ∈ js then (K.pack.get w).state.words.getD i #[] else K.state w i)
      fun _ w' => ¬reliable ∧ K.Has w' ∧ K.pack.get w' = K.pack.get w ∧ ∀ i,
        K.state w' i = K.state w i ∨
          K.state w' i = (K.pack.get w).state.words.getD i #[] := by
  induction js generalizing w with
  | nil => exact ends_pure ⟨hw, rfl, fun i => by rw [if_neg not_mem_nil]⟩
  | cons j js ih =>
    have hj := hjs j mem_cons_self
    refine ((stateSlot K.pack).gives_read w).bind_ends ?_
    refine (hK.setState w hw j hj _ (hfits.window j hj)).andThen
      (fun _ _ h => ⟨h.2, h.1.1, h.1.2.1, fun i => Or.inl (congrFun h.1.2.2 i)⟩) ?_
    rintro _ w1 ⟨hhas, hpack, hstate⟩
    have hword : ∀ i, K.state w1 i =
        if i = j then (K.pack.get w).state.words.getD j #[] else K.state w i := by
      intro i
      rw [hstate, Function.update_apply]
    refine (ih (fun i hi => hjs i (by simp [hi])) hhas (hpack ▸ hfits)).mono ?_ ?_
    · rintro _ w2 ⟨hhas2, hpack2, hstate2⟩
      refine ⟨hhas2, hpack2.trans hpack, fun i => ?_⟩
      rw [hstate2, hword, hpack]
      simp only [mem_cons]
      grind
    · rintro _ w2 ⟨hfailed, hhas2, hpack2, hstate2⟩
      refine ⟨hfailed, hhas2, hpack2.trans hpack, fun i => ?_⟩
      have hcases := hstate2 i
      rw [hword, hpack] at hcases
      grind

theorem Coherent.storeStates (hK : K.Lawful reliable) (h : K.Coherent v L w) :
    K.storeStates.Ends w
      (fun _ w' => K.Coherent v L.stored w' ∧ (¬L.missed → ∀ i < K.count * v.lanes,
        K.lane v.bits w' i = (L.pending i).getD (K.lane v.bits w i)))
      fun _ w' => ¬reliable ∧ K.Coherent v L w' ∧ (¬L.missed → ∀ i < K.count * v.lanes,
        K.lane v.bits w' i = K.lane v.bits w i ∨ L.pending i = some (K.lane v.bits w' i)) := by
  refine ((stateSlot K.pack).gives_read w).bind_ends ?_
  split
  · rename_i hdirty
    have hvalid := h.fits.valid_of_dirty hdirty
    refine (ends_storeSlots hK (fun j hj => h.fits.size ▸ mem_range.mp hj) h.has
      h.fits).andThen ?_ ?_
    · rintro _ w1 ⟨hfailed, hhas, hpack, hstate⟩
      have hlane : ¬L.missed → ∀ i < K.count * v.lanes,
          K.lane v.bits w1 i = K.lane v.bits w i ∨ L.pending i = some (K.lane v.bits w1 i) := by
        intro hmissed i hi
        have hshown := h.shown hmissed hvalid i hi
        rcases hstate (i / v.lanes) with hsame | hnew
        · exact .inl (by rw [lane_eq, lane_eq, hsame])
        · rw [← hnew, ← lane_eq] at hshown
          cases hp : L.pending i with
          | none => exact .inl (by rw [hshown, hp]; rfl)
          | some ws => exact .inr (by rw [hshown, hp]; rfl)
      refine ⟨hfailed, ⟨h.sized, hhas, hpack ▸ h.fits, hpack ▸ h.clean, fun hmissed _ i hi => ?_⟩,
        hlane⟩
      rw [hpack, h.shown hmissed hvalid i hi]
      rcases hlane hmissed i hi with hsame | hp
      · rw [hsame]
      · rw [hp]
        rfl
    · rintro _ w1 ⟨hhas, hpack, hstate⟩
      obtain ⟨w2, hset, hhas2, hget, hstate2⟩ := gives_change hK hhas
        fun x => { x with dirty := false }
      rw [hpack] at hget
      have hlane : ∀ i < K.count * v.lanes, K.lane v.bits w2 i = Packed.extract v.bits
          (v.lane i).shift ((K.pack.get w).state.words.getD (i / v.lanes) #[]) := by
        intro i hi
        have hslot : i / v.lanes < K.count := Split.slot_lt hi
        rw [lane_congr hstate2, lane_eq, hstate,
          if_pos (mem_range.mpr (h.fits.size ▸ hslot))]
      refine hset.ends ⟨⟨h.sized, hhas2, ?_, fun _ _ _ => rfl, fun _ _ i hi => ?_⟩,
        fun hmissed i hi => ?_⟩
      · rw [hget]
        exact h.fits.flagged fun _ => hvalid
      · rw [hget]
        exact (hlane i hi).symm
      · rw [hlane i hi, h.shown hmissed hvalid i hi]
  · rename_i hclean
    have hnone := h.clean (Bool.eq_false_iff.mpr hclean)
    refine ends_pure ⟨h.congr id fun i hi => (hnone i hi).symm, fun _ i hi => ?_⟩
    rw [hnone i hi, Option.getD_none]

end Storing

section Runs

/-- An update that fails to store writes does not reach the wrapped simulator. -/
theorem stops_update (cancelled : Bool) {e : Error} {w1 : σ}
    (h : K.store.outcome w = (.error e, w1)) :
    (Packed.update K.sim K.pack cancelled).Stops w w1 := by
  obtain ⟨e', he'⟩ : (Act.during "bitwise: flush" K.store).Stops w w1 := by
    unfold Act.Stops Act.outcome at *
    rw [Act.during, ExceptT.run_adapt, StateT.run_map, h]
    exact ⟨_, rfl⟩
  exact ⟨e', outcome_bind_error he' _⟩

theorem Ledger.pending_updated {w1 : σ} (h : K.storeStates.Gives w () w1) (cancelled : Bool)
    (i : Nat) :
    (L.updated K w cancelled).pending i = none := by
  unfold Act.Gives at h
  simp [updated, h, Except.isOk, Except.toBool]

theorem Ledger.missed_updated {cancelled : Bool}
    (h : (Packed.update K.sim K.pack cancelled).Stops w w') (hm : L.missed) :
    (L.updated K w cancelled).missed := by
  obtain ⟨e, he⟩ := h
  exact ⟨by rw [he]; rfl, Or.inl hm⟩

theorem Coherent.dropped {M : Ledger} (h : K.Coherent v L w) (hw : K.Has w')
    (hget : (K.pack.get w').state = (K.pack.get w).state.invalidate)
    (hpending : ∀ i < K.count * v.lanes, M.pending i = none) : K.Coherent v M w' := by
  refine ⟨h.sized, hw, ?_, fun _ => hpending, fun _ hvalid => ?_⟩
  · rw [hget]
    exact h.fits.flagged fun hd => by cases hd
  · rw [hget] at hvalid
    cases hvalid

theorem Coherent.advance (hK : K.Lawful reliable) {w1 : σ} (cancelled : Bool)
    (hstore : K.store.Gives w () w1) (h : K.Coherent v L.stored w1)
    (hnone : ∀ i, (L.updated K w cancelled).pending i = none) :
    K.Coherent v (L.updated K w cancelled)
      ((Packed.update K.sim K.pack cancelled).outcome w).2 := by
  rcases (hK.update cancelled w1 h.has).cases with
    ⟨_, w2, hupdate, hhas, hpack⟩ | ⟨e, w2, hupdate, hhas, hpack⟩
  · obtain ⟨hhas', hget, -⟩ := hK.set_pack w2 { K.pack.get w2 with
      state := (K.pack.get w2).state.invalidate
      output := (K.pack.get w2).output.invalidate } hhas
    have hout : (Packed.update K.sim K.pack cancelled).Gives w () _ :=
      hstore.during.bind (hupdate.bind (Slot.gives_update K.pack _ w2))
    rw [hout]
    refine h.dropped hhas' ?_ fun i _ => hnone i
    rw [hget, hpack]
  · have hout : (Packed.update K.sim K.pack cancelled).outcome w = (.error e, w2) :=
      hstore.during.bind_outcome.trans (outcome_bind_error hupdate _)
    rw [hout]
    refine ⟨h.sized, hhas, hpack ▸ h.fits, fun _ i _ => hnone i, fun hmissed hvalid i hi => ?_⟩
    rw [hpack] at hvalid ⊢
    -- the states are the same, for the update has not been missed
    have hstate : K.state w2 = K.state w1 := by
      by_contra hne
      exact hmissed ⟨by rw [hout]; rfl, Or.inr ⟨w1, e, w2, hstore, hvalid, hupdate, hne⟩⟩
    rw [hnone, lane_congr hstate]
    exact h.shown (fun hm => hmissed (Ledger.missed_updated ⟨e, hout⟩ hm)) hvalid i hi

theorem Coherent.update (hK : K.Lawful reliable) (h : K.Coherent v L w) (cancelled : Bool) :
    K.Coherent v (L.updated K w cancelled)
      ((Packed.update K.sim K.pack cancelled).outcome w).2 := by
  -- an update that fails before the wrapped simulator is reached leaves what was missed
  have hstopped : ∀ {M : Ledger} {e w1}, K.store.outcome w = (.error e, w1) →
      K.Coherent v M w1 → M.missed = L.missed →
      (∀ i, (L.updated K w cancelled).pending i = M.pending i) → K.Coherent v
        (L.updated K w cancelled) ((Packed.update K.sim K.pack cancelled).outcome w).2 := by
    intro M e w1 hstore hw1 hmissed hpending
    have hstops := stops_update cancelled hstore
    obtain ⟨e', he'⟩ := id hstops
    rw [he']
    exact hw1.congr (fun hm => Ledger.missed_updated hstops (hmissed ▸ hm)) fun i _ => hpending i
  rcases (h.storeStates hK).cases with ⟨_, w1, hstates, hw1, -⟩ | ⟨e, w1, hstates, -, hw1, -⟩
  · have hnone := @Ledger.pending_updated _ K L w w1 hstates cancelled
    rcases (keeps_flush (k := .input) hK (by decide) hK.setInput w1 hw1).cases with
      ⟨_, w2, hinputs, hw2⟩ | ⟨e, w2, hinputs, hw2⟩
    · exact hw2.advance hK cancelled (hstates.bind hinputs) hnone
    · exact hstopped (hstates.bind_outcome.trans hinputs) hw2 rfl hnone
  · refine hstopped (outcome_bind_error hstates _) hw1 rfl fun i => ?_
    simp [Ledger.updated, hstates, Except.isOk, Except.toBool]

theorem Coherent.kept {α : Type} {x : Act σ α} (h : K.Coherent v L w)
    (hx : Act.Keeps (K.Coherent v L) x) : K.Coherent v L (x.outcome w).2 :=
  (hx w h).final (P := fun _ => K.Coherent v L)

theorem Coherent.written {M : Ledger} {x : Act σ Words}
    (hx : x.Ends w (fun _ => K.Coherent v M) fun _ => K.Coherent v L) :
    K.Coherent v (if (x.outcome w).1.isOk then M else L) (x.outcome w).2 := by
  rcases hx.cases with ⟨a, w', hgives, hw'⟩ | ⟨e, w', hfails, hw'⟩
  · rw [hgives]
    exact hw'
  · rw [hfails]
    exact hw'

theorem outcome_return (x : Act σ Unit) (w : σ) :
    ((do x; return #[] : Act σ Words).outcome w).2 = (x.outcome w).2 := by
  rw [outcome_bind]
  rcases x.outcome w with ⟨r, w'⟩
  cases r <;> rfl

theorem keeps_access (hK : K.Lawful reliable) {x : Access} (hwrites : x.writes? ≠ some .state)
    (hupdates : x.updates = false) (hx : x ≠ .invalidate) :
    Act.Keeps (K.Coherent v L) (K.access v.bits x) := by
  refine (keeps_composes _).access K.sim v.bits K.pack x (fun _ i buf w hw => ?_)
    (fun hx' => absurd hx' hwrites) (fun _ => ?_) (fun _ => ?_)
    (fun _ => ⟨fun i m => ?_, fun i m => ?_⟩) (fun hx' => ?_) fun hx' => absurd hx' hx
  · exact (hw.get hK "state" i buf).mono (fun _ _ h' => h'.1) fun _ _ h' => h'.1
  · intro i buf
    refine (congrArg (Act.Keeps _) (Packed.set_eq ..)).mpr ?_
    exact (keeps_opened (k := .input) hK (by decide) _ (by simp) _ _ i buf).bind
      fun _ => keeps_change (k := .input) hK (by decide) _
  · intro i buf
    refine (congrArg (Act.Keeps _) (Packed.get_eq ..)).mpr ?_
    exact (keeps_opened (k := .output) hK (by decide) _
      (fun _ hl => Option.some.inj hl ▸ hK.output) _ _ i buf).bind
      fun _ => (keeps_read _).bind fun _ => keeps_pure _
  · exact (keeps_ofExcept _).bind fun _ => (hK.setInputMap _ m).keeps
  · exact (keeps_ofExcept _).bind fun _ => (hK.setOutputMap _ m).keeps
  · rw [hupdates] at hx'
    cases hx'

theorem Coherent.step (hK : K.Lawful reliable) (h : K.Coherent v L w) (x : Access) :
    K.Coherent v (L.after K v.bits w x) ((K.access v.bits x).outcome w).2 := by
  match x with
  | .invalidate =>
    obtain ⟨hhas, hget, -⟩ := hK.set_pack w (K.pack.get w).invalidate h.has
    exact h.dropped hhas (congrArg Packed.state hget) fun _ _ => rfl
  | .meet .abandoned =>
    rw [access, Packed.access, Simulator.meet, outcome_return]
    exact h.update hK true
  | .meet (.call .update) =>
    rw [access, Packed.access, Simulator.meet, Simulator.perform, outcome_return]
    exact h.update hK false
  | .meet (.call (.setState i buf)) =>
    exact written ((h.set hK "state" i buf).andThen (fun _ _ h' => h'.1)
      fun _ _ h' => ends_pure h'.1)
  | .meet (.call (.setStates buf)) =>
    exact written ((h.setAll hK "bitwise" "states" "state" buf).bind
      fun _ _ h' => ends_pure h')
  | .meet (.call (.setInput _ _)) | .meet (.call (.setInputs _))
  | .meet (.call (.setInputMap _ _)) | .meet (.call (.setOutputMap _ _))
  | .meet (.call (.state _ _)) | .meet (.call (.states _)) | .meet (.call (.output _ _))
  | .meet (.call (.outputs _)) => exact h.kept (keeps_access hK nofun rfl nofun)

theorem sized_of_cache (hwidth : 0 ≤ K.sim.stateSize.toInt) {x : LaneCache} {loads : Bool}
    (h : LaneCache.create K.sim.size K.sim.stateSize loads = .ok x) (v : Split) : K.Sized v := by
  obtain ⟨⟨hnonneg, -, -, hwords⟩, -⟩ := LaneCache.create_ok (n := K.sim.shape.size) h
  obtain ⟨hlogical, htotal, hle⟩ := Packed.toInt_logical (s := K.sim.shape) (v := v) h
  refine ⟨?_, hlogical ▸ htotal, ?_⟩
  · rw [hlogical, Int.toNat_mul hnonneg (by omega), Int.toNat_natCast]
    rfl
  · have hall := Int.mul_le_mul_of_nonneg_right hle hwidth
    rw [Int.mul_right_comm _ 32] at hall
    rw [hlogical]
    omega

theorem Coherent.fresh (hK : K.Lawful reliable) {b : Int64} (hw : K.Has w)
    (hnew : Packed.create K.sim b = .ok (K.pack.get w)) :
    ∃ v : Split, b.toInt.toNat = v.bits ∧ K.Coherent v {} w := by
  obtain ⟨v, hbits, -, -, hcaches⟩ := Packed.create_ok hnew
  have hcache : LaneCache.create K.sim.size K.sim.stateSize true = .ok (K.pack.get w).state :=
    hcaches .state
  obtain ⟨-, -, -, hvalid, -⟩ := LaneCache.create_ok hcache
  refine ⟨v, hbits, sized_of_cache hK.width_nonneg hcache v, hw, LaneCache.fits_create hcache,
    fun _ _ _ => rfl, fun _ hv => ?_⟩
  rw [hvalid] at hv
  cases hv

theorem Reached.coherent (hK : K.Lawful reliable) {bits : Nat} (h : K.Reached bits L w) :
    ∃ v : Split, v.bits = bits ∧ K.Coherent v L w := by
  induction h with
  | fresh hw hb hnew =>
    obtain ⟨v, hbits, hv⟩ := Coherent.fresh hK hw hnew
    exact ⟨v, hbits.symm.trans hb, hv⟩
  | step _ x ih =>
    obtain ⟨v, rfl, hv⟩ := ih
    exact ⟨v, rfl, hv.step hK x⟩

theorem Reached.none_pending (hK : K.Lawful True) {bits : Nat} (h : K.Reached bits L w)
    (cancelled : Bool) (i : Nat) : (L.updated K w cancelled).pending i = none := by
  obtain ⟨v, -, hw⟩ := h.coherent hK
  rcases (hw.storeStates hK).cases with ⟨_, w1, hstates, -⟩ | ⟨_, _, _, hfailed, -⟩
  · exact Ledger.pending_updated hstates cancelled i
  · exact absurd trivial hfailed

end Runs

end Wrapped

end TiledAutomata
