import TiledAutomata.Proofs.Fleet

/-!
# Calls to a simulator

A sequence of calls gives a sequence of outcomes. What a processor simulator does in
each call is told by its fleet: a call is refused and the fleet stays, or it is answered
and the fleet changes. Calls that set a map may reach several instances at once, those
whose ids agree in all but the last of a number of lanes.
-/

namespace TiledAutomata

variable {lanes : Nat} {p : Part}

inductive Call where
  | setState (i : Int64) (buf : Words)
  | setStates (buf : Words)
  | setInput (i : Int64) (buf : Words)
  | setInputs (buf : Words)
  | setInputMap (i : Int64) (m : Words)
  | setOutputMap (i : Int64) (m : Words)
  | update
  | state (i : Int64) (buf : Words)
  | states (buf : Words)
  | output (i : Int64) (buf : Words)
  | outputs (buf : Words)

/-- The ids of the instances that share a slot with an instance. -/
def slotMates (lanes : Nat) (i : Int64) : List Nat :=
  List.range' (i.toInt.toNat / lanes * lanes) lanes

namespace Simulator

variable {σ : Type}

def shape (s : Simulator σ) : Shape := ⟨s.size, s.inputSize, s.stateSize, s.outputSize⟩

def perform (s : Simulator σ) : Call → Act σ Words
  | .setState i buf => do s.setState i buf; return #[]
  | .setStates buf => do s.setStates buf; return #[]
  | .setInput i buf => do s.setInput i buf; return #[]
  | .setInputs buf => do s.setInputs buf; return #[]
  | .setInputMap i m => do s.setInputMap i m; return #[]
  | .setOutputMap i m => do s.setOutputMap i m; return #[]
  | .update => do s.update false; return #[]
  | .state i buf => s.state i buf
  | .states buf => s.states buf
  | .output i buf => s.output i buf
  | .outputs buf => s.outputs buf

def callEach (call : Int64 → Act σ Unit) : List Nat → Act σ Unit
  | [] => pure ()
  | j :: js => do
    call (Int64.ofNat j)
    callEach call js

/-- As `perform`, but a map that is set reaches all instances of the slot. -/
def performShared (s : Simulator σ) (lanes : Nat) : Call → Act σ Words
  | .setInputMap i m => do
    s.setInputMap i m
    callEach (fun j => s.setInputMap j m) (slotMates lanes i)
    return #[]
  | .setOutputMap i m => do
    s.setOutputMap i m
    callEach (fun j => s.setOutputMap j m) (slotMates lanes i)
    return #[]
  | k => s.perform k

def trace (perform : Call → Act σ Words) : List Call → σ → List (Except Error Words)
  | [], _ => []
  | k :: ks, w =>
    let (r, w') := (perform k).outcome w
    r :: trace perform ks w'

end Simulator

namespace Call

/-- Bulk buffers have the words of all instances and no more. -/
def Exact (s : Shape) : Call → Prop
  | .setStates buf | .states buf => (buf.size : Int) = s.size.toInt * s.stateSize.toInt
  | .setInputs buf => (buf.size : Int) = s.size.toInt * s.inputSize.toInt
  | .outputs buf => (buf.size : Int) = s.size.toInt * s.outputSize.toInt
  | _ => True

instance (s : Shape) : (k : Call) → Decidable (k.Exact s)
  | .setStates buf | .states buf => inferInstanceAs (Decidable ((buf.size : Int) = _))
  | .setInputs buf => inferInstanceAs (Decidable ((buf.size : Int) = _))
  | .outputs buf => inferInstanceAs (Decidable ((buf.size : Int) = _))
  | .setState _ _ | .setInput _ _ | .setInputMap _ _ | .setOutputMap _ _ | .update
  | .state _ _ | .output _ _ => isTrue trivial

def reads (s : Shape) : Call → Nat
  | .state _ _ => s.stateSize.toInt.toNat
  | .states _ => (s.size.toInt * s.stateSize.toInt).toNat
  | .output _ _ => s.outputSize.toInt.toNat
  | .outputs _ => (s.size.toInt * s.outputSize.toInt).toNat
  | _ => 0

end Call

namespace Fleet

open HostBuffers (Accepts)

instance (s : Shape) (width i : Int64) (buf : Words) : Decidable (Accepts s width i buf) :=
  inferInstanceAs (Decidable (_ ∧ _))

def putEach (f : Fleet) (p : Part) (ks : List Nat) (ws : Words) : Fleet := fun q j =>
  if q = p ∧ j ∈ ks then ws else f q j

/-- What a call does to a fleet and what it returns, unless it is refused. -/
def reply (f : Fleet) (a : Automaton) (s : Shape) (lanes : Nat) : Call → Option (Fleet × Words)
  | .setState i buf =>
    if Accepts s s.stateSize i buf then
      some (f.put .state i.toInt.toNat (buf.extract 0 s.stateSize.toInt.toNat), #[])
    else none
  | .setInput i buf =>
    if Accepts s s.inputSize i buf then
      some (f.put .input i.toInt.toNat (buf.extract 0 s.inputSize.toInt.toNat), #[])
    else none
  | .setStates buf =>
    some (f.putAll .state fun j => buf.window j s.stateSize.toInt.toNat, #[])
  | .setInputs buf =>
    some (f.putAll .input fun j => buf.window j s.inputSize.toInt.toNat, #[])
  | .setInputMap i m =>
    if Accepts s s.inputSize i m then
      some (f.putEach .inputMap (slotMates lanes i)
        (reduceMap (m.extract 0 s.inputSize.toInt.toNat) s.stateSize), #[])
    else none
  | .setOutputMap i m =>
    if Accepts s s.outputSize i m then
      some (f.putEach .outputMap (slotMates lanes i)
        (reduceMap (m.extract 0 s.outputSize.toInt.toNat) s.stateSize), #[])
    else none
  | .update =>
    if a.runnable ∧ 0 < s.stateSize then
      some (fun q j => q.of (Cpu.advanced a.plan (f.instanceAt j)), #[])
    else none
  | .state i buf =>
    if Accepts s s.stateSize i buf then some (f, buf.overlay 0 (f .state i.toInt.toNat)) else none
  | .output i buf =>
    if Accepts s s.outputSize i buf then some (f, buf.overlay 0 (f .output i.toInt.toNat)) else none
  | .states _ => some (f, Words.flat s.size.toInt.toNat s.stateSize.toInt.toNat (f .state))
  | .outputs _ => some (f, Words.flat s.size.toInt.toNat s.outputSize.toInt.toNat (f .output))

section Bulk

variable {σ : Type} {s : Shape} {width : Int64} {buf : Words} {w : σ}

theorem gives_setAll {S : Fleet → σ → Prop} {f : Fleet} {call : Int64 → Words → Act σ Unit}
    (hbuf : Words.Spans s.size width buf)
    (hcongr : ∀ f g w, S f w → (∀ q, ∀ j < s.size.toInt.toNat, f q j = g q j) → S g w)
    (hcall : ∀ f w i ws, S f w → Accepts s width i ws → ∃ w', (call i ws).Gives w () w' ∧
      S (f.put p i.toInt.toNat (ws.extract 0 width.toInt.toNat)) w')
    (who what : String) (h : S f w) :
    ∃ w', (discard (bulk who what s.size width (fun i ws => do call i ws; return ws)
        buf)).Gives w () w' ∧ S (f.putAll p fun j => buf.window j width.toInt.toNat) w' := by
  have hsize : ∀ j < s.size.toInt.toNat,
      (buf.window j width.toInt.toNat).size = width.toInt.toNat := fun j hj =>
    Words.size_window (hbuf.le hj)
  obtain ⟨w', hgives, hw'⟩ := gives_bulk
    (R := fun done => S fun q j =>
      if q = p ∧ j ∈ done then buf.window j width.toInt.toNat else f q j)
    (fun i ws => do call i ws; return ws) who what hbuf hsize
    (fun done u j hj hu => by
      obtain ⟨hacc, hid⟩ := HostBuffers.accepts_ofNat hbuf.width_nonneg hj (hsize j hj)
      obtain ⟨u', hgives, hu'⟩ := hcall _ u _ _ hu hacc
      refine ⟨u', hgives.bind (Act.gives_pure _ _), hcongr _ _ _ hu' fun q j' _ => ?_⟩
      rw [hid, Array.extract_eq_self_of_le (hsize j hj).le, put]
      simp only [List.mem_append, List.mem_singleton]
      grind)
    (hcongr _ _ _ h fun q j _ => by simp)
  refine ⟨w', hgives.discarded, hcongr _ _ _ hw' fun q j hj => ?_⟩
  simp only [List.mem_range.mpr hj, and_true]
  rfl

theorem gives_getAll {S : σ → Prop} {call : Int64 → Words → Act σ Words}
    (hbuf : Words.Spans s.size width buf) (out : Nat → Words)
    (hout : ∀ j < s.size.toInt.toNat, (out j).size = width.toInt.toNat)
    (hcall : ∀ w i ws, S w → Accepts s width i ws →
      ∃ w', (call i ws).Gives w (ws.overlay 0 (out i.toInt.toNat)) w' ∧ S w')
    (who what : String) (h : S w) :
    ∃ w', (bulk who what s.size width call buf).Gives w
        (Words.flat s.size.toInt.toNat width.toInt.toNat out) w' ∧ S w' := by
  refine gives_bulk (R := fun _ => S) call who what hbuf hout (fun _ u j hj hu => ?_) h
  have hsize := Words.size_window (hbuf.le hj)
  obtain ⟨hacc, hid⟩ := HostBuffers.accepts_ofNat hbuf.width_nonneg hj hsize
  obtain ⟨u', hgives, hu'⟩ := hcall u _ _ hu hacc
  rw [hid, Words.overlay_all (by rw [hout j hj, hsize])] at hgives
  exact ⟨u', hgives, hu'⟩

end Bulk

end Fleet

namespace Cpu

open HostBuffers (Accepts)

variable {σ : Type} {init : Cpu} {c : Slot σ Cpu} {journal : Slot σ Journal} {w : σ}
  {a : Automaton} {s : Shape} {f f' : Fleet} {i : Int64} {buf : Words}

def bufferSlot (c : Slot σ Cpu) : Slot σ HostBuffers :=
  c.part (·.buffers) fun c b => { c with buffers := b }

theorem gives_change (h : (c.get w).Holds a s f) {op : HostBuffers → Except Error HostBuffers}
    (hop : ∃ b, op (c.get w).buffers = .ok b ∧ b.Holds s f') :
    ∃ x, ((bufferSlot c).change op).Gives w () (c.set w x) ∧ x.Holds a s f' := by
  obtain ⟨b, hb, hholds⟩ := hop
  exact ⟨{ c.get w with buffers := b }, Slot.gives_change hb,
    h.automaton, h.opened, h.workers, hholds⟩

theorem stops_change {op : HostBuffers → Except Error HostBuffers}
    (hop : ∃ e, op (c.get w).buffers = .error e) : ((bufferSlot c).change op).Stops w w := by
  obtain ⟨e, he⟩ := hop
  exact Slot.stops_change he

theorem gives_query {α : Type} (op : HostBuffers → Except Error α) {r : α}
    (hop : op (c.get w).buffers = .ok r) :
    (do Act.ofExcept (op (← (bufferSlot c).read))).Gives w r w :=
  (Slot.gives_read (bufferSlot c) w).bind (Act.gives_ofExcept hop w)

section

variable (h : (c.get w).Holds a s f) (hacc : Accepts s (s.width p) i buf) (what : String)

include h hacc what

theorem gives_write :
    ∃ x, ((bufferSlot c).change (·.writePart p what i buf)).Gives w () (c.set w x) ∧
      x.Holds a s (f.put p i.toInt.toNat (buf.extract 0 (s.width p).toInt.toNat)) :=
  gives_change h (HostBuffers.writePart_ok h.buffers hacc what)

theorem gives_writeMap : ∃ x, ((bufferSlot c).change fun b =>
        b.writePart p what i (b.reduced (b.shape.width p) buf)).Gives w () (c.set w x) ∧
      x.Holds a s (f.put p i.toInt.toNat
        (reduceMap (buf.extract 0 (s.width p).toInt.toNat) s.stateSize)) :=
  gives_change h (HostBuffers.writeMap_ok h.buffers hacc what)

theorem gives_readPart : (do Act.ofExcept ((← (bufferSlot c).read).readPart p what i buf)).Gives w
      (buf.overlay 0 (f p i.toInt.toNat)) w :=
  gives_query (·.readPart p what i buf) (HostBuffers.readPart_ok h.buffers hacc what)

end

theorem gives_update {d : Descriptor} {wiring : Wiring} {cs : List Program.Compiled}
    (hb : a.Built d wiring cs) (h : (c.get w).Holds a s f)
    (hunits : a.runnable ∧ 0 < s.stateSize) :
    ∃ x, ((simulator init c journal).update false).Gives w () (c.set w x) ∧
      x.Holds a s fun q j => q.of (advanced a.plan (f.instanceAt j)) := by
  obtain ⟨x, hx, hholds⟩ := update_ok hb h hunits.1 hunits.2
  exact ⟨x, Slot.gives_change hx, hholds⟩

theorem stops_update (h : (c.get w).Holds a s f) (hbad : ¬(a.runnable ∧ 0 < s.stateSize)) :
    ((simulator init c journal).update false).Stops w w :=
  Slot.stops_change (update_error h hbad)

structure Seen (W : σ → Prop) (c : Slot σ Cpu) (a : Automaton) (s : Shape) (f : Fleet) (w : σ) :
    Prop where
  world : W w
  holds : (c.get w).Holds a s f

variable {W : σ → Prop}

theorem Seen.set (hc : c.Lawful W) (hw : W w) {x : Cpu} (hx : x.Holds a s f) :
    Seen W c a s f (c.set w x) := by
  obtain ⟨hworld, hget⟩ := hc w x hw
  exact ⟨hworld, by rw [hget]; exact hx⟩

section

variable (h : (c.get w).Holds a s f) (what : String) (hbuf : Words.Spans s.size (s.width p) buf)

include h what hbuf

theorem gives_setAll : ∃ x, ((bufferSlot c).change fun b => do
        return b.withPart (← HostBuffers.copyAll what (b.part p) buf) p).Gives w () (c.set w x) ∧
      x.Holds a s (f.putAll p fun j => buf.window j (s.width p).toInt.toNat) := by
  refine gives_change h ⟨_, Outcome.bind_ok.mpr ⟨buf, ?_, rfl⟩, h.buffers.replaceAll hbuf⟩
  have hsize : buf.size = ((c.get w).buffers.part p).size := by
    rw [hbuf.size, (h.buffers.spans p).size]
  rw [HostBuffers.copyAll, if_neg (by omega), Words.overlay_all hsize]

theorem gives_getAll :
    (do Act.ofExcept (HostBuffers.copyAll what buf ((← (bufferSlot c).read).part p))).Gives w
      (Words.flat s.size.toInt.toNat (s.width p).toInt.toNat (f p)) w := by
  refine gives_query (fun b => HostBuffers.copyAll what buf (b.part p)) ?_
  have hspans := h.buffers.spans p
  have hsize : ((c.get w).buffers.part p).size = buf.size := by rw [hbuf.size, hspans.size]
  rw [HostBuffers.copyAll, if_neg (by omega), Words.overlay_all hsize,
    Words.eq_flat hspans.size (h.buffers.window p)]

end

theorem gives_callEach (hc : c.Lawful W) {call : Int64 → Act σ Unit} {ws : Words}
    (hcall : ∀ w f j, j < s.size.toInt.toNat → (c.get w).Holds a s f →
      ∃ x, (call (Int64.ofNat j)).Gives w () (c.set w x) ∧ x.Holds a s (f.put p j ws))
    {js : List Nat} (hjs : ∀ j ∈ js, j < s.size.toInt.toNat) (h : Seen W c a s f w) :
    ∃ w', (Simulator.callEach call js).Gives w () w' ∧ Seen W c a s (f.putEach p js ws) w' := by
  induction js generalizing f w with
  | nil =>
    refine ⟨w, Act.gives_pure () w, h.world, ?_⟩
    have hnone : f.putEach p [] ws = f := by
      funext q j
      simp [Fleet.putEach]
    rw [hnone]
    exact h.holds
  | cons j js ih =>
    obtain ⟨x, hgives, hx⟩ := hcall w f j (hjs j (by simp)) h.holds
    obtain ⟨w', hrest, hw'⟩ := ih (fun k hk => hjs k (by simp [hk])) (Seen.set hc h.world hx)
    have hput : (f.put p j ws).putEach p js ws = f.putEach p (j :: js) ws := by
      funext q k
      simp only [Fleet.putEach, Fleet.put, List.mem_cons]
      grind
    rw [hput] at hw'
    exact ⟨w', hgives.bind hrest, hw'⟩

theorem slotMates_lt {n j : Nat} (hn : lanes ∣ n) (hi : i.toInt.toNat < n)
    (hj : j ∈ slotMates lanes i) : j < n := by
  obtain ⟨m, rfl⟩ := hn
  have hdiv : i.toInt.toNat / lanes < m := Nat.div_lt_of_lt_mul hi
  have hle : (i.toInt.toNat / lanes + 1) * lanes ≤ lanes * m := by
    rw [Nat.mul_comm]
    exact Nat.mul_le_mul_left lanes hdiv
  rw [Nat.succ_mul] at hle
  have := (List.mem_range'_1.mp hj).2
  omega

theorem self_mem_slotMates (hlanes : 0 < lanes) : i.toInt.toNat ∈ slotMates lanes i := by
  have hdiv := Nat.div_add_mod' i.toInt.toNat lanes
  have hmod := Nat.mod_lt i.toInt.toNat hlanes
  exact List.mem_range'_1.mpr ⟨by omega, by omega⟩

theorem gives_shared (hc : c.Lawful W) (hlanes : 0 < lanes) (hsize : lanes ∣ s.size.toInt.toNat)
    {call : Int64 → Act σ Unit} {ws : Words}
    (hcall : ∀ w f (j : Int64), s.Valid j → (c.get w).Holds a s f →
      ∃ x, (call j).Gives w () (c.set w x) ∧ x.Holds a s (f.put p j.toInt.toNat ws))
    (hi : s.Valid i) (h : Seen W c a s f w) :
    ∃ w', (do
        call i
        Simulator.callEach call (slotMates lanes i)
        return #[] : Act σ Words).Gives w #[] w' ∧
      Seen W c a s (f.putEach p (slotMates lanes i) ws) w' := by
  obtain ⟨x, hfirst, hx⟩ := hcall w f i hi h.holds
  obtain ⟨w', hrest, hw'⟩ := gives_callEach hc
    (fun w f j hj hf => by
      obtain ⟨hvalid, hid⟩ := Shape.valid_ofNat hj
      have hthis := hcall w f (Int64.ofNat j) hvalid hf
      rwa [hid] at hthis)
    (fun j hj => slotMates_lt hsize hi.nat.1 hj) (Seen.set hc h.world hx)
  have hput : (f.put p i.toInt.toNat ws).putEach p (slotMates lanes i) ws =
      f.putEach p (slotMates lanes i) ws := by
    funext q j
    have hself := self_mem_slotMates (i := i) hlanes
    simp only [Fleet.putEach, Fleet.put]
    grind
  rw [hput] at hw'
  exact ⟨w', hfirst.bind (hrest.bind (Act.gives_pure _ _)), hw'⟩

theorem Seen.returning (hc : c.Lawful W) (hw : W w) {x : Act σ Unit} {f : Fleet}
    (hx : ∃ y, x.Gives w () (c.set w y) ∧ y.Holds a s f) :
    ∃ w', (do x; return #[] : Act σ Words).Gives w #[] w' ∧ Seen W c a s f w' := by
  obtain ⟨y, hgives, hy⟩ := hx
  exact ⟨_, hgives.bind (Act.gives_pure _ _), Seen.set hc hw hy⟩

end Cpu

end TiledAutomata
