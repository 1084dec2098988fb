import TiledAutomata.Composite
import TiledAutomata.Kernel
import TiledAutomata.Proofs.Workers

/-!
# Bulk writes

A bulk write takes the windows of all instances back to back. Wrappers refuse a buffer that is
too short and otherwise write one window after the other. Host buffers compare the other way
round: they refuse a buffer with words to spare, and of a short one they take what there is.
-/

namespace TiledAutomata

open Array HostBuffers Nat Words

open Outcome

namespace HostBuffers

variable {b : HostBuffers} {p : Part} {buf : Words} {i : Nat}

theorem writePart_eq (what : String) (h : Words.Reaches b.count (b.shape.width p) (b.part p))
    (hi : i < b.count.toInt.toNat) (hbuf : buf.size = (b.shape.width p).toInt.toNat) :
    b.writePart p what (Int64.ofNat i) buf =
      .ok (b.withPart ((b.part p).overlay (i * (b.shape.width p).toInt.toNat) buf) p) := by
  have hvalid := (Shape.valid_ofNat (s := b.shape) hi).1
  have hlo : ¬Int64.ofNat i < 0 := Int64.not_lt.mpr hvalid.1
  have hhi : ¬b.count ≤ Int64.ofNat i := Int64.not_le.mpr hvalid.2
  have hcheck : b.checkIndex (Int64.ofNat i) = .ok () := by simp [checkIndex, hlo, hhi]
  have hlacks := Words.not_lacks_of_size h.width_nonneg hbuf
  have hall : buf.extract 0 (b.shape.width p).toInt.toNat = buf := by
    rw [← hbuf, Array.extract_size]
  refine bind_ok.mpr ⟨_, ?_, rfl⟩
  unfold copyIn
  rw [hcheck, hlacks, hall, h.offset hi, h.toNat_mul]
  rfl

theorem overlay_next {ws : Words} {m width : Nat} (hws : (m + 1) * width ≤ ws.size)
    (hbuf : (m + 1) * width ≤ buf.size) :
    (ws.overlay 0 (buf.extract 0 (m * width))).overlay (m * width) (buf.window m width) =
      ws.overlay 0 (buf.extract 0 ((m + 1) * width)) := by
  have hwindow : (buf.window m width).size = width := size_window hbuf
  rw [succ_mul] at *
  have hfront : (buf.extract 0 (m * width)).size = m * width := by
    rw [size_extract]
    omega
  have hmore : (buf.extract 0 (m * width + width)).size = m * width + width := by
    rw [size_extract]
    omega
  have hsize : (ws.overlay 0 (buf.extract 0 (m * width))).size = ws.size :=
    size_overlay (by omega)
  refine ext_getElem? fun k => ?_
  rw [getElem?_overlay (by omega), getElem?_overlay (by omega),
    getElem?_overlay (by omega), getElem?_window, hfront, hmore, hwindow]
  simp only [not_lt_zero, if_false, zero_add, getElem?_extract]
  by_cases hfirst : k < m * width
  · rw [if_pos hfirst, if_pos hfirst, if_pos (by omega), if_pos (by omega), if_pos (by omega)]
  · by_cases hnext : k < m * width + width
    · rw [if_neg hfirst, if_pos hnext, if_pos (by omega), if_pos hnext, if_pos (by omega)]
      congr 1
      omega
    · rw [if_neg hfirst, if_neg hnext, if_neg (by omega), if_neg hnext]

theorem count_withPart (b : HostBuffers) (ws : Words) (p : Part) :
    (b.withPart ws p).count = b.count :=
  congrArg Shape.size (shape_withPart b ws p)

theorem withPart_withPart (b : HostBuffers) (ws vs : Words) (p : Part) :
    (b.withPart ws p).withPart vs p = b.withPart vs p := by
  cases p <;> rfl

theorem withPart_part (b : HostBuffers) (p : Part) : b.withPart (b.part p) p = b := by
  cases p <;> rfl

def writeEach (b : HostBuffers) (p : Part) (what : String) (buf : Words) (is : List Nat) :
    Except Error HostBuffers :=
  is.foldlM (fun b i => b.writePart p what (Int64.ofNat i)
    (buf.window i (b.shape.width p).toInt.toNat)) b

theorem writeEach_range (what : String) (h : Words.Reaches b.count (b.shape.width p) (b.part p))
    (hbuf : b.count.toInt.toNat * (b.shape.width p).toInt.toNat ≤ buf.size) {m : Nat}
    (hm : m ≤ b.count.toInt.toNat) :
    b.writeEach p what buf (List.range m) = .ok (b.withPart
      ((b.part p).overlay 0 (buf.extract 0 (m * (b.shape.width p).toInt.toNat))) p) := by
  induction m with
  | zero =>
    have hnone : (b.part p).overlay 0 (buf.extract 0 0) = b.part p := by
      simp [overlay]
    rw [zero_mul, hnone, withPart_part]
    rfl
  | succ m ih =>
    have hlt : m < b.count.toInt.toNat := hm
    have hle := h.le hlt
    have hbuf' : (m + 1) * (b.shape.width p).toInt.toNat ≤ buf.size :=
      (mul_le_mul_right _ hm).trans hbuf
    have hnext := overlay_next hle hbuf'
    have hsize : ((b.part p).overlay 0
        (buf.extract 0 (m * (b.shape.width p).toInt.toNat))).size = (b.part p).size := by
      rw [succ_mul] at hle
      exact size_overlay (by rw [size_extract]; omega)
    have hfirst := ih (le_of_lt hlt)
    generalize (b.part p).overlay 0 (buf.extract 0 (m * (b.shape.width p).toInt.toNat)) = ws
      at hnext hsize hfirst
    have hshape := shape_withPart b ws p
    have hpart : (b.withPart ws p).part p = ws := by rw [part_withPart, if_pos rfl]
    have hreach : Words.Reaches (b.withPart ws p).count ((b.withPart ws p).shape.width p)
        ((b.withPart ws p).part p) := by
      rw [count_withPart, hshape, hpart]
      exact ⟨h.count_nonneg, h.width_nonneg, h.bound, hsize ▸ h.size⟩
    have hwrite := writePart_eq what hreach (by rwa [count_withPart])
      (by rw [hshape]; exact size_window hbuf')
    rw [hshape, hpart, withPart_withPart, hnext] at hwrite
    unfold writeEach at *
    rw [List.range_succ, List.foldlM_append, hfirst]
    refine bind_ok.mpr ⟨_, rfl, bind_ok.mpr ⟨_, ?_, rfl⟩⟩
    simpa only [hshape] using hwrite

def writeAll (b : HostBuffers) (p : Part) (what : String) (buf : Words) :
    Except Error HostBuffers := do
  return b.withPart (← copyAll what (b.part p) buf) p

theorem setStates_eq (b : HostBuffers) (buf : Words) :
    b.setStates buf = b.writeAll .state "states" buf := rfl

theorem setInputs_eq (b : HostBuffers) (buf : Words) :
    b.setInputs buf = b.writeAll .input "inputs" buf := rfl

theorem writeAll_eq (what what' : String) (buf : Words)
    (h : Words.Spans b.count (b.shape.width p) (b.part p)) :
    ((b.part p).size < buf.size →
      b.writeAll p what buf = .error (shortBuffer ("automata: " ++ what ++ " buffer")
        (b.part p).size (Int64.ofNat buf.size))) ∧
    (buf.size ≤ (b.part p).size →
      b.writeAll p what buf = .ok (b.withPart ((b.part p).overlay 0 buf) p)) ∧
    ((b.part p).size ≤ buf.size →
      b.writeEach p what' buf (List.range b.count.toInt.toNat) =
        .ok (b.withPart (buf.extract 0 (b.part p).size) p)) := by
  refine ⟨fun hlong => ?_, fun hfits => ?_, fun hlong => ?_⟩
  · rw [writeAll, copyAll, if_pos hlong]
    rfl
  · rw [writeAll, copyAll, if_neg (by omega)]
    rfl
  · rw [writeEach_range what' h.reaches (h.size ▸ hlong) le_rfl, ← h.size, overlay_all]
    rw [size_extract]
    omega

end HostBuffers

section Wrappers

variable {σ : Type} {n width : Int64} {buf : Words} {w : σ}

theorem Words.overlay_window {ws : Words} {i width : Nat} (h : (i + 1) * width ≤ ws.size) :
    ws.overlay (i * width) (ws.window i width) = ws := by
  have hsize : (ws.window i width).size = width := size_window h
  rw [succ_mul] at h
  refine ext_getElem? fun k => ?_
  rw [getElem?_overlay (by omega), getElem?_window, hsize]
  by_cases hlo : k < i * width
  · rw [if_pos hlo]
  · by_cases hhi : k < i * width + width
    · rw [if_neg hlo, if_pos hhi, if_pos (by omega)]
      congr 1
      omega
    · rw [if_neg hlo, if_neg hhi]

def writeWindows (call : Int64 → Words → Act σ Unit) (width : Int64) (buf : Words) :
    List Nat → Act σ Unit
  | [] => pure ()
  | i :: is => do
    call (Int64.ofNat i) (buf.window i width.toInt.toNat)
    writeWindows call width buf is

theorem eachWindow_writing (call : Int64 → Words → Act σ Unit) (h : Words.Reaches n width buf)
    {is : List Nat} (his : ∀ i ∈ is, i < n.toInt.toNat) :
    eachWindow buf width (fun i ws => do call i ws; return ws) is =
      (do writeWindows call width buf is; return buf) := by
  induction is with
  | nil => simp [eachWindow, writeWindows]
  | cons i is ih =>
    have hi := his i (by simp)
    rw [eachWindow, writeWindows]
    simp only [h.slice hi, h.offset hi, h.toNat_mul, Act.orAbort, pure_bind, bind_assoc,
      overlay_window (h.le hi), ih fun j hj => his j (by simp [hj])]

theorem outcome_bulk (call : Int64 → Words → Act σ Unit) (who what : String)
    (hn : 0 ≤ n.toInt) (hwidth : 0 ≤ width.toInt) (hbound : n.toInt * width.toInt < 2 ^ 63)
    (hbuf : buf.size < 2 ^ 63) :
    (discard (bulk who what n width (fun i ws => do call i ws; return ws) buf)).outcome w =
      if (buf.size : Int) < n.toInt * width.toInt then
        (.error (shortBuffer (who ++ ": " ++ what ++ " buffer") buf.size (n * width)), w)
      else (writeWindows call width buf (List.range n.toInt.toNat)).outcome w := by
  have hmul : (n * width).toInt = n.toInt * width.toInt :=
    Int64.toInt_mul_eq (by have := Int.mul_nonneg hn hwidth; omega) hbound
  have hlacks : buf.lacks (n * width) = decide ((buf.size : Int) < n.toInt * width.toInt) := by
    rw [Words.lacks, decide_eq_decide, Int64.lt_iff_toInt_lt, hmul,
      Int64.toInt_ofNat_of_lt hbuf]
  rw [Act.discard_eq, bulk, hlacks]
  by_cases hshort : (buf.size : Int) < n.toInt * width.toInt
  · rw [decide_eq_true hshort, if_pos rfl, if_pos hshort]
    rfl
  · have hreach : Words.Reaches n width buf := by
      refine ⟨hn, hwidth, hbound, ?_⟩
      rw [← Int.toNat_mul hn hwidth]
      omega
    rw [decide_eq_false hshort, if_neg (by decide), if_neg hshort,
      eachWindow_writing call hreach fun i hi => List.mem_range.mp hi]
    simp only [bind_assoc, pure_bind, bind_pure_unit]

/-- Simulators that reach their instances through other simulators. -/
inductive Simulator.Wraps : Simulator σ → Prop
  | packed (sim : Simulator σ) (bits : Nat) (p : Slot σ Packed) :
      Wraps (Packed.simulator sim bits p)
  | composite (first : Simulator σ) (cs : Composite.Components σ)
      (routes : Array Composite.Route) (alloc : Slot σ Allocator) :
      Wraps (Composite.simulator first cs routes alloc)

/-- A bulk write that refuses short buffers and else makes one call for each instance. -/
def Dutiful (n width : Int64) (call : Int64 → Words → Act σ Unit) (write : Words → Act σ Unit) :
    Prop :=
  0 ≤ n.toInt → 0 ≤ width.toInt → n.toInt * width.toInt < 2 ^ 63 →
    ∀ buf : Words, buf.size < 2 ^ 63 → ∀ w,
      ((buf.size : Int) < n.toInt * width.toInt → ∃ what,
        (write buf).outcome w = (.error (shortBuffer what buf.size (n * width)), w)) ∧
      (n.toInt * width.toInt ≤ buf.size →
        (write buf).outcome w =
          (writeWindows call width buf (List.range n.toInt.toNat)).outcome w)

theorem dutiful_bulk (call : Int64 → Words → Act σ Unit) (who what : String) (n width : Int64) :
    Dutiful n width call fun buf =>
      discard (bulk who what n width (fun i ws => do call i ws; return ws) buf) := by
  intro hn hwidth hbound buf hbuf w
  have hout := outcome_bulk (w := w) call who what hn hwidth hbound hbuf
  refine ⟨fun hshort => ⟨_, hout.trans (if_pos hshort)⟩, fun hlong => ?_⟩
  exact hout.trans (if_neg (Int.not_lt.mpr hlong))

end Wrappers

/-- The state of a kernel after a bulk write: the device's words count as overwritten, whatever the
buffer held. -/
theorem Kernel.setStates_effect {σ : Type} {W : σ → Prop} (init : Kernel) {k : Slot σ Kernel}
    (hk : k.Lawful W) (p : Platform σ) (buf : Words) {w : σ} (hw : W w) :
    match (k.get w).buffers.setStates buf with
    | .error e => ((simulator init k p).setStates buf).outcome w = (.error e, w)
    | .ok b => ∃ w', ((simulator init k p).setStates buf).Gives w () w' ∧ W w' ∧
        k.get w' = setDirty .state true (setStale .state false { k.get w with buffers := b }) := by
  cases hset : (k.get w).buffers.setStates buf with
  | error e =>
    refine Act.outcome_bind_error ?_ _
    exact Slot.outcome_change hset
  | ok b =>
    obtain ⟨hworld, hget⟩ := hk w { k.get w with buffers := b } hw
    obtain ⟨hworld', hget'⟩ := hk _
      (setDirty .state true (setStale .state false { k.get w with buffers := b })) hworld
    refine ⟨_, Act.Gives.bind (Slot.gives_change hset) (Slot.gives_update k _ _), ?_, ?_⟩
    · simpa only [Slot.part, hget] using hworld'
    · simpa only [Slot.part, hget] using hget'

/-- What bulk writes do with buffers of any length. Packed simulators and composites refuse a short
one, and otherwise do what the calls for the instances do. Host buffers refuse a buffer that is
longer than all windows and let a shorter one replace their front; only where the length is right is
that what the calls for the instances do. A kernel does the same and takes the words of its device
for overwritten. -/
theorem bulk_write_effects {b : HostBuffers} (hstate : Words.Spans b.count b.stateSize b.state)
    (hinput : Words.Spans b.count b.inputSize b.input) (buf : Words) :
    (b.state.size < buf.size → b.setStates buf =
      .error (shortBuffer "automata: states buffer" b.state.size (Int64.ofNat buf.size))) ∧
    (buf.size ≤ b.state.size →
      b.setStates buf = .ok { b with state := b.state.overlay 0 buf }) ∧
    (b.state.size ≤ buf.size →
      b.writeEach .state "state" buf (List.range b.count.toInt.toNat) =
        .ok { b with state := buf.extract 0 b.state.size }) ∧
    (b.input.size < buf.size → b.setInputs buf =
      .error (shortBuffer "automata: inputs buffer" b.input.size (Int64.ofNat buf.size))) ∧
    (buf.size ≤ b.input.size →
      b.setInputs buf = .ok { b with input := b.input.overlay 0 buf }) ∧
    (b.input.size ≤ buf.size →
      b.writeEach .input "input" buf (List.range b.count.toInt.toNat) =
        .ok { b with input := buf.extract 0 b.input.size }) ∧
    (∀ (σ : Type) (S : Simulator σ), S.Wraps →
      Dutiful S.size S.stateSize S.setState S.setStates ∧
      Dutiful S.size S.inputSize S.setInput S.setInputs) ∧
    ∀ (σ : Type) (W : σ → Prop) (init : Kernel) (k : Slot σ Kernel), k.Lawful W →
      ∀ (p : Platform σ) (w : σ), W w → (k.get w).buffers = b → buf.size ≤ b.state.size →
        ∃ w', ((Kernel.simulator init k p).setStates buf).Gives w () w' ∧ W w' ∧
          (k.get w').buffers = { b with state := b.state.overlay 0 buf } ∧
          (k.get w').stale.state = false := by
  obtain ⟨hlong, hshort, heach⟩ :=
    writeAll_eq (p := .state) "states" "state" buf hstate
  obtain ⟨hlong', hshort', heach'⟩ :=
    writeAll_eq (p := .input) "inputs" "input" buf hinput
  rw [setStates_eq, setInputs_eq]
  refine ⟨hlong, hshort, heach, hlong', hshort', heach', fun σ S hS => ?_,
    fun σ W init k hk p w hw hget hfits => ?_⟩
  · cases hS with
    | packed sim bits p => exact ⟨dutiful_bulk _ _ _ _ _, dutiful_bulk _ _ _ _ _⟩
    | composite first cs routes alloc => exact ⟨dutiful_bulk _ _ _ _ _, dutiful_bulk _ _ _ _ _⟩
  · have heffect := Kernel.setStates_effect init hk p buf hw
    rw [hget, setStates_eq, hshort hfits] at heffect
    obtain ⟨w', hgives, hworld, hafter⟩ := heffect
    exact ⟨w', hgives, hworld, by rw [hafter]; rfl, by rw [hafter]; rfl⟩

/-- Three words are taken where eighteen are due, and nineteen are said to be too few. -/
theorem bulk_write_effects_trio :
    HostBuffers.trio.setStates #[9, 9, 9] = .ok { HostBuffers.trio with
      state := #[9, 9, 9, 4, 5, 6, -1, -2, -3, -4, -5, -6, 10, 20, 30, 40, 50, 60] } ∧
    HostBuffers.trio.setStates (Array.replicate 19 9) =
      .error (shortBuffer "automata: states buffer" 18 19) ∧
    HostBuffers.trio.writeEach .state "state" (Array.replicate 19 9) [0, 1, 2] =
      .ok { HostBuffers.trio with state := Array.replicate 18 9 } := by
  have hstate : Words.Spans trio.count 6 trio.state :=
    ⟨by decide, by decide, by decide, by decide⟩
  have hinput : Words.Spans trio.count 1 trio.input :=
    ⟨by decide, by decide, by decide, by decide⟩
  obtain ⟨-, hshort, -⟩ := bulk_write_effects hstate hinput #[9, 9, 9]
  obtain ⟨hlong, -, heach, -⟩ := bulk_write_effects hstate hinput (replicate 19 9)
  exact ⟨hshort (by decide), hlong (by decide), heach (by decide)⟩

end TiledAutomata
