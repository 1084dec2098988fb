import TiledAutomata.Proofs.Caches

/-!
# Instances in the lanes of others

A packed simulator over one of a number of instances is compared with a simulator that
has the logical instances for its own. Every lane of what the packed simulator shows
carries an instance of the other one. Calls to both keep it so, as long as the program is
bitwise and a map that is set reaches all instances of a slot, and what is read from the
packed simulator is then the low bits of what is read from the other.
-/

namespace TiledAutomata

open Array Fleet Nat

variable {i j reads : Nat}

structure Split where
  bits : Nat
  lanes : Nat
  whole : bits * lanes = 32

namespace Split

variable (v : Split)

theorem bits_pos : 0 < v.bits :=
  Nat.pos_of_mul_pos_right (v.whole ▸ (by decide : 0 < 32))

theorem lanes_pos : 0 < v.lanes :=
  Nat.pos_of_mul_pos_left (v.whole ▸ (by decide : 0 < 32))

theorem lanes_eq : Packed.lanes v.bits = Int64.ofNat v.lanes := by
  rw [Packed.lanes, ← v.whole, Nat.mul_div_cancel_left _ v.bits_pos]

theorem toInt_lanes : (Packed.lanes v.bits).toInt = v.lanes := by
  have hle : v.lanes ≤ 32 := v.whole ▸ Nat.le_mul_of_pos_left v.lanes v.bits_pos
  rw [v.lanes_eq, Int64.toInt_ofNat_of_lt (by omega)]

def lane (i : Nat) : Lane where
  bits := v.bits
  shift := i % v.lanes * v.bits
  pos := v.bits_pos
  fits := by
    have hle := Nat.mul_le_mul_right v.bits (Nat.mod_lt i v.lanes_pos)
    rwa [Nat.succ_mul, Nat.mul_comm v.lanes, v.whole] at hle

theorem slotOf_eq (i : Int64) : Packed.slotOf v.bits i = i.toInt.toNat / v.lanes := by
  rw [Packed.slotOf, ← v.whole, Nat.mul_comm v.bits, Nat.mul_div_mul_right _ _ v.bits_pos]

theorem shiftOf_eq (i : Int64) : Packed.shiftOf v.bits i = (v.lane i.toInt.toNat).shift := by
  rw [Packed.shiftOf, ← v.whole, mul_comm v.bits, mul_mod_mul_right, lane]

variable {v}

theorem lane_apart (hne : i ≠ j) (hslot : i / v.lanes = j / v.lanes) :
    (v.lane i).Apart (v.lane j) := by
  have hmod : i % v.lanes ≠ j % v.lanes := by
    intro heq
    apply hne
    rw [← div_add_mod i v.lanes, hslot, heq, div_add_mod]
  rcases lt_or_gt_of_ne hmod with hlt | hgt
  · have hle := mul_le_mul_right v.bits hlt
    rw [succ_mul] at hle
    exact Or.inl hle
  · have hle := mul_le_mul_right v.bits hgt
    rw [succ_mul] at hle
    exact Or.inr hle

theorem slot_lt {n : Nat} (hi : i < n * v.lanes) : i / v.lanes < n :=
  Nat.div_lt_of_lt_mul (by rwa [Nat.mul_comm])

theorem mem_slotMates {i : Int64} :
    j ∈ slotMates v.lanes i ↔ j / v.lanes = i.toInt.toNat / v.lanes := by
  rw [slotMates, List.mem_range'_1, Nat.div_eq_iff v.lanes_pos]
  have := v.lanes_pos
  omega

end Split

namespace Lane

variable {l k : Lane} {ws vs buf : Words}

theorem CarriesAll.extract (h : l.CarriesAll ws vs) :
    Packed.extract l.bits l.shift ws = vs.map (Word.low l.bits) := by
  rw [extract_eq]
  refine ext_getElem? fun j => ?_
  rw [getElem?_map, getElem?_map]
  by_cases hj : j < ws.size
  · obtain ⟨w, v, hw, hv, hwv⟩ := h.getElem? hj
    rw [hw, hv, Option.map_some, Option.map_some, get_eq_low hwv]
  · have hsize := h.size
    rw [getElem?_eq_none (by omega), getElem?_eq_none (by omega)]
    rfl

theorem CarriesAll.insert_self (l : Lane) (h : ws.size ≤ buf.size) :
    l.CarriesAll (Packed.insert l.bits l.shift ws buf) (buf.extract 0 ws.size) := by
  rw [insert_eq]
  refine of_getElem? (by simp; omega) fun j hj => ?_
  rw [size_mapIdx] at hj
  have hj' : j < buf.size := by omega
  refine ⟨l.put ws[j] buf[j], buf[j], ?_, ?_, put_carries l _ _⟩
  · simp [hj, hj', getD_eq_getD_getElem?]
  · simp [hj, hj']

theorem CarriesAll.insert_other (hapart : l.Apart k) (h : k.CarriesAll ws vs) (buf : Words) :
    k.CarriesAll (Packed.insert l.bits l.shift ws buf) vs := by
  rw [insert_eq]
  refine of_getElem? (by rw [size_mapIdx, h.size]) fun j hj => ?_
  rw [size_mapIdx] at hj
  obtain ⟨w, v, hw, hv, hwv⟩ := h.getElem? hj
  exact ⟨_, v, by rw [getElem?_mapIdx, hw]; rfl, hv, put_carries_other hapart hwv _⟩

/-- How a window of a wrapped instance carries one of a logical instance. Maps have no lanes. -/
def CarriesPart (l : Lane) : Part → Words → Words → Prop
  | .inputMap, ws, vs | .outputMap, ws, vs => ws = vs
  | .state, ws, vs | .input, ws, vs | .output, ws, vs => l.CarriesAll ws vs

theorem carriesPart_cached (l : Lane) (k : Cached) :
    l.CarriesPart k.part ws vs ↔ l.CarriesAll ws vs := by
  cases k <;> rfl

end Lane

/-- The instances of one fleet are in the lanes of another. -/
def Split.Carries (v : Split) (n : Nat) (g f : Fleet) : Prop :=
  ∀ q, ∀ i < n * v.lanes, (v.lane i).CarriesPart q (g q (i / v.lanes)) (f q i)

namespace Split.Carries

variable {v : Split} {n : Nat} {g f : Fleet} {q : Part}

theorem congr (h : v.Carries n g f) {f' : Fleet} (hf : ∀ q, ∀ i < n * v.lanes, f q i = f' q i) :
    v.Carries n g f' :=
  fun q i hi => hf q i hi ▸ h q i hi

theorem insert (h : v.Carries n g f) (k : Cached) {buf : Words}
    (hbuf : (g k.part (i / v.lanes)).size ≤ buf.size) :
    v.Carries n
      (g.put k.part (i / v.lanes)
        (Packed.insert v.bits (v.lane i).shift (g k.part (i / v.lanes)) buf))
      (f.put k.part i (buf.extract 0 (g k.part (i / v.lanes)).size)) := by
  intro q j hj
  have hcarries := h q j hj
  by_cases hq : q = k.part
  · subst hq
    rw [Lane.carriesPart_cached] at hcarries ⊢
    by_cases hji : j = i
    · rw [hji, put_self, put_self]
      exact Lane.CarriesAll.insert_self (v.lane i) hbuf
    · rw [f.put_other fun _ => hji]
      -- another lane of the slot that is written, or of another slot
      by_cases hslot : j / v.lanes = i / v.lanes
      · rw [hslot] at hcarries ⊢
        rw [put_self]
        exact hcarries.insert_other (lane_apart (Ne.symm hji) hslot.symm) buf
      · rw [g.put_other fun _ => hslot]
        exact hcarries
  · rw [g.put_other fun heq => absurd heq hq, f.put_other fun heq => absurd heq hq]
    exact hcarries

theorem setMap (h : v.Carries n g f) {q : Part} (hq : ∀ k : Cached, k.part ≠ q) (i : Int64)
    (ws : Words) :
    v.Carries n (g.put q (i.toInt.toNat / v.lanes) ws)
      (f.putEach q (slotMates v.lanes i) ws) := by
  intro q' j hj
  simp only [put, putEach, mem_slotMates]
  by_cases hboth : q' = q ∧ j / v.lanes = i.toInt.toNat / v.lanes
  · rw [if_pos hboth, if_pos hboth, hboth.1]
    cases q with
    | state => exact absurd rfl (hq .state)
    | input => exact absurd rfl (hq .input)
    | output => exact absurd rfl (hq .output)
    | inputMap | outputMap => rfl
  · rw [if_neg hboth, if_neg hboth]
    exact h q' j hj

theorem advanced {d : Descriptor} {a : Automaton} {w : Wiring} {cs : List Program.Compiled}
    (hb : a.Built d w cs) (hbits : a.program.bitwise = true) (h : v.Carries n g f) :
    v.Carries n (fun q j => q.of (Cpu.advanced a.plan (g.instanceAt j)))
      (fun q j => q.of (Cpu.advanced a.plan (f.instanceAt j))) := by
  intro q i hi
  have hinstance : (v.lane i).CarriesInstance (g.instanceAt (i / v.lanes)) (f.instanceAt i) :=
    ⟨h .state i hi, h .input i hi, h .inputMap i hi, h .outputMap i hi, h .output i hi⟩
  have hnext := Cpu.advanced_carries hb hbits hinstance
  cases q with
  | state => exact hnext.state
  | input => exact hnext.input
  | inputMap => exact hnext.inputMap
  | outputMap => exact hnext.outputMap
  | output => exact hnext.output

end Split.Carries

/-- The words that were read are the low bits of others, and the rest of the buffer is the same. -/
def Narrows (bits reads : Nat) (r r' : Words) : Prop :=
  ∀ j, r[j]? = if j < reads then r'[j]?.map (Word.low bits) else r'[j]?

namespace Narrows

variable {bits : Nat}

theorem refl (r : Words) : Narrows bits 0 r r := fun _ => rfl

theorem overlay {x buf : Words} (hx : x.size = reads) (h : reads ≤ buf.size) :
    Narrows bits reads (buf.overlay 0 (x.map (Word.low bits))) (buf.overlay 0 x) := by
  subst hx
  intro j
  rw [Words.getElem?_overlay (by rw [size_map]; omega), Words.getElem?_overlay (by omega)]
  by_cases hj : j < x.size
  · simp [hj]
  · simp [hj]

theorem flat {n width : Nat} (hreads : reads = n * width) (g : Nat → Words) :
    Narrows bits reads (Words.flat n width fun i => (g i).map (Word.low bits))
      (Words.flat n width g) := by
  subst hreads
  intro j
  have hzero : Word.low bits 0 = 0 := by simp [Word.low]
  have hword : ∀ x : Option Word, (x.map (Word.low bits)).getD 0 = Word.low bits (x.getD 0) := by
    intro x
    cases x with
    | none => exact hzero.symm
    | some x => rfl
  by_cases hj : j < n * width
  · simp [Words.flat, hj, hword]
  · rw [if_neg hj, Array.getElem?_eq_none (by rw [Words.size_flat]; omega),
      Array.getElem?_eq_none (by rw [Words.size_flat]; omega)]

end Narrows

namespace Packed

open HostBuffers (Accepts accepts_ofNat)

variable {σ : Type} {W : σ → Prop} {c : Slot σ Cpu} {p : Slot σ Packed} {a : Automaton} {s : Shape}
  {v : Split} {f f' : Fleet} {w : σ} {k : Cached} {i : Int64} {buf : Words}

def Shows (W : σ → Prop) (c : Slot σ Cpu) (p : Slot σ Packed) (a : Automaton) (s : Shape)
    (v : Split) (f : Fleet) (w : σ) : Prop :=
  ∃ held shown, Backed W c p a s held shown w ∧ v.Carries s.size.toInt.toNat shown f

theorem located (hcount : (logical s v.bits).size.toInt.toNat = s.size.toInt.toNat * v.lanes)
    (hi : (logical s v.bits).Valid i) :
    i.toInt.toNat < s.size.toInt.toNat * v.lanes ∧ slotOf v.bits i < s.size.toInt.toNat := by
  have hlt : i.toInt.toNat < s.size.toInt.toNat * v.lanes := hcount ▸ hi.nat.1
  exact ⟨hlt, v.slotOf_eq i ▸ Split.slot_lt hlt⟩

namespace Shows

theorem congr (h : Shows W c p a s v f w)
    (hf : ∀ q, ∀ j < s.size.toInt.toNat * v.lanes, f q j = f' q j) : Shows W c p a s v f' w := by
  obtain ⟨held, shown, hback, hcarries⟩ := h
  exact ⟨held, shown, hback, hcarries.congr hf⟩

theorem size_window (h : Shows W c p a s v f w) (k : Cached)
    (hj : j < s.size.toInt.toNat * v.lanes) : (f k.part j).size = (s.width k.part).toInt.toNat := by
  obtain ⟨held, shown, hback, hcarries⟩ := h
  have hpart := (Lane.carriesPart_cached _ k).mp (hcarries k.part j hj)
  rw [← hpart.size, hback.size_shown k (Split.slot_lt hj)]

section Calls

variable (hcp : c.Apart W p)
  (hcount : (logical s v.bits).size.toInt.toNat = s.size.toInt.toNat * v.lanes)

include hcp hcount

theorem get {load : Int64 → Words → Act σ Words} (hload : Reads c a s k.part load) (what : String)
    (hacc : Accepts (logical s v.bits) (s.width k.part) i buf) (h : Shows W c p a s v f w) :
    ∃ w', (Packed.get (logical s v.bits).size v.bits (cacheSlot p k) load what i buf).Gives w
        (buf.overlay 0 ((f k.part i.toInt.toNat).map (Word.low v.bits))) w' ∧
      Shows W c p a s v f w' := by
  obtain ⟨held, shown, hback, hcarries⟩ := h
  obtain ⟨hi, hlt⟩ := located hcount hacc.1
  obtain ⟨w', hgives, hw'⟩ := gives_get hcp hload what hacc hlt hback
  have hpart := (Lane.carriesPart_cached _ k).mp (hcarries k.part _ hi)
  have hlow : extract v.bits (v.lane i.toInt.toNat).shift (shown k.part (i.toInt.toNat / v.lanes)) =
      (f k.part i.toInt.toNat).map (Word.low v.bits) := hpart.extract
  rw [v.slotOf_eq, v.shiftOf_eq, hlow] at hgives
  exact ⟨w', hgives, held, shown, hw', hcarries⟩

theorem set {load : Option (Int64 → Words → Act σ Words)}
    (hload : ∀ l, load = some l → Reads c a s k.part l) (hnone : load = none → k = .input)
    (hk : k ≠ .output) (what : String)
    (hacc : Accepts (logical s v.bits) (s.width k.part) i buf) (h : Shows W c p a s v f w) :
    ∃ w', (Packed.set (logical s v.bits).size v.bits (cacheSlot p k) load what i buf).Gives w ()
        w' ∧
      Shows W c p a s v
        (f.put k.part i.toInt.toNat (buf.extract 0 (s.width k.part).toInt.toNat)) w' := by
  obtain ⟨held, shown, hback, hcarries⟩ := h
  obtain ⟨hi, hlt⟩ := located hcount hacc.1
  obtain ⟨w', hgives, hw'⟩ := gives_set hcp hload hnone hk what hacc hlt hback
  have hsize := hback.size_shown k (Split.slot_lt hi)
  have hbuf := Words.le_size_of_not_lacks hacc.2
  rw [v.slotOf_eq, v.shiftOf_eq] at hw'
  rw [← hsize] at hbuf ⊢
  exact ⟨w', hgives, held, _, hw', hcarries.insert k hbuf⟩

end Calls

end Shows

/-- A call is answered as a fleet of the logical instances does, up to the width of the words that
are read. -/
def Answers (W : σ → Prop) (c : Slot σ Cpu) (p : Slot σ Packed) (a : Automaton) (s : Shape)
    (v : Split) (f : Fleet) (x : Act σ Words) (w : σ) (reads : Nat) :
    Option (Fleet × Words) → Prop
  | some (f', r') => ∃ r w', x.Gives w r w' ∧ Narrows v.bits reads r r' ∧ Shows W c p a s v f' w'
  | none => ∃ w', x.Stops w w' ∧ Shows W c p a s v f w'

theorem Answers.returning {x : Act σ Unit}
    (hx : ∃ w', x.Gives w () w' ∧ Shows W c p a s v f' w') :
    Answers W c p a s v f (do x; return #[]) w 0 (some (f', #[])) := by
  obtain ⟨w', hgives, hw'⟩ := hx
  exact ⟨#[], w', hgives.bind (Act.gives_pure _ _), Narrows.refl _, hw'⟩

theorem Answers.refused (h : Shows W c p a s v f w) {x : Act σ Words} (hx : x.Stops w w) :
    Answers W c p a s v f x w reads none :=
  ⟨w, hx, h⟩

section Answers

variable (hcp : c.Apart W p)
  (hcount : (logical s v.bits).size.toInt.toNat = s.size.toInt.toNat * v.lanes)

include hcp hcount

theorem Answers.write {load : Option (Int64 → Words → Act σ Words)}
    (hload : ∀ l, load = some l → Reads c a s k.part l) (hnone : load = none → k = .input)
    (hk : k ≠ .output) (what : String) (h : Shows W c p a s v f w) :
    Answers W c p a s v f (do
        Packed.set (logical s v.bits).size v.bits (cacheSlot p k) load what i buf
        return #[]) w 0
      (if Accepts (logical s v.bits) (s.width k.part) i buf then
        some (f.put k.part i.toInt.toNat (buf.extract 0 (s.width k.part).toInt.toNat), #[])
      else none) := by
  split
  · rename_i hacc
    exact .returning (h.set hcp hcount hload hnone hk what hacc)
  · rename_i hbad
    obtain ⟨held, shown, hback, -⟩ := id h
    rw [set_eq]
    exact .refused h (stops_opened (hback.caches k).width_eq hbad _ _ _).bind.bind

theorem Answers.writeMap {q : Part} (hq : ∀ k : Cached, k.part ≠ q) {what : String}
    {call : Int64 → Words → Act σ Unit}
    (hcall : ∀ j, call j buf = (Cpu.bufferSlot c).change fun b =>
      b.writePart q what j (b.reduced (b.shape.width q) buf)) (h : Shows W c p a s v f w) :
    Answers W c p a s v f (do
        (do let (slot, _) ← Act.ofExcept (locate (logical s v.bits).size v.bits i)
            call (Int64.ofNat slot) buf)
        return #[]) w 0
      (if Accepts (logical s v.bits) (s.width q) i buf then
        some (f.putEach q (slotMates v.lanes i)
          (reduceMap (buf.extract 0 (s.width q).toInt.toNat) s.stateSize), #[])
      else none) := by
  obtain ⟨held, shown, hback, hcarries⟩ := id h
  split
  · rename_i hacc
    obtain ⟨w', hgives, hw'⟩ := gives_setMap hcp hq
      (fun j hj => hcall j ▸ Cpu.gives_writeMap hback.holds hj what) hacc
      (located hcount hacc.1).2 hback
    rw [v.slotOf_eq] at hw'
    exact .returning ⟨w', hgives, _, _, hw', hcarries.setMap hq i _⟩
  · rename_i hbad
    refine .refused h (stops_located hbad fun _ hlacks => ?_).bind
    simp only [hcall]
    exact Cpu.stops_change ⟨_, HostBuffers.writeMap_error hback.holds.buffers
      (fun hacc => Bool.noConfusion (hacc.2.symm.trans hlacks)) what⟩

theorem Answers.read {load : Int64 → Words → Act σ Words} (hload : Reads c a s k.part load)
    (what : String) (h : Shows W c p a s v f w) :
    Answers W c p a s v f
      (Packed.get (logical s v.bits).size v.bits (cacheSlot p k) load what i buf) w
      (s.width k.part).toInt.toNat
      (if Accepts (logical s v.bits) (s.width k.part) i buf then
        some (f, buf.overlay 0 (f k.part i.toInt.toNat))
      else none) := by
  split
  · rename_i hacc
    obtain ⟨w', hgives, hw'⟩ := h.get hcp hcount hload what hacc
    have hsize := h.size_window k (hcount ▸ hacc.1.nat.1)
    exact ⟨_, w', hgives, Narrows.overlay hsize (Words.le_size_of_not_lacks hacc.2), hw'⟩
  · rename_i hbad
    obtain ⟨held, shown, hback, -⟩ := id h
    rw [get_eq]
    exact .refused h (stops_opened (hback.caches k).width_eq hbad _ _ _).bind

theorem Answers.writeAll {load : Option (Int64 → Words → Act σ Words)}
    (hload : ∀ l, load = some l → Reads c a s k.part l) (hnone : load = none → k = .input)
    (hk : k ≠ .output) (who what one : String)
    (hbuf : Words.Spans (logical s v.bits).size (s.width k.part) buf)
    (h : Shows W c p a s v f w) :
    Answers W c p a s v f (do
        discard (bulk who what (logical s v.bits).size (s.width k.part) (fun j ws => do
          Packed.set (logical s v.bits).size v.bits (cacheSlot p k) load one j ws
          return ws) buf)
        return #[]) w 0
      (some (f.putAll k.part fun j => buf.window j (s.width k.part).toInt.toNat, #[])) :=
  .returning (gives_setAll hbuf (fun _ _ _ hf heq => hf.congr (hcount ▸ heq))
    (fun _ _ _ _ hf hacc => hf.set hcp hcount hload hnone hk one hacc) who what h)

theorem Answers.readAll {load : Int64 → Words → Act σ Words} (hload : Reads c a s k.part load)
    (who what one : String) (hbuf : Words.Spans (logical s v.bits).size (s.width k.part) buf)
    (h : Shows W c p a s v f w) :
    Answers W c p a s v f (bulk who what (logical s v.bits).size (s.width k.part)
        (Packed.get (logical s v.bits).size v.bits (cacheSlot p k) load one) buf) w
      ((logical s v.bits).size.toInt * (s.width k.part).toInt).toNat
      (some (f, Words.flat (logical s v.bits).size.toInt.toNat (s.width k.part).toInt.toNat
        (f k.part))) := by
  obtain ⟨w', hgives, hw'⟩ := gives_getAll hbuf
    (fun j => (f k.part j).map (Word.low v.bits))
    (fun j hj => by rw [size_map, h.size_window k (hcount ▸ hj)])
    (fun _ _ _ hw hacc => Shows.get hcp hcount hload one hacc hw) who what h
  exact ⟨_, w', hgives,
    Narrows.flat (Int.toNat_mul hbuf.count_nonneg hbuf.width_nonneg) _, hw'⟩

end Answers

variable (init : Cpu) (journal : Slot σ Journal)

theorem perform_answers {d : Descriptor} {wiring : Wiring} {cs : List Program.Compiled}
    (hb : a.Built d wiring cs) (hbits : a.program.bitwise = true) (hcp : c.Apart W p)
    (hinit : init.buffers.shape = s)
    (hcount : (logical s v.bits).size.toInt.toNat = s.size.toInt.toNat * v.lanes)
    (hwide : (logical s v.bits).Countable) (h : Shows W c p a s v f w) {k : Call}
    (hk : k.Exact (logical s v.bits)) :
    Answers W c p a s v f ((simulator (Cpu.simulator init c journal) v.bits p).perform k) w
      (k.reads (logical s v.bits)) (f.reply a (logical s v.bits) v.lanes k) := by
  obtain ⟨held, shown, hback, hcarries⟩ := id h
  have hload : ∀ l, some (Cpu.simulator init c journal).state = some l → Reads c a s .state l :=
    fun l hl => Option.some.inj hl ▸ reads_state
  subst hinit
  cases k with
  | setState i buf =>
    exact .write (k := .state) hcp hcount hload (by simp) (by decide) _ h
  | setInput i buf =>
    exact .write (k := .input) hcp hcount (by simp) (by simp) (by decide) _ h
  | setStates buf =>
    exact .writeAll (k := .state) hcp hcount hload (by simp) (by decide) _ _ _
      (hwide.spans (p := .state) hk) h
  | setInputs buf =>
    exact .writeAll (k := .input) hcp hcount (by simp) (by simp) (by decide) _ _ _
      (hwide.spans (p := .input) hk) h
  | setInputMap i m =>
    exact .writeMap (q := .inputMap) hcp hcount (fun k => by cases k <;> decide)
      (fun _ => rfl) h
  | setOutputMap i m =>
    exact .writeMap (q := .outputMap) hcp hcount (fun k => by cases k <;> decide)
      (fun _ => rfl) h
  | update =>
    rw [reply]
    split
    · rename_i hunits
      obtain ⟨w', held', hgives, hw'⟩ := gives_update hb hcp hback hunits
      exact .returning ⟨w', hgives, held', _, hw', hcarries.advanced hb hbits⟩
    · rename_i hbad
      obtain ⟨w', held', hstops, hw'⟩ := stops_update hcp hback hbad
      exact ⟨w', hstops.bind, held', shown, hw', hcarries⟩
  | state i buf => exact .read (k := .state) hcp hcount reads_state _ h
  | output i buf => exact .read (k := .output) hcp hcount reads_output _ h
  | states buf =>
    exact .readAll (k := .state) hcp hcount reads_state _ _ _ (hwide.spans (p := .state) hk) h
  | outputs buf =>
    exact .readAll (k := .output) hcp hcount reads_output _ _ _ (hwide.spans (p := .output) hk) h

end Packed

end TiledAutomata
