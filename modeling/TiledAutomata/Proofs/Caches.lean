import TiledAutomata.Proofs.Calls

/-!
# Caches are transparent

The caches of a packed simulator stand between its callers and the wrapped simulator.
What a cache shows is what it holds, if it is valid, and what the wrapped instances hold
otherwise; unless it is dirty, the wrapped instances hold the same. Loading and flushing
keep what the caches show, so calls act on what is shown as if there were no caches, and
an update advances it.
-/

namespace TiledAutomata

inductive Cached where
  | state
  | input
  | output
  deriving DecidableEq

def Cached.part : Cached → Part
  | .state => .state
  | .input => .input
  | .output => .output

theorem Cached.part_injective {k l : Cached} (h : k.part = l.part) : k = l := by
  cases k <;> cases l <;> simp_all [Cached.part]

namespace LaneCache

structure Fits (n : Nat) (width : Int64) (x : LaneCache) : Prop where
  width_eq : x.width = width
  size : x.words.size = n
  window : ∀ j < n, (x.words.getD j #[]).size = width.toInt.toNat
  valid_of_dirty : x.dirty = true → x.valid = true

variable {n : Nat} {width : Int64} {x : LaneCache}

theorem Fits.getD_setWords (h : x.Fits n width) {j : Nat} (hj : j < n) (v : Words) (i : Nat) :
    (x.setWords j v).words.getD i #[] = if i = j then v else x.words.getD i #[] := by
  simp only [LaneCache.setWords, Array.getD_eq_getD_getElem?, Array.getElem?_setIfInBounds]
  by_cases hij : i = j
  · simp [hij, h.size, hj]
  · simp [hij, Ne.symm hij]

theorem Fits.setWords (h : x.Fits n width) {j : Nat} (hj : j < n) {ws : Words}
    (hws : ws.size = width.toInt.toNat) : (x.setWords j ws).Fits n width := by
  refine ⟨h.width_eq, by simp [LaneCache.setWords, h.size], fun i hi => ?_, h.valid_of_dirty⟩
  rw [h.getD_setWords hj]
  split
  · exact hws
  · exact h.window i hi

theorem Fits.flagged (h : x.Fits n width) {valid dirty : Bool} (hd : dirty = true → valid = true) :
    Fits n width { x with valid, dirty } :=
  ⟨h.width_eq, h.size, h.window, hd⟩

theorem Fits.dirty_eq_false (h : x.Fits n width) (hvalid : x.valid = false) : x.dirty = false := by
  cases hd : x.dirty with
  | false => rfl
  | true => rw [h.valid_of_dirty hd] at hvalid; cases hvalid

def written (bits slot shift : Nat) (buf : Words) (x : LaneCache) : LaneCache :=
  { x.setWords slot (Packed.insert bits shift (x.words.getD slot #[]) buf) with dirty := true }

theorem Fits.getD_written (h : x.Fits n width) {slot : Nat} (hslot : slot < n) (bits shift : Nat)
    (buf : Words) (i : Nat) : (x.written bits slot shift buf).words.getD i #[] =
      if i = slot then Packed.insert bits shift (x.words.getD slot #[]) buf
      else x.words.getD i #[] :=
  h.getD_setWords hslot _ i

theorem Fits.written (h : x.Fits n width) (hvalid : x.valid = true) (bits slot shift : Nat)
    (buf : Words) : (x.written bits slot shift buf).Fits n width := by
  have hwords : (x.setWords slot
      (Packed.insert bits shift (x.words.getD slot #[]) buf)).Fits n width := by
    by_cases hslot : slot < n
    · refine h.setWords hslot ?_
      rw [← h.window slot hslot]
      simp [Packed.insert]
    · rwa [LaneCache.setWords, Array.setIfInBounds_eq_of_size_le (by rw [h.size]; omega)]
  exact hwords.flagged fun _ => hvalid

section Loading

variable {σ : Type} {c : Slot σ LaneCache} {load : Int64 → Words → Act σ Words} {I : σ → Prop}
  {R : Nat → Words → Prop} {F : List Nat → Error → Prop} {w : σ}

/-- What is known of loading instances one by one: the rest of the world is kept, and `R` holds of
what is loaded, or `F` of the instances that were asked for and the error. -/
structure Loads (c : Slot σ LaneCache) (load : Int64 → Words → Act σ Words) (n : Nat)
    (width : Int64) (I : σ → Prop) (R : Nat → Words → Prop) (F : List Nat → Error → Prop) :
    Prop where
  lawful : c.Lawful I
  size : ∀ j < n, ∀ ws, R j ws → ws.size = width.toInt.toNat
  one : ∀ w, I w → ∀ j < n, ∀ buf : Words, buf.size = width.toInt.toNat →
    (load (Int64.ofNat j) buf).Ends w (fun ws w' => R j ws ∧ I w' ∧ c.get w' = c.get w)
      fun e w' => (∀ js, F (j :: js) e) ∧ I w' ∧ c.get w' = c.get w
  later : ∀ j ws js e, R j ws → F js e → F (j :: js) e

structure Blank (c : Slot σ LaneCache) (n : Nat) (width : Int64) (I : σ → Prop) (w : σ) :
    Prop where
  kept : I w
  fits : (c.get w).Fits n width
  valid : (c.get w).valid = false

theorem Loads.slots (h : Loads c load n width I R F) {js : List Nat} (hjs : ∀ j ∈ js, j < n)
    (hw : Blank c n width I w) :
    (loadSlots c load js).Ends w
      (fun _ w' => Blank c n width I w' ∧ ∀ i < n,
        (i ∈ js → R i ((c.get w').words.getD i #[])) ∧
        (i ∉ js → (c.get w').words.getD i #[] = (c.get w).words.getD i #[]))
      fun e w' => Blank c n width I w' ∧ F js e := by
  induction js generalizing w with
  | nil => exact Act.ends_pure ⟨hw, fun i _ => ⟨(by cases ·), fun _ => rfl⟩⟩
  | cons j js ih =>
    have hj := hjs j List.mem_cons_self
    refine (Slot.gives_read c w).bind_ends ?_
    refine (h.one w hw.kept j hj _ (hw.fits.window j hj)).andThen (fun e w' he => ?_) ?_
    · obtain ⟨he, hI, hget⟩ := he
      exact ⟨⟨hI, hget ▸ hw.fits, hget ▸ hw.valid⟩, he js⟩
    rintro ws w1 ⟨hR, hI, hget⟩
    obtain ⟨hI2, hget2⟩ := h.lawful w1 ((c.get w1).setWords j ws) hI
    rw [hget] at hI2 hget2
    have hnext : Blank c n width I (c.set w1 ((c.get w).setWords j ws)) := by
      refine ⟨hI2, ?_, ?_⟩ <;> rw [hget2]
      · exact hw.fits.setWords hj (h.size j hj ws hR)
      · exact hw.valid
    have hset := Slot.gives_update c (·.setWords j ws) w1
    rw [hget] at hset
    refine hset.bind_ends ((ih (fun i hi => hjs i (List.mem_cons_of_mem j hi)) hnext).mono ?_
      fun e w' he => ⟨he.1, h.later j ws js e hR he.2⟩)
    rintro _ w' ⟨hblank, hwords⟩
    refine ⟨hblank, fun i hi => ?_⟩
    obtain ⟨hin, hout⟩ := hwords i hi
    by_cases hmem : i ∈ js
    · exact ⟨fun _ => hin hmem, fun hnot => absurd (List.mem_cons_of_mem j hmem) hnot⟩
    · rw [hout hmem, hget2, hw.fits.getD_setWords hj]
      by_cases hij : i = j
      · rw [if_pos hij, hij]
        exact ⟨fun _ => hR, fun hnot => absurd List.mem_cons_self hnot⟩
      · rw [if_neg hij]
        exact ⟨fun h => absurd h (by simp [hij, hmem]), fun _ => rfl⟩

theorem gives_ensure (load : Option (Int64 → Words → Act σ Words))
    (hvalid : (c.get w).valid = true) : (ensure c load).Gives w () w := by
  refine (Slot.gives_read c w).bind ?_
  simp only [hvalid]
  exact Act.gives_pure () w

theorem Loads.ensure (h : Loads c load n width I R F) (hw : Blank c n width I w) :
    (ensure c (some load)).Ends w
      (fun _ w' => I w' ∧ (c.get w').Fits n width ∧ (c.get w').valid = true ∧
        (c.get w').dirty = false ∧ ∀ i < n, R i ((c.get w').words.getD i #[]))
      fun e w' => Blank c n width I w' ∧ F (List.range n) e := by
  refine (Slot.gives_read c w).bind_ends ?_
  simp only [hw.valid, hw.fits.size]
  refine (h.slots (fun j hj => List.mem_range.mp hj) hw).bind ?_
  rintro _ w1 ⟨hblank, hwords⟩
  obtain ⟨hI, hget⟩ := h.lawful w1 { c.get w1 with valid := true, dirty := false } hblank.kept
  refine (Slot.gives_update c _ w1).ends ⟨hI, ?_⟩
  rw [hget]
  exact ⟨hblank.fits.flagged fun _ => rfl, rfl, rfl,
    fun i hi => (hwords i hi).1 (List.mem_range.mpr hi)⟩

end Loading

end LaneCache

namespace Packed

variable {σ : Type}

def cache (p : Packed) : Cached → LaneCache
  | .state => p.state
  | .input => p.input
  | .output => p.output

def withCache (p : Packed) (x : LaneCache) : Cached → Packed
  | .state => { p with state := x }
  | .input => { p with input := x }
  | .output => { p with output := x }

theorem cache_withCache (p : Packed) (x : LaneCache) (k l : Cached) :
    (p.withCache x k).cache l = if l = k then x else p.cache l := by
  cases k <;> cases l <;> rfl

def cacheSlot (p : Slot σ Packed) (k : Cached) : Slot σ LaneCache :=
  p.part (·.cache k) fun p x => p.withCache x k

/-- Caches that can be set without a change to what is seen of the rest of a world. -/
def Settable {β : Type} (p : Slot σ Packed) (Has : σ → Prop) (view : σ → β) : Prop :=
  ∀ w y, Has w → Has (p.set w y) ∧ p.get (p.set w y) = y ∧ view (p.set w y) = view w

structure Beside {β : Type} (p : Slot σ Packed) (Has : σ → Prop) (view : σ → β) (k : Cached)
    (w w' : σ) : Prop where
  has : Has w'
  seen : view w' = view w
  others : ∀ l, l ≠ k → (p.get w').cache l = (p.get w).cache l

theorem Settable.lawful {β : Type} {p : Slot σ Packed} {Has : σ → Prop} {view : σ → β}
    (h : Settable p Has view) (k : Cached) (w : σ) :
    (cacheSlot p k).Lawful (Beside p Has view k w) := by
  intro w1 x h1
  obtain ⟨hhas, hget, hview⟩ := h w1 ((p.get w1).withCache x k) h1.has
  have hcache : ∀ l, (p.get ((cacheSlot p k).set w1 x)).cache l =
      if l = k then x else (p.get w1).cache l := by
    intro l
    rw [← cache_withCache, ← hget]
    rfl
  exact ⟨⟨hhas, hview.trans h1.seen, fun l hl =>
    ((hcache l).trans (if_neg hl)).trans (h1.others l hl)⟩, (hcache k).trans (if_pos rfl)⟩

theorem Settable.update {β : Type} {p : Slot σ Packed} {Has : σ → Prop} {view : σ → β}
    (h : Settable p Has view) {w : σ} (hw : Has w) (k : Cached) (F : LaneCache → LaneCache) :
    ∃ w', ((cacheSlot p k).update F).Gives w () w' ∧ Beside p Has view k w w' ∧
      (p.get w').cache k = F ((p.get w).cache k) := by
  obtain ⟨hbeside, hget⟩ :=
    h.lawful k w w (F ((p.get w).cache k)) ⟨hw, rfl, fun _ _ => rfl⟩
  exact ⟨_, Slot.gives_update _ F w, hbeside, hget⟩

/-- What a cache and the wrapped instances hold of what is shown. The input cache has nothing to
load from, and the output cache is never written. -/
structure Mirrors (s : Shape) (f g : Fleet) (k : Cached) (x : LaneCache) : Prop extends
    x.Fits s.size.toInt.toNat (s.width k.part) where
  held : x.valid = true → ∀ j < s.size.toInt.toNat, x.words.getD j #[] = g k.part j
  clean : x.dirty = false → ∀ j < s.size.toInt.toNat, f k.part j = g k.part j
  input : k = .input → x.valid = true
  output : k = .output → x.dirty = false

/-- A world in which a packed simulator shows a fleet of wrapped instances, which hold another. -/
structure Backed (W : σ → Prop) (c : Slot σ Cpu) (p : Slot σ Packed) (a : Automaton) (s : Shape)
    (f g : Fleet) (w : σ) : Prop where
  world : W w
  holds : (c.get w).Holds a s f
  caches : ∀ k, Mirrors s f g k ((p.get w).cache k)
  inputMap : ∀ j < s.size.toInt.toNat, f .inputMap j = g .inputMap j
  outputMap : ∀ j < s.size.toInt.toNat, f .outputMap j = g .outputMap j

variable {W : σ → Prop} {c : Slot σ Cpu} {p : Slot σ Packed} {a : Automaton} {s : Shape}
  {f g : Fleet} {w : σ} {k : Cached} {x : LaneCache}

theorem Backed.beside {w' : σ} {g' : Fleet} (h : Backed W c p a s f g w)
    (hw : Beside p W c.get k w w') (hx : Mirrors s f g' k ((p.get w').cache k))
    (hg : ∀ q, q ≠ k.part → ∀ j < s.size.toInt.toNat, g' q j = g q j) :
    Backed W c p a s f g' w' := by
  refine ⟨hw.has, hw.seen.symm ▸ h.holds, fun l => ?_, fun j hj => ?_, fun j hj => ?_⟩
  · by_cases hl : l = k
    · exact hl ▸ hx
    · have hother := h.caches l
      have hpart : l.part ≠ k.part := fun heq => hl (Cached.part_injective heq)
      rw [hw.others l hl]
      exact { hother with
        held := fun hv j hj => (hother.held hv j hj).trans (hg _ hpart j hj).symm
        clean := fun hd j hj => (hother.clean hd j hj).trans (hg _ hpart j hj).symm }
  · rw [h.inputMap j hj, hg _ (by cases k <;> decide) j hj]
  · rw [h.outputMap j hj, hg _ (by cases k <;> decide) j hj]

theorem settable (hcp : c.Apart W p) : Settable p W c.get :=
  fun w y hw => ⟨(hcp.right w y hw).1, (hcp.right w y hw).2, hcp.leaves_left w y hw⟩

theorem Backed.update (hcp : c.Apart W p) (h : Backed W c p a s f g w) (F : LaneCache → LaneCache)
    {g' : Fleet} (hx : Mirrors s f g' k (F ((p.get w).cache k)))
    (hg : ∀ q, q ≠ k.part → ∀ j < s.size.toInt.toNat, g' q j = g q j) :
    ∃ w', ((cacheSlot p k).update F).Gives w () w' ∧ Backed W c p a s f g' w' ∧
      (p.get w').cache k = F ((p.get w).cache k) ∧
      ∀ l, l ≠ k → (p.get w').cache l = (p.get w).cache l := by
  obtain ⟨w', hset, hw', hget⟩ := (settable hcp).update h.world k F
  exact ⟨w', hset, h.beside hw' (hget.substr hx) hg, hget, hw'.others⟩

open HostBuffers (Accepts accepts_ofNat)

theorem Backed.size_shown (h : Backed W c p a s f g w) (k : Cached) {j : Nat}
    (hj : j < s.size.toInt.toNat) : (g k.part j).size = (s.width k.part).toInt.toNat := by
  have hx := h.caches k
  cases hdirty : ((p.get w).cache k).dirty with
  | false =>
    rw [← hx.clean hdirty j hj]
    exact h.holds.buffers.size_window hj k.part
  | true =>
    rw [← hx.held (hx.valid_of_dirty hdirty) j hj]
    exact hx.window j hj

def Reads (c : Slot σ Cpu) (a : Automaton) (s : Shape) (q : Part)
    (load : Int64 → Words → Act σ Words) : Prop :=
  ∀ w f i buf, (c.get w).Holds a s f → Accepts s (s.width q) i buf →
    (load i buf).Gives w (buf.overlay 0 (f q i.toInt.toNat)) w

/-- A cache that is made valid shows the same as before. -/
theorem gives_ensure (hcp : c.Apart W p) (load : Option (Int64 → Words → Act σ Words))
    (hload : ∀ l, load = some l → Reads c a s k.part l) (hnone : load = none → k = .input)
    (h : Backed W c p a s f g w) :
    ∃ w', (LaneCache.ensure (cacheSlot p k) load).Gives w () w' ∧ Backed W c p a s f g w' ∧
      ((p.get w').cache k).valid = true := by
  have hx := h.caches k
  cases hvalid : ((p.get w).cache k).valid with
  | true => exact ⟨w, LaneCache.gives_ensure load hvalid, h, hvalid⟩
  | false =>
    cases load with
    | none =>
      rw [hx.input (hnone rfl)] at hvalid
      cases hvalid
    | some l =>
      -- a cache that is not valid is not dirty, so the wrapped instances hold what is shown
      have hdirty := hx.dirty_eq_false hvalid
      have hloads : LaneCache.Loads (cacheSlot p k) l s.size.toInt.toNat (s.width k.part)
          (Beside p W c.get k w) (fun j ws => ws = g k.part j) fun _ _ => False := by
        refine ⟨(settable hcp).lawful k w, fun j hj ws hws => hws ▸ h.size_shown k hj,
          fun w1 h1 j hj buf hbuf => ?_, fun _ _ _ _ _ => id⟩
        obtain ⟨hacc, hid⟩ :=
          accepts_ofNat (h.holds.buffers.countable.width_nonneg k.part) hj hbuf
        have hread := hload l rfl w1 f _ _ (h1.seen.symm ▸ h.holds) hacc
        rw [hid, hx.clean hdirty j hj] at hread
        exact hread.ends ⟨Words.overlay_all (by rw [h.size_shown k hj, hbuf]), h1, rfl⟩
      rcases (hloads.ensure ⟨⟨h.world, rfl, fun _ _ => rfl⟩, hx.toFits, hvalid⟩).cases with
        ⟨_, w', hgives, hw', hfits, hvalid', hdirty', hwords⟩ | ⟨_, _, _, _, hfailed⟩
      · have hnext : Mirrors s f g k ((p.get w').cache k) := ⟨hfits, fun _ => hwords,
          fun _ => hx.clean hdirty, fun _ => hvalid', fun _ => hdirty'⟩
        exact ⟨w', hgives, h.beside hw' hnext fun _ _ _ _ => rfl, hvalid'⟩
      · exact hfailed.elim

theorem Backed.set_cpu (hcp : c.Apart W p) (h : Backed W c p a s f g w) {f' : Fleet} {y : Cpu}
    (hy : y.Holds a s f') (hf : ∀ q, ∀ j < s.size.toInt.toNat, f' q j = f q j ∨ f' q j = g q j) :
    Backed W c p a s f' g (c.set w y) ∧ p.get (c.set w y) = p.get w := by
  obtain ⟨hworld, hget⟩ := hcp.left w y h.world
  have hp := hcp.leaves_right w y h.world
  have hshown : ∀ q, ∀ j < s.size.toInt.toNat, f q j = g q j → f' q j = g q j := by
    intro q j hj heq
    rcases hf q j hj with hsame | hdone
    · exact hsame.trans heq
    · exact hdone
  refine ⟨⟨hworld, by rw [hget]; exact hy, fun l => ?_, fun j hj => ?_, fun j hj => ?_⟩, hp⟩
  · rw [hp]
    have hx := h.caches l
    exact { hx with clean := fun hd j hj => hshown _ j hj (hx.clean hd j hj) }
  · exact hshown _ j hj (h.inputMap j hj)
  · exact hshown _ j hj (h.outputMap j hj)

def Stores (c : Slot σ Cpu) (a : Automaton) (s : Shape) (q : Part)
    (store : Int64 → Words → Act σ Unit) : Prop :=
  ∀ w f i buf, (c.get w).Holds a s f → Accepts s (s.width q) i buf →
    ∃ y, (store i buf).Gives w () (c.set w y) ∧
      y.Holds a s (f.put q i.toInt.toNat (buf.extract 0 (s.width q).toInt.toNat))

theorem gives_storeSlots (hcp : c.Apart W p) {store : Int64 → Words → Act σ Unit}
    (hstore : Stores c a s k.part store) (js : List Nat) (hjs : ∀ j ∈ js, j < s.size.toInt.toNat)
    (h : Backed W c p a s f g w) (hvalid : ((p.get w).cache k).valid = true) :
    ∃ w' f', (LaneCache.storeSlots (cacheSlot p k) store js).Gives w () w' ∧
      Backed W c p a s f' g w' ∧ p.get w' = p.get w ∧
      ∀ j < s.size.toInt.toNat, j ∈ js ∨ f k.part j = g k.part j → f' k.part j = g k.part j := by
  induction js generalizing w f with
  | nil =>
    refine ⟨w, f, Act.gives_pure () w, h, rfl, fun j _ hj => ?_⟩
    rcases hj with hmem | heq
    · cases hmem
    · exact heq
  | cons j js ih =>
    have hx := h.caches k
    have hj := hjs j (by simp)
    have hsize := hx.window j hj
    obtain ⟨hacc, hid⟩ := accepts_ofNat (h.holds.buffers.countable.width_nonneg k.part) hj hsize
    obtain ⟨y, hgives, hy⟩ := hstore w f _ _ h.holds hacc
    -- what is stored is what is shown, so no instance is further from it than before
    rw [hid, Array.extract_eq_self_of_le (by omega), hx.held hvalid j hj] at hy
    obtain ⟨hback, hsame⟩ := h.set_cpu hcp hy fun q i _ => by
      unfold Fleet.put
      split
      · rename_i heq
        rw [heq.1, heq.2]
        exact Or.inr rfl
      · exact Or.inl rfl
    obtain ⟨w', f', hrest, hw', hsame', hdone⟩ :=
      ih (fun i hi => hjs i (by simp [hi])) hback (by rw [hsame]; exact hvalid)
    refine ⟨w', f', (Slot.gives_read _ w).bind (hgives.bind hrest), hw', hsame'.trans hsame,
      fun i hi hcase => hdone i hi ?_⟩
    by_cases hij : i = j
    · rw [hij, f.put_self]
      exact Or.inr rfl
    · rw [f.put_other fun _ => hij]
      rcases hcase with hmem | heq
      · exact Or.inl ((List.mem_cons.mp hmem).resolve_left hij)
      · exact Or.inr heq

/-- After a flush the wrapped instances hold what a cache shows. -/
theorem gives_flush (hcp : c.Apart W p) {store : Int64 → Words → Act σ Unit}
    (hstore : Stores c a s k.part store) (h : Backed W c p a s f g w) :
    ∃ w' f', (LaneCache.flush (cacheSlot p k) store).Gives w () w' ∧ Backed W c p a s f' g w' ∧
      ((p.get w').cache k).dirty = false ∧
      ∀ l, l ≠ k → (p.get w').cache l = (p.get w).cache l := by
  have hx := h.caches k
  cases hdirty : ((p.get w).cache k).dirty with
  | false =>
    refine ⟨w, f, (Slot.gives_read _ w).bind ?_, h, hdirty, fun _ _ => rfl⟩
    have hget : ((cacheSlot p k).get w).dirty = false := hdirty
    simp only [hget]
    exact Act.gives_pure () w
  | true =>
    obtain ⟨w1, f1, hslots, h1, hsame, hdone⟩ := gives_storeSlots hcp hstore
      (List.range ((p.get w).cache k).words.size)
      (fun j hj => by rw [← hx.size]; exact List.mem_range.mp hj) h (hx.valid_of_dirty hdirty)
    have hx1 := h1.caches k
    have hvalid1 : ((p.get w1).cache k).valid = true := hsame ▸ hx.valid_of_dirty hdirty
    have hnext : Mirrors s f1 g k { (p.get w1).cache k with dirty := false } := by
      refine ⟨hx1.flagged fun _ => hvalid1, hx1.held, fun _ j hj => hdone j hj (Or.inl ?_),
        hx1.input, fun _ => rfl⟩
      rw [hx.size]
      exact List.mem_range.mpr hj
    obtain ⟨w', hset, hw', hcache, hothers⟩ :=
      h1.update hcp (fun x => { x with dirty := false }) hnext fun _ _ _ _ => rfl
    refine ⟨w', f1, (Slot.gives_read _ w).bind ?_, hw', by rw [hcache], fun l hl => ?_⟩
    · have hget : ((cacheSlot p k).get w).dirty = true := hdirty
      simp only [hget]
      exact hslots.bind hset
    · rw [hothers l hl, hsame]

def logical (s : Shape) (bits : Nat) : Shape := { s with size := s.size * lanes bits }

def slotOf (bits : Nat) (i : Int64) : Nat := i.toInt.toNat * bits / 32

def shiftOf (bits : Nat) (i : Int64) : Nat := i.toInt.toNat * bits % 32

variable {bits : Nat} {i : Int64} {buf : Words}

theorem locate_ok (hi : (logical s bits).Valid i) :
    locate (logical s bits).size bits i = .ok (slotOf bits i, shiftOf bits i) := by
  have hlo : ¬i < 0 := Int64.not_lt.mpr hi.1
  have hhi : ¬(logical s bits).size ≤ i := Int64.not_le.mpr hi.2
  simp [locate, hlo, hhi, slotOf, shiftOf]

theorem locate_error (hi : ¬(logical s bits).Valid i) :
    ∃ e, locate (logical s bits).size bits i = .error e := by
  unfold locate
  split
  · exact ⟨_, rfl⟩
  · rename_i hcond
    simp only [Bool.or_eq_true, decide_eq_true_eq, not_or, Int64.not_lt, Int64.not_le] at hcond
    exact absurd hcond hi

/-- What reading and writing an instance begin with: it is looked for, a buffer is checked, and the
cache is made valid. -/
def opened (size : Int64) (bits : Nat) (c : Slot σ LaneCache)
    (load : Option (Int64 → Words → Act σ Words)) (what text : String) (i : Int64) (buf : Words) :
    Act σ (Nat × Nat) := do
  let place ← Act.ofExcept (locate size bits i)
  let width := (← c.read).width
  if buf.lacks width then throw (shortBuffer text buf.size width)
  Act.during ("bitwise: load " ++ what) (LaneCache.ensure c load)
  return place

theorem get_eq (size : Int64) (c : Slot σ LaneCache) (load : Int64 → Words → Act σ Words)
    (what : String) : get size bits c load what i buf = (do
      let place ← opened size bits c (some load) what ("bitwise: " ++ what ++ " buffer") i buf
      return buf.overlay 0 (extract bits place.2 ((← c.read).words.getD place.1 #[]))) := by
  simp only [Packed.get, opened, bind_assoc]
  refine bind_congr fun _ => bind_congr fun _ => ?_
  split <;> simp only [bind_assoc, pure_bind]

theorem set_eq (size : Int64) (c : Slot σ LaneCache)
    (load : Option (Int64 → Words → Act σ Words)) (what : String) :
    set size bits c load what i buf = (do
      let place ← opened size bits c load what ("bitwise: " ++ what) i buf
      c.update (LaneCache.written bits place.1 place.2 buf)) := by
  simp only [Packed.set, opened, bind_assoc]
  refine bind_congr fun _ => bind_congr fun _ => ?_
  split
  all_goals
    simp only [bind_assoc, pure_bind]
    rfl

theorem gives_opened (hcp : c.Apart W p) {load : Option (Int64 → Words → Act σ Words)}
    (hload : ∀ l, load = some l → Reads c a s k.part l) (hnone : load = none → k = .input)
    (what text : String) (hacc : Accepts (logical s bits) (s.width k.part) i buf)
    (h : Backed W c p a s f g w) :
    ∃ w', (opened (logical s bits).size bits (cacheSlot p k) load what text i buf).Gives w
        (slotOf bits i, shiftOf bits i) w' ∧
      Backed W c p a s f g w' ∧ ((p.get w').cache k).valid = true := by
  obtain ⟨w', hensure, hw'⟩ := gives_ensure hcp load hload hnone h
  refine ⟨w', (Act.gives_ofExcept (locate_ok hacc.1) w).bind ((Slot.gives_read _ w).bind ?_), hw'⟩
  have hwidth : ((cacheSlot p k).get w).width = s.width k.part := (h.caches k).width_eq
  simp only [hwidth, hacc.2]
  exact hensure.during.bind (Act.gives_pure _ _)

theorem gives_get (hcp : c.Apart W p) {load : Int64 → Words → Act σ Words}
    (hload : Reads c a s k.part load) (what : String)
    (hacc : Accepts (logical s bits) (s.width k.part) i buf)
    (hslot : slotOf bits i < s.size.toInt.toNat) (h : Backed W c p a s f g w) :
    ∃ w', (get (logical s bits).size bits (cacheSlot p k) load what i buf).Gives w
        (buf.overlay 0 (extract bits (shiftOf bits i) (g k.part (slotOf bits i)))) w' ∧
      Backed W c p a s f g w' := by
  have hloads : ∀ l, some load = some l → Reads c a s k.part l :=
    fun l hl => Option.some.inj hl ▸ hload
  obtain ⟨w', hopened, hw', hvalid⟩ :=
    gives_opened hcp hloads nofun what ("bitwise: " ++ what ++ " buffer") hacc h
  rw [get_eq, ← (hw'.caches k).held hvalid _ hslot]
  exact ⟨w', hopened.bind ((Slot.gives_read _ w').bind (Act.gives_pure _ _)), hw'⟩

theorem gives_set (hcp : c.Apart W p) {load : Option (Int64 → Words → Act σ Words)}
    (hload : ∀ l, load = some l → Reads c a s k.part l) (hnone : load = none → k = .input)
    (hk : k ≠ .output) (what : String) (hacc : Accepts (logical s bits) (s.width k.part) i buf)
    (hslot : slotOf bits i < s.size.toInt.toNat) (h : Backed W c p a s f g w) :
    ∃ w', (set (logical s bits).size bits (cacheSlot p k) load what i buf).Gives w () w' ∧
      Backed W c p a s f (g.put k.part (slotOf bits i)
        (insert bits (shiftOf bits i) (g k.part (slotOf bits i)) buf)) w' := by
  obtain ⟨w1, hopened, h1, hvalid⟩ := gives_opened hcp hload hnone what ("bitwise: " ++ what) hacc h
  have hx := h1.caches k
  have hheld := hx.held hvalid
  have hnext : Mirrors s f (g.put k.part (slotOf bits i)
        (insert bits (shiftOf bits i) (g k.part (slotOf bits i)) buf)) k
      (((p.get w1).cache k).written bits (slotOf bits i) (shiftOf bits i) buf) := by
    refine ⟨hx.toFits.written hvalid _ _ _ _, fun _ j hj => ?_, fun hd => (by cases hd),
      fun _ => hvalid, fun hout => absurd hout hk⟩
    rw [hx.getD_written hslot, hheld _ hslot]
    by_cases hj' : j = slotOf bits i
    · rw [if_pos hj', hj', g.put_self]
    · rw [if_neg hj', g.put_other fun _ => hj', hheld j hj]
  obtain ⟨w', hset, hw', -⟩ := h1.update hcp (LaneCache.written bits _ _ buf) hnext
    fun q hq j _ => g.put_other (fun heq => absurd heq hq) _
  rw [set_eq]
  exact ⟨w', hopened.bind hset, hw'⟩

theorem stops_located {α : Type} {width : Int64} {rest : Nat × Nat → Act σ α}
    (hbad : ¬Accepts (logical s bits) width i buf)
    (hrest : (logical s bits).Valid i → buf.lacks width = true →
      (rest (slotOf bits i, shiftOf bits i)).Stops w w) :
    (Act.ofExcept (locate (logical s bits).size bits i) >>= rest).Stops w w := by
  by_cases hi : (logical s bits).Valid i
  · refine (Act.gives_ofExcept (locate_ok hi) w).bind_stops (hrest hi ?_)
    cases hl : buf.lacks width with
    | true => rfl
    | false => exact absurd ⟨hi, hl⟩ hbad
  · obtain ⟨e, he⟩ := locate_error hi
    exact (Act.stops_ofExcept he w).bind

theorem stops_opened {c : Slot σ LaneCache} {width : Int64} (hwidth : (c.get w).width = width)
    (hbad : ¬Accepts (logical s bits) width i buf) (load : Option (Int64 → Words → Act σ Words))
    (what text : String) :
    (opened (logical s bits).size bits c load what text i buf).Stops w w := by
  refine stops_located hbad fun _ hlacks => (Slot.gives_read _ w).bind_stops ?_
  simp only [hwidth, hlacks]
  exact (Act.stops_throw _ w).bind

theorem gives_setMap (hcp : c.Apart W p) {q : Part} (hq : ∀ k : Cached, k.part ≠ q)
    {call : Int64 → Words → Act σ Unit} {v : Words}
    (hcall : ∀ j, Accepts s (s.width q) j buf →
      ∃ y, (call j buf).Gives w () (c.set w y) ∧ y.Holds a s (f.put q j.toInt.toNat v))
    (hacc : Accepts (logical s bits) (s.width q) i buf)
    (hslot : slotOf bits i < s.size.toInt.toNat) (h : Backed W c p a s f g w) :
    ∃ w', (do
        let (slot, _) ← Act.ofExcept (locate (logical s bits).size bits i)
        call (Int64.ofNat slot) buf).Gives w () w' ∧
      Backed W c p a s (f.put q (slotOf bits i) v) (g.put q (slotOf bits i) v) w' := by
  obtain ⟨hvalid, hid⟩ := Shape.valid_ofNat hslot
  obtain ⟨y, hgives, hy⟩ := hcall _ ⟨hvalid, hacc.2⟩
  rw [hid] at hy
  refine ⟨c.set w y, (Act.gives_ofExcept (locate_ok hacc.1) w).bind hgives, ?_⟩
  obtain ⟨hworld, hget⟩ := hcp.left w y h.world
  have hput : ∀ q', ∀ j < s.size.toInt.toNat, f q' j = g q' j →
      f.put q (slotOf bits i) v q' j = g.put q (slotOf bits i) v q' j := by
    intro q' j _ heq
    simp only [Fleet.put, heq]
  have hsame : ∀ k : Cached, ∀ j, g.put q (slotOf bits i) v k.part j = g k.part j :=
    fun k j => g.put_other (fun heq => absurd heq (hq k)) v
  refine ⟨hworld, by rw [hget]; exact hy, fun k => ?_, fun j hj => ?_, fun j hj => ?_⟩
  · rw [hcp.leaves_right w y h.world]
    have hx := h.caches k
    exact { hx with
      held := fun hv j hj => (hx.held hv j hj).trans (hsame k j).symm
      clean := fun hd j hj => hput _ j hj (hx.clean hd j hj) }
  · exact hput _ j hj (h.inputMap j hj)
  · exact hput _ j hj (h.outputMap j hj)

theorem gives_flushes (hcp : c.Apart W p) {setState setInput : Int64 → Words → Act σ Unit}
    (hstate : Stores c a s .state setState) (hinput : Stores c a s .input setInput)
    (h : Backed W c p a s f g w) :
    ∃ w', (do
        LaneCache.flush (stateSlot p) setState
        LaneCache.flush (inputSlot p) setInput).Gives w () w' ∧
      Backed W c p a s g g w' ∧ ∀ k, ((p.get w').cache k).dirty = false := by
  obtain ⟨w1, f1, hflush1, h1, hclean1, -⟩ := gives_flush (k := .state) hcp hstate h
  obtain ⟨w2, f2, hflush2, h2, hclean2, hsame⟩ := gives_flush (k := .input) hcp hinput h1
  have hclean : ∀ k, ((p.get w2).cache k).dirty = false := by
    intro k
    cases k with
    | state => rw [hsame .state (by decide), hclean1]
    | input => exact hclean2
    | output => exact (h2.caches .output).output rfl
  have hall : ∀ q, ∀ j < s.size.toInt.toNat, f2 q j = g q j := by
    intro q
    cases q with
    | state => exact (h2.caches .state).clean (hclean .state)
    | input => exact (h2.caches .input).clean (hclean .input)
    | inputMap => exact h2.inputMap
    | outputMap => exact h2.outputMap
    | output => exact (h2.caches .output).clean (hclean .output)
  refine ⟨w2, hflush1.bind hflush2, ⟨h2.world, ?_, fun k => ?_, fun _ _ => rfl, fun _ _ => rfl⟩,
    hclean⟩
  · exact ⟨h2.holds.automaton, h2.holds.opened, h2.holds.workers, h2.holds.buffers.congr hall⟩
  · exact { h2.caches k with clean := fun _ _ _ => rfl }

variable {init : Cpu} {journal : Slot σ Journal}

theorem stores_state : Stores c a s .state (Cpu.simulator init c journal).setState :=
  fun _ _ _ _ h hacc => Cpu.gives_write (p := .state) h hacc _

theorem stores_input : Stores c a s .input (Cpu.simulator init c journal).setInput :=
  fun _ _ _ _ h hacc => Cpu.gives_write (p := .input) h hacc _

theorem reads_state : Reads c a s .state (Cpu.simulator init c journal).state :=
  fun _ _ _ _ h hacc => Cpu.gives_readPart (p := .state) h hacc _

theorem reads_output : Reads c a s .output (Cpu.simulator init c journal).output :=
  fun _ _ _ _ h hacc => Cpu.gives_readPart (p := .output) h hacc _

theorem gives_update {d : Descriptor} {wiring : Wiring} {cs : List Program.Compiled}
    (hb : a.Built d wiring cs) (hcp : c.Apart W p) (h : Backed W c p a s f g w)
    (hunits : a.runnable ∧ 0 < s.stateSize) :
    ∃ w' f', (update (Cpu.simulator init c journal) p false).Gives w () w' ∧
      Backed W c p a s f' (fun q j => q.of (Cpu.advanced a.plan (g.instanceAt j))) w' := by
  let g' : Fleet := fun q j => q.of (Cpu.advanced a.plan (g.instanceAt j))
  obtain ⟨w1, hflush, h1, -⟩ := gives_flushes hcp stores_state stores_input h
  obtain ⟨y, hupdate, hy⟩ : ∃ y, ((Cpu.simulator init c journal).update false).Gives w1 ()
      (c.set w1 y) ∧ y.Holds a s g' := Cpu.gives_update hb h1.holds hunits
  obtain ⟨hworld, hget⟩ := hcp.left w1 y h1.world
  have hp := hcp.leaves_right w1 y h1.world
  refine ⟨_, g', hflush.during.bind (hupdate.bind (Slot.gives_update p _ _)), ?_⟩
  obtain ⟨hworld', hget'⟩ := hcp.right (c.set w1 y) { p.get (c.set w1 y) with
    state := (p.get (c.set w1 y)).state.invalidate
    output := (p.get (c.set w1 y)).output.invalidate } hworld
  refine ⟨hworld', ?_, fun k => ?_, fun _ _ => rfl, fun _ _ => rfl⟩
  · rw [hcp.leaves_left _ _ hworld, hget]
    exact hy
  · have hx := h1.caches k
    rw [hget', hp]
    -- only the input is as it was before the update, and only its cache stays valid
    cases k with
    | input => exact { hx with clean := fun _ _ _ => rfl }
    | state | output =>
      exact ⟨hx.flagged fun hd => (by cases hd), fun hv => (by cases hv), fun _ _ _ => rfl,
        fun hk => (by cases hk), fun _ => rfl⟩

theorem stops_update (hcp : c.Apart W p) (h : Backed W c p a s f g w)
    (hbad : ¬(a.runnable ∧ 0 < s.stateSize)) :
    ∃ w' f', (update (Cpu.simulator init c journal) p false).Stops w w' ∧
      Backed W c p a s f' g w' := by
  obtain ⟨w1, hflush, h1, -⟩ := gives_flushes hcp stores_state stores_input h
  exact ⟨w1, g, hflush.during.bind_stops (Cpu.stops_update h1.holds hbad).bind, h1⟩

end Packed

end TiledAutomata
