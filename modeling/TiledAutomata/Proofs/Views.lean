import TiledAutomata.Proofs.Pending

/-!
# Worlds that a packed simulator does not tell apart

What a packed simulator does depends on the wrapped simulator and on its caches. The words
of a cache that is not valid do not matter where they are loaded before they are used. They
do matter for the inputs, which are never loaded: a write to an instance makes the words of
all others valid as they are.
-/

namespace TiledAutomata

open Access List Slot

namespace Act

variable {σ α β : Type} {w u w1 u1 : σ} {x y : Act σ α} {f g : α → Act σ β}

/-- Operations from two worlds end in the same way. One condition is stated for the worlds after
they have succeeded with a value and one for those after they have failed. -/
def Pairs (x y : Act σ α) (w u : σ) (Q : α → σ → σ → Prop) (E : σ → σ → Prop) : Prop :=
  (x.outcome w).1 = (y.outcome u).1 ∧
    match (x.outcome w).1 with
    | .ok a => Q a (x.outcome w).2 (y.outcome u).2
    | .error _ => E (x.outcome w).2 (y.outcome u).2

section Pairs

variable {P : α → σ → σ → Prop} {E : σ → σ → Prop}

theorem pairs_pure {a : α} (h : P a w u) : Pairs (pure a) (pure a) w u P E := ⟨rfl, h⟩

theorem pairs_throw {e : Error} (h : E w u) : Pairs (throw e : Act σ α) (throw e) w u P E :=
  ⟨rfl, h⟩

theorem Gives.pairs {a : α} (hx : x.Gives w a w1) (hy : y.Gives u a u1) (h : P a w1 u1) :
    x.Pairs y w u P E := by
  unfold Pairs
  rw [hx, hy]
  exact ⟨rfl, h⟩

theorem Gives.bind_pairs {Q : β → σ → σ → Prop} {a b : α} (hx : x.Gives w a w1)
    (hy : y.Gives u b u1) (h : (f a).Pairs (g b) w1 u1 Q E) :
    (x >>= f).Pairs (y >>= g) w u Q E := by
  unfold Pairs at *
  rwa [hx.bind_outcome, hy.bind_outcome]

theorem Pairs.cases (h : x.Pairs y w u P E) :
    (∃ a w' u', x.Gives w a w' ∧ y.Gives u a u' ∧ P a w' u') ∨
      ∃ e w' u', x.outcome w = (.error e, w') ∧ y.outcome u = (.error e, u') ∧ E w' u' := by
  unfold Pairs at h
  rcases hx : x.outcome w with ⟨r, w'⟩
  rcases hy : y.outcome u with ⟨r', u'⟩
  rw [hx, hy] at h
  obtain ⟨rfl, h⟩ := h
  cases r with
  | ok a => exact Or.inl ⟨a, w', u', hx, hy, h⟩
  | error e => exact Or.inr ⟨e, w', u', rfl, rfl, h⟩

theorem Pairs.bind {Q : β → σ → σ → Prop} (h : x.Pairs y w u P E)
    (hf : ∀ a w' u', P a w' u' → (f a).Pairs (g a) w' u' Q E) :
    (x >>= f).Pairs (y >>= g) w u Q E := by
  rcases h.cases with ⟨a, w', u', hx, hy, h⟩ | ⟨e, w', u', hx, hy, h⟩
  · exact hx.bind_pairs hy (hf a w' u' h)
  · unfold Pairs
    rw [outcome_bind_error hx, outcome_bind_error hy]
    exact ⟨rfl, h⟩

theorem Pairs.mono {Q : α → σ → σ → Prop} {E' : σ → σ → Prop} (h : x.Pairs y w u P E')
    (hQ : ∀ a w' u', P a w' u' → Q a w' u') (hE : ∀ w' u', E' w' u' → E w' u') :
    x.Pairs y w u Q E := by
  rcases h.cases with ⟨a, w', u', hx, hy, h⟩ | ⟨e, w', u', hx, hy, h⟩
  · exact hx.pairs hy (hQ a w' u' h)
  · unfold Pairs
    rw [hx, hy]
    exact ⟨rfl, hE w' u' h⟩

theorem Pairs.during {context : String} (h : x.Pairs y w u P E) :
    (Act.during context x).Pairs (Act.during context y) w u P E := by
  unfold Pairs outcome at *
  rw [Act.during, Act.during, ExceptT.run_adapt, ExceptT.run_adapt, StateT.run_map, StateT.run_map]
  rcases hx : StateT.run x.run w with ⟨r, w'⟩
  rcases hy : StateT.run y.run u with ⟨r', u'⟩
  rw [hx, hy] at h
  obtain ⟨rfl, h⟩ := h
  cases r <;> exact ⟨rfl, h⟩

end Pairs

def Twins (I : σ → σ → Prop) (x : Act σ α) : Prop := ∀ w u, I w u → x.Pairs x w u (fun _ => I) I

theorem twins_composes (I : σ → σ → Prop) : Composes fun _ => Twins I :=
  ⟨fun _ _ _ h => pairs_pure h, fun _ _ _ h => pairs_throw h,
    fun hx hf w u h => (hx w u h).bind fun a => hf a⟩

end Act

/-- Caches that do the same where invalid ones are loaded before they are used. -/
structure LaneCache.Like (x y : LaneCache) : Prop where
  valid : x.valid = y.valid
  dirty : x.dirty = y.dirty
  words : x.valid = true → x.words = y.words

theorem LaneCache.Like.symm {x y : LaneCache} (h : x.Like y) : y.Like x :=
  ⟨h.valid.symm, h.dirty.symm, fun hv => (h.words (h.valid ▸ hv)).symm⟩

theorem LaneCache.like_of_invalid {x y : LaneCache} {n n' : Nat} {width width' : Int64}
    (hx : x.Fits n width) (hy : y.Fits n' width') (hvalid : x.valid = false)
    (hvalid' : y.valid = false) : x.Like y :=
  ⟨hvalid.trans hvalid'.symm, (hx.dirty_eq_false hvalid).trans (hy.dirty_eq_false hvalid').symm,
    fun hv => by rw [hvalid] at hv; cases hv⟩

theorem LaneCache.Like.words_written {x y : LaneCache} (h : x.Like y) (hvalid : x.valid = true)
    (bits slot shift : Nat) (buf : Words) :
    (x.written bits slot shift buf).words = (y.written bits slot shift buf).words := by
  simp only [written, setWords, h.words hvalid]

theorem LaneCache.Fits.words_eq {x y : LaneCache} {n : Nat} {width : Int64} (hx : x.Fits n width)
    (hy : y.Fits n width) (h : ∀ j < n, x.words.getD j #[] = y.words.getD j #[]) :
    x.words = y.words := by
  refine Array.ext (hx.size.trans hy.size.symm) fun j hj hj' => ?_
  have hsame := h j (hx.size ▸ hj)
  simpa [Array.getD_eq_getD_getElem?, hj, hj'] using hsame

/-- A simulator in a world that also holds the caches of a packed simulator over it. -/
structure Viewed (σ β : Type) where
  sim : Simulator σ
  pack : Slot σ Packed
  /-- The worlds that have both. -/
  Has : σ → Prop
  /-- What the simulator holds. -/
  view : σ → β
  /-- What is loaded for an instance. -/
  held : Cached → β → Nat → Except Error Words

namespace Viewed

section Contract

variable {σ β : Type} (K : Viewed σ β)

def count : Nat := K.sim.size.toInt.toNat

def width (k : Cached) : Int64 := K.sim.shape.width k.part

def load : Cached → Option (Int64 → Words → Act σ Words)
  | .state => some K.sim.state
  | .input => none
  | .output => some K.sim.output

/-- Worlds in which the simulator holds the same, with the caches of two worlds before. -/
def Onward (w u w' u' : σ) : Prop :=
  (K.Has w' ∧ K.pack.get w' = K.pack.get w) ∧ (K.Has u' ∧ K.pack.get u' = K.pack.get u) ∧
    K.view w' = K.view u'

/-- An operation that depends on what the simulator holds, and leaves the caches alone. -/
def Sees {α : Type} (x : Act σ α) : Prop :=
  ∀ w u, K.Has w → K.Has u → K.view w = K.view u →
    x.Pairs x w u (fun _ => K.Onward w u) (K.Onward w u)

/-- What is asked of a simulator to be wrapped. Its operations depend on what it holds, and loading
leaves that as it is. Any of them may fail. -/
structure Lawful : Prop where
  set_pack : ∀ w y, K.Has w → K.Has (K.pack.set w y) ∧ K.pack.get (K.pack.set w y) = y ∧
    K.view (K.pack.set w y) = K.view w
  size_held : ∀ w, K.Has w → ∀ k, ∀ j < K.count, ∀ ws, K.held k (K.view w) j = .ok ws →
    ws.size = (K.width k).toInt.toNat
  loads : ∀ k l, K.load k = some l → ∀ w, K.Has w → ∀ j < K.count, ∀ buf : Words,
    buf.size = (K.width k).toInt.toNat →
      ∃ w', (l (Int64.ofNat j) buf).outcome w = (K.held k (K.view w) j, w') ∧ K.Has w' ∧
        K.pack.get w' = K.pack.get w ∧ K.view w' = K.view w
  setState : ∀ i buf, K.Sees (K.sim.setState i buf)
  setInput : ∀ i buf, K.Sees (K.sim.setInput i buf)
  setInputMap : ∀ i m, K.Sees (K.sim.setInputMap i m)
  setOutputMap : ∀ i m, K.Sees (K.sim.setOutputMap i m)
  update : ∀ cancelled, K.Sees (K.sim.update cancelled)

def cache (w : σ) (k : Cached) : LaneCache := (K.pack.get w).cache k

structure Sound (w : σ) : Prop where
  has : K.Has w
  fits : ∀ k, (K.cache w k).Fits K.count (K.width k)

structure Near (k : Cached) (w w' : σ) : Prop where
  sound : K.Sound w'
  view : K.view w' = K.view w
  others : ∀ l, l ≠ k → K.cache w' l = K.cache w l

/-- Worlds in which the wrapped simulator holds the same. Some caches are alike, and the inputs that
are cached may be the same even if they are not valid. -/
structure Matches (S : Cached → Prop) (inputs : Prop) (w u : σ) : Prop where
  left : K.Sound w
  right : K.Sound u
  view : K.view w = K.view u
  like : ∀ k, S k → (K.cache w k).Like (K.cache u k)
  input : inputs → (K.cache w .input).words = (K.cache u .input).words

end Contract

open Packed (cacheSlot)

variable {σ β : Type} {K : Viewed σ β} {S : Cached → Prop} {inputs : Prop} {k : Cached}
  {w u w' u' : σ} {l : Int64 → Words → Act σ Words}

theorem Sound.near (h : K.Sound w) (k : Cached) : K.Near k w w := ⟨h, rfl, fun _ _ => rfl⟩

theorem Near.trans {w'' : σ} (h : K.Near k w w') (h' : K.Near k w' w'') : K.Near k w w'' :=
  ⟨h'.sound, h'.view.trans h.view, fun l hl => (h'.others l hl).trans (h.others l hl)⟩

section Matches

theorem Sound.matched (h : K.Sound w) : K.Matches S inputs w w :=
  ⟨h, h, rfl, fun _ _ => ⟨rfl, rfl, fun _ => rfl⟩, fun _ => rfl⟩

section

variable (h : K.Matches S inputs w u)

include h

theorem Matches.symm : K.Matches S inputs u w :=
  ⟨h.right, h.left, h.view.symm, fun k hk => (h.like k hk).symm, fun hin => (h.input hin).symm⟩

theorem Matches.moved (hw : K.Near k w w') (hu : K.Near k u u')
    (hlike : S k → (K.cache w' k).Like (K.cache u' k))
    (hinput : inputs → k = .input → (K.cache w' k).words = (K.cache u' k).words) :
    K.Matches S inputs w' u' := by
  refine ⟨hw.sound, hu.sound, hw.view.trans (h.view.trans hu.view.symm), fun l hl => ?_,
    fun hin => ?_⟩
  · by_cases hlk : l = k
    · exact hlk ▸ hlike (hlk ▸ hl)
    · rw [hw.others l hlk, hu.others l hlk]
      exact h.like l hl
  · by_cases hk : k = .input
    · exact hk ▸ hinput hin hk
    · rw [hw.others _ (Ne.symm hk), hu.others _ (Ne.symm hk)]
      exact h.input hin

theorem Matches.near (hk : ¬S k) (hinput : inputs → k ≠ .input) (hw : K.Near k w w') :
    K.Matches S inputs w' u :=
  h.moved hw (h.right.near k) (fun hS => absurd hS hk) fun hin heq => absurd heq (hinput hin)

theorem Matches.onward (hnext : K.Onward w u w' u') : K.Matches S inputs w' u' := by
  obtain ⟨⟨hw, hpack⟩, ⟨hu, hpack'⟩, hview⟩ := hnext
  have hcache : K.cache w' = K.cache w := by
    unfold cache
    rw [hpack]
  have hcache' : K.cache u' = K.cache u := by
    unfold cache
    rw [hpack']
  exact ⟨⟨hw, hcache ▸ h.left.fits⟩, ⟨hu, hcache' ▸ h.right.fits⟩, hview,
    hcache ▸ hcache' ▸ h.like, hcache ▸ hcache' ▸ h.input⟩

end

theorem Sees.twins {α : Type} {x : Act σ α} (hx : K.Sees x) :
    Act.Twins (K.Matches S inputs) x :=
  fun w u h => (hx w u h.left.has h.right.has h.view).mono (fun _ _ _ => h.onward)
    fun _ _ => h.onward

end Matches

section Caches

theorem Sound.beside (hw : K.Sound w) (h : Packed.Beside K.pack K.Has K.view k w w')
    (hfits : (K.cache w' k).Fits K.count (K.width k)) : K.Near k w w' := by
  refine ⟨⟨h.has, fun l => ?_⟩, h.seen, h.others⟩
  by_cases hl : l = k
  · exact hl ▸ hfits
  · rw [cache, h.others l hl]
    exact hw.fits l

theorem gives_change (hK : K.Lawful) (hw : K.Sound w) (f : LaneCache → LaneCache)
    (hf : (f (K.cache w k)).Fits K.count (K.width k)) :
    ∃ w', ((cacheSlot K.pack k).update f).Gives w () w' ∧ K.Near k w w' ∧
      K.cache w' k = f (K.cache w k) := by
  obtain ⟨w', hset, hw', hget⟩ := Packed.Settable.update hK.set_pack hw.has k f
  have hcache : K.cache w' k = f (K.cache w k) := hget
  exact ⟨w', hset, hw.beside hw' (hcache.symm ▸ hf), hcache⟩

def loaded (K : Viewed σ β) (k : Cached) (v : β) : List Nat → Except Error Unit
  | [] => .ok ()
  | j :: js => do
    let _ ← K.held k v j
    K.loaded k v js

theorem loaded_ok {b : β} {js : List Nat} (h : ∀ j ∈ js, ∃ ws, K.held k b j = .ok ws) :
    K.loaded k b js = .ok () := by
  induction js with
  | nil => rfl
  | cons j js ih =>
    obtain ⟨ws, hws⟩ := h j mem_cons_self
    rw [loaded, hws]
    exact ih fun i hi => h i (mem_cons_of_mem j hi)

theorem loads_held (hK : K.Lawful) (hl : K.load k = some l) (hw : K.Has w) :
    LaneCache.Loads (cacheSlot K.pack k) l K.count (K.width k)
      (Packed.Beside K.pack K.Has K.view k w) (fun j ws => K.held k (K.view w) j = .ok ws)
      fun js e => K.loaded k (K.view w) js = .error e := by
  refine ⟨Packed.Settable.lawful hK.set_pack k w, hK.size_held w hw k,
    fun w1 h1 j hj buf hbuf => ?_, fun j ws js e hws he => ?_⟩
  · obtain ⟨w2, hload, hhas, hpack, hview⟩ := hK.loads k l hl w1 h1.has j hj buf hbuf
    have hnext : Packed.Beside K.pack K.Has K.view k w w2 ∧
        (cacheSlot K.pack k).get w2 = (cacheSlot K.pack k).get w1 :=
      ⟨⟨hhas, hview.trans h1.seen, hpack ▸ h1.others⟩, congrArg (·.cache k) hpack⟩
    unfold Act.Ends
    rw [hload, h1.seen]
    cases hheld : K.held k (K.view w) j with
    | ok ws => exact ⟨rfl, hnext⟩
    | error e => exact ⟨fun js => by rw [loaded, hheld]; rfl, hnext⟩
  · rw [loaded, hws]
    exact he

theorem gives_ensure_none (hK : K.Lawful) (hw : K.Sound w) (hvalid : (K.cache w k).valid = false) :
    ∃ w', (LaneCache.ensure (cacheSlot K.pack k) none).Gives w () w' ∧ K.Near k w w' ∧
      K.cache w' k = { K.cache w k with valid := true, dirty := false } := by
  obtain ⟨w', hset, hw'⟩ := gives_change hK hw
    (fun x => { x with valid := true, dirty := false }) ((hw.fits k).flagged fun _ => rfl)
  refine ⟨w', (gives_read _ w).bind ?_, hw'⟩
  have hget : ((cacheSlot K.pack k).get w).valid = false := hvalid
  simp only [hget]
  exact hset

theorem ends_ensure (hK : K.Lawful) (hl : K.load k = some l) (hw : K.Sound w)
    (hvalid : (K.cache w k).valid = false) :
    (LaneCache.ensure (cacheSlot K.pack k) (some l)).Ends w
      (fun _ w' => K.Near k w w' ∧ (K.cache w' k).valid = true ∧ (K.cache w' k).dirty = false ∧
        ∀ i < K.count, K.held k (K.view w) i = .ok ((K.cache w' k).words.getD i #[]))
      fun e w' => K.Near k w w' ∧ (K.cache w' k).valid = false ∧
        K.loaded k (K.view w) (range K.count) = .error e :=
  ((loads_held hK hl hw.has).ensure ⟨⟨hw.has, rfl, fun _ _ => rfl⟩, hw.fits k, hvalid⟩).mono
    (fun _ _ h => ⟨hw.beside h.1 h.2.1, h.2.2⟩)
    fun _ _ h => ⟨hw.beside h.1.kept h.1.fits, h.1.valid, h.2⟩

theorem Sound.ensure (hK : K.Lawful) (hw : K.Sound w) :
    (LaneCache.ensure (cacheSlot K.pack k) (K.load k)).Ends w
      (fun _ w' => K.Near k w w' ∧ (K.cache w' k).valid = true) fun _ => K.Near k w := by
  cases hvalid : (K.cache w k).valid with
  | true => exact (LaneCache.gives_ensure _ hvalid).ends ⟨hw.near k, hvalid⟩
  | false =>
    cases hl : K.load k with
    | none =>
      obtain ⟨w', hgives, hw', hget⟩ := gives_ensure_none hK hw hvalid
      exact hgives.ends ⟨hw', by rw [hget]⟩
    | some l =>
      exact (ends_ensure hK hl hw hvalid).mono (fun _ _ h => ⟨h.1, h.2.1⟩) fun _ _ h => h.1

theorem load_eq_none : K.load k = none ↔ k = .input := by
  cases k <;> simp [load]

/-- Caches that are made valid in both worlds are alike. Inputs are the same only if they were the
same before. -/
theorem Matches.ensure (hK : K.Lawful) (h : K.Matches S inputs w u) (hk : S k)
    (hin : k = .input → inputs) :
    (LaneCache.ensure (cacheSlot K.pack k) (K.load k)).Pairs
      (LaneCache.ensure (cacheSlot K.pack k) (K.load k)) w u
      (fun _ w' u' => K.Matches S inputs w' u' ∧ (K.cache w' k).valid = true)
      (K.Matches S inputs) := by
  have hlike := h.like k hk
  cases hvalid : (K.cache w k).valid with
  | true =>
    exact (LaneCache.gives_ensure _ hvalid).pairs
      (LaneCache.gives_ensure _ (hlike.valid ▸ hvalid)) ⟨h, hvalid⟩
  | false =>
    have hvalid' : (K.cache u k).valid = false := hlike.valid ▸ hvalid
    cases hl : K.load k with
    | none =>
      obtain rfl := load_eq_none.mp hl
      obtain ⟨w', hgives, hw', hget⟩ := gives_ensure_none hK h.left hvalid
      obtain ⟨u', hgives', hu', hget'⟩ := gives_ensure_none hK h.right hvalid'
      have hwords : (K.cache w' .input).words = (K.cache u' .input).words := by
        rw [hget, hget']
        exact h.input (hin rfl)
      refine hgives.pairs hgives' ⟨h.moved hw' hu' (fun _ => ⟨?_, ?_, fun _ => hwords⟩)
        fun _ _ => hwords, by rw [hget]⟩
      · rw [hget, hget']
      · rw [hget, hget']
    | some l =>
      have hne : k ≠ .input := fun hk => by rw [load_eq_none.mpr hk] at hl; cases hl
      have hloaded : ∀ {x : σ}, (∀ i < K.count, K.held k (K.view w) i =
          .ok ((K.cache x k).words.getD i #[])) →
          K.loaded k (K.view w) (range K.count) = .ok () :=
        fun hx => loaded_ok fun i hi => ⟨_, hx i (mem_range.mp hi)⟩
      have hright := ends_ensure hK hl h.right hvalid'
      rw [← h.view] at hright
      rcases (ends_ensure hK hl h.left hvalid).cases with
        ⟨_, w', hout, hw', hv, hclean, hheld⟩ | ⟨e, w', hout, hw', hv, he⟩ <;>
      rcases hright.cases with
        ⟨_, u', hout', hu', hv', hclean', hheld'⟩ | ⟨e', u', hout', hu', hv', he'⟩
      · have hwords : (K.cache w' k).words = (K.cache u' k).words :=
          (hw'.sound.fits k).words_eq (hu'.sound.fits k) fun i hi =>
            Except.ok.inj ((hheld i hi).symm.trans (hheld' i hi))
        exact hout.pairs hout' ⟨h.moved hw' hu' (fun _ => ⟨hv.trans hv'.symm,
          hclean.trans hclean'.symm, fun _ => hwords⟩) fun _ hk => absurd hk hne, hv⟩
      · cases (hloaded hheld).symm.trans he'
      · cases (hloaded hheld').symm.trans he
      · cases he.symm.trans he'
        unfold Act.Pairs
        rw [hout, hout']
        exact ⟨rfl, h.moved hw' hu' (fun _ => LaneCache.like_of_invalid (hw'.sound.fits k)
          (hu'.sound.fits k) hv hv') fun _ hk => absurd hk hne⟩

end Caches

section Accesses

variable {n i : Int64} {bits : Nat} {what text : String} {buf : Words}

section

variable (hK : K.Lawful)

include hK

theorem twins_opened (hk : S k) (hin : k = .input → inputs) (h : K.Matches S inputs w u) :
    (Packed.opened n bits (cacheSlot K.pack k) (K.load k) what text i buf).Pairs
      (Packed.opened n bits (cacheSlot K.pack k) (K.load k) what text i buf) w u
      (fun _ w' u' => K.Matches S inputs w' u' ∧ (K.cache w' k).valid = true)
      (K.Matches S inputs) := by
  refine ((Act.twins_composes _).ofExcept _ w u h).bind fun _ w u h => ?_
  refine (gives_read _ w).bind_pairs (gives_read _ u) ?_
  have hwidth : ((cacheSlot K.pack k).get w).width = ((cacheSlot K.pack k).get u).width :=
    (h.left.fits k).width_eq.trans (h.right.fits k).width_eq.symm
  rw [hwidth]
  dsimp only
  split
  · exact (Act.pairs_throw h).bind fun _ _ _ => id
  · exact (h.ensure hK hk hin).during.bind fun _ _ _ hnext => Act.pairs_pure hnext

theorem near_opened {w1 : σ} (hw : K.Near k w w1) :
    (Packed.opened n bits (cacheSlot K.pack k) (K.load k) what text i buf).Ends w1
      (fun _ w' => K.Near k w w' ∧ (K.cache w' k).valid = true) fun _ => K.Near k w := by
  refine (Act.keeps_ofExcept _ w1 hw).andThen (fun _ _ => id) fun _ w1 hw => ?_
  refine (gives_read _ w1).bind_ends ?_
  dsimp only
  split
  · exact Act.ends_throw hw
  · exact (hw.sound.ensure hK).during.andThen (fun _ _ => hw.trans) fun _ _ hw' =>
      Act.ends_pure ⟨hw.trans hw'.1, hw'.2⟩

theorem twins_get (hk : S k) (hl : K.load k = some l) (i : Int64) (buf : Words) :
    Act.Twins (K.Matches S inputs) (Packed.get n bits (cacheSlot K.pack k) l what i buf) := by
  have hne : k ≠ .input := fun hk => by rw [load_eq_none.mpr hk] at hl; cases hl
  intro w u h
  rw [Packed.get_eq, ← hl]
  refine (twins_opened hK hk (fun hk => absurd hk hne) h).bind ?_
  rintro _ w u ⟨h, hvalid⟩
  refine (gives_read _ w).bind_pairs (gives_read _ u) ?_
  have hwords : ((cacheSlot K.pack k).get w).words = ((cacheSlot K.pack k).get u).words :=
    (h.like k hk).words hvalid
  rw [hwords]
  exact Act.pairs_pure h

theorem twins_set (hk : S k) (hin : k = .input → inputs)
    {load : Option (Int64 → Words → Act σ Words)} (hl : K.load k = load) (i : Int64) (buf : Words) :
    Act.Twins (K.Matches S inputs) (Packed.set n bits (cacheSlot K.pack k) load what i buf) := by
  intro w u h
  rw [Packed.set_eq, ← hl]
  refine (twins_opened hK hk hin h).bind ?_
  rintro ⟨slot, shift⟩ w u ⟨h, hvalid⟩
  have hlike := h.like k hk
  have hwords := hlike.words_written hvalid bits slot shift buf
  obtain ⟨w', hset, hw', hget⟩ := gives_change hK h.left (LaneCache.written bits slot shift buf)
    ((h.left.fits k).written hvalid bits slot shift buf)
  obtain ⟨u', hset', hu', hget'⟩ := gives_change hK h.right (LaneCache.written bits slot shift buf)
    ((h.right.fits k).written (hlike.valid ▸ hvalid) bits slot shift buf)
  rw [← hget, ← hget'] at hwords
  refine hset.pairs hset' (h.moved hw' hu' (fun _ => ⟨?_, ?_, fun _ => hwords⟩) fun _ _ => hwords)
  · rw [hget, hget']
    exact hlike.valid
  · rw [hget, hget']
    rfl

theorem keeps_get (hl : K.load k = some l) (i : Int64) (buf : Words) :
    Act.Keeps (K.Near k w) (Packed.get n bits (cacheSlot K.pack k) l what i buf) := by
  intro w1 hw
  rw [Packed.get_eq, ← hl]
  exact (near_opened hK hw).andThen (fun _ _ => id) fun _ w' hw' =>
    (gives_read _ w').bind_ends (Act.ends_pure hw'.1)

theorem keeps_set {load : Option (Int64 → Words → Act σ Words)} (hl : K.load k = load) (i : Int64)
    (buf : Words) :
    Act.Keeps (K.Near k w) (Packed.set n bits (cacheSlot K.pack k) load what i buf) := by
  intro w1 hw
  rw [Packed.set_eq, ← hl]
  refine (near_opened hK hw).andThen (fun _ _ => id) ?_
  rintro ⟨slot, shift⟩ w' ⟨hw', hvalid⟩
  obtain ⟨w'', hset, hw'', -⟩ := gives_change hK hw'.sound (LaneCache.written bits slot shift buf)
    ((hw'.sound.fits k).written hvalid bits slot shift buf)
  exact hset.ends (hw'.trans hw'')

theorem twins_flush (hk : S k) {store : Int64 → Words → Act σ Unit}
    (hstore : ∀ i buf, K.Sees (store i buf)) :
    Act.Twins (K.Matches S inputs) (LaneCache.flush (cacheSlot K.pack k) store) := by
  have hslots : ∀ (js : List Nat) (w u : σ), K.Matches S inputs w u →
      (K.cache w k).valid = true →
      (LaneCache.storeSlots (cacheSlot K.pack k) store js).Pairs
        (LaneCache.storeSlots (cacheSlot K.pack k) store js) w u
        (fun _ w' u' => K.Matches S inputs w' u' ∧ (K.cache w' k).valid = true)
        (K.Matches S inputs) := by
    intro js
    induction js with
    | nil => exact fun w u h hvalid => Act.pairs_pure ⟨h, hvalid⟩
    | cons j js ih =>
      intro w u h hvalid
      refine (gives_read _ w).bind_pairs (gives_read _ u) ?_
      have hwords : ((cacheSlot K.pack k).get w).words = ((cacheSlot K.pack k).get u).words :=
        (h.like k hk).words hvalid
      rw [hwords]
      refine ((hstore _ _ w u h.left.has h.right.has h.view).mono (fun _ _ _ => id)
        fun _ _ => h.onward).bind fun _ w' u' hnext => ih w' u' (h.onward hnext) ?_
      rw [cache, hnext.1.2]
      exact hvalid
  intro w u h
  refine (gives_read _ w).bind_pairs (gives_read _ u) ?_
  have hdirty : ((cacheSlot K.pack k).get w).dirty = ((cacheSlot K.pack k).get u).dirty :=
    (h.like k hk).dirty
  have hsize : ((cacheSlot K.pack k).get w).words.size = ((cacheSlot K.pack k).get u).words.size :=
    (h.left.fits k).size.trans (h.right.fits k).size.symm
  rw [hsize, hdirty]
  split
  · rename_i hd
    have hvalid := (h.left.fits k).valid_of_dirty (hdirty.trans hd)
    refine (hslots _ w u h hvalid).bind fun _ w' u' hnext => ?_
    obtain ⟨hnext, hvalid'⟩ := hnext
    have hlike := hnext.like k hk
    obtain ⟨w'', hset, hw'', hget⟩ := gives_change hK hnext.left
      (fun x => { x with dirty := false }) ((hnext.left.fits k).flagged fun _ => hvalid')
    obtain ⟨u'', hset', hu'', hget'⟩ := gives_change hK hnext.right
      (fun x => { x with dirty := false })
      ((hnext.right.fits k).flagged fun _ => hlike.valid ▸ hvalid')
    refine hset.pairs hset' (hnext.moved hw'' hu'' (fun _ => ⟨?_, ?_, fun _ => ?_⟩) fun _ _ => ?_)
    · rw [hget, hget']
      exact hlike.valid
    · rw [hget, hget']
    · rw [hget, hget']
      exact hlike.words hvalid'
    · rw [hget, hget']
      exact hlike.words hvalid'
  · exact Act.pairs_pure h

theorem gives_drop (hw : K.Sound w) {f : Packed → Packed} {T : Cached → Prop} [DecidablePred T]
    (hf : ∀ p k, (f p).cache k = if T k then (p.cache k).invalidate else p.cache k) :
    ∃ w', (K.pack.update f).Gives w () w' ∧ K.Sound w' ∧ K.view w' = K.view w ∧
      ∀ k, K.cache w' k = if T k then (K.cache w k).invalidate else K.cache w k := by
  obtain ⟨hhas, hget, hview⟩ := hK.set_pack w (f (K.pack.get w)) hw.has
  have hcache : ∀ k, K.cache (K.pack.set w (f (K.pack.get w))) k =
      if T k then (K.cache w k).invalidate else K.cache w k := by
    intro k
    rw [cache, hget, hf]
    rfl
  refine ⟨_, gives_update K.pack f w, ⟨hhas, fun k => ?_⟩, hview, hcache⟩
  rw [hcache]
  split
  · exact (hw.fits k).flagged fun hd => by cases hd
  · exact hw.fits k

theorem Matches.drop (h : K.Matches S inputs w u) {f : Packed → Packed} {T : Cached → Prop}
    [DecidablePred T]
    (hf : ∀ p k, (f p).cache k = if T k then (p.cache k).invalidate else p.cache k) :
    (K.pack.update f).Pairs (K.pack.update f) w u
      (fun _ => K.Matches (fun k => S k ∨ T k) inputs) fun _ _ => False := by
  obtain ⟨w', hset, hw', hview, hcache⟩ := gives_drop hK h.left hf
  obtain ⟨u', hset', hu', hview', hcache'⟩ := gives_drop hK h.right hf
  refine hset.pairs hset' ⟨hw', hu', hview.trans (h.view.trans hview'.symm), fun k hk => ?_,
    fun hin => ?_⟩
  · rw [hcache, hcache']
    split
    · exact ⟨rfl, rfl, fun hv => by cases hv⟩
    · rename_i hT
      exact h.like k (hk.resolve_right hT)
  · rw [hcache, hcache']
    split
    · exact h.input hin
    · exact h.input hin

end

theorem Matches.mono {T : Cached → Prop} (h : K.Matches S inputs w u) (hT : ∀ k, T k → S k) :
    K.Matches T inputs w u :=
  ⟨h.left, h.right, h.view, fun k hk => h.like k (hT k hk), h.input⟩

theorem twins_drop (hK : K.Lawful) {f : Packed → Packed} {T : Cached → Prop} [DecidablePred T]
    (hf : ∀ p k, (f p).cache k = if T k then (p.cache k).invalidate else p.cache k) :
    Act.Twins (K.Matches S inputs) (K.pack.update f) :=
  fun _ _ h => (h.drop hK hf).mono (fun _ _ _ hnext => hnext.mono fun _ => Or.inl)
    fun _ _ => False.elim

theorem twins_update (hK : K.Lawful) (hS : ∀ k, S k) (cancelled : Bool) :
    Act.Twins (K.Matches S inputs) (Packed.update K.sim K.pack cancelled) := by
  have hstates : Act.Twins (K.Matches S inputs)
      (LaneCache.flush (cacheSlot K.pack .state) K.sim.setState) :=
    twins_flush hK (hS _) hK.setState
  have hinputs : Act.Twins (K.Matches S inputs)
      (LaneCache.flush (cacheSlot K.pack .input) K.sim.setInput) :=
    twins_flush hK (hS _) hK.setInput
  have hdrop : Act.Twins (K.Matches S inputs) (K.pack.update fun p =>
      { p with state := p.state.invalidate, output := p.output.invalidate }) :=
    twins_drop (T := (· ≠ .input)) hK fun p k => by cases k <;> rfl
  intro w u h
  refine ((hstates w u h).bind fun _ w' u' => hinputs w' u').during.bind fun _ w' u' h' => ?_
  exact ((hK.update cancelled).twins w' u' h').bind fun _ w'' u'' => hdrop w'' u''

theorem twins_access (hK : K.Lawful) (bits : Nat) (x : Access)
    (hcache : ∀ k, x.cache? = some k → S k) (hupdates : x.updates = true → ∀ k, S k)
    (hinput : x.writes? = some .input → inputs) :
    Act.Twins (K.Matches S inputs) (Packed.access K.sim bits K.pack x) := by
  have hcomposes := Act.twins_composes (K.Matches S inputs)
  have hwrites : ∀ k, x.writes? = some k → S k := fun k hx => hcache k (cache?_of_writes? hx)
  refine hcomposes.access K.sim bits K.pack x (fun hx => ?_) (fun hx => ?_) (fun hx => ?_)
    (fun hx => ?_) (fun _ => ⟨fun i m => ?_, fun i m => ?_⟩)
    (fun hx => twins_update hK (hupdates hx)) ?_
  · exact twins_get (k := .state) hK (hcache _ hx) rfl
  · exact twins_set (k := .state) hK (hwrites _ hx) nofun rfl
  · exact twins_set (k := .input) hK (hwrites _ hx) (fun _ => hinput hx) rfl
  · exact twins_get (k := .output) hK (hcache _ hx) rfl
  · exact hcomposes.bind (hcomposes.ofExcept _) fun _ => (hK.setInputMap _ m).twins
  · exact hcomposes.bind (hcomposes.ofExcept _) fun _ => (hK.setOutputMap _ m).twins
  · exact fun _ => twins_drop (T := fun _ => True) hK fun p k => by cases k <;> rfl

theorem keeps_access (hK : K.Lawful) (bits : Nat) {x : Access} (hx : x.cache? = some k) :
    Act.Keeps (K.Near k w) (Packed.access K.sim bits K.pack x) := by
  have hnone : x.cache? ≠ none := by simp [hx]
  refine (Act.keeps_composes _).access K.sim bits K.pack x (fun hx' => ?_) (fun hx' => ?_)
    (fun hx' => ?_) (fun hx' => ?_) (fun hx' => absurd hx' hnone)
    (fun hx' => absurd (cache?_of_updates hx') hnone)
    fun hx' => absurd (congrArg cache? hx') hnone
  · obtain rfl := Option.some.inj (hx.symm.trans hx')
    exact keeps_get hK rfl
  · obtain rfl := Option.some.inj (hx.symm.trans (cache?_of_writes? hx'))
    exact keeps_set hK rfl
  · obtain rfl := Option.some.inj (hx.symm.trans (cache?_of_writes? hx'))
    exact keeps_set hK rfl
  · obtain rfl := Option.some.inj (hx.symm.trans hx')
    exact keeps_get hK rfl

end Accesses

end Viewed

end TiledAutomata
