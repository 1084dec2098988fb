import TiledAutomata.Proofs.Composition
import TiledAutomata.Proofs.Views

/-!
# Writes that are dropped with the caches

When the caches of a packed simulator are dropped, the writes to the states since the last
update are as if they had not been made. Those to the inputs are so only until an input is
written again: what the cache held of all other inputs is then stored along with it.
-/

open List

namespace TiledAutomata

open Rig

namespace Packed

variable {σ : Type} (sim : Simulator σ) (bits : Nat) (p : Slot σ Packed)

def after : List Access → σ → σ
  | [], w => w
  | x :: xs, w => after xs ((access sim bits p x).outcome w).2

def outcomes : List Access → σ → List (Except Error Words)
  | [], _ => []
  | x :: xs, w =>
    ((access sim bits p x).outcome w).1 :: outcomes xs ((access sim bits p x).outcome w).2

theorem after_append (xs ys : List Access) (w : σ) :
    after sim bits p (xs ++ ys) w = after sim bits p ys (after sim bits p xs w) := by
  induction xs generalizing w with
  | nil => rfl
  | cons x xs ih => exact ih _

def unsaved (y : Packed) (k : Cached) : Option (Array Words) :=
  if (y.cache k).dirty then some (y.cache k).words else none

end Packed

namespace Viewed

variable {σ β : Type} {K : Viewed σ β} {S : Cached → Prop} {inputs : Prop} {w u : σ} {bits : Nat}

/-- From two worlds, a packed simulator answers in the same way, the wrapped simulator holds the
same in the end, and the same is still to be stored. -/
structure Indistinct (K : Viewed σ β) (bits : Nat) (later : List Access) (w u : σ) : Prop where
  outcomes : Packed.outcomes K.sim bits K.pack later w = Packed.outcomes K.sim bits K.pack later u
  view : K.view (Packed.after K.sim bits K.pack later w) =
    K.view (Packed.after K.sim bits K.pack later u)
  unsaved : (K.pack.get (Packed.after K.sim bits K.pack later w)).unsaved =
    (K.pack.get (Packed.after K.sim bits K.pack later u)).unsaved

theorem Matches.unsaved (h : K.Matches (fun _ => True) inputs w u) :
    (K.pack.get w).unsaved = (K.pack.get u).unsaved := by
  funext k
  have hlike : ((K.pack.get w).cache k).Like ((K.pack.get u).cache k) := h.like k trivial
  unfold Packed.unsaved
  rw [← hlike.dirty]
  split
  · rename_i hdirty
    rw [hlike.words ((h.left.fits k).valid_of_dirty hdirty)]
  · rfl

theorem Matches.access (hK : K.Lawful) (bits : Nat) (x : Access)
    (hcache : ∀ k, x.cache? = some k → S k) (hupdates : x.updates = true → ∀ k, S k)
    (hinput : x.writes? = some .input → inputs) (h : K.Matches S inputs w u) :
    ((Packed.access K.sim bits K.pack x).outcome w).1 =
        ((Packed.access K.sim bits K.pack x).outcome u).1 ∧
      K.Matches S inputs ((Packed.access K.sim bits K.pack x).outcome w).2
        ((Packed.access K.sim bits K.pack x).outcome u).2 := by
  rcases (twins_access hK bits x hcache hupdates hinput w u h).cases with
    ⟨_, w', u', hx, hy, h'⟩ | ⟨_, w', u', hx, hy, h'⟩ <;> rw [hx, hy] <;> exact ⟨rfl, h'⟩

theorem Matches.indistinct (hK : K.Lawful) {later : List Access}
    (hlater : ∀ x ∈ later, x.writes? = some .input → inputs)
    (h : K.Matches (fun _ => True) inputs w u) : K.Indistinct bits later w u := by
  induction later generalizing w u with
  | nil => exact ⟨rfl, h.view, h.unsaved⟩
  | cons x xs ih =>
    obtain ⟨hout, hnext⟩ := h.access hK bits x (fun _ _ => trivial) (fun _ _ => trivial)
      (hlater x mem_cons_self)
    obtain ⟨houtcomes, hview, hunsaved⟩ :=
      ih (fun y hy => hlater y (mem_cons_of_mem x hy)) hnext
    exact ⟨congrArg₂ List.cons hout houtcomes, hview, hunsaved⟩

theorem Matches.without (hK : K.Lawful) {keeps : Access → Bool} {since : List Access}
    (hupdates : ∀ x ∈ since, x.updates = false)
    (hdrops : ∀ x ∈ since, keeps x = false → ∃ k, x.writes? = some k ∧ (inputs → k ≠ .input))
    (hkeeps : ∀ x ∈ since, keeps x = true → x.writes? = some .input → inputs)
    (h : K.Matches (fun k => inputs ∧ k = .input) inputs w u) :
    K.Matches (fun k => inputs ∧ k = .input) inputs (Packed.after K.sim bits K.pack since w)
      (Packed.after K.sim bits K.pack (since.filter keeps) u) := by
  induction since generalizing w u with
  | nil => exact h
  | cons x xs ih =>
    -- what is about a cache that is not compared does not have to be done in both worlds
    have hnear : ∀ {w u : σ} {k : Cached}, x.cache? = some k → (inputs → k ≠ .input) →
        K.Matches (fun k => inputs ∧ k = .input) inputs w u →
        K.Matches (fun k => inputs ∧ k = .input) inputs
          ((Packed.access K.sim bits K.pack x).outcome w).2 u :=
      fun hk hne h' => h'.near (fun hS => hne hS.1 hS.2) hne
        ((keeps_access hK bits hk _ (h'.left.near _)).final (P := fun _ => K.Near _ _))
    have hrest := fun {w u} => ih (w := w) (u := u)
      (fun y hy => hupdates y (mem_cons_of_mem x hy))
      (fun y hy => hdrops y (mem_cons_of_mem x hy))
      fun y hy => hkeeps y (mem_cons_of_mem x hy)
    cases hx : keeps x with
    | false =>
      obtain ⟨k, hk, hne⟩ := hdrops x mem_cons_self hx
      rw [filter_cons_of_neg (by simp [hx])]
      exact hrest (hnear (Access.cache?_of_writes? hk) hne h)
    | true =>
      rw [filter_cons_of_pos hx]
      refine hrest ?_
      by_cases hother : ∃ k, x.cache? = some k ∧ k ≠ .input
      · obtain ⟨k, hk, hne⟩ := hother
        exact (hnear hk (fun _ => hne) (hnear hk (fun _ => hne) h).symm).symm
      · have hinput := hkeeps x mem_cons_self hx
        refine (h.access hK bits x (fun k hk => ?_) (fun hup => ?_) hinput).2
        · have hk' : k = .input := by_contra fun hne => hother ⟨k, hk, hne⟩
          subst hk'
          exact ⟨hinput (Access.writes?_of_cache? hk), rfl⟩
        · rw [hupdates x mem_cons_self] at hup
          cases hup

theorem sound_fresh {b : Int64} (hw : K.Has w) (hnew : Packed.create K.sim b = .ok (K.pack.get w)) :
    K.Sound w := by
  obtain ⟨v, -, -, -, hcaches⟩ := Packed.create_ok hnew
  exact ⟨hw, fun k => LaneCache.fits_create (hcaches k)⟩

theorem Sound.after (hK : K.Lawful) (hw : K.Sound w) (history : List Access) :
    K.Sound (Packed.after K.sim bits K.pack history w) := by
  induction history generalizing w with
  | nil => exact hw
  | cons x xs ih =>
    have hsame : K.Matches (fun _ => True) True w w := hw.matched
    exact ih (hsame.access hK bits x (fun _ _ => trivial) (fun _ _ => trivial)
      fun _ => trivial).2.left

theorem Matches.invalidate (hK : K.Lawful) (h : K.Matches S inputs w u) (bits : Nat) :
    K.Matches (fun _ => True) inputs (Packed.after K.sim bits K.pack [.invalidate] w)
      (Packed.after K.sim bits K.pack [.invalidate] u) := by
  have hdrop := h.drop (f := Packed.invalidate) (T := fun _ => True) hK fun p k => by
    cases k <;> rfl
  rcases hdrop.cases with ⟨_, w', u', hw, hu, hnext⟩ | ⟨_, _, _, _, _, hfalse⟩
  · have hafter : ∀ {v v' : σ}, (K.pack.update Packed.invalidate).Gives v () v' →
        Packed.after K.sim bits K.pack [.invalidate] v = v' :=
      fun hv => congrArg Prod.snd (hv.bind (Act.gives_pure #[] _))
    rw [hafter hw, hafter hu]
    exact hnext.mono fun _ => Or.inr
  · exact hfalse.elim

variable (inputs) in
theorem Sound.dropped (hK : K.Lawful) (hw : K.Sound w) (history : List Access)
    {keeps : Access → Bool} {since later : List Access} (hupdates : ∀ x ∈ since, x.updates = false)
    (hdrops : ∀ x ∈ since, keeps x = false → ∃ k, x.writes? = some k ∧ (inputs → k ≠ .input))
    (hkeeps : ∀ x ∈ since, keeps x = true → x.writes? = some .input → inputs)
    (hlater : ∀ x ∈ later, x.writes? = some .input → inputs) :
    K.Indistinct bits later (Packed.after K.sim bits K.pack (history ++ since ++ [.invalidate]) w)
      (Packed.after K.sim bits K.pack (history ++ since.filter keeps ++ [.invalidate]) w) := by
  simp only [Packed.after_append]
  have hstart : K.Sound (Packed.after K.sim bits K.pack history w) := hw.after hK history
  exact ((hstart.matched.without hK hupdates hdrops hkeeps).invalidate hK bits).indistinct hK hlater

end Viewed

namespace HostBuffers

variable {b b' : HostBuffers} {s : Shape} {f : Fleet} {p : Part} {what : String} {i : Int64}
  {buf : Words}

theorem Holds.written (h : b.Holds s f) (hb' : b.writePart p what i buf = .ok b') :
    ∃ g, b'.Holds s g := by
  by_cases hacc : Accepts s (s.width p) i buf
  · obtain ⟨b'', hb'', hholds⟩ := writePart_ok h hacc what
    cases hb''.symm.trans hb'
    exact ⟨_, hholds⟩
  · cases (writePart_error h hacc what).symm.trans hb'

end HostBuffers

namespace Cpu

variable {a : Automaton} {s : Shape} {x y : Cpu} {cancelled : Bool} {d : Descriptor}
  {wiring : Wiring} {cs : List Program.Compiled}

/-- A simulator with a window for every instance. Unless it is closed, it runs an automaton. -/
def Stands (a : Automaton) (s : Shape) (x : Cpu) : Prop :=
  ∃ f, x.buffers.Holds s f ∧ (x.closed = false → x.Holds a s f)

theorem Stands.withBuffers (h : x.Stands a s) {b : HostBuffers} (hb : ∃ g, b.Holds s g) :
    Stands a s { x with buffers := b } := by
  obtain ⟨f, -, hopen⟩ := h
  obtain ⟨g, hg⟩ := hb
  exact ⟨g, hg, fun hclosed =>
    ⟨(hopen hclosed).automaton, hclosed, (hopen hclosed).workers, hg⟩⟩

theorem Stands.update (hb : a.Built d wiring cs) (h : x.Stands a s)
    (hy : x.update cancelled = .ok y) : y.Stands a s := by
  obtain ⟨f, -, hopen⟩ := h
  cases hclosed : x.closed with
  | true =>
    unfold Cpu.update at hy
    rw [hclosed] at hy
    cases hy
  | false =>
    have hx := hopen hclosed
    cases cancelled with
    | true =>
      rw [update_cancelled hx] at hy
      cases hy
    | false =>
      by_cases hunits : a.runnable ∧ 0 < s.stateSize
      · obtain ⟨y', hy', hholds⟩ := update_ok hb hx hunits.1 hunits.2
        cases hy'.symm.trans hy
        exact ⟨_, hholds.buffers, fun _ => hholds⟩
      · rw [update_error hx hunits] at hy
        cases hy

def viewed {σ : Type} (a : Automaton) (x : Cpu) (c : Slot σ Cpu) (journal : Slot σ Journal)
    (W : σ → Prop) (p : Slot σ Packed) : Viewed σ Cpu where
  sim := x.simulator c journal
  pack := p
  Has w := W w ∧ (c.get w).Stands a x.buffers.shape
  view := c.get
  held k y j := .ok ((y.buffers.part k.part).window j (x.buffers.shape.width k.part).toInt.toNat)

variable {σ : Type} {a : Automaton} {x : Cpu} {c : Slot σ Cpu} {journal : Slot σ Journal}
  {W : σ → Prop} {p : Slot σ Packed} {d : Descriptor} {wiring : Wiring}
  {cs : List Program.Compiled}

theorem sees_change (hcp : c.Apart W p) {γ : Type} (get : Cpu → γ) (set : Cpu → γ → Cpu)
    {op : γ → Except Error γ} (hop : ∀ {y b}, y.Stands a x.buffers.shape → op (get y) = .ok b →
      (set y b).Stands a x.buffers.shape) :
    (viewed a x c journal W p).Sees ((c.part get set).change op) := by
  intro w u hw hu hview
  have hsame : c.get w = c.get u := hview
  cases hb : op (get (c.get w)) with
  | error e =>
    have hfails : ∀ {v}, c.get v = c.get w →
        ((c.part get set).change op).outcome v = (.error e, v) :=
      fun hv => Slot.outcome_change ((congrArg (op ∘ get) hv).trans hb)
    unfold Act.Pairs
    rw [hfails rfl, hfails hsame.symm]
    exact ⟨rfl, ⟨hw, rfl⟩, ⟨hu, rfl⟩, hview⟩
  | ok b =>
    have hgives : ∀ {v}, c.get v = c.get w → W v →
        ((c.part get set).change op).Gives v () (c.set v (set (c.get w) b)) ∧
          c.get (c.set v (set (c.get w) b)) = set (c.get w) b ∧
          (viewed a x c journal W p).Has (c.set v (set (c.get w) b)) ∧
          p.get (c.set v (set (c.get w) b)) = p.get v := by
      intro v hv hW
      obtain ⟨hW', hget⟩ := hcp.left v (set (c.get w) b) hW
      refine ⟨hv ▸ Slot.gives_change ((congrArg (op ∘ get) hv).trans hb), hget, ⟨hW', ?_⟩,
        hcp.leaves_right v _ hW⟩
      rw [hget]
      exact hop hw.2 hb
    obtain ⟨hset, hget, hhas, hpack⟩ := hgives rfl hw.1
    obtain ⟨hset', hget', hhas', hpack'⟩ := hgives hsame.symm hu.1
    exact hset.pairs hset' ⟨⟨hhas, hpack⟩, ⟨hhas', hpack'⟩, hget.trans hget'.symm⟩

theorem viewed_loads {l : Int64 → Words → Act σ Words} {w : σ} {k : Cached} {j : Nat} {buf : Words}
    (hl : (viewed a x c journal W p).load k = some l)
    (hw : (c.get w).Stands a x.buffers.shape) (hj : j < x.buffers.shape.size.toInt.toNat)
    (hbuf : buf.size = (x.buffers.shape.width k.part).toInt.toNat) :
    (l (Int64.ofNat j) buf).Gives w (((c.get w).buffers.part k.part).window j
      (x.buffers.shape.width k.part).toInt.toNat) w := by
  obtain ⟨f, hf, -⟩ := hw
  obtain ⟨hacc, hid⟩ := HostBuffers.accepts_ofNat (hf.countable.width_nonneg k.part) hj hbuf
  have hread := HostBuffers.readPart_ok hf hacc
  rw [hid, Words.overlay_all ((hf.size_window hj k.part).trans hbuf.symm),
    ← hf.window k.part j hj] at hread
  cases k with
  | state =>
    cases hl
    exact gives_query (·.getState _ buf) (hread _)
  | output =>
    cases hl
    exact gives_query (·.getOutput _ buf) (hread _)
  | input => cases hl

theorem sees_edit (hcp : c.Apart W p) {op : HostBuffers → Except Error HostBuffers}
    (hop : ∀ {b b' f}, b.Holds x.buffers.shape f → op b = .ok b' →
      ∃ g, b'.Holds x.buffers.shape g) :
    (viewed a x c journal W p).Sees ((bufferSlot c).change op) :=
  sees_change hcp (·.buffers) (fun y b => { y with buffers := b }) fun hy hb => by
    obtain ⟨f, hf, -⟩ := id hy
    exact hy.withBuffers (hop hf hb)

theorem viewed_lawful (hb : a.Built d wiring cs) (hcp : c.Apart W p) :
    (viewed a x c journal W p).Lawful where
  set_pack w y hw := by
    obtain ⟨hW, hget⟩ := hcp.right w y hw.1
    have hkept := hcp.leaves_left w y hw.1
    exact ⟨⟨hW, hkept.symm ▸ hw.2⟩, hget, hkept⟩
  size_held w hw k j hj ws hws := by
    obtain ⟨f, hf, -⟩ := hw.2
    cases hws
    exact Words.size_window ((hf.spans k.part).le hj)
  loads k l hl w hw j hj buf hbuf := ⟨w, viewed_loads hl hw.2 hj hbuf, hw, rfl, rfl⟩
  setState _ _ := sees_edit hcp fun h hb => h.written (p := .state) hb
  setInput _ _ := sees_edit hcp fun h hb => h.written (p := .input) hb
  setInputMap _ _ := sees_edit hcp fun h hb => h.written (p := .inputMap) hb
  setOutputMap _ _ := sees_edit hcp fun h hb => h.written (p := .outputMap) hb
  update cancelled := sees_change hcp id (fun _ y => y) fun hy hop => hy.update hb hop

end Cpu

theorem Rig.viewed {a : Automaton} {d : Descriptor} {wiring : Wiring} {cs : List Program.Compiled}
    (hb : a.Built d wiring cs) {config : Config} {o : Options} (ho : 0 < o.processors) {b : Int64}
    {r r1 r2 : Rig} {wrapped packed : Handle}
    (hwrapped : (newCpu (some a) config o).Gives r wrapped r1)
    (hpacked : (newPacked wrapped.sim b).Gives r1 packed r2) :
    ∃ (K : Viewed Rig Cpu) (y : Packed), K.Lawful ∧ K.sim = wrapped.sim ∧
      Packed.create wrapped.sim b = .ok y ∧ K.pack = packSlot r1.packs.size y ∧ K.Has r2 ∧
      K.pack.get r2 = y := by
  obtain ⟨x, hx, hsim, hn, hget⟩ := newCpu_gives hwrapped
  obtain ⟨y, hy, -, hcpus, hm, hgety⟩ := newPacked_gives hpacked
  obtain ⟨v, -, -, -, hcaches⟩ := Packed.create_ok hy
  have hnew := Cpu.create_new hx ho
  have hshape : wrapped.sim.shape = x.buffers.shape := by
    rw [hsim]
    rfl
  rw [hshape] at hcaches
  obtain ⟨hcountable, -⟩ :=
    Packed.countable_of_caches (v := v) hnew.count_pos fun k => ⟨_, _, hcaches k⟩
  refine ⟨Cpu.viewed a x (cpuSlot r.cpus.size x) journalSlot _ (packSlot r1.packs.size y), y,
    Cpu.viewed_lawful hb (cpuSlot_apart _ _ x y), hsim.symm, hy, rfl, ⟨⟨?_, hm⟩, ?_⟩, hgety⟩
  · rw [hcpus]
    exact hn
  · rw [cpuSlot_get_eq hcpus, hget]
    exact ⟨_, (hnew.holds hcountable).buffers, fun _ => hnew.holds hcountable⟩

def Access.pair : List Access :=
  [.meet (.call (.setState 0 (Array.replicate 6 7))), .meet (.call (.setInput 0 #[5]))]

namespace Viewed

/-- Dropping the caches discards the writes to the states since the last update: in all that is
asked later, everything is as if they had not been made. It discards those to the inputs as well, as
long as no input is written later. -/
theorem invalidate_discards {σ β : Type} {K : Viewed σ β} (hK : K.Lawful) {b : Int64} {w : σ}
    (hw : K.Has w) (hnew : Packed.create K.sim b = .ok (K.pack.get w))
    (history since later : List Access) (hsince : ∀ x ∈ since, x.updates = false) :
    K.Indistinct b.toInt.toNat later
      (Packed.after K.sim b.toInt.toNat K.pack (history ++ since ++ [.invalidate]) w)
      (Packed.after K.sim b.toInt.toNat K.pack
        (history ++ since.filter (·.writes? ≠ some .state) ++ [.invalidate]) w) ∧
    ((∀ x ∈ later, x.writes? ≠ some .input) → K.Indistinct b.toInt.toNat later
      (Packed.after K.sim b.toInt.toNat K.pack (history ++ since ++ [.invalidate]) w)
      (Packed.after K.sim b.toInt.toNat K.pack
        (history ++ since.filter (·.writes? = none) ++ [.invalidate]) w)) := by
  have hsound := sound_fresh hw hnew
  constructor
  · refine hsound.dropped True hK history hsince (fun x _ hx => ?_) (fun _ _ _ _ => trivial)
      fun _ _ _ => trivial
    exact ⟨.state, by simpa using hx, nofun⟩
  · intro hlater
    refine hsound.dropped False hK history hsince (fun x _ hx => ?_) (fun x _ hx hin => ?_) hlater
    · obtain ⟨k, hk⟩ := Option.ne_none_iff_exists'.mp (of_decide_eq_false hx)
      exact ⟨k, hk, nofun⟩
    · rw [of_decide_eq_true hx] at hin
      cases hin

/-- Two instances in the halves of one. An update and what is read after it are as if nothing had
been written before the caches were dropped. But a write to the input of the other instance brings
the input that was dropped back. -/
theorem invalidate_discards_relay : ∃ (K : Viewed Rig Cpu) (w : Rig), K.Lawful ∧ K.Has w ∧
    Packed.create K.sim 16 = .ok (K.pack.get w) ∧
    K.Indistinct 16 [.meet (.call .update), .meet (.call (.states (Array.replicate 12 0)))]
      (Packed.after K.sim 16 K.pack (Access.pair ++ [.invalidate]) w)
      (Packed.after K.sim 16 K.pack [.invalidate] w) ∧
    (K.pack.get (Packed.after K.sim 16 K.pack
      (Access.pair ++ [.invalidate, .meet (.call (.setInput 1 #[3]))]) w)).unsaved .input =
        some #[#[0x30005]] ∧
    (K.pack.get (Packed.after K.sim 16 K.pack
      [.invalidate, .meet (.call (.setInput 1 #[3]))] w)).unsaved .input = some #[#[0x30000]] := by
  obtain ⟨a, ha, heval⟩ := Outcome.exists_ok (Automaton.compile (some Descriptor.relay))
    (fun a => (newCpu (some a) {} {}).givesSuch {} fun wrapped r₁ =>
      (newPacked wrapped.sim 16).givesSuch r₁ fun _ r₂ =>
        (Packed.create wrapped.sim 16).toOption.any fun y =>
          decide (((packSlot r₁.packs.size y).get (Packed.after wrapped.sim 16
            (packSlot r₁.packs.size y)
            (Access.pair ++ [.invalidate, .meet (.call (.setInput 1 #[3]))]) r₂)).unsaved .input =
              some #[#[0x30005]]) &&
          decide (((packSlot r₁.packs.size y).get (Packed.after wrapped.sim 16
            (packSlot r₁.packs.size y)
            [.invalidate, .meet (.call (.setInput 1 #[3]))] r₂)).unsaved .input =
              some #[#[0x30000]]))
    (by decide +kernel)
  obtain ⟨wrapped, r₁, hwrapped, hmade⟩ := Act.exists_gives heval
  obtain ⟨packed, r₂, hpacked, hcheck⟩ := Act.exists_gives hmade
  obtain ⟨y, hy, hcheck⟩ := Outcome.exists_ok _ _ hcheck
  obtain ⟨wiring, cs, hb⟩ := Automaton.compile_ok ha
  obtain ⟨K, y', hK, hsim, hy', hpack, hhas, hget⟩ := viewed hb (by decide) hwrapped hpacked
  obtain rfl := Except.ok.inj (hy.symm.trans hy')
  rw [← hsim, ← hpack] at hcheck
  simp only [Bool.and_eq_true, decide_eq_true_eq] at hcheck
  have hnew : Packed.create K.sim 16 = .ok (K.pack.get r₂) := by
    rw [hget, hsim]
    exact hy
  have hdiscards := (invalidate_discards hK hhas hnew [] Access.pair
    [.meet (.call .update), .meet (.call (.states (Array.replicate 12 0)))]
    (by decide)).2 (by decide)
  exact ⟨K, r₂, hK, hhas, hnew, hdiscards, hcheck⟩

end Viewed

end TiledAutomata
