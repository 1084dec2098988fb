import TiledAutomata.Kernel
import TiledAutomata.Proofs.Acts
import TiledAutomata.Proofs.Records

/-!
# The books of a kernel

A kernel has up to thirteen resources on one device, and its books are in order if these
are the resources that are alive. What happens on the devices is looked at from two
moments: all that happened in a run is orderly, and what happened in its last task is told
apart. Every device call that is given no other resources than those that are held keeps
the books, whether it fails or not.
-/

open List

namespace TiledAutomata

open Device (Handle Event Item Kind Orderly Alive made gone)

inductive Error.Fate where
  /-- Nobody catches it. -/
  | uncaught
  /-- The backend has reported it. -/
  | reported
  | pending
  deriving DecidableEq

def Error.fate : Error → Error.Fate
  | .abort _ | .noDevice => .uncaught
  | e => if e.chain.any Kernel.isBackend then .reported else .pending

theorem Error.eq_of_uncaught {e : Error} (h : e.fate = .uncaught) :
    (∃ t, e = .abort t) ∨ e = .noDevice := by
  unfold fate at h
  split at h
  · exact .inl ⟨_, rfl⟩
  · exact .inr rfl
  · split at h <;> cases h

namespace Act

variable {σ α : Type} {x : Act σ α} {w : σ} {Q : α → σ → Prop} {E : Error.Fate → σ → Prop}

theorem Ends.within {context : String} (h : x.Ends w Q fun e => E e.fate) :
    (Act.during context x).Ends w Q fun e => E e.fate := by
  unfold Ends outcome at *
  rw [Act.during, ExceptT.run_adapt, StateT.run_map]
  rcases hx : StateT.run x.run w with ⟨r, w'⟩
  rw [hx] at h
  cases r with
  | ok a => exact h
  | error e => cases e <;> exact h

theorem Ends.caught (h : x.Ends w Q fun e => E e.fate) :
    x.attempt.Ends w (fun r w' => match r with
      | .ok a => Q a w'
      | .error e => e.fate ≠ .uncaught ∧ E e.fate w')
      fun e w' => e.fate = .uncaught ∧ E e.fate w' := by
  unfold Ends at *
  rw [outcome_attempt]
  rcases hx : x.outcome w with ⟨r, w'⟩
  rw [hx] at h
  cases r with
  | ok a => exact h
  | error e =>
    by_cases hfate : e.fate = .uncaught
    · rcases Error.eq_of_uncaught hfate with ⟨t, rfl⟩ | rfl
      · exact ⟨hfate, h⟩
      · exact ⟨hfate, h⟩
    · cases e <;> first | exact ⟨hfate, h⟩ | exact absurd rfl hfate

end Act

/-- A kernel and the devices that it can be moved to are separate parts of a world. -/
structure Bench (σ : Type) where
  kernel : Slot σ Kernel
  platform : Platform σ
  /-- The worlds that have these parts. -/
  Has : σ → Prop
  /-- The numbers of the devices. -/
  Numbers : Nat → Prop
  kernel_set : ∀ {w} (x : Kernel), Has w → Has (kernel.set w x) ∧ kernel.get (kernel.set w x) = x ∧
    ∀ n, Numbers n → (platform.devices n).get (kernel.set w x) = (platform.devices n).get w
  device_set : ∀ {w n} (d : Device), Numbers n → Has w → Has ((platform.devices n).set w d) ∧
    kernel.get ((platform.devices n).set w d) = kernel.get w ∧ ∀ m, Numbers m →
      (platform.devices m).get ((platform.devices n).set w d) =
        if m = n then d else (platform.devices m).get w
  journal_set : ∀ {w} (x : Journal), Has w → Has (platform.journal.set w x) ∧
    kernel.get (platform.journal.set w x) = kernel.get w ∧ ∀ n, Numbers n →
      (platform.devices n).get (platform.journal.set w x) = (platform.devices n).get w

namespace Bench

variable {σ : Type} (B : Bench σ)

def device (n : Nat) (w : σ) : Device := (B.platform.devices n).get w

def buffers : Slot σ HostBuffers :=
  B.kernel.part (·.buffers) fun k b => { k with buffers := b }

def Moves (w w' : σ) (y : Kernel) : Prop :=
  B.Has w' ∧ B.kernel.get w' = y ∧
    ∀ n, B.Numbers n → (B.platform.devices n).get w' = (B.platform.devices n).get w

end Bench

inductive Fixture where
  | bindGroup
  | storage (s : Storage)
  | staging
  | params
  | pipeline
  | pipeLayout
  | bindLayout
  | shader
  deriving DecidableEq

def Fixture.kind : Fixture → Kind
  | .bindGroup => .bindGroup
  | .storage _ | .staging | .params => .buffer
  | .pipeline => .pipeline
  | .pipeLayout => .pipeLayout
  | .bindLayout => .bindLayout
  | .shader => .shader

@[ext]
structure Grip where
  device : Option Nat
  owned : Bool
  closed : Bool
  workgroup : Int64
  fixture? : Fixture → Option Handle

def Kernel.fixture? (x : Kernel) : Fixture → Option Handle
  | .bindGroup => x.bindGroup
  | .storage s => x.storage.get s
  | .staging => x.staging
  | .params => x.params
  | .pipeline => x.pipeline
  | .pipeLayout => x.pipeLayout
  | .bindLayout => x.bindLayout
  | .shader => x.shader

def Kernel.grip (x : Kernel) : Grip :=
  ⟨x.device, x.owned, x.closed, x.automaton.program.workgroup, x.fixture?⟩

namespace Grip

variable {g : Grip} {f f' : Fixture} {n : Nat} {h : Handle} {y : Item}

def Holds (g : Grip) (n : Nat) (y : Item) : Prop :=
  g.device = some n ∧ ∃ f, f.kind = y.kind ∧ g.fixture? f = some y.handle

def keep (g : Grip) (f : Fixture) (h : Handle) : Grip :=
  { g with fixture? := fun f' => if f' = f then some h else g.fixture? f' }

def without (g : Grip) (fs : List Fixture) : Grip :=
  { g with fixture? := fun f => if f ∈ fs then none else g.fixture? f }

def bare (g : Grip) : Grip := { g with fixture? := fun _ => none }

def Full (g : Grip) : Prop := ∀ f, g.fixture? f ≠ none

def Empty (g : Grip) : Prop := ∀ f, g.fixture? f = none

def Distinct (g : Grip) : Prop :=
  ∀ ⦃f f' h⦄, g.fixture? f = some h → g.fixture? f' = some h → f = f'

theorem Empty.not_holds (hg : g.Empty) : ¬g.Holds n y := by
  rintro ⟨-, f, -, hf⟩
  cases (hg f).symm.trans hf

theorem Empty.distinct (hg : g.Empty) : g.Distinct := by
  intro f f' h hf
  cases (hg f).symm.trans hf

theorem bare_empty (g : Grip) : g.bare.Empty := fun _ => rfl

theorem holds_keep (hf : g.fixture? f = none) (hn : g.device = some n) :
    (g.keep f h).Holds n y ↔ y = ⟨f.kind, h⟩ ∨ g.Holds n y := by
  obtain ⟨k, j⟩ := y
  constructor
  · rintro ⟨hdevice, f', hkind, hhandle⟩
    by_cases hff : f' = f
    · simp only [keep, hff, if_true, Option.some.injEq] at hkind hhandle
      exact .inl (by rw [hkind, hhandle])
    · exact .inr ⟨hdevice, f', hkind, by simpa [keep, hff] using hhandle⟩
  · rintro (heq | ⟨hdevice, f', hkind, hhandle⟩)
    · cases heq
      exact ⟨hn, f, rfl, if_pos rfl⟩
    · have hff : f' ≠ f := by
        rintro rfl
        cases hf.symm.trans hhandle
      exact ⟨hdevice, f', hkind, (if_neg hff).trans hhandle⟩

theorem Distinct.keep (hg : g.Distinct) (hnew : ∀ f', g.fixture? f' ≠ some h) :
    (g.keep f h).Distinct := by
  intro f1 f2 j h1 h2
  simp only [Grip.keep] at h1 h2
  split at h1 <;> split at h2
  · rename_i hf1 hf2
    rw [hf1, hf2]
  · cases h1
    exact absurd h2 (hnew f2)
  · cases h2
    exact absurd h1 (hnew f1)
  · exact hg h1 h2

theorem holds_without (hg : g.Distinct) (hf : g.fixture? f = some h) {fs : List Fixture} :
    (g.without (f :: fs)).Holds n y ↔ y ≠ ⟨f.kind, h⟩ ∧ (g.without fs).Holds n y := by
  obtain ⟨k, j⟩ := y
  constructor
  · rintro ⟨hdevice, f', hkind, hhandle⟩
    simp only [without, mem_cons] at hhandle
    split at hhandle
    · cases hhandle
    · rename_i hnot
      obtain ⟨hff, hfs⟩ := not_or.mp hnot
      refine ⟨fun heq => ?_, hdevice, f', hkind, (if_neg hfs).trans hhandle⟩
      cases heq
      exact hff (hg hhandle hf)
  · rintro ⟨hne, hdevice, f', hkind, hhandle⟩
    simp only [without] at hhandle
    split at hhandle
    · cases hhandle
    · rename_i hfs
      refine ⟨hdevice, f', hkind, (if_neg ?_).trans hhandle⟩
      rw [mem_cons, not_or]
      refine ⟨?_, hfs⟩
      rintro rfl
      obtain rfl := Option.some.inj (hf.symm.trans hhandle)
      exact hne (congrArg (Item.mk · h) hkind.symm)

theorem without_none (hf : g.fixture? f = none) (fs : List Fixture) :
    g.without (f :: fs) = g.without fs := by
  unfold without
  congr 1
  funext f'
  by_cases hff : f' = f
  · simp [hff, hf]
  · simp [hff]

end Grip

namespace Device

variable {d0 d d' : Device} {alive : Item → Prop} {c : Call} {hs : List (Option Handle)}
  {failed : Bool}
  {k : Kind} {h : Handle}

/-- The record of a device since a moment is orderly, tells of no end of the device, and tells which
resources are alive. -/
def Account (d₀ d : Device) (alive : Item → Prop) : Prop :=
  ∃ es, d.events = d₀.events ++ es ∧ Orderly es ∧ (∀ e ∈ es, e.call ≠ .destroyDevice) ∧
    (∀ y, Alive es y ↔ alive y) ∧ ∀ y, made es y ≠ 0 → y.handle < d.resources.size

theorem Account.congr (h : Account d0 d alive) {alive' : Item → Prop}
    (halive : ∀ y, alive y ↔ alive' y) : Account d0 d alive' := by
  obtain ⟨es, hevents, horderly, hends, hes, hfresh⟩ := h
  exact ⟨es, hevents, horderly, hends, fun y => (hes y).trans (halive y), hfresh⟩

theorem Account.resize (h : Account d0 d alive) (hevents : d'.events = d.events)
    (hsize : d.resources.size ≤ d'.resources.size) : Account d0 d' alive := by
  obtain ⟨es, hes, horderly, hends, halive, hfresh⟩ := h
  exact ⟨es, hevents.trans hes, horderly, hends, halive,
    fun y hy => (hfresh y hy).trans_le hsize⟩

/-- A call that neither creates nor destroys, is given resources that are alive, and all that it
takes if a proposition holds. -/
structure Fair (c : Call) (hs : List (Option Handle)) (alive : Item → Prop) (whole : Prop) :
    Prop where
  neutral : c.makes = none ∧ c.ends = none ∧ c ≠ .destroyDevice
  given : ∀ k j, (k, some j) ∈ c.takes.zip hs → alive ⟨k, j⟩
  enough : whole → c.takes.length ≤ hs.length ∧ none ∉ hs

theorem fair_nil {whole : Prop} (hc : c.makes = none ∧ c.ends = none ∧ c ≠ .destroyDevice)
    (htakes : c.takes = []) : Fair c [] alive whole :=
  ⟨hc, by simp [htakes], fun _ => by simp [htakes]⟩

theorem fair_one {whole : Prop} (hc : c.makes = none ∧ c.ends = none ∧ c ≠ .destroyDevice)
    (htakes : c.takes = [k]) (halive : alive ⟨k, h⟩) : Fair c [some h] alive whole := by
  refine ⟨hc, fun k' j hmem => ?_, fun _ => by simp [htakes]⟩
  simp only [htakes, zip_cons_cons, zip_nil_right, mem_singleton, Prod.mk.injEq,
    Option.some.injEq] at hmem
  rwa [hmem.1, hmem.2]

theorem Account.snoc {e : Event} {alive' : Item → Prop} (h : Account d0 d alive)
    (hevents : d'.events = d.events ++ [e]) (hcall : e.call ≠ .destroyDevice)
    (hsize : d.resources.size ≤ d'.resources.size)
    (hnew : ∀ y, e.makes y = true → y.handle = d.resources.size ∧ y.handle < d'.resources.size)
    (hgiven : ∀ y, e.Concerns y → alive y)
    (halive : ∀ y, alive' y ↔ e.makes y = true ∨ alive y ∧ e.ends y = false) :
    Account d0 d' alive' := by
  obtain ⟨es, hes, horderly, hends, hes', hfresh⟩ := h
  have hnone : ∀ y, e.makes y = true → made es y = 0 := fun y hy =>
    Nat.eq_zero_of_not_pos fun hpos => (hfresh y hpos.ne').ne (hnew y hy).1
  have hall := horderly.snoc hnone fun y hy => (hes' y).mpr (hgiven y hy)
  refine ⟨es ++ [e], by rw [hevents, hes, append_assoc], hall, fun e' he => ?_, fun y => ?_,
    fun y hy => ?_⟩
  · rcases mem_append.mp he with he | he
    · exact hends e' he
    · exact mem_singleton.mp he ▸ hcall
  · rw [hall.alive_snoc, halive, hes']
  · by_cases hmakes : e.makes y = true
    · exact (hnew y hmakes).2
    · rw [made_snoc, Bool.eq_false_iff.mpr hmakes] at hy
      exact (hfresh y hy).trans_le hsize

theorem Account.fair {whole : Prop} (h : Account d0 d alive) (hfair : Fair c hs alive whole)
    (hevents : d'.events = d.events ++ [⟨c, hs, failed⟩])
    (hsize : d'.resources.size = d.resources.size) : Account d0 d' alive := by
  obtain ⟨⟨hmakes, hends, hcall⟩, hgiven, -⟩ := hfair
  refine h.snoc hevents hcall hsize.ge (fun y hy => ?_) (fun y => hgiven y.kind y.handle)
    fun y => ?_
  · simp [Event.makes, hmakes] at hy
  · simp [Event.makes, hmakes, Event.ends, hends]

theorem Account.create (h : Account d0 d alive) (hc : c.makes = some k)
    (hevents : d'.events = d.events ++ [⟨c, [some d.resources.size], failed⟩])
    (hsize : d'.resources.size = d.resources.size + (!failed).toNat) :
    Account d0 d' fun y => failed = false ∧ y = ⟨k, d.resources.size⟩ ∨ alive y := by
  obtain ⟨htakes, hends, hcall⟩ := Call.takes_of_makes hc
  refine h.snoc hevents hcall (by omega) (fun y hy => ?_) (fun y hy => ?_) fun y => ?_
  · obtain ⟨hfailed, rfl⟩ := (Event.makes_iff hc).mp hy
    exact ⟨rfl, by simp [hsize, hfailed]⟩
  · rw [Event.Concerns, htakes] at hy
    cases hy
  · rw [Event.makes_iff hc]
    simp [Event.ends, hends]

theorem Account.destroy (h' : Account d0 d alive) (hc : c.ends = some k) (halive : alive ⟨k, h⟩)
    (hevents : d'.events = d.events ++ [⟨c, [some h], failed⟩])
    (hsize : d'.resources.size = d.resources.size) :
    Account d0 d' fun y => y ≠ ⟨k, h⟩ ∧ alive y := by
  obtain ⟨hmakes, hcall⟩ := Call.makes_of_ends hc
  refine h'.snoc hevents hcall hsize.ge (fun y hy => ?_) (fun y hy => ?_) fun y => ?_
  · simp [Event.makes, hmakes] at hy
  · simp only [Event.Concerns, Call.takes_of_ends hc, zip_cons_cons, zip_nil_right,
      mem_singleton, Prod.mk.injEq, Option.some.injEq] at hy
    obtain ⟨k', j⟩ := y
    obtain ⟨rfl, rfl⟩ := hy
    exact halive
  · rw [← Bool.not_eq_true, Event.ends_iff hc]
    simp [Event.makes, hmakes, and_comm]

/-- What a device was asked to do since a moment, of which some calls are known. -/
def Recent (d₁ d : Device) (whole reached : Prop) (shown : List Event) : Prop :=
  ∃ es, d.events = d₁.events ++ es ∧ (whole → ∀ e ∈ es, e.Whole) ∧ (es ≠ [] → reached) ∧
    shown.Sublist es

variable {d1 : Device} {whole reached : Prop} {shown shown' : List Event} {e : Event}

theorem Recent.snoc (h : Recent d1 d whole reached shown) (hreached : reached)
    (hwhole : whole → e.Whole) (hevents : d'.events = d.events ++ [e]) :
    Recent d1 d' whole reached (shown ++ [e]) := by
  obtain ⟨es, hes, hall, -, hshown⟩ := h
  refine ⟨es ++ [e], by rw [hevents, hes, append_assoc], fun hw e' he' => ?_,
    fun _ => hreached, hshown.append_right [e]⟩
  rcases mem_append.mp he' with he' | he'
  · exact hall hw e' he'
  · obtain rfl := mem_singleton.mp he'
    exact hwhole hw

theorem Recent.forget (h : Recent d1 d whole reached shown) (hshown : shown'.Sublist shown) :
    Recent d1 d whole reached shown' := by
  obtain ⟨es, hes, hall, hreached, hes'⟩ := h
  exact ⟨es, hes, hall, hreached, hshown.trans hes'⟩

def fails (d : Device) (c : Call) : Bool := d.due == some c.name || d.faulty d.calls

def noted (d : Device) (c : Call) (hs : List (Option Handle)) : Device :=
  { d with
    events := d.events ++ [⟨c, hs, d.fails c⟩]
    calls := d.calls + 1
    due := if d.due == some c.name then none else d.due }

def pushed (r : Resource) (d : Device) : Device := { d with resources := d.resources.push r }

theorem gives_attempt {σ : Type} (s : Slot σ Device) (c : Call) (hs : List (Option Handle))
    (w : σ) :
    (attempt s c hs).Gives w ((s.get w).fails c) (s.set w ((s.get w).noted c hs)) :=
  Act.Gives.bind (Slot.gives_read s w) (Act.Gives.bind rfl (Act.gives_pure _ _))

theorem Store.size_setWords {s : Store} {h : Handle} {ws : Words} :
    (s.setWords h ws).size = s.size :=
  Array.size_modify

theorem Store.size_execute {s t : Store} {F : Dispatch} {c : Command}
    (h : s.execute? F c = some t) : t.size = s.size := by
  have hlabelled : ∀ {s t : Store} {l ws}, s.setLabelled? l ws = some t → t.size = s.size := by
    intro s t l ws h
    obtain ⟨j, -, rfl⟩ := Option.map_eq_some_iff.mp h
    exact size_setWords
  cases c with
  | dispatch =>
    obtain ⟨u, hu, ht⟩ := Option.bind_eq_some_iff.mp h
    exact (hlabelled ht).trans (hlabelled hu)
  | copy source target n =>
    cases h
    exact size_setWords

end Device

end TiledAutomata
