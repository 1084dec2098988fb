import TiledAutomata.Proofs.Books

/-!
# How long the resources of a kernel live

Between two operations a kernel has all its resources or none. Reading back, uploading and
dispatching use those it has and keep them. Creating stops at the first failure, and then
what there is by then is destroyed. Whatever fails, the resources that are alive are those
that the kernel has.
-/

open List

namespace TiledAutomata

open Act

open Device (Handle Event Item Kind)

variable {g : Grip} {α : Type}

namespace Grip

def Lacks (g : Grip) : Prop := ∃ f, g.fixture? f = none

/-- A kernel has all resources or none, and none without a device. A closed kernel has no device. -/
structure Settled (g : Grip) : Prop where
  all : g.Full ∨ g.Empty
  homeless : g.device = none → g.Empty
  closed : g.closed = true → g.device = none

/-- What a dispatch is given. -/
def bound (g : Grip) : List (Option Handle) := [g.fixture? .pipeline, g.fixture? .bindGroup]

theorem fair {c : Device.Call} {l : List Fixture} {n : Nat} {whole : Prop}
    (hc : c.makes = none ∧ c.ends = none ∧ c ≠ .destroyDevice)
    (htakes : c.takes = l.map Fixture.kind) (hdevice : g.device = some n)
    (hfull : whole → g.Full) : Device.Fair c (l.map g.fixture?) (g.Holds n) whole := by
  refine ⟨hc, fun k j hmem => ?_, fun hw => ⟨by simp [htakes], fun hmem => ?_⟩⟩
  · rw [htakes, zip_map'] at hmem
    obtain ⟨f, -, heq⟩ := mem_map.mp hmem
    obtain ⟨hkind, hj⟩ := Prod.mk.inj heq
    exact ⟨hdevice, f, hkind, hj⟩
  · obtain ⟨f, -, hf⟩ := mem_map.mp hmem
    exact hfull hw f hf

def Like (g g' : Grip) : Prop :=
  g'.device = g.device ∧ g'.owned = g.owned ∧ g'.closed = g.closed ∧ g'.workgroup = g.workgroup

theorem like_keep (g : Grip) (f : Fixture) (h : Handle) : g.Like (g.keep f h) :=
  ⟨rfl, rfl, rfl, rfl⟩

theorem Like.trans {g1 g2 : Grip} (h : g.Like g1) (h' : g1.Like g2) : g.Like g2 :=
  ⟨h'.1.trans h.1, h'.2.1.trans h.2.1, h'.2.2.1.trans h.2.2.1, h'.2.2.2.trans h.2.2.2⟩

def moved (g : Grip) (o : Option Nat) : Grip := { g with device := o }

theorem Empty.moved (hg : g.Empty) {o : Option Nat} : (g.moved o).Empty := hg

def shut (g : Grip) : Grip := { g.bare with device := none, closed := true }

theorem shut_settled (g : Grip) : g.shut.Settled :=
  ⟨.inr fun _ => rfl, fun _ _ => rfl, fun _ => rfl⟩

theorem Empty.bare_eq (hg : g.Empty) : g.bare = g := by
  unfold bare
  congr 1
  funext f
  exact (hg f).symm

theorem Settled.empty (hg : g.Settled) (h : g.Lacks) : g.Empty := by
  obtain ⟨f, hf⟩ := h
  exact hg.all.resolve_left fun hfull => hfull f hf

end Grip

theorem Storage.Table.get_set (t : Storage.Table α) (s u : Storage) (a : α) :
    (t.set s a).get u = if u = s then a else t.get u := by
  cases s <;> cases u <;> rfl

def Kernel.stripped (x : Kernel) : Kernel :=
  { x with
    bindGroup := none
    storage := .fill none
    staging := none
    params := none
    pipeline := none
    pipeLayout := none
    bindLayout := none
    shader := none }

theorem Kernel.grip_stripped (x : Kernel) : x.stripped.grip = x.grip.bare := by
  refine Grip.ext rfl rfl rfl rfl (funext fun f => ?_)
  cases f with
  | storage s => cases s <;> rfl
  | bindGroup | staging | params | pipeline | pipeLayout | bindLayout | shader => rfl

namespace Bench

variable {σ : Type} (B : Bench σ)

/-- What a kernel has to do with devices does not depend on the world. -/
structure Sound (reach : Nat → Prop) (g : Grip) : Prop where
  shared : g.owned = false
  distinct : g.Distinct
  home : ∀ n, g.device = some n → B.Numbers n ∧ reach n

/-- The books are in order: what is alive is what the kernel has. -/
structure Keeps (v : Vantage σ) (g : Grip) (w : σ) : Prop where
  sound : B.Sound v.reach g
  books : ∃ x : Kernel, x.grip = g ∧ B.Books v g.Holds x w

variable {B} {v : Vantage σ} {g : Grip} {w : σ} {n : Nat} {x : Kernel} {E : Error → σ → Prop}

theorem Books.keeps (h : B.Books v g.Holds x w) (hsound : B.Sound v.reach g) (hx : x.grip = g) :
    B.Keeps v g w :=
  ⟨hsound, x, hx, h⟩

section Reading

variable (h : B.Keeps v g w) (hfull : v.whole → g.Full ∨ g.device = none)

include h hfull

theorem Keeps.sync (s : Storage) :
    (Kernel.sync B.kernel B.platform s).Ends w (fun _ => B.Keeps v g)
      fun e w' => B.Keeps v g w' ∧ (e.fate = .uncaught → g.Lacks) := by
  obtain ⟨hsound, x, rfl, hb⟩ := h
  have hlapse : ∀ y : Kernel, y.grip = x.grip → ∀ (e : Error) w',
      (B.Books v x.grip.Holds y w' ∧ (e.fate = .uncaught → x.grip.Lacks)) →
        B.Keeps v x.grip w' ∧ (e.fate = .uncaught → x.grip.Lacks) :=
    fun y hy e w' h' => ⟨⟨hsound, y, hy, h'.1⟩, h'.2⟩
  refine hb.readKernel.bind ?_
  rintro x w1 ⟨rfl, h1⟩
  by_cases hstale : x.stale.get s = true
  · rw [if_pos hstale]
    cases hdevice : x.device with
    | none => exact ends_throw ⟨⟨hsound, x, rfl, h1⟩, nofun⟩
    | some n =>
      have hn := hsound.home n hdevice
      have hfull' : v.whole → x.grip.Full :=
        fun hv => (hfull hv).resolve_right fun hnone => by cases hdevice.symm.trans hnone
      have hstaging : ∀ c : Device.Call, c.makes = none ∧ c.ends = none ∧ c ≠ .destroyDevice →
          c.takes = [.buffer] → Device.Fair c [x.staging] (x.grip.Holds n) v.whole :=
        fun c hc htakes => x.grip.fair (l := [.staging]) hc htakes hdevice hfull'
      refine (Books.failing _ (h1.submit (R := x.grip.Lacks)
        (K := fun c _ => ∃ s t k, c = .copy s t k) hn _ (fun w' h' => ?_) ?_)).andThen
        (hlapse x rfl) ?_
      · refine h'.encodeCopy hn _ (fun l => x.grip.fair (l := [.storage s, .staging])
          ⟨rfl, rfl, nofun⟩ rfl hdevice hfull') ?_
        rintro (hnone | hnone)
        · exact ⟨.storage s, hnone⟩
        · exact ⟨.staging, hnone⟩
      · rintro _ e t F ⟨_, _, _, rfl⟩ hno
        cases hno
      rintro _ w2 ⟨c, e, -, h2⟩
      refine (Books.failing _ (h2.forget.forget.map hn _ (hstaging _ ⟨rfl, rfl, nofun⟩ rfl)
        fun hnone => ⟨.staging, hnone⟩)).andThen (hlapse x rfl) fun ws w3 h3 => ?_
      refine (h3.updateKernel _).bind fun _ w4 h4 => ?_
      refine (Books.failing _ (h4.unmap hn (hstaging _ ⟨rfl, rfl, nofun⟩ rfl)
        fun hnone => ⟨.staging, hnone⟩)).andThen (hlapse _ rfl) fun _ w5 h5 => ?_
      exact (h5.updateKernel _).mono (fun _ _ h6 => h6.keeps hsound rfl) fun _ _ => id
  · rw [if_neg hstale]
    exact ends_pure ⟨hsound, x, rfl, h1⟩

theorem Keeps.syncAll (ss : List Storage) :
    (Kernel.syncAll B.kernel B.platform ss).Ends w (fun _ => B.Keeps v g)
      fun e w' => B.Keeps v g w' ∧ (e.fate = .uncaught → g.Lacks) := by
  induction ss generalizing w with
  | nil => exact ends_pure h
  | cons s ss ih => exact (h.sync hfull s).bind fun _ _ h1 => ih h1

theorem Keeps.syncFailures (ss : List Storage) :
    (Kernel.syncFailures B.kernel B.platform ss).Ends w (fun _ => B.Keeps v g)
      fun _ w' => B.Keeps v g w' ∧ g.Lacks := by
  induction ss generalizing w with
  | nil => exact ends_pure h
  | cons s ss ih =>
    have hsync := Act.Ends.caught
      (E := fun fate w' => B.Keeps v g w' ∧ (fate = .uncaught → g.Lacks))
      (h.sync hfull s)
    refine hsync.andThen (fun _ _ h1 => ⟨h1.2.1, h1.2.2 h1.1⟩) fun r w1 h1 => ?_
    cases r with
    | ok u => exact ih h1
    | error e => exact (ih h1.2.1).bind fun es w2 h2 => ends_pure h2

end Reading

section Updating

theorem Keeps.upload (h : B.Keeps v g w) (hfull : v.whole → g.Full) (hdevice : g.device = some n)
    (ss : List Storage) :
    (Kernel.upload B.kernel B.platform (B.platform.devices n) ss).Ends w (fun _ => B.Keeps v g)
      fun _ => B.Keeps v g := by
  induction ss generalizing w with
  | nil => exact ends_pure h
  | cons s ss ih =>
    obtain ⟨hsound, x, rfl, hb⟩ := h
    have hn := hsound.home n hdevice
    refine hb.readKernel.bind ?_
    rintro x w1 ⟨rfl, h1⟩
    by_cases hdirty : x.dirty.get s = true
    · simp only [if_pos hdirty]
      refine (Books.failing (R := True) _ (h1.write hn _ (fun l => x.grip.fair (l := [.storage s])
        ⟨rfl, rfl, nofun⟩ rfl hdevice hfull) fun _ => trivial)).andThen
          (fun _ _ h' => ⟨hsound, x, rfl, h'.1⟩) fun _ w2 h2 => ?_
      exact (h2.updateKernel _).bind fun _ w3 h3 => ih (h3.keeps hsound rfl)
    · simp only [if_neg hdirty]
      exact ih ⟨hsound, x, rfl, h1⟩

theorem Keeps.update (h : B.Keeps v g w) (hfull : v.whole → g.Full ∨ g.device = none)
    (cancelled : Bool) :
    (Kernel.update B.kernel B.platform cancelled).Ends w
      (fun _ w' => ∃ n e size, g.device = some n ∧ g.closed = false ∧
        (e.call = .dispatch size 1 1 ∧ e.handles = g.bound) ∧
        B.Keeps ((v.adding n e).adding n ⟨.submit, [], false⟩) g w')
      fun _ => B.Keeps v g := by
  obtain ⟨hsound, x, rfl, hb⟩ := h
  refine hb.readKernel.bind ?_
  rintro x w1 ⟨rfl, h1⟩
  cases hclosed : x.closed with
  | true => exact ends_throw ⟨hsound, x, rfl, h1⟩
  | false =>
  cases cancelled with
  | true => exact ends_throw ⟨hsound, x, rfl, h1⟩
  | false =>
  simp only [Bool.false_eq_true, if_false]
  unfold Kernel.current
  simp only [bind_assoc]
  refine h1.readKernel.bind ?_
  rintro x w2 ⟨rfl, h2⟩
  refine ends_orAbort (fun n hdevice => ?_) fun _ => ⟨hsound, x, rfl, h2⟩
  have hn := hsound.home n hdevice
  have hfull' : v.whole → x.grip.Full :=
    fun hv => (hfull hv).resolve_right fun hnone => by cases hdevice.symm.trans hnone
  rw [pure_bind]
  have hkeeps : B.Keeps v x.grip w2 := ⟨hsound, x, rfl, h2⟩
  refine (hkeeps.upload hfull' hdevice Storage.all).bind ?_
  rintro _ w3 ⟨-, y, hy, h3⟩
  refine (Books.failing (R := True) _ (h3.submit
    (K := fun _ e => e.call = .dispatch x.buffers.count.toInt.toNat 1 1 ∧
      e.handles = x.grip.bound) hn _ (fun w' h' => h'.encodeDispatch hn _ ?_)
    fun _ _ _ _ _ _ => trivial)).andThen (fun _ _ h' => ⟨hsound, y, hy, h'.1⟩) ?_
  · exact x.grip.fair (l := [.pipeline, .bindGroup]) ⟨rfl, rfl, nofun⟩ rfl hdevice hfull'
  rintro _ w4 ⟨-, e, he, h4⟩
  refine (h4.updateKernel _).bind fun _ w5 h5 => (h5.log _).mono (fun _ w6 h6 => ?_) fun _ _ => id
  exact ⟨n, e, _, hdevice, hclosed, he, h6.keeps hsound hy⟩

end Updating

section Creating

/-- A creation that stops leaves a kernel with some of the resources. -/
def Halts (B : Bench σ) (v : Vantage σ) (g : Grip) (fate : Error.Fate) (w : σ) : Prop :=
  fate = .pending ∧ ∃ g', g.Like g' ∧ B.Keeps v g' w

theorem Slips.pending {holds : Nat → Item → Prop} {fate : Error.Fate}
    (h : B.Slips v holds x False fate w) : fate = .pending := by
  obtain ⟨-, hreported, hcaught⟩ := h
  cases fate with
  | uncaught => exact (hcaught rfl).elim
  | reported => exact absurd rfl hreported
  | pending => rfl

theorem Keeps.createKept {g0 : Grip} (h : B.Keeps v g w) (hlike : g0.Like g)
    (hdevice : g.device = some n) {f : Fixture} (hf : g.fixture? f = none) {context : String}
    {c : Device.Call} {r : Device.Resource} {keep : Handle → Kernel → Kernel}
    {next : Handle → Act σ α} {Q : α → σ → Prop} (hnext : ∀ j w', B.Keeps v (g.keep f j) w' →
      (next j).Ends w' Q fun e => B.Halts v g0 e.fate)
    (hc : c.makes = some f.kind := by exact rfl)
    (hkeep : ∀ j (y : Kernel), y.grip.Like (keep j y).grip ∧
      ∀ f', (keep j y).fixture? f' = if f' = f then some j else y.fixture? f' := by
        exact fun _ _ => ⟨⟨rfl, rfl, rfl, rfl⟩, fun f => by cases f <;> rfl⟩) :
    (do
      let j ← Act.during context (Device.create (B.platform.devices n) c r)
      B.kernel.update (keep j)
      next j).Ends w Q fun e => B.Halts v g0 e.fate := by
  obtain ⟨hsound, x, rfl, hb⟩ := h
  refine (hb.create (R := False) (hsound.home n hdevice) hc r).within.andThen
    (fun e w' h' => ⟨h'.pending, _, hlike, h'.1.keeps hsound rfl⟩) ?_
  rintro j w1 ⟨hnew, h1⟩
  refine (h1.updateKernel _).bind fun _ w2 h2 => hnext j w2 ?_
  have hkept : B.Sound v.reach (x.grip.keep f j) := by
    refine ⟨hsound.shared, hsound.distinct.keep fun f' hf' => ?_, hsound.home⟩
    exact hnew ⟨f'.kind, j⟩ ⟨hdevice, f', rfl, hf'⟩ rfl
  have hgrip : (keep j x).grip = x.grip.keep f j := by
    obtain ⟨⟨hdevice, howned, hclosed, hgroup⟩, hfixture⟩ := hkeep j x
    exact Grip.ext hdevice howned hclosed hgroup (funext hfixture)
  refine (h2.congr fun m y => ?_).keeps hkept hgrip
  by_cases hm : m = n
  · subst hm
    rw [Grip.holds_keep hf hdevice]
    simp
  · have hnot : ∀ g' : Grip, g'.device = some n → ¬g'.Holds m y :=
      fun g' hg' hholds => hm (Option.some.inj (hholds.1.symm.trans hg'))
    simp [hm, hnot _ hdevice, hnot (x.grip.keep f j) hdevice]

theorem Keeps.createStorage {g0 : Grip} (h : B.Keeps v g w) (hlike : g0.Like g)
    (hdevice : g.device = some n) {ss : List Storage} (hss : ss.Nodup)
    (hnone : ∀ s ∈ ss, g.fixture? (.storage s) = none) :
    (Kernel.createStorage B.kernel (B.platform.devices n) ss).Ends w
      (fun _ w' => ∃ g', g.Like g' ∧ B.Keeps v g' w' ∧
        (∀ s ∈ ss, g'.fixture? (.storage s) ≠ none) ∧
        ∀ f, (∀ s ∈ ss, f ≠ .storage s) → g'.fixture? f = g.fixture? f)
      fun e => B.Halts v g0 e.fate := by
  induction ss generalizing w g with
  | nil => exact ends_pure ⟨g, ⟨rfl, rfl, rfl, rfl⟩, h, by simp, fun _ _ => rfl⟩
  | cons s ss ih =>
    obtain ⟨hs, hss⟩ := nodup_cons.mp hss
    obtain ⟨hsound, x, hx, hb⟩ := h
    refine hb.readKernel.bind ?_
    rintro x w1 ⟨rfl, h1⟩
    refine (h1.keeps hsound hx).createKept hlike hdevice (hnone s mem_cons_self)
      (fun j w2 h2 => ?_) rfl fun j y => ⟨⟨rfl, rfl, rfl, rfl⟩, fun f => ?_⟩
    · refine (ih h2 (hlike.trans (g.like_keep _ _)) hdevice hss fun t ht => ?_).mono
        (fun _ w3 h3 => ?_) fun _ _ => id
      · have hts : t ≠ s := fun heq => hs (heq ▸ ht)
        simpa [Grip.keep, hts] using hnone t (mem_cons_of_mem s ht)
      · obtain ⟨g', hg', hkeeps, hmade, hothers⟩ := h3
        refine ⟨g', (g.like_keep _ _).trans hg', hkeeps, fun t ht => ?_, fun f hf => ?_⟩
        · rcases mem_cons.mp ht with rfl | ht
          · rw [hothers (.storage t) fun u hu heq => hs (Fixture.storage.inj heq ▸ hu)]
            simp [Grip.keep]
          · exact hmade t ht
        · rw [hothers f fun t ht => hf t (mem_cons_of_mem s ht)]
          exact if_neg (hf s mem_cons_self)
    · cases f with
      | storage t => simp [Kernel.fixture?, Storage.Table.get_set]
      | bindGroup | staging | params | pipeline | pipeLayout | bindLayout | shader => rfl

/-- A kernel without resources gets all of them, or some creation fails. It can have none on any
device if its work groups are empty. -/
theorem Keeps.createResources (h : B.Keeps v g w) (hg : g.Empty) (hdevice : g.device = some n) :
    (Kernel.createResources B.kernel B.platform).Ends w
      (fun _ w' => g.workgroup ≠ 0 ∧ ∃ g', g.Like g' ∧ g'.Full ∧ B.Keeps v g' w')
      fun e w' => B.Halts v g e.fate w' ∨
        g.workgroup = 0 ∧ e.fate = .uncaught ∧ B.Keeps v g w' := by
  obtain ⟨hsound, x, rfl, hb⟩ := h
  unfold Kernel.createResources Kernel.current
  simp only [bind_assoc]
  refine hb.readKernel.bind ?_
  rintro x w1 ⟨rfl, h1⟩
  refine ends_orAbort (fun m hm => ?_) fun hnone => ?_
  swap
  · cases hdevice.symm.trans hnone
  obtain rfl : m = n := Option.some.inj (hm.symm.trans hdevice)
  rw [pure_bind]
  refine h1.readKernel.bind ?_
  rintro x w2 ⟨rfl, h2⟩
  by_cases hgroup : x.automaton.program.workgroup = 0
  · rw [if_pos hgroup]
    exact ends_throw (.inr ⟨hgroup, rfl, h2.keeps hsound rfl⟩)
  rw [if_neg hgroup]
  refine Act.Ends.mono ?_ (fun _ _ => id) fun e w' (h' : B.Halts v x.grip e.fate w') => .inl h'
  refine (h2.keeps hsound rfl).createKept (f := .shader) ⟨rfl, rfl, rfl, rfl⟩ hdevice (hg .shader)
    fun j1 w3 h3 => ?_
  refine h3.createKept (f := .bindLayout) ⟨rfl, rfl, rfl, rfl⟩ hdevice (hg .bindLayout)
    fun j2 w4 h4 => ?_
  refine h4.createKept (f := .pipeLayout) ⟨rfl, rfl, rfl, rfl⟩ hdevice (hg .pipeLayout)
    fun j3 w5 h5 => ?_
  refine h5.createKept (f := .pipeline) ⟨rfl, rfl, rfl, rfl⟩ hdevice (hg .pipeline)
    fun j4 w6 h6 => ?_
  refine (h6.createStorage ⟨rfl, rfl, rfl, rfl⟩ hdevice (show Storage.all.Nodup by decide)
    fun s _ => hg (.storage s)).bind ?_
  rintro _ w7 ⟨g, hlike, h7, hstorage, hothers⟩
  have hdevice' : g.device = some m := hlike.1.trans hdevice
  obtain ⟨hsound7, y, hy, hb7⟩ := h7
  refine hb7.readKernel.bind ?_
  rintro y w8 ⟨rfl, h8⟩
  refine (h8.keeps hsound7 hy).createKept (f := .staging) hlike hdevice' ?_
    fun j5 w9 h9 => ?_
  · exact (hothers .staging nofun).trans (hg .staging)
  refine h9.createKept (f := .params) (hlike.trans (g.like_keep _ _)) hdevice' ?_
    fun j6 w10 h10 => ?_
  · exact (hothers .params nofun).trans (hg .params)
  obtain ⟨hsound10, z, hz, hb10⟩ := h10
  have hlike10 := (hlike.trans (g.like_keep .staging j5)).trans (Grip.like_keep _ .params j6)
  refine (hb10.write (R := False) (o := some j6) (hsound10.home m hdevice') _ (fun l =>
    Device.fair_one ⟨rfl, rfl, nofun⟩ rfl ⟨hdevice', .params, rfl, rfl⟩) nofun).within.andThen
      (fun e w' h' => ⟨h'.pending, _, hlike10, h'.1.keeps hsound10 hz⟩) fun _ w11 h11 => ?_
  refine (h11.keeps hsound10 hz).createKept (f := .bindGroup) hlike10 hdevice' ?_
    fun j7 w12 h12 => ?_
  · exact (hothers .bindGroup nofun).trans (hg .bindGroup)
  obtain ⟨hsound12, z, hz, hb12⟩ := h12
  refine (hb12.log _).mono (fun _ w13 h13 => ⟨hgroup, _, hlike10.trans (Grip.like_keep _ _ _), ?_,
    h13.keeps hsound12 hz⟩) fun _ _ => id
  have hearlier : ∀ f, (∀ s ∈ Storage.all, f ≠ .storage s) →
      ((((x.grip.keep .shader j1).keep .bindLayout j2).keep .pipeLayout j3).keep .pipeline
        j4).fixture? f ≠ none → g.fixture? f ≠ none := fun f hf h => by rwa [hothers f hf]
  intro f
  cases f with
  | bindGroup | staging | params => exact Option.some_ne_none _
  | storage s => exact hstorage s (by cases s <;> decide)
  | pipeline | pipeLayout | bindLayout | shader =>
    exact hearlier _ nofun (Option.some_ne_none _)

end Creating

section Destroying

variable {fs : List Fixture} {f : Fixture}

theorem Books.crossOut {j : Handle}
    (h : B.Books v (fun m y => ¬(m = n ∧ y = ⟨f.kind, j⟩) ∧ (g.without fs).Holds m y) x w)
    (hg : g.Distinct) (hdevice : g.device = some n) (hf : g.fixture? f = some j) :
    B.Books v (g.without (f :: fs)).Holds x w := by
  refine h.congr fun m y => ?_
  rw [Grip.holds_without hg hf]
  constructor
  · rintro ⟨hnot, hholds⟩
    have hm : m = n := Option.some.inj (hholds.1.symm.trans hdevice)
    exact ⟨fun heq => hnot ⟨hm, heq⟩, hholds⟩
  · rintro ⟨hne, hholds⟩
    exact ⟨fun hboth => hne hboth.2, hholds⟩

section

variable (h : B.Books v (g.without fs).Holds x w) (hg : g.Distinct)
  (hn : B.Numbers n ∧ v.reach n) (hdevice : g.device = some n)

include h hg hn hdevice

theorem Books.destroyHeld (hf : f ∉ fs) {c : Device.Call} (hc : c.ends = some f.kind) :
    (Kernel.destroy (B.platform.devices n) c (g.fixture? f)).Ends w
      (fun _ => B.Books v (g.without (f :: fs)).Holds x) E := by
  cases hj : g.fixture? f with
  | none =>
    rw [Grip.without_none hj]
    exact ends_pure h
  | some j =>
    have hholds : (g.without fs).Holds n ⟨f.kind, j⟩ := ⟨hdevice, f, rfl, (if_neg hf).trans hj⟩
    exact (h.destroy hn hc hholds).mono (fun _ _ h' => h'.crossOut hg hdevice hj) fun _ _ => id

theorem Books.destroyHeldBuffer (hf : f ∉ fs) (hc : f.kind = .buffer) :
    (Kernel.destroyBuffer (B.platform.devices n) (g.fixture? f)).Ends w
      (fun _ => B.Books v (g.without (f :: fs)).Holds x) E := by
  cases hj : g.fixture? f with
  | none =>
    rw [Grip.without_none hj]
    exact ends_pure h
  | some j =>
    refine h.readDevice.bind fun d w1 h1 => ?_
    show (Kernel.destroy (B.platform.devices n) (.destroyBuffer _) (some j)).Ends _ _ _
    rw [← hj]
    exact h1.2.destroyHeld hg hn hdevice hf (by rw [hc]; rfl)

theorem Books.destroyHeldBuffers {ss : List Storage} (hss : ss.Nodup)
    (hfs : ∀ s ∈ ss, .storage s ∉ fs) :
    (Kernel.destroyBuffers (B.platform.devices n) (ss.map fun s => g.fixture? (.storage s))).Ends w
      (fun _ => B.Books v (g.without ((ss.map Fixture.storage).reverse ++ fs)).Holds x) E := by
  induction ss generalizing w fs with
  | nil => exact ends_pure h
  | cons s ss ih =>
    obtain ⟨hs, hss⟩ := nodup_cons.mp hss
    refine (h.destroyHeldBuffer hg hn hdevice (hfs s mem_cons_self) rfl).bind fun _ w1 h1 => ?_
    have hrest := ih h1 hss fun t ht hmem => ?_
    · simpa using hrest
    · rcases mem_cons.mp hmem with heq | hmem
      · exact hs (Fixture.storage.inj heq ▸ ht)
      · exact hfs t (mem_cons_of_mem s ht) hmem

end

theorem Keeps.destroyResources (h : B.Keeps v g w) (hg : g.device = none → g.Empty) :
    (Kernel.destroyResources B.kernel B.platform).Ends w (fun _ => B.Keeps v g.bare) E := by
  obtain ⟨hsound, x, rfl, hb⟩ := h
  refine hb.readKernel.bind ?_
  rintro x w1 ⟨rfl, h1⟩
  cases hdevice : x.device with
  | none =>
    rw [(hg hdevice).bare_eq]
    exact ends_pure (h1.keeps hsound rfl)
  | some n =>
    have hn := hsound.home n hdevice
    have hall : B.Books v (x.grip.without []).Holds x w1 := h1
    have hdistinct := hsound.distinct
    refine (hall.destroyHeld (f := .bindGroup) hdistinct hn hdevice (by decide) rfl).bind
      fun _ w2 h2 => ?_
    refine (h2.destroyHeldBuffers hdistinct hn hdevice (show Storage.all.Nodup by decide)
      (by decide)).bind fun _ w3 h3 => ?_
    refine (h3.destroyHeldBuffer (f := .staging) hdistinct hn hdevice (by decide) rfl).bind
      fun _ w4 h4 => ?_
    refine (h4.destroyHeldBuffer (f := .params) hdistinct hn hdevice (by decide) rfl).bind
      fun _ w5 h5 => ?_
    refine (h5.destroyHeld (f := .pipeline) hdistinct hn hdevice (by decide) rfl).bind
      fun _ w6 h6 => ?_
    refine (h6.destroyHeld (f := .pipeLayout) hdistinct hn hdevice (by decide) rfl).bind
      fun _ w7 h7 => ?_
    refine (h7.destroyHeld (f := .bindLayout) hdistinct hn hdevice (by decide) rfl).bind
      fun _ w8 h8 => ?_
    refine (h8.destroyHeld (f := .shader) hdistinct hn hdevice (by decide) rfl).bind
      fun _ w9 h9 => ?_
    have hbare : x.grip.bare = x.grip.without (.shader :: .bindLayout :: .pipeLayout :: .pipeline ::
        .params :: .staging :: ((Storage.all.map Fixture.storage).reverse ++ [.bindGroup])) := by
      refine Grip.ext rfl rfl rfl rfl (funext fun f => ?_)
      refine (if_pos ?_).symm
      cases f with
      | storage s => cases s <;> decide
      | bindGroup | staging | params | pipeline | pipeLayout | bindLayout | shader => decide
    rw [← hbare] at h9
    have hsound' : B.Sound v.reach x.grip.bare :=
      ⟨hsound.shared, x.grip.bare_empty.distinct, hsound.home⟩
    have hwritten := (h9.moved (B.kernel_set x.stripped h9.has)).keeps hsound' x.grip_stripped
    unfold Kernel.stripped at hwritten
    rw [hdevice] at hwritten
    exact Act.Gives.ends rfl hwritten

theorem Keeps.setEmpty {t : Grip} (h : B.Keeps v g w) (hg : g.Empty) (ht : t.Empty)
    (howned : t.owned = g.owned) (hhome : ∀ n, t.device = some n → B.Numbers n ∧ v.reach n)
    {y : Kernel} (hy : y.grip = t) : B.Keeps v t (B.kernel.set w y) := by
  obtain ⟨hsound, x, -, hb⟩ := h
  refine ((hb.moved (B.kernel_set y hb.has)).congr fun m z => ?_).keeps
    ⟨howned.trans hsound.shared, ht.distinct, hhome⟩ hy
  exact iff_of_false hg.not_holds ht.not_holds

theorem Keeps.updateEmpty {t : Grip} (h : B.Keeps v g w) (hg : g.Empty) (ht : t.Empty)
    (howned : t.owned = g.owned) (hhome : ∀ n, t.device = some n → B.Numbers n ∧ v.reach n)
    {f : Kernel → Kernel} (hf : ∀ y : Kernel, y.grip = g → (f y).grip = t) :
    (B.kernel.update f).Ends w (fun _ => B.Keeps v t) E := by
  refine (Slot.gives_update _ _ w).ends (h.setEmpty hg ht howned hhome ?_)
  obtain ⟨-, x, hx, hb⟩ := h
  exact hf _ (hb.kernel ▸ hx)

theorem Keeps.releaseDevice (h : B.Keeps v g w) (hg : g.Empty) :
    (Kernel.releaseDevice B.kernel B.platform).Ends w (fun _ => B.Keeps v (g.moved none)) E := by
  obtain ⟨hsound, x, rfl, hb⟩ := h
  refine hb.readKernel.bind ?_
  rintro x w1 ⟨rfl, h1⟩
  have howned : x.owned = false := hsound.shared
  simp only [howned, Bool.false_eq_true, if_false]
  exact Act.Gives.ends rfl ((h1.keeps hsound rfl).setEmpty (t := x.grip.moved none) hg hg.moved
    rfl nofun (Grip.ext rfl howned.symm rfl rfl rfl))

end Destroying

section Moving

theorem Keeps.fail (h : B.Keeps v g w) (op : String) {e : Error} (he : e.fate ≠ .uncaught)
    {Q : α → σ → Prop} :
    (Kernel.fail B.platform op e : Act σ α).Ends w Q fun e' w' =>
      B.Keeps v g w' ∧ (e.fate = .pending → e' = .backend "gpu" op e) := by
  obtain ⟨hsound, x, hx, hb⟩ := h
  exact (hb.fail op he).mono (fun _ _ => id) fun _ _ h' => ⟨h'.1.keeps hsound hx, h'.2.2⟩

theorem Keeps.attemptResources (h : B.Keeps v g w) (hg : g.Empty) (hdevice : g.device = some n) :
    (Kernel.createResources B.kernel B.platform).attempt.Ends w
      (fun r w' => match r with
        | .ok _ => g.workgroup ≠ 0 ∧ ∃ g', g.Like g' ∧ g'.Full ∧ B.Keeps v g' w'
        | .error e => B.Halts v g e.fate w')
      fun _ w' => g.workgroup = 0 ∧ B.Keeps v g w' := by
  refine (Act.Ends.caught (E := fun fate w' => B.Halts v g fate w' ∨
    g.workgroup = 0 ∧ fate = .uncaught ∧ B.Keeps v g w') (h.createResources hg hdevice)).mono
      (fun r w' hr => ?_) fun e w' he => ?_
  · cases r with
    | ok u => exact hr
    | error e => exact hr.2.resolve_right fun h' => hr.1 h'.2.1
  · obtain ⟨hfate, hhalts | ⟨hgroup, -, hkeeps⟩⟩ := he
    · cases hfate.symm.trans hhalts.1
    · exact ⟨hgroup, hkeeps⟩

theorem Halts.undo {e : Error} (h : B.Halts v g e.fate w) (hdevice : g.device = some n)
    (op : String) {Q : α → σ → Prop} :
    Act.Ends (do
        Kernel.destroyResources B.kernel B.platform
        Kernel.fail B.platform op e) w Q
      fun e' w' => e' = .backend "gpu" op e ∧ ∃ g', g.Like g' ∧ g'.Empty ∧ B.Keeps v g' w' := by
  obtain ⟨hpending, g', hlike, hkeeps⟩ := h
  have hsome : g'.device ≠ none := by
    rw [hlike.1, hdevice]
    exact Option.some_ne_none n
  refine (hkeeps.destroyResources fun hnone => absurd hnone hsome).bind fun _ w1 h1 => ?_
  refine (h1.fail op (by rw [hpending]; decide)).mono (fun _ _ => id) fun e' w2 h2 => ?_
  exact ⟨h2.2 hpending, g'.bare, hlike, g'.bare_empty, h2.1⟩

theorem Keeps.attach (h : B.Keeps v g w) (hg : g.Empty) (hn : B.Numbers n ∧ v.reach n) :
    (Kernel.attach B.kernel B.platform n).Ends w
      (fun _ w' => ∃ g', g'.Full ∧ g'.device = some n ∧ g'.closed = g.closed ∧ g'.workgroup ≠ 0 ∧
        B.Keeps v g' w')
      fun _ w' => ∃ g', g'.Empty ∧ B.Keeps v g' w' := by
  have hshared := h.sound.shared
  refine (h.updateEmpty (t := g.moved (some n)) hg hg.moved rfl
    (fun m hm => Option.some.inj hm ▸ hn) fun y hy => ?_).bind fun _ w1 h1 => ?_
  · subst hy
    exact Grip.ext rfl hshared.symm rfl rfl rfl
  refine (h1.attemptResources hg.moved rfl).andThen (fun e w' h' => ⟨_, hg.moved, h'.2⟩)
    fun r w2 h2 => ?_
  cases r with
  | ok u =>
    obtain ⟨hgroup, g', hlike, hfull, hkeeps⟩ := h2
    refine ends_pure ⟨g', hfull, hlike.1, hlike.2.2.1, ?_, hkeeps⟩
    rw [hlike.2.2.2]
    exact hgroup
  | error e =>
    exact (Halts.undo h2 rfl _).mono (fun _ _ => id) fun _ _ ⟨_, g', _, hempty, hkeeps⟩ =>
      ⟨g', hempty, hkeeps⟩

/-- How a move ends that was not refused: the kernel has all resources on the other device, or it
has none. -/
theorem Keeps.move (h : B.Keeps v g w) (hfull : v.whole → g.Full ∨ g.device = none)
    (hg : g.Settled) (hgroup : g.workgroup ≠ 0)
    {provider : Provider} (hprovider : ∀ m, provider.device = .ok m → B.Numbers m ∧ v.reach m) :
    (Kernel.move B.kernel B.platform provider).Ends w
      (fun _ w' => ∃ m g', provider.device = .ok m ∧ g'.Full ∧ g'.device = some m ∧
        g'.closed = false ∧ g'.workgroup = g.workgroup ∧ B.Keeps v g' w')
      fun e w' => B.Keeps v g w' ∨
        (∃ e', e = .backend "gpu" "create resources with shared device" e') ∧
          ∃ g', g'.Empty ∧ g'.closed = false ∧ g'.workgroup = g.workgroup ∧ B.Keeps v g' w' := by
  cases hdevice : provider.device with
  | error e =>
    refine Act.Ends.bind (P := fun _ _ => False) ?_ fun _ _ => False.elim
    cases provider with
    | full m => cases hdevice
    | bare | withoutDevice | withoutQueue => exact ends_throw (.inl h)
  | ok m =>
    refine Act.Ends.bind (P := fun m' w' => m' = m ∧ B.Keeps v g w') ?_ ?_
    · exact (gives_ofExcept hdevice w).during.ends ⟨rfl, h⟩
    rintro m w1 ⟨rfl, hsound, x, rfl, hb⟩
    refine hb.readKernel.bind ?_
    rintro x w2 ⟨rfl, h2⟩
    cases hclosed : x.closed with
    | true => exact ends_throw (.inl (h2.keeps hsound rfl))
    | false =>
    simp only [Bool.false_eq_true, if_false]
    refine ((h2.keeps hsound rfl).syncAll hfull Storage.all).andThen (fun _ _ h' => .inl h'.1)
      fun _ w3 h3 => ?_
    refine (h3.destroyResources hg.homeless).bind fun _ w4 h4 => ?_
    have hempty := x.grip.bare_empty
    refine (h4.releaseDevice hempty).bind fun _ w5 h5 => ?_
    refine (h5.updateEmpty (t := x.grip.bare.moved (some m)) hempty.moved hempty.moved rfl
      (fun n hn => Option.some.inj hn ▸ hprovider m hdevice) fun y hy => ?_).bind fun _ w6 h6 => ?_
    · exact congrArg (Grip.moved · (some m)) hy
    refine (h6.attemptResources hempty.moved rfl).andThen (fun e w' h' => absurd h'.1 hgroup)
      fun r w7 h7 => ?_
    cases r with
    | ok u =>
      obtain ⟨-, g', hlike, hfull, hsound', y, hy, hb7⟩ := h7
      refine (hb7.log _).mono (fun _ w8 h8 => ?_) fun _ _ => id
      exact ⟨m, g', rfl, hfull, hlike.1, hlike.2.2.1.trans hclosed, hlike.2.2.2,
        h8.keeps hsound' hy⟩
    | error e =>
      dsimp only
      rw [← bind_assoc]
      refine Act.Ends.bind (P := fun _ _ => False) ?_ fun _ _ => False.elim
      refine (Halts.undo h7 rfl _).mono (fun _ _ => id) fun e' w8 h8 => ?_
      obtain ⟨he', g', hlike, hempty', hkeeps⟩ := h8
      exact .inr ⟨⟨e, he'⟩, g', hempty', hlike.2.2.1.trans hclosed, hlike.2.2.2, hkeeps⟩

theorem Keeps.shutDown (h : B.Keeps v g w) (hg : g.device = none → g.Empty) (es : List Error) :
    Act.Ends (do
        Kernel.destroyResources B.kernel B.platform
        Kernel.releaseDevice B.kernel B.platform
        B.kernel.update fun x => { x with closed := true }
        unless es.isEmpty do throw (.joined es)) w (fun _ => B.Keeps v g.shut)
      fun _ => B.Keeps v g.shut := by
  have hempty := g.bare_empty
  refine (h.destroyResources hg).bind fun _ w1 h1 => ?_
  refine (h1.releaseDevice hempty).bind fun _ w2 h2 => ?_
  refine (h2.updateEmpty (t := g.shut) hempty.moved (fun _ => rfl) rfl nofun fun y hy => ?_).bind
    fun _ w3 h3 => ?_
  · exact congrArg (fun g' : Grip => { g' with closed := true }) hy
  · split
    · exact ends_pure h3
    · exact ends_throw h3

theorem Keeps.close (h : B.Keeps v g w) (hfull : v.whole → g.Full ∨ g.device = none)
    (hg : g.Settled) :
    (Kernel.close B.kernel B.platform).Ends w
      (fun _ w' => ∃ g', g'.Settled ∧ g'.Empty ∧ g'.workgroup = g.workgroup ∧
        (g'.closed = true ∨ g' = g) ∧ B.Keeps v g' w')
      fun _ w' => ∃ g', g'.Settled ∧ g'.Empty ∧ g'.workgroup = g.workgroup ∧
        (g'.closed = true ∨ g' = g) ∧ B.Keeps v g' w' := by
  obtain ⟨hsound, x, rfl, hb⟩ := h
  unfold Kernel.close
  refine hb.readKernel.bind ?_
  rintro x w1 ⟨rfl, h1⟩
  have hkeeps := h1.keeps hsound rfl
  cases hclosed : x.closed with
  | true =>
    exact ends_pure ⟨x.grip, hg, hg.homeless (hg.closed hclosed), rfl, .inr rfl, hkeeps⟩
  | false =>
  simp only [Bool.false_eq_true, if_false]
  refine (hkeeps.syncFailures hfull Storage.all).andThen
    (fun e w' h' => ⟨x.grip, hg, hg.empty h'.2, rfl, .inr rfl, h'.1⟩) fun es w2 h2 => ?_
  have hdone : ∀ w', B.Keeps v x.grip.shut w' → ∃ g' : Grip, g'.Settled ∧ g'.Empty ∧
      g'.workgroup = x.grip.workgroup ∧ (g'.closed = true ∨ g' = x.grip) ∧ B.Keeps v g' w' :=
    fun w' h' => ⟨x.grip.shut, x.grip.shut_settled, fun _ => rfl, rfl, .inl rfl, h'⟩
  have hshut := fun w' (h' : B.Keeps v x.grip w') =>
    (h'.shutDown hg.homeless es).mono (fun _ w'' => hdone w'') fun _ w'' => hdone w''
  obtain ⟨hsound2, y, hy, hb2⟩ := h2
  refine hb2.readKernel.bind ?_
  rintro y w3 ⟨rfl, h3⟩
  cases hdevice : y.device with
  | none => exact hshut w3 (h3.keeps hsound hy)
  | some n =>
    have hn := hsound.home n ((congrArg Grip.device hy).symm.trans hdevice)
    have hwait := (h3.perform (R := False) (c := .waitIdle) hn
      (Device.fair_nil ⟨rfl, rfl, nofun⟩ rfl)).caught
    refine hwait.andThen (fun e w' h' => (h'.2.2.2 h'.1).elim) fun r w4 h4 => ?_
    cases r with
    | ok u => exact hshut w4 (h4.forget.keeps hsound hy)
    | error e => exact (h4.2.1.log _).bind fun _ w5 h5 => hshut w5 (h5.keeps hsound hy)

end Moving

end Bench

end TiledAutomata
