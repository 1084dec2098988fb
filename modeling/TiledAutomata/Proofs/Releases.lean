import TiledAutomata.Proofs.Creation
import TiledAutomata.Proofs.Lifetimes
import TiledAutomata.Proofs.Refusals

/-!
# What a kernel leaves behind on its devices

A kernel is built on a device that somebody else owns, and is then used, moved and closed,
with failures of devices at any point. Every resource is created once and destroyed once
at most, on the device that created it. What is not destroyed is on the device in use, and
nothing is left after a kernel is closed or could not be built. A resource is given to a
call only while it is alive, but a kernel that was left without resources by a move gives
its device nothing where a resource is needed.
-/

namespace TiledAutomata

open Act List Platform

open Device (Handle Event Item Kind Orderly made gone)

/-- What a kernel can be asked: a demand, to move to another device, or to close. -/
inductive Task where
  | meet (x : Demand)
  | move (provider : Provider)
  | close

namespace Task

variable {σ : Type}

def perform (sim : Simulator σ) (k : Slot σ Kernel) (p : Platform σ) : Task → Act σ Words
  | .meet x => sim.meet x
  | .move provider => do
    Kernel.move k p provider
    return #[]
  | .close => do
    sim.close
    return #[]

def Fits (devices : Nat) : Task → Prop
  | .move (.full n) => n < devices
  | _ => True

/-- Whether a kernel has resources after a task: a move that fails while they are created leaves it
without, and another move can help. -/
def equips (before : Bool) : Task → Except Error Words → Bool
  | .move _, .ok _ => true
  | .move _, .error (.backend _ op _) => before && op != "create resources with shared device"
  | _, _ => before

theorem of_equips_error {before : Bool} {t : Task} {e : Error}
    (h : t.equips before (.error e) = true) : before = true := by
  unfold equips at h
  split at h
  · contradiction
  · exact (Bool.and_eq_true_iff.mp h).1
  · exact h

def step (sim : Simulator σ) (k : Slot σ Kernel) (p : Platform σ) (s : σ × Bool) (t : Task) :
    σ × Bool :=
  (((t.perform sim k p).outcome s.1).2, t.equips s.2 ((t.perform sim k p).outcome s.1).1)

/-- Tasks one after the other, whatever fails, from a world in which the kernel has resources. -/
def run (sim : Simulator σ) (k : Slot σ Kernel) (p : Platform σ) (ts : List Task) (w : σ) :
    σ × Bool :=
  ts.foldl (step sim k p) (w, true)

end Task

namespace Platform

variable {σ : Type}

def record (p : Platform σ) (m : Nat) (w : σ) : List Event := ((p.devices m).get w).events

def since (p : Platform σ) (m : Nat) (w w' : σ) : List Event :=
  (p.record m w').drop (p.record m w).length

variable {p : Platform σ} {m : Nat} {w w' : σ}

theorem since_eq {es : List Event} (h : p.record m w' = p.record m w ++ es) :
    p.since m w w' = es := by
  rw [since, h, drop_left]

theorem since_append {w'' : σ} (h : p.record m w <+: p.record m w')
    (h' : p.record m w' <+: p.record m w'') :
    p.since m w w' ++ p.since m w' w'' = p.since m w w'' := by
  obtain ⟨es, hes⟩ := h
  obtain ⟨es', hes'⟩ := h'
  have hall : p.record m w'' = p.record m w ++ (es ++ es') := by
    rw [← hes', ← hes, append_assoc]
  rw [since_eq hes.symm, since_eq hes'.symm, since_eq hall]

end Platform

namespace Bench

variable {σ : Type} {B : Bench σ} {v : Vantage σ} {g : Grip} {w : σ}

section Calls

theorem Keeps.change (h : B.Keeps v g w) (f : HostBuffers → Except Error HostBuffers) :
    (B.buffers.change f).Ends w (fun _ => B.Keeps v g) fun _ => B.Keeps v g := by
  obtain ⟨hsound, x, hx, hb⟩ := h
  refine Act.Ends.bind (P := fun y w' => y = x.buffers ∧ w' = w) ?_ ?_
  · exact (Slot.gives_read B.buffers w).ends ⟨congrArg Kernel.buffers hb.kernel, rfl⟩
  rintro _ w' ⟨rfl, rfl⟩
  cases hf : f x.buffers with
  | error e => exact Act.ends_throw (hb.keeps hsound hx)
  | ok y =>
    refine Act.Gives.ends rfl ?_
    have hset := hb.moved (B.kernel_set { x with buffers := y } hb.has)
    rw [← hb.kernel] at hset
    exact hset.keeps hsound (hb.kernel ▸ hx)

theorem Keeps.reply (h : B.Keeps v g w) (f : HostBuffers → Except Error Words) :
    Act.Ends (do Act.ofExcept (f (← B.buffers.read))) w (fun _ => B.Keeps v g)
      fun _ => B.Keeps v g := by
  refine Act.Ends.bind (P := fun _ w' => B.Keeps v g w') (Act.Gives.ends rfl h) fun b w' h' => ?_
  cases f b with
  | error e => exact ends_throw h'
  | ok ws => exact ends_pure h'

theorem Keeps.mark (h : B.Keeps v g w) {f : Kernel → Kernel} (hf : ∀ y, (f y).grip = y.grip)
    {E : Error → σ → Prop} : (B.kernel.update f).Ends w (fun _ => B.Keeps v g) E := by
  obtain ⟨hsound, x, hx, hb⟩ := h
  exact (hb.updateKernel f).mono (fun _ _ h' => h'.keeps hsound ((hf x).trans hx)) fun _ _ => id

theorem Keeps.write (h : B.Keeps v g w) (f : HostBuffers → Except Error HostBuffers)
    {m : Kernel → Kernel} (hm : ∀ y, (m y).grip = y.grip) :
    Act.Ends (do
        (do B.buffers.change f; B.kernel.update m)
        return (#[] : Words)) w (fun _ => B.Keeps v g) fun _ => B.Keeps v g :=
  ((h.change f).bind fun _ _ h1 => h1.mark hm).bind fun _ _ h2 => ends_pure h2

theorem Keeps.call (init : Kernel) (h : B.Keeps v g w)
    (hfull : v.whole → g.Full ∨ g.device = none) {c : Call} (hc : c ≠ .update) :
    ((init.simulator B.kernel B.platform).perform c).Ends w (fun _ => B.Keeps v g)
      fun _ => B.Keeps v g := by
  have hsync : ∀ {α : Type} (s : Storage) {y : Act σ α},
      (∀ w', B.Keeps v g w' → y.Ends w' (fun _ => B.Keeps v g) fun _ => B.Keeps v g) →
        Act.Ends (do Kernel.sync B.kernel B.platform s; y) w (fun _ => B.Keeps v g)
          fun _ => B.Keeps v g :=
    fun s y hy => (h.sync hfull s).andThen (fun _ _ h' => h'.1) fun _ w' h' => hy w' h'
  cases c with
  | setState i buf =>
    refine Act.Ends.bind (hsync .state fun w' h' => ?_) fun _ _ h' => Act.ends_pure h'
    exact (h'.change (·.setState i buf)).bind fun _ _ h1 =>
      h1.mark (f := Kernel.setDirty .state true) fun _ => rfl
  | setStates buf => exact h.write (·.setStates buf) fun _ => rfl
  | setInput i buf => exact h.write (·.setInput i buf) fun _ => rfl
  | setInputs buf => exact h.write (·.setInputs buf) fun _ => rfl
  | setInputMap i m => exact h.write (·.setInputMap i m) fun _ => rfl
  | setOutputMap i m => exact h.write (·.setOutputMap i m) fun _ => rfl
  | update => exact absurd rfl hc
  | state i buf => exact hsync .state fun w' h' => h'.reply (·.getState i buf)
  | states buf => exact hsync .state fun w' h' => h'.reply (·.getStates buf)
  | output i buf => exact hsync .output fun w' h' => h'.reply (·.getOutput i buf)
  | outputs buf => exact hsync .output fun w' h' => h'.reply (·.getOutputs buf)

end Calls

/-- A kernel between two tasks. Unless it was left without resources it has them until it is
closed. -/
structure Fit (g : Grip) (equipped : Bool) : Prop where
  settled : g.Settled
  workgroup : g.workgroup ≠ 0
  full : equipped = true → g.Full ∨ g.device = none

def Passes (B : Bench σ) (v : Vantage σ) (g : Grip) (t : Task) (equipped : Bool)
    (o : Except Error Words) (w : σ) : Prop :=
  (∃ g', Fit g' (t.equips equipped o) ∧ B.Keeps v g' w ∧ (t = .close → g'.Empty)) ∧
  (t = .meet (.call .update) → o = .ok #[] → ∃ n e size, g.device = some n ∧ g.closed = false ∧
    (e.call = .dispatch size 1 1 ∧ e.handles = g.bound) ∧
    B.Keeps ((v.adding n e).adding n ⟨.submit, [], false⟩) g w)

theorem Keeps.adding {n : Nat} {e : Event} (h : B.Keeps (v.adding n e) g w) : B.Keeps v g w := by
  obtain ⟨hsound, x, hx, hb⟩ := h
  exact hb.forget.keeps hsound hx

variable {equipped : Bool}

theorem Keeps.passes {t : Task} {o : Except Error Words} (h : B.Keeps v g w) (hg : Fit g equipped)
    (ht : t.equips equipped o = equipped) (hclose : t ≠ .close)
    (hupdate : t = .meet (.call .update) → o ≠ .ok #[]) : B.Passes v g t equipped o w :=
  ⟨⟨g, by rwa [ht], h, fun heq => absurd heq hclose⟩, fun heq ho => absurd ho (hupdate heq)⟩

theorem Keeps.perform (init : Kernel) (h : B.Keeps v g w) (hg : Fit g equipped) {devices : Nat}
    (hdevices : ∀ m < devices, B.Numbers m) {t : Task} (ht : t.Fits devices)
    (hwhole : v.whole → equipped = true) (hreach : ∀ m, t = .move (.full m) → v.reach m) :
    (t.perform (init.simulator B.kernel B.platform) B.kernel B.platform).Ends w
      (fun ws => B.Passes v g t equipped (.ok ws)) fun e => B.Passes v g t equipped (.error e) := by
  have hfull : v.whole → g.Full ∨ g.device = none := fun hv => hg.full (hwhole hv)
  cases t with
  | meet x =>
    cases x with
    | abandoned =>
      have hupdate := h.update hfull true
      refine hupdate.andThen (fun e w' h' => h'.passes hg rfl nofun nofun) ?_
      rintro _ w' ⟨n, e, size, -, -, -, h'⟩
      exact Act.ends_pure (h'.adding.adding.passes hg rfl nofun nofun)
    | call c =>
      by_cases hc : c = .update
      · subst hc
        refine (h.update hfull false).andThen
          (fun e w' h' => h'.passes hg rfl nofun nofun) ?_
        rintro _ w' ⟨n, e, size, hn, hopen, he, h'⟩
        exact Act.ends_pure ⟨⟨g, hg, h'.adding.adding, nofun⟩,
          fun _ _ => ⟨n, e, size, hn, hopen, he, h'⟩⟩
      · exact (h.call init hfull hc).mono
          (fun _ _ h' => h'.passes hg rfl nofun fun heq => absurd (by cases heq; rfl) hc)
          fun _ _ h' => h'.passes hg rfl nofun nofun
  | move provider =>
    have hprovider : ∀ m, provider.device = .ok m → B.Numbers m ∧ v.reach m := by
      intro m hm
      cases provider with
      | full m' =>
        cases hm
        exact ⟨hdevices m ht, hreach m rfl⟩
      | bare | withoutDevice | withoutQueue => cases hm
    refine (h.move hfull hg.settled hg.workgroup hprovider).andThen (fun e w' h' => ?_) ?_
    · rcases h' with h' | ⟨⟨e', rfl⟩, g', hempty, hopen, hgroup, h'⟩
      · refine ⟨⟨g, ⟨hg.settled, hg.workgroup, fun hequips => hg.full ?_⟩, h', nofun⟩, nofun⟩
        exact Task.of_equips_error hequips
      · refine ⟨⟨g', ⟨⟨.inr hempty, fun _ => hempty, ?_⟩, hgroup ▸ hg.workgroup, ?_⟩, h', nofun⟩,
          nofun⟩
        · exact fun hclosed => by cases hopen.symm.trans hclosed
        · simp [Task.equips]
    · rintro _ w' ⟨m, g', -, hfull', hm, hopen, hgroup, h'⟩
      refine Act.ends_pure
        ⟨⟨g', ⟨⟨.inl hfull', ?_, ?_⟩, hgroup ▸ hg.workgroup, fun _ => .inl hfull'⟩,
        h', nofun⟩, nofun⟩
      · exact fun hnone => by cases hm.symm.trans hnone
      · exact fun hclosed => by cases hopen.symm.trans hclosed
  | close =>
    have hdone : ∀ o w', (∃ g' : Grip, g'.Settled ∧ g'.Empty ∧ g'.workgroup = g.workgroup ∧
        (g'.closed = true ∨ g' = g) ∧ B.Keeps v g' w') → B.Passes v g .close equipped o w' := by
      rintro o w' ⟨g', hsettled, hempty, hgroup, hclosed, h'⟩
      refine ⟨⟨g', ⟨hsettled, hgroup ▸ hg.workgroup, fun hequipped => ?_⟩, h', fun _ => hempty⟩,
        nofun⟩
      rcases hclosed with hclosed | rfl
      · exact .inr (hsettled.closed hclosed)
      · exact hg.full hequipped
    refine (h.close hfull hg.settled).andThen (fun e w' => hdone _ w') fun _ w' h' => ?_
    exact Act.ends_pure (hdone _ w' h')

def Rests (B : Bench σ) (w₀ : σ) (s : σ × Bool) : Prop :=
  ∃ g, Fit g s.2 ∧ B.Keeps ⟨w₀, w₀, False, fun _ => True, fun _ => []⟩ g s.1

theorem Rests.step (init : Kernel) {w0 : σ} {s : σ × Bool} (h : B.Rests w0 s) {devices : Nat}
    (hdevices : ∀ m < devices, B.Numbers m) {t : Task} (ht : t.Fits devices) :
    B.Rests w0 (Task.step (init.simulator B.kernel B.platform) B.kernel B.platform s t) := by
  obtain ⟨g, hg, hkeeps⟩ := h
  obtain ⟨⟨g', hg', hkeeps', -⟩, -⟩ :=
    (hkeeps.perform init hg hdevices ht False.elim fun _ _ => trivial).final
  exact ⟨g', hg', hkeeps'⟩

theorem Rests.run (init : Kernel) {w0 : σ} (h : B.Rests w0 (w, true)) {devices : Nat}
    (hdevices : ∀ m < devices, B.Numbers m) {ts : List Task} (hts : ∀ t ∈ ts, t.Fits devices) :
    B.Rests w0 (Task.run (init.simulator B.kernel B.platform) B.kernel B.platform ts w) := by
  unfold Task.run
  generalize (w, true) = s at h ⊢
  induction ts generalizing s with
  | nil => exact h
  | cons t ts ih =>
    have hstep := h.step init hdevices (hts t List.mem_cons_self)
    exact ih (fun t' ht' => hts t' (List.mem_cons_of_mem t ht')) _ hstep

theorem Keeps.rebase (h : B.Keeps v g w) (whole : Prop) (reach : Nat → Prop)
    (hreach : ∀ n, g.device = some n → reach n) :
    B.Keeps ⟨v.run, w, whole, reach, fun _ => []⟩ g w := by
  obtain ⟨⟨hshared, hdistinct, hhome⟩, x, hx, hb⟩ := h
  refine Books.keeps ⟨hb.has, hb.kernel, hb.run, fun m hm => ?_⟩
    ⟨hshared, hdistinct, fun n hn => ⟨(hhome n hn).1, hreach n hn⟩⟩ hx
  exact ⟨[], (append_nil _).symm, nofun, fun hne => absurd rfl hne, List.Sublist.refl _⟩

theorem Keeps.tended (h : B.Keeps v g w) {m : Nat} (hm : B.Numbers m) :
    B.platform.record m v.run <+: B.platform.record m w ∧
      Device.Tended (B.platform.since m v.run w) ∧ ∀ y, ¬g.Holds m y →
        gone (B.platform.since m v.run w) y = made (B.platform.since m v.run w) y := by
  obtain ⟨-, x, -, hb⟩ := h
  obtain ⟨es, hes, horderly, hspared, halive, -⟩ := hb.run m hm
  rw [since_eq hes]
  refine ⟨⟨es, hes.symm⟩, ⟨horderly, horderly.once, hspared⟩, fun y hy => ?_⟩
  exact horderly.gone_eq fun hy' => hy ((halive y).mp hy')

theorem Keeps.told (h : B.Keeps v g w) {m : Nat} (hm : B.Numbers m) :
    B.platform.record m v.task <+: B.platform.record m w ∧
      (v.whole → ∀ e ∈ B.platform.since m v.task w, e.Whole) ∧
      (B.platform.since m v.task w ≠ [] → v.reach m) ∧
      (v.shown m).Sublist (B.platform.since m v.task w) := by
  obtain ⟨-, x, -, hb⟩ := h
  obtain ⟨es, hes, hwhole, hreach, hshown⟩ := hb.task m hm
  rw [since_eq hes]
  exact ⟨⟨es, hes.symm⟩, hwhole, hreach, hshown⟩

end Bench

namespace Rig

def kernelSlot (n : Nat) (x : Kernel) : Slot Rig Kernel :=
  entry (·.kernels) (fun r xs => { r with kernels := xs }) n x

def bench (m devices : Nat) (x : Kernel) : Bench Rig where
  kernel := kernelSlot m x
  platform := platform
  Has r := m < r.kernels.size ∧ r.devices.size = devices
  Numbers n := n < devices
  kernel_set y h := by
    refine ⟨⟨by simpa [kernelSlot, entry] using h.1, h.2⟩, ?_, fun _ _ => rfl⟩
    simp [kernelSlot, entry, Array.getD_eq_getD_getElem?, h.1]
  device_set d hn h := by
    refine ⟨⟨h.1, by simpa [platform, deviceSlot, entry] using h.2⟩, rfl, fun m hm => ?_⟩
    simp only [platform, deviceSlot, entry, Array.getD_eq_getD_getElem?,
      Array.getElem?_setIfInBounds]
    split
    · rename_i heq
      rw [if_pos heq.symm, if_pos (by rw [h.2]; exact hn)]
      rfl
    · rename_i hne
      rw [if_neg fun heq => hne heq.symm]
  journal_set _ h := ⟨h, rfl, fun _ _ => rfl⟩

variable {a : Option Automaton} {config : Config} {device : Option Nat} {r : Rig} {x : Kernel}

theorem prepare_grip (h : Kernel.prepare a config = .ok x) :
    x.grip.Empty ∧ x.grip.owned = false ∧ x.grip.closed = false ∧ x.grip.device = none := by
  cases a with
  | none => cases h
  | some a =>
    unfold Kernel.prepare at h
    obtain ⟨-, h⟩ := Outcome.guard_ok.mp h
    obtain ⟨b, hb, h⟩ := Outcome.bind_ok.mp h
    cases h
    refine ⟨fun f => ?_, rfl, rfl, rfl⟩
    cases f with
    | storage s => cases s <;> rfl
    | bindGroup | staging | params | pipeline | pipeLayout | bindLayout | shader => rfl

theorem added_keeps (hx : Kernel.prepare a config = .ok x) :
    (bench r.kernels.size r.devices.size x).Keeps ⟨r, r, False, fun _ => True, fun _ => []⟩ x.grip
      { r with kernels := r.kernels.push x } := by
  obtain ⟨hempty, howned, -, hdevice⟩ := prepare_grip hx
  have hsound : (bench r.kernels.size r.devices.size x).Sound (fun _ => True) x.grip :=
    ⟨howned, hempty.distinct, fun n hn => by cases hdevice.symm.trans hn⟩
  refine Bench.Books.keeps ⟨⟨by simp, rfl⟩, ?_, fun m _ => ?_, fun m _ => ?_⟩ hsound rfl
  · simp [bench, kernelSlot, entry, Array.getD_eq_getD_getElem?]
  · refine ⟨[], (append_nil _).symm, Device.orderly_nil,
      fun _ he => absurd he not_mem_nil, fun y => ?_, fun y hy => ?_⟩
    · exact iff_of_false (by simp [Device.Alive, made]) hempty.not_holds
    · exact absurd rfl hy
  · exact ⟨[], (append_nil _).symm, False.elim, fun _ => trivial, List.Sublist.refl _⟩

theorem newKernelOn_ends (hdevice : ∀ n, device = some n → n < r.devices.size) :
    (newKernelOn a config device).Ends r
      (fun handle r1 => ∃ x, handle = ⟨x.simulator (kernelSlot r.kernels.size x) platform,
          .kernel (kernelSlot r.kernels.size x)⟩ ∧
        (bench r.kernels.size r.devices.size x).Rests r (r1, true))
      fun _ r1 => ∀ m < r.devices.size, platform.record m r <+: platform.record m r1 ∧
        Device.Tended (platform.since m r r1) ∧
        ∀ y, gone (platform.since m r r1) y = made (platform.since m r r1) y := by
  have hnothing : ∀ m < r.devices.size, platform.record m r <+: platform.record m r ∧
      Device.Tended (platform.since m r r) ∧
      ∀ y, gone (platform.since m r r) y = made (platform.since m r r) y := by
    intro m _
    rw [since_eq (append_nil _).symm]
    exact ⟨prefix_rfl, ⟨Device.orderly_nil, fun _ => ⟨Nat.zero_le _, le_rfl⟩, nofun⟩,
      fun _ => rfl⟩
  cases device with
  | none => exact ends_throw hnothing
  | some n =>
    cases hx : Kernel.prepare a config with
    | error e =>
      unfold newKernelOn
      rw [hx]
      exact ends_throw hnothing
    | ok x =>
      obtain ⟨hempty, -, hopen, -⟩ := prepare_grip hx
      refine Act.Ends.bind (P := fun k r' => k = x ∧ r' = r)
        (Act.Gives.ends (gives_ofExcept hx r) ⟨rfl, rfl⟩) ?_
      rintro x r ⟨rfl, rfl⟩
      refine Act.Ends.bind (P := fun s r' => s = kernelSlot r.kernels.size x ∧
        r' = { r with kernels := r.kernels.push x })
        (Act.Gives.ends (gives_add _ _ x r) ⟨rfl, rfl⟩) ?_
      rintro _ _ ⟨rfl, rfl⟩
      have hattach := (added_keeps (r := r) hx).attach hempty ⟨hdevice n rfl, trivial⟩
      refine hattach.andThen (fun e r1 h1 m hm => ?_) ?_
      · obtain ⟨g, hg, hkeeps⟩ := h1
        obtain ⟨happended, htended, hgone⟩ := hkeeps.tended hm
        exact ⟨happended, htended, fun y => hgone y hg.not_holds⟩
      · rintro _ r1 ⟨g, hfull, hn, hclosed, hgroup, hkeeps⟩
        refine ends_pure
          ⟨x, rfl, g, ⟨⟨.inl hfull, ?_, ?_⟩, hgroup, fun _ => .inl hfull⟩, hkeeps⟩
        · exact fun hnone => by cases hn.symm.trans hnone
        · exact fun h => by cases (hclosed.trans hopen).symm.trans h

end Rig

/-- Whatever a kernel creates on a device that somebody else owns is destroyed by this device, once:
when the kernel cannot be built, and else until it uses another device or is closed, with failures
of devices at any point. -/
theorem resources_released {a : Option Automaton} {config : Config} {device : Option Nat} {r : Rig}
    (hdevice : ∀ n, device = some n → n < r.devices.size) :
    (Rig.newKernelOn a config device).Ends r
      (fun handle r₁ => ∃ k, handle.kind = .kernel k ∧ ∀ (ts : List Task) (w : Rig),
        (∀ t ∈ ts, t.Fits r.devices.size) → w = (Task.run handle.sim k Rig.platform ts r₁).1 →
        ∀ m < r.devices.size, Rig.platform.record m r <+: Rig.platform.record m w ∧
          Device.Tended (Rig.platform.since m r w) ∧
          ((k.get w).device ≠ some m ∨ (k.get w).closed = true ∨ ts.getLast? = some .close →
            ∀ y, gone (Rig.platform.since m r w) y = made (Rig.platform.since m r w) y))
      fun _ r₁ => ∀ m < r.devices.size, Rig.platform.record m r <+: Rig.platform.record m r₁ ∧
        Device.Tended (Rig.platform.since m r r₁) ∧
        ∀ y, gone (Rig.platform.since m r r₁) y = made (Rig.platform.since m r r₁) y := by
  refine (Rig.newKernelOn_ends hdevice).mono (fun handle r₁ h => ?_) fun _ _ => id
  obtain ⟨x, rfl, hrests⟩ := h
  refine ⟨_, rfl, fun ts w hts hw m hm => ?_⟩
  subst hw
  obtain ⟨g, hg, hkeeps⟩ := hrests.run x (fun _ => id) hts
  obtain ⟨happended, htended, hgone⟩ := hkeeps.tended hm
  refine ⟨happended, htended, fun hend y => ?_⟩
  obtain ⟨-, z, rfl, hb⟩ := hkeeps
  rcases hend with hother | hclosed | hlast
  · refine hgone y fun hholds => hother ?_
    exact (congrArg Kernel.device hb.kernel).trans hholds.1
  · refine hgone y fun hholds => ?_
    have hnone := hg.settled.closed ((congrArg Kernel.closed hb.kernel).symm.trans hclosed)
    cases hnone.symm.trans hholds.1
  · obtain ⟨before, rfl⟩ := List.getLast?_eq_some_iff.mp hlast
    obtain ⟨g', hg', hkeeps'⟩ := hrests.run x (fun _ => id)
      fun t ht => hts t (List.mem_append_left [.close] ht)
    have hclose := (hkeeps'.perform x hg' (fun _ => id) (hts .close (by simp)) False.elim
      nofun).final
    obtain ⟨⟨g'', -, hkeeps'', hempty⟩, -⟩ := hclose
    have hrun := (hkeeps''.tended hm).2.2 y (hempty rfl).not_holds
    unfold Task.run
    rw [List.foldl_append]
    exact hrun

def Rig.faultyPair : Rig := { devices := #[{ faulty := fun i => i == 16 }, {}] }

def Task.sample : List Task :=
  [.meet (.call .update), .meet (.call .update), .move (.full 1), .meet (.call .update), .close]

theorem resources_released_pair : ∃ (a : Automaton) (handle : Rig.Handle) (r₁ w : Rig)
    (k : Slot Rig Kernel), Automaton.compile (some Descriptor.relay) = .ok a ∧
    (∀ n, some 0 = some n → n < Rig.faultyPair.devices.size) ∧
    (Rig.newKernelOn (some a) {} (some 0)).Gives Rig.faultyPair handle r₁ ∧
    handle.kind = .kernel k ∧ (∀ t ∈ Task.sample, t.Fits Rig.faultyPair.devices.size) ∧
    w = (Task.run handle.sim k Rig.platform Task.sample r₁).1 ∧
    ∀ m < Rig.faultyPair.devices.size,
      made (Rig.platform.since m Rig.faultyPair w) ⟨.bindGroup, 12⟩ = 1 ∧
      ∀ y, gone (Rig.platform.since m Rig.faultyPair w) y =
        made (Rig.platform.since m Rig.faultyPair w) y := by
  obtain ⟨a, ha, hmade⟩ := Outcome.exists_ok (Automaton.compile (some Descriptor.relay))
    (fun a => (Rig.newKernelOn (some a) {} (some 0)).givesSuch Rig.faultyPair fun handle r₁ =>
      match handle.kind with
      | .kernel k => (List.range 2).all fun m => decide (made (Rig.platform.since m Rig.faultyPair
          (Task.run handle.sim k Rig.platform Task.sample r₁).1) ⟨.bindGroup, 12⟩ = 1)
      | _ => false)
    (by decide +kernel)
  obtain ⟨handle, r₁, hgives, hcheck⟩ := Act.exists_gives hmade
  have hdevice : ∀ n, some 0 = some n → n < Rig.faultyPair.devices.size := by
    rintro n ⟨⟩
    decide
  have hfits : ∀ t ∈ Task.sample, t.Fits Rig.faultyPair.devices.size := by
    simp [Task.sample, Task.Fits, Rig.faultyPair]
  obtain ⟨k, hkind, hreleased⟩ := (resources_released hdevice).value hgives
  refine ⟨a, handle, r₁, _, k, ha, hdevice, hgives, hkind, hfits, rfl, fun m hm => ⟨?_, ?_⟩⟩
  · rw [hkind] at hcheck
    exact of_decide_eq_true (List.all_eq_true.mp hcheck m (List.mem_range.mpr hm))
  · exact (hreleased Task.sample _ hfits rfl m hm).2.2 (.inr (.inr rfl))

def Rig.brittlePair : Rig := { devices := #[{}, { faulty := fun i => i == 13 }] }

/-- A call is given a resource only while it is alive on the device that is in use. Only after a
move that failed while resources were created can a call be given nothing in the place of one;
otherwise a dispatch that succeeds was submitted with a pipeline and a bind group. -/
theorem handles_alive {a : Option Automaton} {config : Config} {n : Nat} {r r₁ : Rig}
    {handle : Rig.Handle} (hn : n < r.devices.size)
    (hmade : (Rig.newKernelOn a config (some n)).Gives r handle r₁) :
    ∃ k, handle.kind = .kernel k ∧ ∀ (ts : List Task) (t : Task) (s : Rig × Bool)
        (o : Except Error Words × Rig),
      (∀ t' ∈ ts ++ [t], t'.Fits r.devices.size) →
      s = Task.run handle.sim k Rig.platform ts r₁ →
      o = (t.perform handle.sim k Rig.platform).outcome s.1 →
      (∀ m < r.devices.size, Rig.platform.record m s.1 <+: Rig.platform.record m o.2 ∧
        Orderly (Rig.platform.since m r s.1 ++ Rig.platform.since m s.1 o.2) ∧
        (Rig.platform.since m s.1 o.2 ≠ [] →
          (k.get s.1).device = some m ∨ t = .move (.full m)) ∧
        (s.2 = true → ∀ e ∈ Rig.platform.since m s.1 o.2, e.Whole)) ∧
      (s.2 = true → t = .meet (.call .update) → o.1 = .ok #[] →
        ∃ m size p b failed, (k.get s.1).device = some m ∧
          [⟨.dispatch size 1 1, [some p, some b], failed⟩, ⟨.submit, [], false⟩].Sublist
            (Rig.platform.since m s.1 o.2)) := by
  obtain ⟨x, rfl, hrests⟩ := (Rig.newKernelOn_ends fun m hm => Option.some.inj hm ▸ hn).value hmade
  refine ⟨_, rfl, fun ts t s o hts hs ho => ?_⟩
  obtain ⟨g, hg, hkeeps⟩ : (Rig.bench r.kernels.size r.devices.size x).Rests r s :=
    hs ▸ hrests.run x (fun _ => id) fun t' ht' => hts t' (mem_append_left [t] ht')
  subst ho
  have hdevice : ∀ m, g.device = some m ↔
      ((Rig.kernelSlot r.kernels.size x).get s.1).device = some m := by
    intro m
    obtain ⟨-, y, rfl, hb⟩ := hkeeps
    rw [← hb.kernel]
    rfl
  -- the last task is looked at from where it starts
  have hbase := hkeeps.rebase (s.2 = true)
    (fun m => ((Rig.kernelSlot r.kernels.size x).get s.1).device = some m ∨ t = .move (.full m))
    fun m hm => .inl ((hdevice m).mp hm)
  obtain ⟨⟨g', -, hkeeps', -⟩, hupdate⟩ := (hbase.perform x hg (fun _ => id) (hts t (by simp)) id
    fun m hm => .inr hm).final
  refine ⟨fun m hm => ?_, fun hequipped ht ho => ?_⟩
  · obtain ⟨happended, hwhole, hreach, -⟩ := hkeeps'.told hm
    obtain ⟨-, htended, -⟩ := hkeeps'.tended hm
    refine ⟨happended, ?_, hreach, hwhole⟩
    have hall := since_append (hkeeps.tended hm).1 happended
    exact hall ▸ htended.orderly
  · obtain ⟨m, e, size, hm, -, ⟨hcall, hhandles⟩, hdone⟩ := hupdate ht ho
    have hfull := (hg.full hequipped).resolve_right fun hnone => by cases hm.symm.trans hnone
    obtain ⟨p, hp⟩ := Option.ne_none_iff_exists'.mp (hfull .pipeline)
    obtain ⟨b, hb⟩ := Option.ne_none_iff_exists'.mp (hfull .bindGroup)
    have hshown := (hdone.told (hdone.sound.home m hm).1).2.2.2
    have he : e = ⟨.dispatch size 1 1, [some p, some b], e.failed⟩ := by
      rw [← hcall, ← hp, ← hb, show [_, _] = e.handles from hhandles.symm]
    refine ⟨m, size, p, b, e.failed, (hdevice m).mp hm, ?_⟩
    simp only [Vantage.adding, Function.update_self, nil_append, cons_append] at hshown
    exact he ▸ hshown

def Task.straying : List Task := [.meet (.call .update), .move (.full 1)]

/-- A kernel on the first of two devices cannot be moved to the second one, where no bind group can
be created. It dispatches before. After that it has no buffer to write to and the second device
breaks down. -/
theorem handles_alive_stranded : ∃ (a : Automaton) (handle : Rig.Handle) (r₁ : Rig)
    (k : Slot Rig Kernel), Automaton.compile (some Descriptor.relay) = .ok a ∧
    0 < Rig.brittlePair.devices.size ∧
    (Rig.newKernelOn (some a) {} (some 0)).Gives Rig.brittlePair handle r₁ ∧
    handle.kind = .kernel k ∧
    (∃ m size p b failed, (k.get r₁).device = some m ∧
      [⟨.dispatch size 1 1, [some p, some b], failed⟩, ⟨.submit, [], false⟩].Sublist
        (Rig.platform.since m r₁ ((handle.sim.perform .update).outcome r₁).2)) ∧
    ∃ e w, (handle.sim.perform .update).outcome
        (Task.run handle.sim k Rig.platform Task.straying r₁).1 = (.error e, w) ∧
      e.stops = true ∧ ⟨.write "" 24, [none], false⟩ ∈ Rig.platform.record 1 w := by
  obtain ⟨a, ha, hmade⟩ := Outcome.exists_ok (Automaton.compile (some Descriptor.relay))
    (fun a => (Rig.newKernelOn (some a) {} (some 0)).givesSuch Rig.brittlePair fun handle r₁ =>
      match handle.kind with
      | .kernel k =>
        ((handle.sim.perform .update).givesSuch r₁ fun _ _ => true) &&
          (handle.sim.perform .update).stopsSuch
            (Task.run handle.sim k Rig.platform Task.straying r₁).1 fun e w =>
              e.stops && decide (⟨.write "" 24, [none], false⟩ ∈ Rig.platform.record 1 w)
      | _ => false)
    (by decide +kernel)
  obtain ⟨handle, r₁, hgives, hcheck⟩ := Act.exists_gives hmade
  obtain ⟨k, hkind, halive⟩ :=
    handles_alive (show 0 < Rig.brittlePair.devices.size by decide) hgives
  rw [hkind] at hcheck
  obtain ⟨hfirst, hstranded⟩ := Bool.and_eq_true_iff.mp hcheck
  obtain ⟨ws, w, hupdate, -⟩ := Act.exists_gives hfirst
  refine ⟨a, handle, r₁, k, ha, by decide, hgives, hkind, ?_, ?_⟩
  · refine (halive [] (.meet (.call .update)) _ _ (by simp [Task.Fits]) rfl rfl).2 rfl rfl ?_
    obtain ⟨_, _, -, hanswer⟩ := hupdate.of_bind
    obtain ⟨rfl, -⟩ := hanswer.unique (Act.gives_pure _ _)
    exact congrArg Prod.fst hupdate
  · obtain ⟨e, w', hbroken, hlast⟩ := Act.exists_stops hstranded
    obtain ⟨hstops, hrecord⟩ := Bool.and_eq_true_iff.mp hlast
    exact ⟨e, w', hbroken, hstops, of_decide_eq_true hrecord⟩

end TiledAutomata
