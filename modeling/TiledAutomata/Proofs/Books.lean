import TiledAutomata.Proofs.Holdings

/-!
# Keeping the books

The books of a world tell of every device which resources are alive, and what the task at
hand asked it to do. Each call to a device keeps them: if it creates or destroys a resource
then exactly that one is entered or crossed out, also when the call fails.
-/

namespace TiledAutomata

open Act Function Slot

theorem Act.ends_orAbort {σ α β : Type} {o : Option α} {f : α → Act σ β} {w : σ}
    {Q : β → σ → Prop} {E : Error → σ → Prop} (hsome : ∀ a, o = some a → (f a).Ends w Q E)
    (hnone : o = none → E (.abort none) w) : (Act.orAbort o >>= f).Ends w Q E := by
  cases o with
  | none => exact hnone rfl
  | some a => exact hsome a rfl

open Device (Handle Event Item Kind)

/-- From where records are looked at: the start of a run and the start of its last task. -/
structure Vantage (σ : Type) where
  run : σ
  task : σ
  /-- Whether every call of the task is given all that it takes. -/
  whole : Prop
  /-- The devices that the task may call. -/
  reach : Nat → Prop
  /-- Some calls of the task, in their order. -/
  shown : Nat → List Event

def Vantage.adding {σ : Type} (v : Vantage σ) (n : Nat) (e : Event) : Vantage σ :=
  { v with shown := Function.update v.shown n (v.shown n ++ [e]) }

namespace Bench

variable {σ : Type} (B : Bench σ)

structure Books (v : Vantage σ) (holds : Nat → Item → Prop) (x : Kernel) (w : σ) : Prop where
  has : B.Has w
  kernel : B.kernel.get w = x
  run : ∀ m, B.Numbers m → Device.Account (B.device m v.run) (B.device m w) (holds m)
  task : ∀ m, B.Numbers m →
    Device.Recent (B.device m v.task) (B.device m w) v.whole (v.reach m) (v.shown m)

/-- A failure with the books in order that is not reported yet. There is a reason if it is not
going to be caught. -/
def Slips (v : Vantage σ) (holds : Nat → Item → Prop) (x : Kernel) (R : Prop)
    (fate : Error.Fate) (w : σ) : Prop :=
  B.Books v holds x w ∧ fate ≠ .reported ∧ (fate = .uncaught → R)

variable {B} {v : Vantage σ} {holds holds' : Nat → Item → Prop} {x : Kernel} {w : σ} {n : Nat}
  {R : Prop} {e : Event} {E : Error → σ → Prop}

namespace Books

theorem forget (h : B.Books (v.adding n e) holds x w) : B.Books v holds x w := by
  refine ⟨h.has, h.kernel, h.run, fun m hm => (h.task m hm).forget ?_⟩
  by_cases hmn : m = n
  · subst hmn
    simp [Vantage.adding]
  · simp [Vantage.adding, hmn]

section

variable (h : B.Books v holds x w)

include h

theorem congr (heq : ∀ m y, holds m y ↔ holds' m y) : B.Books v holds' x w :=
  ⟨h.has, h.kernel, fun m hm => (h.run m hm).congr (heq m), h.task⟩

theorem moved {w' : σ} {y : Kernel} (hw : B.Moves w w' y) : B.Books v holds y w' := by
  obtain ⟨hhas, hget, hdevices⟩ := hw
  refine ⟨hhas, hget, fun m hm => ?_, fun m hm => ?_⟩
  · rw [device, device, hdevices m hm]
    exact h.run m hm
  · rw [device, device, hdevices m hm]
    exact h.task m hm

theorem readKernel : B.kernel.read.Ends w (fun y w' => y = x ∧ B.Books v holds x w') E :=
  (gives_read B.kernel w).ends ⟨h.kernel, h⟩

theorem updateKernel (f : Kernel → Kernel) :
    (B.kernel.update f).Ends w (fun _ => B.Books v holds (f x)) E := by
  refine (gives_update B.kernel f w).ends ?_
  rw [h.kernel]
  exact h.moved (B.kernel_set (f x) h.has)

theorem setDevice {w' : σ} {d : Device} {shown : List Event}
    (hw : B.Has w' ∧ B.kernel.get w' = B.kernel.get w ∧ ∀ m, B.Numbers m →
      (B.platform.devices m).get w' = if m = n then d else (B.platform.devices m).get w)
    (hrun : Device.Account (B.device n v.run) d (holds' n))
    (htask : Device.Recent (B.device n v.task) d v.whole (v.reach n) shown)
    (hothers : ∀ m, m ≠ n → ∀ y, holds m y ↔ holds' m y) :
    B.Books { v with shown := Function.update v.shown n shown } holds' x w' := by
  obtain ⟨hhas, hget, hdevices⟩ := hw
  refine ⟨hhas, hget.trans h.kernel, fun m hm => ?_, fun m hm => ?_⟩
  · show Device.Account (B.device m v.run) ((B.platform.devices m).get w') (holds' m)
    rw [hdevices m hm]
    by_cases hmn : m = n
    · subst hmn
      rw [if_pos rfl]
      exact hrun
    · rw [if_neg hmn]
      exact (h.run m hm).congr (hothers m hmn)
  · show Device.Recent (B.device m v.task) ((B.platform.devices m).get w') v.whole (v.reach m)
      (update v.shown n shown m)
    rw [hdevices m hm]
    by_cases hmn : m = n
    · subst hmn
      rw [if_pos rfl, update_self]
      exact htask
    · rw [if_neg hmn, update_of_ne hmn]
      exact h.task m hm

end

section Calls

theorem readDevice (h : B.Books v holds x w) :
    (B.platform.devices n).read.Ends w (fun d w' => d = B.device n w' ∧ B.Books v holds x w') E :=
  (gives_read _ w).ends ⟨rfl, h⟩

theorem updateStore (h : B.Books v holds x w) (hn : B.Numbers n) (f : Device → Device.Store)
    (hsize : ∀ d, (f d).size = d.resources.size) :
    ((B.platform.devices n).update fun d => { d with resources := f d }).Ends w
      (fun _ => B.Books v holds x) E := by
  refine (gives_update _ _ w).ends ?_
  have hset := h.setDevice
    (B.device_set { B.device n w with resources := f (B.device n w) } hn h.has)
    ((h.run n hn).resize rfl (hsize _).ge) (h.task n hn) fun _ _ _ => Iff.rfl
  rwa [update_eq_self] at hset

variable {c : Device.Call} {hs : List (Option Handle)} {o o' : Option Handle}

section

variable (h : B.Books v holds x w) (hn : B.Numbers n ∧ v.reach n)

include h hn

theorem attempt (hc : Device.Fair c hs (holds n) v.whole) :
    (Device.attempt (B.platform.devices n) c hs).Ends w
      (fun failed => B.Books (v.adding n ⟨c, hs, failed⟩) holds x) E :=
  (Device.gives_attempt _ c hs w).ends (h.setDevice (B.device_set _ hn.1 h.has)
    ((h.run n hn.1).fair hc rfl rfl) ((h.task n hn.1).snoc hn.2 hc.enough rfl)
    fun _ _ _ => Iff.rfl)

theorem note (hc : Device.Fair c hs (holds n) v.whole) :
    (Device.note (B.platform.devices n) c hs).Ends w
      (fun _ w' => ∃ failed, B.Books (v.adding n ⟨c, hs, failed⟩) holds x w') E :=
  (h.attempt hn hc).bind fun failed _ h' => ends_pure ⟨failed, h'⟩

theorem perform (hc : Device.Fair c hs (holds n) v.whole) :
    (Device.perform (B.platform.devices n) c hs).Ends w
      (fun _ => B.Books (v.adding n ⟨c, hs, false⟩) holds x)
      fun e => B.Slips v holds x R e.fate := by
  refine (h.attempt hn hc).bind fun failed w' h' => ?_
  cases failed with
  | true => exact ends_throw ⟨h'.forget, nofun, nofun⟩
  | false => exact ends_pure h'

theorem create {k : Kind} (hc : c.makes = some k) (r : Device.Resource) :
    (Device.create (B.platform.devices n) c r).Ends w
      (fun j w' => (∀ y, holds n y → y.handle ≠ j) ∧
        B.Books v (fun m y => m = n ∧ y = ⟨k, j⟩ ∨ holds m y) x w')
      fun e => B.Slips v holds x R e.fate := by
  refine h.readDevice.bind ?_
  rintro d w1 ⟨hd, h1⟩
  have hrun := hd ▸ h1.run n hn.1
  have hwhole : v.whole → Event.Whole ⟨c, [some d.resources.size], d.fails c⟩ := by
    intro _
    rw [Event.Whole, (Device.Call.takes_of_makes hc).1]
    exact ⟨Nat.zero_le _, by simp⟩
  have htask : Device.Recent (B.device n v.task) (d.noted c [some d.resources.size]) _ _ _ :=
    (hd ▸ h1.task n hn.1).snoc hn.2 hwhole rfl
  have hset := B.device_set (d.noted c [some d.resources.size]) hn.1 h1.has
  have hattempt := Device.gives_attempt (B.platform.devices n) c [some d.resources.size] w1
  rw [show (B.platform.devices n).get w1 = d from hd.symm] at hattempt
  cases hfails : d.fails c with
  | true =>
    have hmade : Device.Account (B.device n v.run) (d.noted c [some d.resources.size]) (holds n) :=
      (hrun.create hc rfl (by rw [hfails]; rfl)).congr (by simp [hfails])
    have h2 := forget (h1.setDevice hset hmade htask fun _ _ _ => Iff.rfl)
    rw [hfails] at hattempt
    refine Act.Ends.bind (P := fun _ _ => False) ?_ fun _ _ => False.elim
    unfold Device.perform Act.Ends
    rw [hattempt.bind_outcome]
    exact ⟨h2, nofun, nofun⟩
  | false =>
    rw [hfails] at hattempt
    -- the record of the call and the resource are written one after the other
    have hupdate := Slot.gives_update (B.platform.devices n) (Device.pushed r)
      ((B.platform.devices n).set w1 (d.noted c [some d.resources.size]))
    rw [(hset.2.2 n hn.1).trans (if_pos rfl)] at hupdate
    have hboth : (Device.perform (B.platform.devices n) c [some d.resources.size]).Gives w1 () _ :=
      hattempt.bind (Act.gives_pure _ _)
    refine (hboth.bind (hupdate.bind (f := fun _ => pure d.resources.size) rfl)).ends
      ⟨fun y hy => ?_, ?_⟩
    · obtain ⟨es, -, -, -, halive, hfresh⟩ := hrun
      exact (hfresh y (by rw [((halive y).mpr hy).1]; decide)).ne
    · obtain ⟨hhas, hget, hdevices⟩ := B.device_set
        ((d.noted c [some d.resources.size]).pushed r) hn.1 hset.1
      have hmade : Device.Account (B.device n v.run) ((d.noted c [some d.resources.size]).pushed r)
          fun y => n = n ∧ y = ⟨k, d.resources.size⟩ ∨ holds n y :=
        (hrun.create hc rfl (by rw [hfails]; exact Array.size_push _)).congr (by simp [hfails])
      refine forget (h1.setDevice ⟨hhas, hget.trans hset.2.1, fun m hm => ?_⟩ hmade htask
        fun m hmn y => by simp [hmn])
      rw [hdevices m hm, hset.2.2 m hm]
      split <;> rfl

theorem destroy {k : Kind} {j : Handle} (hc : c.ends = some k) (hj : holds n ⟨k, j⟩) :
    (Device.note (B.platform.devices n) c [some j]).Ends w
      (fun _ => B.Books v (fun m y => ¬(m = n ∧ y = ⟨k, j⟩) ∧ holds m y) x) E := by
  refine Act.Ends.bind ((Device.gives_attempt (B.platform.devices n) c [some j] w).ends
    (Q := fun _ => B.Books v (fun m y => ¬(m = n ∧ y = ⟨k, j⟩) ∧ holds m y) x) ?_)
    fun _ _ h' => ends_pure h'
  have hevents : ((B.device n w).noted c [some j]).events =
      (B.device n w).events ++ [⟨c, [some j], _⟩] := rfl
  have hgone : Device.Account (B.device n v.run) ((B.device n w).noted c [some j])
      fun y => ¬(n = n ∧ y = ⟨k, j⟩) ∧ holds n y :=
    ((h.run n hn.1).destroy hc hj hevents rfl).congr (by simp)
  refine forget (h.setDevice (B.device_set _ hn.1 h.has) hgone
    ((h.task n hn.1).snoc hn.2 (fun _ => ?_) rfl) fun m hmn y => by simp [hmn])
  rw [Event.Whole, Device.Call.takes_of_ends hc]
  exact ⟨Nat.le_refl 1, by simp⟩

theorem given {β : Type} {f : Handle → Act σ β} {Q : β → σ → Prop}
    (hc : Device.Fair c hs (holds n) v.whole)
    (hnone : ∀ w', B.Books v holds x w' → o = none → E (.abort none) w')
    (hsome : ∀ j, o = some j → (f j).Ends w Q E) :
    (Device.given (B.platform.devices n) c hs o >>= f).Ends w Q E := by
  cases o with
  | some j => exact hsome j rfl
  | none =>
    refine Act.Ends.bind (P := fun _ _ => False) ?_ fun _ _ => False.elim
    refine Act.Ends.bind ((gives_update _ _ w).ends (Q := fun _ => B.Books v holds x) ?_)
      fun _ w' h' => ends_throw (hnone w' h' rfl)
    exact forget (e := ⟨c, hs, false⟩) (h.setDevice (B.device_set _ hn.1 h.has)
      ((h.run n hn.1).fair hc rfl rfl) ((h.task n hn.1).snoc hn.2 hc.enough rfl)
      fun _ _ _ => Iff.rfl)

theorem write (ws : Words)
    (hc : ∀ l, Device.Fair (.write l (4 * ws.size)) [o] (holds n) v.whole) (hR : o = none → R) :
    (Device.write (B.platform.devices n) o ws).Ends w (fun _ => B.Books v holds x)
      fun e => B.Slips v holds x R e.fate := by
  refine h.given hn (hc _) (fun w' h' ho => ⟨h', nofun, fun _ => hR ho⟩) ?_
  rintro j rfl
  refine h.readDevice.bind ?_
  rintro _ w1 ⟨rfl, h1⟩
  refine (h1.perform hn (hc _)).bind fun _ w2 h2 => ?_
  exact h2.forget.updateStore hn.1 _ fun _ => Device.Store.size_setWords

theorem encodeDispatch (size : Nat)
    (hc : Device.Fair (.dispatch size 1 1) [o, o'] (holds n) v.whole) :
    (Device.encodeDispatch (B.platform.devices n) size o o').Ends w
      (fun _ w' => ∃ e, (e.call = .dispatch size 1 1 ∧ e.handles = [o, o']) ∧
        B.Books (v.adding n e) holds x w') E :=
  (h.note hn hc).bind fun _ _ ⟨_, h'⟩ => ends_pure ⟨_, ⟨rfl, rfl⟩, h'⟩

theorem encodeCopy (size : Nat)
    (hc : ∀ l, Device.Fair (.copy l (4 * size)) [o, o'] (holds n) v.whole)
    (hR : o = none ∨ o' = none → R) :
    (Device.encodeCopy (B.platform.devices n) o o' size).Ends w
      (fun c w' => ∃ e, (∃ s t k, c = .copy s t k) ∧ B.Books (v.adding n e) holds x w')
      fun e => B.Slips v holds x R e.fate := by
  refine h.given hn (hc _) (fun w' h' ho => ⟨h', nofun, fun _ => hR (.inl ho)⟩) ?_
  rintro source rfl
  refine h.given hn (hc _) (fun w' h' ho => ⟨h', nofun, fun _ => hR (.inr ho)⟩) ?_
  rintro target rfl
  refine h.readDevice.bind ?_
  rintro d w1 ⟨-, h1⟩
  refine (h1.note hn (hc _)).bind ?_
  rintro _ w2 ⟨_, h2⟩
  exact ends_pure ⟨_, ⟨_, _, _, rfl⟩, h2⟩

theorem wait (index elapsed pause polls : Nat) :
    (Device.wait (B.platform.devices n) index elapsed pause polls).Ends w
      (fun _ => B.Books v holds x) fun e => B.Slips v holds x R e.fate := by
  induction polls generalizing w elapsed pause with
  | zero => exact ends_pure h
  | succ polls ih =>
    refine (h.note (c := .poll) hn (Device.fair_nil ⟨rfl, rfl, nofun⟩ rfl)).bind ?_
    rintro _ w1 ⟨_, h1⟩
    split
    · exact ends_throw ⟨h1.forget, nofun, nofun⟩
    · exact h1.forget.readDevice.bind fun _ _ h2 => ih h2.2 _ _

/-- Encodes and submits a command. The device breaks down if it cannot execute it. -/
theorem submit (label : String) {encode : Act σ Device.Command}
    {K : Device.Command → Event → Prop} (hencode : ∀ w', B.Books v holds x w' →
      encode.Ends w' (fun c w'' => ∃ e, K c e ∧ B.Books (v.adding n e) holds x w'')
        fun e => B.Slips v holds x R e.fate)
    (hexecute : ∀ c e s F, K c e → Device.Store.execute? s F c = none → R) :
    (Device.submit (B.platform.devices n) label encode).Ends w
      (fun _ w' => ∃ c e, K c e ∧ B.Books ((v.adding n e).adding n ⟨.submit, [], false⟩) holds x w')
      fun e => B.Slips v holds x R e.fate := by
  refine (h.perform (c := .encoder label) hn
    (Device.fair_nil ⟨rfl, rfl, nofun⟩ rfl)).within.bind fun _ w1 h1 => ?_
  refine (h1.forget.perform (c := .beginCommands) hn
    (Device.fair_nil ⟨rfl, rfl, nofun⟩ rfl)).within.bind fun _ w2 h2 => ?_
  refine (hencode w2 h2.forget).bind ?_
  rintro c w3 ⟨e, he, h3⟩
  refine (h3.perform (c := .endCommands) hn
    (Device.fair_nil ⟨rfl, rfl, nofun⟩ rfl)).within.andThen
      (fun _ _ hs => ⟨hs.1.forget, hs.2⟩) fun _ w4 h4 => ?_
  refine (h4.forget.perform (c := .submit) hn
    (Device.fair_nil ⟨rfl, rfl, nofun⟩ rfl)).within.andThen
      (fun _ _ hs => ⟨hs.1.forget, hs.2⟩) fun _ w5 h5 => ?_
  refine h5.readDevice.bind ?_
  rintro _ w6 ⟨rfl, h6⟩
  refine ends_orAbort (fun t ht => ?_)
    fun hno => ⟨h6.forget.forget, nofun, fun _ => hexecute c e _ _ he hno⟩
  have hset := h6.setDevice (B.device_set { B.device n w6 with
      resources := t, submissions := (B.device n w6).submissions + 1 } hn.1 h6.has)
    ((h6.run n hn.1).resize rfl (Device.Store.size_execute ht).ge) (h6.task n hn.1)
    fun _ _ _ => Iff.rfl
  rw [update_eq_self] at hset
  refine Act.Ends.bind (P := fun _ => B.Books _ holds x) (Act.Gives.ends rfl hset) fun _ w7 h7 => ?_
  exact (h7.wait hn _ _ _ _).mono (fun _ _ h8 => ⟨c, e, he, h8⟩)
    fun _ _ hs => ⟨hs.1.forget.forget, hs.2⟩

theorem map (size : Nat) (hc : Device.Fair (.map (4 * size)) [o] (holds n) v.whole)
    (hR : o = none → R) :
    (Device.map (B.platform.devices n) o size).Ends w (fun _ => B.Books v holds x)
      fun e => B.Slips v holds x R e.fate := by
  refine h.given hn hc (fun w' h' ho => ⟨h', nofun, fun _ => hR ho⟩) ?_
  rintro j rfl
  refine (h.perform hn hc).bind fun _ w1 h1 => ?_
  exact h1.forget.readDevice.bind fun _ _ h2 => ends_pure h2.2

theorem unmap (hc : Device.Fair .unmap [o] (holds n) v.whole) (hR : o = none → R) :
    (Device.unmap (B.platform.devices n) o).Ends w (fun _ => B.Books v holds x)
      fun e => B.Slips v holds x R e.fate := by
  refine h.given hn hc (fun w' h' ho => ⟨h', nofun, fun _ => hR ho⟩) ?_
  rintro j rfl
  exact (h.perform hn hc).mono (fun _ _ h' => h'.forget) fun _ _ => id

end

theorem log (h : B.Books v holds x w) (r : Log.Record) :
    (Kernel.log B.platform r).Ends w (fun _ => B.Books v holds x) E := by
  refine (gives_read _ w).ends (Q := fun _ => B.Books v holds x) h |>.bind ?_
  intro l w' h'
  unfold Logger.log
  split
  · exact (gives_update _ _ w').ends (h'.moved (h'.kernel ▸ B.journal_set _ h'.has))
  · exact ends_pure h'

theorem fail {α : Type} (h : B.Books v holds x w) (op : String) {e : Error}
    (he : e.fate ≠ .uncaught) {Q : α → σ → Prop} :
    (Kernel.fail B.platform op e : Act σ α).Ends w Q fun e' w' =>
      B.Books v holds x w' ∧ e'.fate ≠ .uncaught ∧
        (e.fate = .pending → e' = .backend "gpu" op e) := by
  unfold Kernel.fail
  split
  · rename_i hbackend
    refine ends_throw ⟨h, he, fun hpending => ?_⟩
    unfold Error.fate at hpending
    split at hpending
    · cases hpending
    · cases hpending
    · rw [if_pos hbackend] at hpending
      cases hpending
  · exact (h.log _).bind fun _ _ h' => ends_throw ⟨h', nofun, fun _ => rfl⟩

theorem failing {α : Type} {y : Act σ α} {Q : α → σ → Prop} (op : String)
    (hy : y.Ends w Q fun e => B.Slips v holds x R e.fate) :
    (Kernel.failing B.platform op y).Ends w Q fun e w' =>
      B.Books v holds x w' ∧ (e.fate = .uncaught → R) := by
  refine hy.caught.andThen (fun e w' h' => ⟨h'.2.1, h'.2.2.2⟩) fun r w' hr => ?_
  cases r with
  | ok a => exact ends_pure hr
  | error e =>
    exact (hr.2.1.fail op hr.1).mono (fun _ _ => id)
      fun e' _ h' => ⟨h'.1, fun hu => absurd hu h'.2.1⟩

end Calls

end Books

end Bench

end TiledAutomata
