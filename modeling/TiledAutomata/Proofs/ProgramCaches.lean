import TiledAutomata.ProgramCache
import TiledAutomata.Proofs.CacheValues
import TiledAutomata.Proofs.DescriptorDocuments

/-!
# The program cache is transparent

Callers put descriptors into memory, edit them and have them compiled. A program is compiled from
a copy at an address that no caller ever gets, so it stays what it was; and it is found again only
under the fingerprint of a descriptor with the same document, so it is what a compilation without
a cache would give.
-/

open List

namespace TiledAutomata

variable {d : Descriptor} {k : Kept} {a : Option Nat}

namespace Automaton

theorem admit?_eq_ok {o : Option Descriptor} (h : admit? o = .ok d) : o = some d := by
  cases o with
  | none => cases h
  | some d' =>
    simp only [admit?, Descriptor.checked] at h
    split at h
    · cases h
      rfl
    · cases h

theorem compile_unnamed (d : Descriptor) : compile (some d.unnamed) = compile (some d) := by
  simp only [compile, admit?, Descriptor.checked, Descriptor.validate_unnamed]
  cases d.validate with
  | ok _ => rfl
  | error f => rfl

theorem build_eq_ok {a : Automaton} (h : build d = .ok a) :
    a = ⟨d, d.fingerprint, a.program, a.plan⟩ := by
  obtain ⟨w, -, h⟩ := Outcome.bind_ok.mp h
  obtain ⟨l, -, h⟩ := Outcome.bind_ok.mp h
  obtain ⟨p, -, h⟩ := Outcome.bind_ok.mp h
  obtain ⟨plan, -, h⟩ := Outcome.bind_ok.mp h
  cases h
  rfl

end Automaton

namespace Descriptor.Store

variable {s : Store} {a b : Nat} {d : Descriptor}

theorem read?_alloc (s : Store) (d : Descriptor) (a : Nat) :
    (s.alloc d).read? a = if a = s.next then some d else s.read? a := by
  simp only [read?, alloc, next, Array.getElem?_push]
  rfl

theorem read?_write_other (h : b ≠ a) : (s.write b d).read? a = s.read? a := by
  simp only [read?, write, Array.getElem?_setIfInBounds, if_neg h]

theorem read?_write_self (h : a < s.next) : (s.write a d).read? a = some d := by
  rw [read?, write, Array.getElem?_setIfInBounds, if_pos rfl]
  exact if_pos h

theorem lt_of_read? (h : s.read? a = some d) : a < s.next :=
  (Array.getElem?_eq_some_iff.mp h).1

theorem read?_alloc_of_some {d' : Descriptor} (h : s.read? a = some d) :
    (s.alloc d').read? a = some d := by
  rw [read?_alloc, if_neg (Nat.ne_of_lt (lt_of_read? h)), h]

theorem next_alloc (s : Store) (d : Descriptor) : (s.alloc d).next = s.next + 1 := by
  simp [next, alloc]

end Descriptor.Store

namespace ProgramCache

open Descriptor (Store)

section Compilation

variable {c c' : ProgramCache} {s t : Store} {n : Nat} {a : Option Nat} {r : Except Error Kept}

/-- All that a compilation can do. -/
inductive Compiles (c : ProgramCache) (s : Store) (n : Nat) (a : Option Nat) :
    Except Error Kept → ProgramCache → Store → Prop
  | refused {e : Error} (hfresh : Automaton.compile (a.bind s.read?) = .error e) :
      Compiles c s n a (.error e) c s
  | found {d : Descriptor} {k : Kept} {c' : ProgramCache}
      (hvalid : Automaton.admit? (a.bind s.read?) = .ok d)
      (hk : c.cache.value? d.fingerprint = some k) (hc : c'.cache.value? = c.cache.value?) :
      Compiles c s n a (.ok k) c' s
  | failed {d : Descriptor} {e : Error} {c' : ProgramCache}
      (hvalid : Automaton.admit? (a.bind s.read?) = .ok d)
      (hfresh : Automaton.compile (a.bind s.read?) = .error e)
      (hc : c'.cache.value? = c.cache.value?) : Compiles c s n a (.error e) c' (s.alloc d.unnamed)
  | made {d : Descriptor} {p : Program} {plan : Plan} {c' : ProgramCache}
      (hvalid : Automaton.admit? (a.bind s.read?) = .ok d)
      (hfresh : Automaton.compile (a.bind s.read?) = .ok ⟨d.unnamed, d.fingerprint, p, plan⟩)
      (hc : ∀ key k, c'.cache.value? key = some k →
        key = d.fingerprint ∧ k = ⟨n, s.next, d.fingerprint, p, plan⟩ ∨
          c.cache.value? key = some k) :
      Compiles c s n a (.ok ⟨n, s.next, d.fingerprint, p, plan⟩) c' (s.alloc d.unnamed)

theorem compiles (h : c.compile s n a = (r, c', t)) : Compiles c s n a r c' t := by
  rw [compile] at h
  cases hvalid : Automaton.admit? (a.bind s.read?) with
  | error e =>
    rw [hvalid] at h
    cases h
    exact .refused (by rw [Automaton.compile, hvalid]; rfl)
  | ok d =>
    rw [hvalid] at h
    have hfresh : Automaton.compile (a.bind s.read?) =
        (Automaton.build d.unnamed).mapError (.within "program") := by
      rw [Automaton.compile, hvalid]
      rfl
    have hcreate : create n d.fingerprint d s =
        (((Automaton.build d.unnamed).mapError (.within "program")).map fun b =>
          ⟨n, s.next, d.fingerprint, b.program, b.plan⟩, s.alloc d.unnamed) := by
      rw [create, d.clone_eq]
    rcases c.cache.getOrCreate_cases d.fingerprint (create n d.fingerprint d) s with
      ⟨k, c1, hk, heq, hc⟩ | ⟨e, c1, s1, hmake, heq, hc⟩ | ⟨k, c1, s1, hmake, heq, hc⟩
    · simp only [Except.mapError, heq] at h
      cases h
      exact .found hvalid hk hc
    · simp only [Except.mapError, heq] at h
      cases h
      cases hbuild : Automaton.build d.unnamed with
      | error f =>
        rw [hcreate, hbuild] at hmake
        cases hmake
        exact .failed hvalid (by rw [hfresh, hbuild]; rfl) hc
      | ok b =>
        rw [hcreate, hbuild] at hmake
        cases hmake
    · simp only [Except.mapError, heq] at h
      cases h
      cases hbuild : Automaton.build d.unnamed with
      | error f =>
        rw [hcreate, hbuild] at hmake
        cases hmake
      | ok b =>
        rw [hcreate, hbuild] at hmake
        cases hmake
        refine .made hvalid ?_ hc
        rw [hfresh, hbuild]
        exact congrArg Except.ok (Automaton.build_eq_ok hbuild)

end Compilation

/-- A program is what its own descriptor compiles to, and that was digested for its key. -/
structure Kept.Compiled (k : Kept) (s : Store) (digested : List Text.Bytes) (d : Descriptor) :
    Prop where
  own : s.read? k.own = some d
  fingerprint : k.fingerprint = d.fingerprint
  digested : d.encoding ∈ digested
  compiled : Automaton.compile (some d) = .ok ⟨d, k.fingerprint, k.program, k.plan⟩

theorem Kept.automaton?_eq {s : Store} (h : s.read? k.own = some d) :
    k.automaton? s = some ⟨d, k.fingerprint, k.program, k.plan⟩ := by
  rw [Kept.automaton?, h]
  rfl

def answer (c : ProgramCache) (s : Store) (n : Nat) (a : Option Nat) :
    Except Error (Option Automaton) :=
  let (r, _, t) := c.compile s n a
  r.map (·.automaton? t)

/-! ## Histories -/

inductive Event where
  | make (d : Descriptor)
  | edit (a : Nat) (d : Descriptor)
  | compile (a : Option Nat)
  | copy (i : Nat)
  | clear

/-- The cache and the memory, with the addresses and the programs that callers have got, and all
that was digested for a key. -/
structure Session where
  store : Store := {}
  cache : ProgramCache := {}
  held : List Nat := []
  given : List Kept := []
  digested : List Text.Bytes := []

variable {s s' : Session}

namespace Session

def hand (s : Session) (d : Descriptor) : Session :=
  { s with store := s.store.alloc d, held := s.store.next :: s.held }

/-- Callers edit what they have an address of. They can compile anything. -/
def step (s : Session) : Event → Session
  | .make d => s.hand d
  | .edit a d => if a ∈ s.held then { s with store := s.store.write a d } else s
  | .compile a =>
    let (r, c, t) := s.cache.compile s.store s.given.length a
    { s with
      store := t
      cache := c
      given := s.given ++ r.toOption.toList
      digested := s.digested ++
        ((Automaton.admit? (a.bind s.store.read?)).toOption.map (·.encoding)).toList }
  | .copy i =>
    match s.given[i]?.bind (·.descriptor? s.store) with
    | some d => s.hand d
    | none => s
  | .clear => { s with cache := s.cache.clear }

def run (s : Session) (h : List Event) : Session := h.foldl step s

theorem run_nil (s : Session) : s.run [] = s := rfl

theorem run_cons (s : Session) (e : Event) (h : List Event) :
    s.run (e :: h) = (s.step e).run h := rfl

theorem step_make (s : Session) (d : Descriptor) : s.step (.make d) = s.hand d := rfl

theorem step_edit {a : Nat} (ha : a ∈ s.held) (d : Descriptor) :
    s.step (.edit a d) = { s with store := s.store.write a d } := if_pos ha

theorem given_step {o : Option Automaton} (h : s.cache.answer s.store s.given.length a = .ok o) :
    ∃ k ∈ (s.step (.compile a)).given, k.automaton? (s.step (.compile a)).store = o := by
  rcases hcomp : s.cache.compile s.store s.given.length a with ⟨r, c, t⟩
  simp only [answer, step, hcomp] at h ⊢
  cases r with
  | error e => cases h
  | ok k => exact ⟨k, by simp [Except.toOption], Except.ok.inj h⟩

/-- What callers have no address of is the same at a later time. -/
structure Later (s s' : Session) : Prop where
  store : ∀ a d, s.store.read? a = some d → a ∉ s.held → s'.store.read? a = some d ∧ a ∉ s'.held
  digested : s.digested ⊆ s'.digested

theorem Later.refl (s : Session) : Later s s := ⟨fun _ _ h hheld => ⟨h, hheld⟩, fun _ h => h⟩

theorem Later.trans {s'' : Session} (h : Later s s') (h' : Later s' s'') : Later s s'' := by
  refine ⟨fun a d hread hheld => ?_, fun x hx => h'.digested (h.digested hx)⟩
  obtain ⟨hread', hheld'⟩ := h.store a d hread hheld
  exact h'.store a d hread' hheld'

theorem later_hand (s : Session) (d : Descriptor) : Later s (s.hand d) := by
  refine ⟨fun a d' hread hheld => ⟨Store.read?_alloc_of_some hread, ?_⟩, fun _ h => h⟩
  have hne := Nat.ne_of_lt (Store.lt_of_read? hread)
  exact not_mem_cons_of_ne_of_not_mem hne hheld

theorem later_step (s : Session) (e : Event) : Later s (s.step e) := by
  cases e with
  | make d => exact later_hand s d
  | edit a d =>
    rw [step]
    split
    · rename_i ha
      refine ⟨fun b d' hread hheld => ⟨?_, hheld⟩, fun _ h => h⟩
      have hne : a ≠ b := fun h => hheld (h ▸ ha)
      rw [← hread]
      exact Store.read?_write_other hne
    · exact .refl s
  | compile a =>
    rcases hcomp : s.cache.compile s.store s.given.length a with ⟨r, c, t⟩
    have hstore : ∀ b d, s.store.read? b = some d → t.read? b = some d := by
      intro b d hread
      cases compiles hcomp with
      | refused | found => exact hread
      | failed | made => exact Store.read?_alloc_of_some hread
    simp only [step, hcomp]
    exact ⟨fun b d hread hheld => ⟨hstore b d hread, hheld⟩, subset_append_left _ _⟩
  | copy i =>
    rw [step]
    split
    · exact later_hand s _
    · exact .refl s
  | clear => exact ⟨fun _ _ h hheld => ⟨h, hheld⟩, fun _ h => h⟩

theorem later_run (s : Session) (h : List Event) : Later s (s.run h) := by
  induction h generalizing s with
  | nil => exact .refl s
  | cons e h ih => exact (later_step s e).trans (ih (s.step e))

/-- A program that no caller can reach into. -/
def Safe (s : Session) (k : Kept) : Prop :=
  k.own ∉ s.held ∧ ∃ d, k.Compiled s.store s.digested d

theorem Safe.later (h : s.Safe k) (hlater : Later s s') : s'.Safe k := by
  obtain ⟨hheld, d, hown, hfingerprint, hdigested, hcompiled⟩ := h
  obtain ⟨hown', hheld'⟩ := hlater.store _ d hown hheld
  exact ⟨hheld', d, hown', hfingerprint, hlater.digested hdigested, hcompiled⟩

theorem Safe.automaton? (h : s.Safe k) (hlater : Later s s') :
    k.automaton? s'.store = k.automaton? s.store := by
  obtain ⟨hheld, d, hd⟩ := h
  rw [Kept.automaton?_eq hd.own, Kept.automaton?_eq (hlater.store _ d hd.own hheld).1]

/-- All programs are safe, and those in the cache are under their fingerprints. -/
structure Sound (s : Session) : Prop where
  held : ∀ a ∈ s.held, a < s.store.next
  given : ∀ k ∈ s.given, s.Safe k
  cached : ∀ key k, s.cache.cache.value? key = some k → k.fingerprint = key ∧ s.Safe k

theorem sound_start : Sound {} := by
  refine ⟨fun a h => (nomatch h), fun k h => (nomatch h), fun key k h => ?_⟩
  simp [Cache.value?] at h

theorem Sound.keep (h : Sound s) (hlater : Later s s') (hheld : ∀ a ∈ s'.held, a < s'.store.next)
    (hgiven : s'.given = s.given)
    (hcached : ∀ key k, s'.cache.cache.value? key = some k → s.cache.cache.value? key = some k) :
    Sound s' where
  held := hheld
  given k hk := (h.given k (hgiven ▸ hk)).later hlater
  cached key k hk := by
    obtain ⟨hkey, hsafe⟩ := h.cached key k (hcached key k hk)
    exact ⟨hkey, hsafe.later hlater⟩

theorem Sound.hand (h : Sound s) (d : Descriptor) : Sound (s.hand d) := by
  refine h.keep (later_hand s d) (fun a ha => ?_) rfl fun _ _ hk => hk
  rw [Session.hand, Store.next_alloc]
  rcases mem_cons.mp ha with rfl | ha
  · exact Nat.lt_succ_self _
  · exact Nat.lt_succ_of_lt (h.held a ha)

theorem Sound.safe_new (h : Sound s) {p : Program} {plan : Plan} (n : Nat)
    (hstore : s'.store = s.store.alloc d.unnamed) (hheld : s'.held = s.held)
    (hdigested : d.encoding ∈ s'.digested)
    (hfresh : Automaton.compile (some d) = .ok ⟨d.unnamed, d.fingerprint, p, plan⟩) :
    s'.Safe ⟨n, s.store.next, d.fingerprint, p, plan⟩ := by
  refine ⟨fun hmem => ?_, d.unnamed, ?_, rfl, hdigested,
    (Automaton.compile_unnamed d).trans hfresh⟩
  · exact Nat.lt_irrefl _ (h.held _ (hheld ▸ hmem))
  · rw [hstore, Store.read?_alloc, if_pos rfl]

theorem Sound.compile (h : Sound s) (a : Option Nat) : Sound (s.step (.compile a)) := by
  have hlater := later_step s (.compile a)
  rcases hcomp : s.cache.compile s.store s.given.length a with ⟨r, c, t⟩
  simp only [step, hcomp] at hlater ⊢
  have hheld : ∀ d, ∀ b ∈ s.held, b < (s.store.alloc d).next := fun d b hb => by
    rw [Store.next_alloc]
    exact Nat.lt_succ_of_lt (h.held b hb)
  cases compiles hcomp with
  | refused => exact h.keep hlater h.held (append_nil _) fun _ _ hk => hk
  | @found d k c' hvalid hk hc =>
    refine ⟨h.held, fun k' hk' => ?_, fun key k' hk' => ?_⟩
    · rcases mem_append.mp hk' with hold | hnew
      · exact (h.given k' hold).later hlater
      · obtain rfl : k' = k := mem_singleton.mp hnew
        exact (h.cached _ k' hk).2.later hlater
    · obtain ⟨hkey, hsafe⟩ := h.cached key k' (hc ▸ hk')
      exact ⟨hkey, hsafe.later hlater⟩
  | @failed d e c' hvalid hfresh hc =>
    exact h.keep hlater (hheld d.unnamed) (append_nil _) fun key k hk => hc ▸ hk
  | @made d p plan c' hvalid hfresh hc =>
    rw [Automaton.admit?_eq_ok hvalid] at hfresh
    rw [hvalid] at hlater ⊢
    have hdigested : d.encoding ∈ s.digested ++ [d.encoding] := by simp
    refine ⟨hheld d.unnamed, fun k' hk' => ?_, fun key k' hk' => ?_⟩
    · rcases mem_append.mp hk' with hold | hnew
      · exact (h.given k' hold).later hlater
      · obtain rfl := mem_singleton.mp hnew
        exact h.safe_new _ rfl rfl hdigested hfresh
    · rcases hc key k' hk' with ⟨rfl, rfl⟩ | hold
      · exact ⟨rfl, h.safe_new _ rfl rfl hdigested hfresh⟩
      · obtain ⟨hkey, hold⟩ := h.cached key k' hold
        exact ⟨hkey, hold.later hlater⟩

theorem Sound.step (h : Sound s) (e : Event) : Sound (s.step e) := by
  cases e with
  | make d => exact h.hand d
  | edit a d =>
    have hlater := later_step s (.edit a d)
    rw [Session.step] at hlater ⊢
    split at hlater
    · rename_i ha
      rw [if_pos ha]
      refine h.keep hlater (fun b hb => ?_) rfl fun _ _ hk => hk
      simpa [Store.next, Store.write] using h.held b hb
    · rename_i ha
      rwa [if_neg ha]
  | compile a => exact h.compile a
  | copy i =>
    rw [Session.step]
    split
    · exact h.hand _
    · exact h
  | clear =>
    refine h.keep (later_step s .clear) h.held rfl fun key k hk => ?_
    rw [Session.step, ProgramCache.clear, Cache.value?_clear] at hk
    cases hk

theorem sound_run (h : List Event) : Sound (run {} h) := by
  have hrun : ∀ (h : List Event) (s : Session), Sound s → Sound (s.run h) := by
    intro h
    induction h with
    | nil => exact fun s hs => hs
    | cons e h ih => exact fun s hs => ih _ (hs.step e)
  exact hrun h {} sound_start

end Session

/-! ## Transparency -/

/-- A cache whose programs are under the fingerprints of their own descriptors answers as if there
were none, unless the descriptor at hand has the fingerprint of another. -/
theorem answer_eq {c : ProgramCache} {s : Store} {n : Nat} (xs : List Text.Bytes)
    (hcached : ∀ key k, c.cache.value? key = some k →
      k.fingerprint = key ∧ ∃ d, k.Compiled s xs d)
    (hsha : ∀ d, Automaton.admit? (a.bind s.read?) = .ok d → ∀ x ∈ xs,
      Sha256.hexDigest x = Sha256.hexDigest d.encoding → x = d.encoding) :
    c.answer s n a = (Automaton.compile (a.bind s.read?)).map some := by
  rcases hcomp : c.compile s n a with ⟨r, c', t⟩
  simp only [answer, hcomp]
  cases compiles hcomp with
  | refused hfresh =>
    rw [hfresh]
    rfl
  | @found d k c' hvalid hk hc =>
    obtain ⟨hkey, d', hcompiled⟩ := hcached _ k hk
    have hencoding := hsha d hvalid _ hcompiled.digested
      (hcompiled.fingerprint.symm.trans hkey)
    have hsame : Automaton.compile (some d) = Automaton.compile (some d') := by
      rw [← Automaton.compile_unnamed d, ← Automaton.compile_unnamed d',
        Descriptor.encoding_eq_iff.mp hencoding]
    rw [Automaton.admit?_eq_ok hvalid, hsame, hcompiled.compiled]
    exact congrArg Except.ok (Kept.automaton?_eq hcompiled.own)
  | failed hvalid hfresh hc =>
    rw [hfresh]
    rfl
  | @made d p plan c' hvalid hfresh hc =>
    rw [hfresh]
    refine congrArg Except.ok (Kept.automaton?_eq ?_)
    rw [Store.read?_alloc, if_pos rfl]

theorem answer_empty (s : Store) (n : Nat) (a : Option Nat) :
    ({} : ProgramCache).answer s n a = (Automaton.compile (a.bind s.read?)).map some := by
  refine answer_eq [] (fun key k hk => ?_) fun d _ x hx => nomatch hx
  simp [Cache.value?] at hk

theorem value?_of_failure {c : ProgramCache} {s : Store} {n : Nat} {e : Error}
    (h : (c.compile s n a).1 = .error e) : (c.compile s n a).2.1.cache.value? = c.cache.value? := by
  rcases hcomp : c.compile s n a with ⟨r, c', t⟩
  rw [hcomp] at h
  cases compiles hcomp with
  | refused => rfl
  | found => cases h
  | failed hvalid hfresh hc => exact hc
  | made => cases h

theorem Session.digested_compile (s : Session) (a : Option Nat) :
    (s.step (.compile a)).digested = s.digested ++
      ((Automaton.admit? (a.bind s.store.read?)).toOption.map (·.encoding)).toList := rfl

/-- After any history a compilation gives the error, or a program with the parts, that it gives with
an empty cache, as long as no two of the documents digested so far have the same digest. Nothing is
stored of a compilation that fails. No program that was returned or stored ever changes. -/
theorem compilation_transparent (h : List Event) (a : Option Nat) (n : Nat) :
    let s := Session.run {} h
    (Set.InjOn Sha256.hexDigest {x | x ∈ (s.step (.compile a)).digested} →
      s.cache.answer s.store n a = ({} : ProgramCache).answer s.store n a) ∧
    (∀ e, (s.cache.compile s.store n a).1 = .error e →
      (s.cache.compile s.store n a).2.1.cache.value? = s.cache.cache.value?) ∧
    (∀ key k, s.cache.cache.value? key = some k → ∃ d : Descriptor, d.fingerprint = key ∧
      (Automaton.compile (some d)).map some = .ok (k.automaton? s.store)) ∧
    ∀ k, (k ∈ s.given ∨ ∃ key, s.cache.cache.value? key = some k) → ∀ h' : List Event,
      k.automaton? (s.run h').store = k.automaton? s.store := by
  intro s
  have hs : s.Sound := Session.sound_run h
  refine ⟨fun hsha => ?_, fun e he => value?_of_failure he, fun key k hk => ?_,
    fun k hk h' => ?_⟩
  · rw [answer_empty]
    refine answer_eq s.digested (fun key k hk => ?_) fun d hvalid x hx hdigest => ?_
    · obtain ⟨hkey, -, hcompiled⟩ := hs.cached key k hk
      exact ⟨hkey, hcompiled⟩
    · refine hsha ?_ ?_ hdigest
      · exact List.mem_append_left _ hx
      · change d.encoding ∈ (s.step (.compile a)).digested
        rw [Session.digested_compile, hvalid]
        exact List.mem_append_right _ (List.mem_singleton_self _)
  · obtain ⟨hkey, -, d, hcompiled⟩ := hs.cached key k hk
    refine ⟨d, hcompiled.fingerprint.symm.trans hkey, ?_⟩
    rw [hcompiled.compiled, Kept.automaton?_eq hcompiled.own]
    rfl
  · have hsafe : s.Safe k := by
      rcases hk with hk | ⟨key, hk⟩
      · exact hs.given k hk
      · exact (hs.cached key k hk).2
    exact hsafe.automaton? (Session.later_run s h')

def counter (width : Int64) : Descriptor where
  width
  height := 1
  cellTypes := some [{ outputs := some [{ id := "1", update := "\x7binput1\x7d+1" }] }]
  unit := { rows := some [{ cells := some [{}] }] }

theorem compilation_transparent_counter :
    ∃ s : Session,
      s = Session.run {} [.make (counter 1), .compile (some 0), .edit 0 (counter 2)] ∧
      s.cache.answer s.store 1 (some 0) = (Automaton.compile (some (counter 2))).map some ∧
      ∃ k ∈ s.given, .ok (k.automaton? s.store) =
        (Automaton.compile (some (counter 1))).map some := by
  obtain ⟨s₀, hs₀⟩ : ∃ s : Session, s = Session.hand {} (counter 1) := ⟨_, rfl⟩
  obtain ⟨s₁, hs₁⟩ : ∃ s, s = s₀.step (.compile (some 0)) := ⟨_, rfl⟩
  have hread₀ : (some 0).bind s₀.store.read? = some (counter 1) := by
    rw [hs₀]
    rfl
  have hrun₁ : Session.run {} [.make (counter 1), .compile (some 0)] = s₁ := by
    rw [Session.run_cons, Session.step_make, ← hs₀, Session.run_cons, ← hs₁, Session.run_nil]
  have hheld : 0 ∈ s₁.held := by
    rw [hs₁, show (s₀.step (.compile (some 0))).held = s₀.held from rfl, hs₀]
    exact List.mem_singleton_self 0
  have hrun : Session.run {} [.make (counter 1), .compile (some 0), .edit 0 (counter 2)] =
      { s₁ with store := s₁.store.write 0 (counter 2) } := by
    rw [Session.run_cons, Session.step_make, ← hs₀, Session.run_cons, ← hs₁, Session.run_cons,
      Session.step_edit hheld, Session.run_nil]
  have hread : (some 0).bind (s₁.store.write 0 (counter 2)).read? = some (counter 2) :=
    Store.read?_write_self ((hrun₁ ▸ Session.sound_run _ : s₁.Sound).held 0 hheld)
  have hdigested₁ : s₁.digested = [(counter 1).encoding] := by
    rw [hs₁, Session.digested_compile, hread₀, hs₀]
    rfl
  obtain ⟨hanswer, -⟩ := compilation_transparent
    [.make (counter 1), .compile (some 0), .edit 0 (counter 2)] (some 0) 1
  obtain ⟨-, -, -, hkept⟩ := compilation_transparent
    [.make (counter 1), .compile (some 0)] (some 0) 1
  rw [hrun] at hanswer
  rw [hrun₁] at hkept
  refine ⟨_, rfl, ?_, ?_⟩
  · rw [hrun, hanswer, answer_empty, hread]
    have hone : (counter 1).fingerprint =
        "464f04a0662f1523c3ab132ed49042b809b339b7a96782c44f7bd57056e90106" := by
      decide +kernel
    have htwo : (counter 2).fingerprint =
        "8c458b79300ebad52a1fcaa06116e36dd7e389eb280d72be8dc83355410790b1" := by
      decide +kernel
    have hne : (counter 1).fingerprint ≠ (counter 2).fingerprint := by
      rw [hone, htwo]
      decide
    rw [Session.digested_compile, hread, hdigested₁]
    rintro x hx y hy hxy
    rcases List.mem_pair.mp hx with rfl | rfl <;> rcases List.mem_pair.mp hy with rfl | rfl
    · rfl
    · exact absurd hxy hne
    · exact absurd hxy.symm hne
    · rfl
  · obtain ⟨b, hb, -⟩ := Outcome.exists_ok (Automaton.compile (some (counter 1)))
      (fun _ => true) (by decide +kernel)
    have hfirst : s₀.cache.answer s₀.store s₀.given.length (some 0) = .ok (some b) := by
      rw [show s₀.cache = {} by rw [hs₀]; rfl, answer_empty, hread₀, hb]
      rfl
    obtain ⟨k, hk, hown⟩ := Session.given_step hfirst
    rw [← hs₁] at hk hown
    have hsame := hkept k (.inl hk) [.edit 0 (counter 2)]
    rw [Session.run_cons, Session.step_edit hheld, Session.run_nil, hown] at hsame
    rw [hrun, hb]
    exact ⟨k, hk, congrArg Except.ok hsame⟩

end ProgramCache

end TiledAutomata
