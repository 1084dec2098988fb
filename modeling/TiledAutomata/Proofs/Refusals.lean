import TiledAutomata.Proofs.Calls

/-!
# What a refusal says

A caller tells errors apart by their causes, wherever in an error they stand. A simulator
with a fleet answers a demand as the fleet does, or refuses it with the cause that the
demand itself shows and nothing changed. Simulators that do so give the same outcomes.
-/

open List

namespace TiledAutomata

open Fleet

variable {k : Call} {i : Int64}

namespace Error

def reports (e : Error) (c : Cause) : Bool := e.chain.any (names c)

def stops : Error → Bool
  | .abort _ => true
  | _ => false

/-- Callers cannot tell two errors apart by their causes. -/
def SameCauses (e e' : Error) : Prop := (∀ c, e.reports c = e'.reports c) ∧ e.stops = e'.stops

/-- An error has one cause and no other, or it stops the program. -/
def Signals (e : Error) : Option Cause → Prop
  | some c => (∀ c', e.reports c' = decide (c' = c)) ∧ e.stops = false
  | none => (∀ c', e.reports c' = false) ∧ e.stops = true

variable {e e' : Error} {c : Cause}

theorem Signals.same {r : Option Cause} (h : e.Signals r) (h' : e'.Signals r) :
    e.SameCauses e' := by
  cases r with
  | none => exact ⟨fun c => (h.1 c).trans (h'.1 c).symm, h.2.trans h'.2.symm⟩
  | some c => exact ⟨fun c => (h.1 c).trans (h'.1 c).symm, h.2.trans h'.2.symm⟩

theorem signals_cause (c : Cause) : (Error.cause c).Signals (some c) :=
  ⟨fun c' => by simp [reports, chain, names], rfl⟩

theorem signals_abort (text : Option String) : (Error.abort text).Signals none :=
  ⟨fun c' => by simp [reports, chain, names], rfl⟩

theorem Signals.within (h : e.Signals (some c)) (context : String) :
    (Error.within context e).Signals (some c) := by
  refine ⟨fun c' => ?_, rfl⟩
  rw [← h.1 c']
  simp [reports, chain, names]

theorem reports_chains {es : List Error} (hes : es ≠ []) (h : ∀ e ∈ es, e.Signals (some c))
    (c' : Cause) : (chains es).any (names c') = decide (c' = c) := by
  induction es with
  | nil => exact absurd rfl hes
  | cons e es ih =>
    have hfirst : e.chain.any (names c') = decide (c' = c) := (h e mem_cons_self).1 c'
    rw [chains, any_append, hfirst]
    by_cases hnil : es = []
    · rw [hnil]
      simp [chains]
    · rw [ih hnil fun e' he' => h e' (mem_cons_of_mem e he'), Bool.or_self]

theorem signals_joined {es : List Error} (hes : es ≠ []) (h : ∀ e ∈ es, e.Signals (some c)) :
    (Error.joined es).Signals (some c) := by
  refine ⟨fun c' => ?_, rfl⟩
  rw [← reports_chains hes h c']
  simp [reports, chain, names]

theorem signals_badInstance (who : String) (i n : Int64) :
    (badInstance who i n).Signals (some .badIndex) :=
  (signals_cause .badIndex).within _

theorem signals_shortBuffer (what : String) (have_ : Nat) (need : Int64) :
    (shortBuffer what have_ need).Signals (some .shortBuffer) :=
  (signals_cause .shortBuffer).within _

end Error

/-- Both calls returned the same, or both failed for the same causes. -/
def SameOutcome : Except Error Words → Except Error Words → Prop
  | .ok ws, .ok vs => ws = vs
  | .error e, .error e' => e.SameCauses e'
  | _, _ => False

/-- A call, or an update on which the caller has given up. -/
inductive Demand where
  | call (k : Call)
  | abandoned

namespace Call

def instance? : Call → Option Int64
  | .setState i _ | .setInput i _ | .setInputMap i _ | .setOutputMap i _ | .state i _
  | .output i _ => some i
  | .setStates _ | .setInputs _ | .update | .states _ | .outputs _ => none

def Reads (j : Int64) (k : Call) : Prop := ∃ buf, k = .state j buf ∨ k = .output j buf

/-- Why a call for an instance is refused, if it is. An update that is refused stops the program. -/
def refusal (s : Shape) (k : Call) : Option Cause :=
  k.instance?.map fun i => if s.Valid i then .shortBuffer else .badIndex

end Call

namespace Demand

def Exact (s : Shape) : Demand → Prop
  | .call k => k.Exact s
  | .abandoned => True

instance (s : Shape) : (x : Demand) → Decidable (x.Exact s)
  | .call k => inferInstanceAs (Decidable (k.Exact s))
  | .abandoned => isTrue trivial

def refusal (s : Shape) : Demand → Option Cause
  | .call k => k.refusal s
  | .abandoned => some .canceled

end Demand

/-- What a demand does to a fleet and what it returns, unless it is refused. -/
def Fleet.answer (f : Fleet) (a : Automaton) (s : Shape) : Demand → Option (Fleet × Words)
  | .call k => f.reply a s 1 k
  | .abandoned => none

def Fleet.next (f : Fleet) (a : Automaton) (s : Shape) (x : Demand) : Fleet :=
  ((f.answer a s x).map Prod.fst).getD f

theorem slotMates_one (i : Int64) : slotMates 1 i = [i.toInt.toNat] := by
  simp [slotMates]

theorem Fleet.putEach_one (f : Fleet) (p : Part) (i : Int64) (ws : Words) :
    f.putEach p (slotMates 1 i) ws = f.put p i.toInt.toNat ws := by
  funext q j
  rw [slotMates_one]
  simp only [Fleet.putEach, Fleet.put, mem_singleton]

theorem Fleet.answer_refused {f : Fleet} {a : Automaton} {s : Shape} (hk : k.instance? = some i)
    (hi : ¬s.Valid i) : f.answer a s (.call k) = none := by
  have hacc : ∀ {width : Int64} {buf : Words}, ¬HostBuffers.Accepts s width i buf :=
    fun h => hi h.1
  cases k with
  | setStates | setInputs | update | states | outputs => cases hk
  | setState | setInput | setInputMap | setOutputMap | state | output =>
    cases hk
    exact if_neg hacc

namespace Simulator

variable {σ τ : Type}

def meet (sim : Simulator σ) : Demand → Act σ Words
  | .call k => sim.perform k
  | .abandoned => do
    sim.update true
    return #[]

def outcomes (sim : Simulator σ) : List Demand → σ → List (Except Error Words)
  | [], _ => []
  | x :: xs, w => ((sim.meet x).outcome w).1 :: sim.outcomes xs ((sim.meet x).outcome w).2

def after (sim : Simulator σ) : List Demand → σ → σ
  | [], w => w
  | x :: xs, w => sim.after xs ((sim.meet x).outcome w).2

end Simulator

section Meeting

variable {σ τ : Type} {a : Automaton} {s : Shape} {f : Fleet}

/-- An operation answers and leads to a world with another fleet, or it is refused and changes
nothing. -/
def Act.Follows (x : Act σ Words) (w : σ) (S : Fleet → σ → Prop) (refusal : Option Cause) :
    Option (Fleet × Words) → Prop
  | some (f, ws) => ∃ w', x.Gives w ws w' ∧ S f w'
  | none => ∃ e, x.outcome w = (.error e, w) ∧ e.Signals refusal

def Simulator.Runs (sim : Simulator σ) (a : Automaton) (s : Shape) (S : Fleet → σ → Prop) : Prop :=
  ∀ f w, S f w → ∀ x : Demand, x.Exact s →
    (sim.meet x).Follows w S (x.refusal s) (f.answer a s x)

variable {g : Fleet} {sim : Simulator σ} {sim' : Simulator τ} {S : Fleet → σ → Prop}
  {S' : Fleet → τ → Prop} {w : σ} {w' : τ} {x : Demand}

theorem Act.Follows.ends {x : Act σ Words} {r : Option Cause} {o : Option (Fleet × Words)}
    (h : x.Follows w S r o) :
    x.Ends w (fun ws w' => ∃ g, o = some (g, ws) ∧ S g w') fun _ w' => o = none ∧ w' = w := by
  cases o with
  | none =>
    obtain ⟨e, he, -⟩ := h
    exact Stops.ends ⟨e, he⟩ ⟨rfl, rfl⟩
  | some answer =>
    obtain ⟨w', hgives, hw'⟩ := h
    exact hgives.ends ⟨answer.1, rfl, hw'⟩

theorem Simulator.Runs.next (h : sim.Runs a s S) (hw : S f w) (hx : x.Exact s) :
    S (f.next a s x) ((sim.meet x).outcome w).2 := by
  have hmeet := h f w hw x hx
  unfold Fleet.next
  cases hanswer : f.answer a s x with
  | none =>
    rw [hanswer] at hmeet
    obtain ⟨e, he, -⟩ := hmeet
    rw [he]
    exact hw
  | some answer =>
    rw [hanswer] at hmeet
    obtain ⟨u, hu, hS⟩ := hmeet
    unfold Act.Gives at hu
    rw [hu]
    exact hS

theorem Simulator.Runs.same (h : sim.Runs a s S) (h' : sim'.Runs a s S') (hw : S f w)
    (hw' : S' g w') (hx : x.Exact s)
    (hfg : (f.answer a s x).map Prod.snd = (g.answer a s x).map Prod.snd) :
    SameOutcome ((sim.meet x).outcome w).1 ((sim'.meet x).outcome w').1 := by
  have hmeet := h f w hw x hx
  have hmeet' := h' g w' hw' x hx
  cases hf : f.answer a s x with
  | none =>
    rw [hf] at hmeet hfg
    rw [Option.map_eq_none_iff.mp hfg.symm] at hmeet'
    obtain ⟨e, he, hsignals⟩ := hmeet
    obtain ⟨e', he', hsignals'⟩ := hmeet'
    rw [he, he']
    exact hsignals.same hsignals'
  | some answer =>
    rw [hf] at hmeet hfg
    obtain ⟨answer', hg, hws⟩ := Option.map_eq_some_iff.mp hfg.symm
    rw [hg] at hmeet'
    obtain ⟨u, hu, -⟩ := hmeet
    obtain ⟨u', hu', -⟩ := hmeet'
    unfold Act.Gives at hu hu'
    rw [hu, hu']
    exact hws.symm

theorem Simulator.Runs.outcomes (h : sim.Runs a s S) (h' : sim'.Runs a s S') {xs : List Demand}
    (hw : S f w) (hw' : S' f w') (hxs : ∀ x ∈ xs, x.Exact s) :
    List.Forall₂ SameOutcome (sim.outcomes xs w) (sim'.outcomes xs w') := by
  induction xs generalizing f w w' with
  | nil => exact .nil
  | cons x xs ih =>
    have hx := hxs x mem_cons_self
    exact .cons (h.same h' hw hw' hx rfl)
      (ih (h.next hw hx) (h'.next hw' hx) fun y hy => hxs y (mem_cons_of_mem x hy))

theorem Simulator.Runs.after (h : sim.Runs a s S) {xs : List Demand} (hw : S f w)
    (hxs : ∀ x ∈ xs, x.Exact s) : ∃ g, S g (sim.after xs w) := by
  induction xs generalizing f w with
  | nil => exact ⟨f, hw⟩
  | cons x xs ih =>
    exact ih (h.next hw (hxs x mem_cons_self)) fun y hy => hxs y (mem_cons_of_mem x hy)

theorem Fleet.next_other (hk : k.instance? = some i) {j : Nat} (hj : j ≠ i.toInt.toNat) (p : Part) :
    f.next a s (.call k) p j = f p j := by
  have hput : ∀ q ws, f.put q i.toInt.toNat ws p j = f p j :=
    fun q ws => f.put_other (fun _ => hj) ws
  have hmates : j ∉ slotMates 1 i := by
    rw [slotMates_one]
    simpa using hj
  have heach : ∀ q ws, f.putEach q (slotMates 1 i) ws p j = f p j :=
    fun q ws => if_neg fun hboth => hmates hboth.2
  unfold next answer
  cases k with
  | setStates | setInputs | update | states | outputs => cases hk
  | setState i' buf | setInput i' buf =>
    cases hk
    dsimp only [reply]
    split
    · exact hput _ _
    · rfl
  | setInputMap i' m | setOutputMap i' m =>
    cases hk
    dsimp only [reply]
    split
    · exact heach _ _
    · rfl
  | state i' buf | output i' buf =>
    dsimp only [reply]
    split <;> rfl

theorem Demand.exact_of_instance (h : k.instance? ≠ none) : (Demand.call k).Exact s := by
  cases k with
  | setStates | setInputs | update | states | outputs => exact absurd rfl h
  | _ => exact trivial

end Meeting

namespace Cpu

open HostBuffers (Accepts)

variable {σ : Type} {init : Cpu} {c : Slot σ Cpu} {journal : Slot σ Journal} {W : σ → Prop} {w : σ}
  {a : Automaton} {s : Shape} {f f' : Fleet} {i : Int64} {buf : Words}

/-- The cause of a call that is refused for an instance. -/
def causeFor (s : Shape) (i : Int64) : Option Cause :=
  some (if s.Valid i then .shortBuffer else .badIndex)

theorem signals_refusal {b : HostBuffers} (h : b.shape = s) (what : String) (width i : Int64)
    (buf : Words) : (b.refusal what width i buf).Signals (causeFor s i) := by
  subst h
  rw [HostBuffers.refusal, causeFor]
  split
  · exact Error.signals_shortBuffer _ _ _
  · exact Error.signals_badInstance _ _ _

theorem refuses_change {op : HostBuffers → Except Error HostBuffers} {e : Error}
    (hop : op (c.get w).buffers = .error e) {r : Option Cause} (he : e.Signals r)
    (next : Unit → Act σ Words) :
    ∃ e, ((bufferSlot c).change op >>= next).outcome w = (.error e, w) ∧ e.Signals r :=
  ⟨e, Act.outcome_bind_error (Slot.outcome_change hop) next, he⟩

theorem follows_write (hc : c.Lawful W) (h : Seen W c a s f w) (p : Part) (what : String) :
    (do (bufferSlot c).change (·.writePart p what i buf); return #[] : Act σ Words).Follows w
      (Seen W c a s) (causeFor s i)
      (if Accepts s (s.width p) i buf then
        some (f.put p i.toInt.toNat (buf.extract 0 (s.width p).toInt.toNat), #[])
      else none) := by
  have hbuffers := h.holds.buffers
  split
  · rename_i hacc
    exact Seen.returning hc h.world (gives_write h.holds hacc what)
  · rename_i hbad
    exact refuses_change (HostBuffers.writePart_error hbuffers hbad what)
      (signals_refusal hbuffers.shape _ _ _ _) _

theorem follows_writeMap (h : Seen W c a s f w) (p : Part) (what : String)
    {next : Unit → Act σ Words} {g : Fleet}
    (hnext : Accepts s (s.width p) i buf → ∃ w', ((bufferSlot c).change (fun b =>
        b.writePart p what i (b.reduced (b.shape.width p) buf)) >>= next).Gives w #[] w' ∧
      Seen W c a s g w') :
    ((bufferSlot c).change (fun b =>
        b.writePart p what i (b.reduced (b.shape.width p) buf)) >>= next).Follows w
      (Seen W c a s) (causeFor s i)
      (if Accepts s (s.width p) i buf then some (g, #[]) else none) := by
  have hbuffers := h.holds.buffers
  split
  · rename_i hacc
    exact hnext hacc
  · rename_i hbad
    exact refuses_change (HostBuffers.writeMap_error hbuffers hbad what)
      (signals_refusal hbuffers.shape _ _ _ _) _

theorem follows_readPart (h : Seen W c a s f w) (p : Part) (what : String) :
    (do Act.ofExcept ((← (bufferSlot c).read).readPart p what i buf)).Follows w (Seen W c a s)
      (causeFor s i)
      (if Accepts s (s.width p) i buf then some (f, buf.overlay 0 (f p i.toInt.toNat))
      else none) := by
  have hbuffers := h.holds.buffers
  split
  · rename_i hacc
    exact ⟨w, gives_readPart h.holds hacc what, h⟩
  · rename_i hbad
    have herror :
        Act.ofExcept ((c.get w).buffers.readPart p what i buf) = (throw _ : Act σ Words) :=
      congrArg Act.ofExcept (HostBuffers.readPart_error hbuffers hbad what)
    exact ⟨_, (Slot.gives_read (bufferSlot c) w).bind_outcome.trans
      (congrArg (Act.outcome · w) herror), signals_refusal hbuffers.shape _ _ _ _⟩

theorem update_cancelled {x : Cpu} (h : x.Holds a s f) :
    x.update true = .error (.cause .canceled) := by
  unfold update
  rw [h.opened]
  rfl

section Runs

variable {d : Descriptor} {wiring : Wiring} {cs : List Program.Compiled}

variable (init journal)

theorem performShared_follows (hb : a.Built d wiring cs) (hc : c.Lawful W) {lanes : Nat}
    (hlanes : 0 < lanes) (hsize : lanes ∣ s.size.toInt.toNat) (h : Seen W c a s f w)
    (hk : k.Exact s) :
    ((simulator init c journal).performShared lanes k).Follows w (Seen W c a s) (k.refusal s)
      (f.reply a s lanes k) := by
  have hf := h.holds
  have hspans := hf.buffers.countable
  cases k with
  | setState i buf => exact follows_write hc h .state _
  | setInput i buf => exact follows_write hc h .input _
  | setStates buf =>
    exact Seen.returning hc h.world (gives_setAll (p := .state) hf _ (hspans.spans hk))
  | setInputs buf =>
    exact Seen.returning hc h.world (gives_setAll (p := .input) hf _ (hspans.spans hk))
  | setInputMap i m =>
    exact follows_writeMap h .inputMap _ fun hacc => gives_shared hc hlanes hsize
      (fun _ _ _ hj hg => gives_writeMap (p := .inputMap) hg ⟨hj, hacc.2⟩ _) hacc.1 h
  | setOutputMap i m =>
    exact follows_writeMap h .outputMap _ fun hacc => gives_shared hc hlanes hsize
      (fun _ _ _ hj hg => gives_writeMap (p := .outputMap) hg ⟨hj, hacc.2⟩ _) hacc.1 h
  | update =>
    rw [Fleet.reply]
    split
    · rename_i hunits
      exact Seen.returning hc h.world (gives_update hb hf hunits)
    · rename_i hbad
      exact ⟨_, Act.outcome_bind_error (Slot.outcome_change (update_error hf hbad)) _,
        Error.signals_abort _⟩
  | state i buf => exact follows_readPart h .state _
  | output i buf => exact follows_readPart h .output _
  | states buf => exact ⟨w, gives_getAll (p := .state) hf _ (hspans.spans hk), h⟩
  | outputs buf => exact ⟨w, gives_getAll (p := .output) hf _ (hspans.spans hk), h⟩

theorem runs (hb : a.Built d wiring cs) (hc : c.Lawful W) :
    (simulator init c journal).Runs a s (Seen W c a s) := by
  intro f w h x hx
  cases x with
  | abandoned =>
    exact ⟨_, Act.outcome_bind_error (Slot.outcome_change (update_cancelled h.holds)) _,
      Error.signals_cause _⟩
  | call k =>
    have hone := performShared_follows init journal hb hc Nat.one_pos (Nat.one_dvd _) h hx
    cases k with
    | setInputMap i m =>
      dsimp only [Fleet.answer, Fleet.reply]
      rw [Fleet.putEach_one]
      exact follows_writeMap h .inputMap _ fun hacc =>
        Seen.returning hc h.world (gives_writeMap (p := .inputMap) h.holds hacc _)
    | setOutputMap i m =>
      dsimp only [Fleet.answer, Fleet.reply]
      rw [Fleet.putEach_one]
      exact follows_writeMap h .outputMap _ fun hacc =>
        Seen.returning hc h.world (gives_writeMap (p := .outputMap) h.holds hacc _)
    | _ => exact hone

end Runs

end Cpu

end TiledAutomata
