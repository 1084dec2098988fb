import TiledAutomata.Log
import TiledAutomata.Proofs.Outcome
import TiledAutomata.Proofs.Windows
import TiledAutomata.Simulator

/-!
# What an operation on a world does

An operation from one world gives a value and another world, or it stops with an error in
another world. Where failures come at any point, one condition is stated for the value and
one for the error. Two parts of a world are separate when writing to one leaves the other as
it is, at least in the worlds that an invariant admits. A bulk call does what the calls
for the instances do one after the other.
-/

namespace TiledAutomata

variable {e : Error}

namespace Act

variable {σ α β : Type}

def outcome (x : Act σ α) (w : σ) : Except Error α × σ := x.run.run w

def Gives (x : Act σ α) (w : σ) (a : α) (w' : σ) : Prop := x.outcome w = (.ok a, w')

def Stops (x : Act σ α) (w w' : σ) : Prop := ∃ e, x.outcome w = (.error e, w')

variable {x : Act σ α} {f : α → Act σ β} {a : α} {b : β} {w w1 w2 : σ}

theorem outcome_bind (x : Act σ α) (f : α → Act σ β) (w : σ) :
    (x >>= f).outcome w = match x.outcome w with
      | (.ok a, w1) => (f a).outcome w1
      | (.error e, w1) => (.error e, w1) := by
  unfold outcome
  rw [ExceptT.run_bind, StateT.run_bind]
  rcases x.run.run w with ⟨r, w1⟩
  cases r <;> rfl

theorem gives_pure (a : α) (w : σ) : Gives (pure a) w a w := rfl

theorem stops_throw (e : Error) (w : σ) : Stops (throw e : Act σ α) w w := ⟨e, rfl⟩

theorem Gives.bind (hx : x.Gives w a w1) (hf : (f a).Gives w1 b w2) :
    (x >>= f).Gives w b w2 := by
  unfold Gives at *
  rw [outcome_bind, hx]
  exact hf

theorem outcome_bind_error (hx : x.outcome w = (.error e, w1)) (f : α → Act σ β) :
    (x >>= f).outcome w = (.error e, w1) := by
  rw [outcome_bind, hx]

theorem Gives.bind_outcome (hx : x.Gives w a w1) : (x >>= f).outcome w = (f a).outcome w1 := by
  unfold Gives at hx
  rw [outcome_bind, hx]

theorem Stops.bind (hx : x.Stops w w1) : (x >>= f).Stops w w1 := by
  obtain ⟨e, he⟩ := hx
  exact ⟨e, outcome_bind_error he f⟩

theorem Gives.bind_stops (hx : x.Gives w a w1) (hf : (f a).Stops w1 w2) :
    (x >>= f).Stops w w2 := by
  obtain ⟨e, he⟩ := hf
  exact ⟨e, hx.bind_outcome.trans he⟩

theorem Gives.of_bind (h : (x >>= f).Gives w b w2) :
    ∃ a w1, x.Gives w a w1 ∧ (f a).Gives w1 b w2 := by
  unfold Gives at h
  rw [outcome_bind] at h
  rcases hx : x.outcome w with ⟨r, w1⟩
  rw [hx] at h
  cases r with
  | ok a => exact ⟨a, w1, hx, h⟩
  | error e => cases h

theorem Gives.unique {a' : α} (h : x.Gives w a w1) (h' : x.Gives w a' w2) : a = a' ∧ w1 = w2 := by
  cases h.symm.trans h'
  exact ⟨rfl, rfl⟩

def givesSuch (x : Act σ α) (w : σ) (check : α → σ → Bool) : Bool :=
  match x.outcome w with
  | (.ok a, w₁) => check a w₁
  | (.error _, _) => false

theorem exists_gives {check : α → σ → Bool} (h : x.givesSuch w check = true) :
    ∃ a w1, x.Gives w a w1 ∧ check a w1 = true := by
  unfold givesSuch at h
  split at h
  · rename_i hx
    exact ⟨_, _, hx, h⟩
  · cases h

def stopsSuch (x : Act σ α) (w : σ) (check : Error → σ → Bool) : Bool :=
  match x.outcome w with
  | (.ok _, _) => false
  | (.error e, w₁) => check e w₁

theorem exists_stops {check : Error → σ → Bool} (h : x.stopsSuch w check = true) :
    ∃ e w1, x.outcome w = (.error e, w1) ∧ check e w1 = true := by
  unfold stopsSuch at h
  split at h
  · cases h
  · rename_i hx
    exact ⟨_, _, hx, h⟩

theorem Gives.of_ofExcept {r : Except Error α} (h : (ofExcept r : Act σ α).Gives w a w1) :
    r = .ok a ∧ w = w1 := by
  cases r with
  | ok b =>
    obtain ⟨rfl, rfl⟩ := h.unique (gives_pure b w)
    exact ⟨rfl, rfl⟩
  | error e => cases h

theorem gives_ofExcept {r : Except Error α} (h : r = .ok a) (w : σ) :
    (ofExcept r : Act σ α).Gives w a w := by
  rw [h]
  rfl

theorem stops_ofExcept {r : Except Error α} (h : r = .error e) (w : σ) :
    (ofExcept r : Act σ α).Stops w w := by
  rw [h]
  exact ⟨e, rfl⟩

theorem Gives.during {context : String} (hx : x.Gives w a w1) :
    (Act.during context x).Gives w a w1 := by
  unfold Gives outcome at *
  rw [Act.during, ExceptT.run_adapt, StateT.run_map, hx]
  rfl

/-- What holds of the value and the world after an operation, or else of the error and the
world. -/
def Ends (x : Act σ α) (w : σ) (Q : α → σ → Prop) (E : Error → σ → Prop) : Prop :=
  match x.outcome w with
  | (.ok a, w') => Q a w'
  | (.error e, w') => E e w'

variable {P Q : α → σ → Prop} {E E' : Error → σ → Prop}

theorem Gives.ends (hx : x.Gives w a w1) (h : Q a w1) : x.Ends w Q E := by
  unfold Ends
  rw [hx]
  exact h

theorem Stops.ends {E : σ → Prop} (hx : x.Stops w w1) (h : E w1) : x.Ends w Q fun _ => E := by
  obtain ⟨e, he⟩ := hx
  unfold Ends
  rw [he]
  exact h

theorem Gives.bind_ends {Q : β → σ → Prop} (hx : x.Gives w a w1) (hf : (f a).Ends w1 Q E) :
    (x >>= f).Ends w Q E := by
  unfold Ends at *
  rwa [hx.bind_outcome]

theorem Ends.cases (h : x.Ends w Q E) :
    (∃ a w', x.Gives w a w' ∧ Q a w') ∨ ∃ e w', x.outcome w = (.error e, w') ∧ E e w' := by
  unfold Ends at h
  rcases hx : x.outcome w with ⟨r, w'⟩
  rw [hx] at h
  cases r with
  | ok a => exact Or.inl ⟨a, w', hx, h⟩
  | error e => exact Or.inr ⟨e, w', rfl, h⟩

theorem Ends.final {P : Except Error α → σ → Prop}
    (h : x.Ends w (fun a => P (.ok a)) fun e => P (.error e)) :
    P (x.outcome w).1 (x.outcome w).2 := by
  rcases h.cases with ⟨a, w', hx, h⟩ | ⟨e, w', hx, h⟩ <;> rwa [hx]

theorem Ends.value (h : x.Ends w Q E) (hx : x.Gives w a w1) : Q a w1 := by
  unfold Ends at h
  rwa [hx] at h

theorem ends_pure {a : α} (h : Q a w) : (pure a : Act σ α).Ends w Q E := h

theorem ends_throw (h : E e w) : (throw e : Act σ α).Ends w Q E := h

theorem Ends.mono (h : x.Ends w P E') (hQ : ∀ a w', P a w' → Q a w')
    (hE : ∀ e w', E' e w' → E e w') : x.Ends w Q E := by
  unfold Ends at *
  rcases hx : x.outcome w with ⟨r, w'⟩
  rw [hx] at h
  cases r with
  | ok a => exact hQ a w' h
  | error e => exact hE e w' h

theorem Ends.bind {Q : β → σ → Prop} (h : x.Ends w P E)
    (hf : ∀ a w', P a w' → (f a).Ends w' Q E) : (x >>= f).Ends w Q E := by
  unfold Ends at *
  rw [outcome_bind]
  rcases hx : x.outcome w with ⟨r, w'⟩
  rw [hx] at h
  cases r with
  | ok a => exact hf a w' h
  | error e => exact h

theorem Ends.andThen {Q : β → σ → Prop} (h : x.Ends w P E') (hE : ∀ e w', E' e w' → E e w')
    (hf : ∀ a w', P a w' → (f a).Ends w' Q E) : (x >>= f).Ends w Q E :=
  (h.mono (fun _ _ => id) hE).bind hf

theorem Ends.during {context : String} {E : σ → Prop} (h : x.Ends w Q fun _ => E) :
    (Act.during context x).Ends w Q fun _ => E := by
  unfold Ends outcome at *
  rw [Act.during, ExceptT.run_adapt, StateT.run_map]
  rcases hx : StateT.run x.run w with ⟨r, w'⟩
  rw [hx] at h
  cases r <;> exact h

theorem outcome_attempt (x : Act σ α) (w : σ) :
    x.attempt.outcome w = match x.outcome w with
      | (.error (.abort t), w') => (.error (.abort t), w')
      | (.error .noDevice, w') => (.error .noDevice, w')
      | (r, w') => (.ok r, w') := by
  unfold attempt
  rw [outcome_bind]
  have hlift : outcome (ExceptT.lift x.run : Act σ (Except Error α)) w =
      (.ok (x.outcome w).1, (x.outcome w).2) := rfl
  rw [hlift]
  rcases x.outcome w with ⟨r, w'⟩
  cases r with
  | ok a => rfl
  | error e => cases e <;> rfl

theorem Gives.attempt (hx : x.Gives w a w1) : x.attempt.Gives w (.ok a) w1 := by
  unfold Gives at *
  rw [outcome_attempt, hx]

theorem discard_eq (x : Act σ α) : discard x = x >>= fun _ => pure () := by
  rw [Functor.discard, map_const]
  exact map_eq_pure_bind _ _

theorem Gives.discarded (hx : x.Gives w a w1) : (discard x).Gives w () w1 := by
  rw [discard_eq]
  exact hx.bind (gives_pure () w1)

end Act

namespace Slot

variable {σ α β : Type} {s : Slot σ α} {w : σ}

/-- A slot that holds what was written to it, in the worlds that an invariant admits. -/
def Lawful (W : σ → Prop) (s : Slot σ α) : Prop :=
  ∀ w x, W w → W (s.set w x) ∧ s.get (s.set w x) = x

/-- Two slots of which each leaves what the other holds. -/
structure Apart (W : σ → Prop) (s : Slot σ α) (t : Slot σ β) : Prop where
  left : s.Lawful W
  right : t.Lawful W
  leaves_right : ∀ w x, W w → t.get (s.set w x) = t.get w
  leaves_left : ∀ w y, W w → s.get (t.set w y) = s.get w

theorem gives_read (s : Slot σ α) (w : σ) : s.read.Gives w (s.get w) w := rfl

theorem gives_update (s : Slot σ α) (f : α → α) (w : σ) :
    (s.update f).Gives w () (s.set w (f (s.get w))) := rfl

theorem gives_change {f : α → Except Error α} {a : α} (h : f (s.get w) = .ok a) :
    (s.change f).Gives w () (s.set w a) :=
  (gives_read s w).bind ((Act.gives_ofExcept h w).bind rfl)

theorem outcome_change {f : α → Except Error α} (h : f (s.get w) = .error e) :
    (s.change f).outcome w = (.error e, w) := by
  refine (gives_read s w).bind_outcome.trans (Act.outcome_bind_error ?_ _)
  rw [h]
  rfl

theorem stops_change {f : α → Except Error α} (h : f (s.get w) = .error e) :
    (s.change f).Stops w w :=
  ⟨e, outcome_change h⟩

end Slot

theorem Logger.gives_log {σ : Type} {P : σ → Prop} (l : Logger) (journal : Slot σ Journal)
    (record : Log.Record) (w : σ) (hw : P w) (hset : ∀ j, P (journal.set w j)) :
    ∃ w1, (l.log journal record).Gives w () w1 ∧ P w1 := by
  unfold Logger.log
  split
  · exact ⟨_, Slot.gives_update journal _ w, hset _⟩
  · exact ⟨w, rfl, hw⟩

theorem Words.le_size_of_not_lacks {ws : Words} {n : Int64} (h : ws.lacks n = false) :
    n.toInt.toNat ≤ ws.size := by
  have hle : n.toInt ≤ (Int64.ofNat ws.size).toInt := by
    rw [lacks, decide_eq_false_iff_not, Int64.not_lt] at h
    exact Int64.le_iff_toInt_le.mp h
  have hmod : (Int64.ofNat ws.size).toInt ≤ ws.size := by
    by_cases hsize : ws.size < 2 ^ 63
    · rw [Int64.toInt_ofNat_of_lt hsize]
    · have := (Int64.ofNat ws.size).toInt_lt
      omega
  omega

theorem Words.not_lacks_of_size {ws : Words} {n : Int64} (hn : 0 ≤ n.toInt)
    (h : ws.size = n.toInt.toNat) : ws.lacks n = false := by
  have hlt := n.toInt_lt
  have hsize : (Int64.ofNat ws.size).toInt = ws.size := Int64.toInt_ofNat_of_lt (by omega)
  rw [lacks, decide_eq_false_iff_not, Int64.not_lt, Int64.le_iff_toInt_le, hsize]
  omega

section Bulk

variable {σ : Type} {n width : Int64} {call : Int64 → Words → Act σ Words} {buf : Words} {w : σ}
  {orig out : Nat → Words} {R : List Nat → σ → Prop}

theorem gives_eachWindow (hout : ∀ i < n.toInt.toNat, (out i).size = width.toInt.toNat)
    (hcall : ∀ done w, ∀ i < n.toInt.toNat, R done w →
      ∃ w', (call (Int64.ofNat i) (orig i)).Gives w (out i) w' ∧ R (done ++ [i]) w')
    (hbuf : Words.Spans n width buf) {is : List Nat} (hnodup : is.Nodup)
    (his : ∀ i ∈ is, i < n.toInt.toNat ∧ buf.window i width.toInt.toNat = orig i)
    {done : List Nat} (hdone : R done w) :
    ∃ buf' w', (eachWindow buf width call is).Gives w buf' w' ∧ R (done ++ is) w' ∧
      Words.Spans n width buf' ∧ ∀ j, j < n.toInt.toNat → buf'.window j width.toInt.toNat =
        if j ∈ is then out j else buf.window j width.toInt.toNat := by
  induction is generalizing buf w done with
  | nil => exact ⟨buf, w, Act.gives_pure _ _, by simpa using hdone, hbuf, fun j _ => by simp⟩
  | cons i is ih =>
    obtain ⟨hi, horig⟩ := his i (by simp)
    obtain ⟨hfresh, hrest⟩ := List.nodup_cons.mp hnodup
    obtain ⟨w1, hgives, hR⟩ := hcall done w i hi hdone
    have hoffset : (Int64.ofNat i * width).toInt.toNat = i * width.toInt.toNat := by
      rw [hbuf.reaches.offset hi, hbuf.reaches.toNat_mul]
    have hslice : (Act.orAbort (buf.slice? (Int64.ofNat i * width)
        ((Int64.ofNat i + 1) * width)) : Act σ Words).Gives w (orig i) w := by
      rw [hbuf.reaches.slice hi, horig]
      exact Act.gives_pure _ _
    have hother : ∀ j, j ≠ i →
        (buf.overlay (i * width.toInt.toNat) (out i)).window j width.toInt.toNat =
          buf.window j width.toInt.toNat :=
      fun j hj => Words.window_overlay_other (hout i hi) (hbuf.le hi) hj
    -- the windows that are still to come are those of the buffer at the start
    obtain ⟨buf', w', heach, hR', hbuf', hwindow⟩ := ih (hbuf.overlay hi (hout i hi)) hrest
      (fun j hj => ⟨(his j (by simp [hj])).1, by
        rw [hother j (fun heq => hfresh (heq ▸ hj))]
        exact (his j (by simp [hj])).2⟩) hR
    refine ⟨buf', w', hslice.bind (hgives.bind ?_), by simpa using hR', hbuf', fun j hj => ?_⟩
    · rw [hoffset]
      exact heach
    · rw [hwindow j hj]
      by_cases hji : j = i
      · subst hji
        rw [if_neg hfresh, if_pos (by simp), Words.window_overlay_self (hout j hj) (hbuf.le hj)]
      · simp only [List.mem_cons, hji, false_or, hother j hji]

theorem gives_bulk (call : Int64 → Words → Act σ Words) (who what : String)
    (hbuf : Words.Spans n width buf)
    (hout : ∀ i < n.toInt.toNat, (out i).size = width.toInt.toNat)
    (hcall : ∀ done w, ∀ i < n.toInt.toNat, R done w →
      ∃ w', (call (Int64.ofNat i) (buf.window i width.toInt.toNat)).Gives w (out i) w' ∧
        R (done ++ [i]) w')
    (hR : R [] w) :
    ∃ w', (bulk who what n width call buf).Gives w
        (Words.flat n.toInt.toNat width.toInt.toNat out) w' ∧ R (List.range n.toInt.toNat) w' := by
  obtain ⟨buf', w', heach, hR', hbuf', hwindow⟩ := gives_eachWindow hout hcall hbuf
    List.nodup_range (fun i hi => ⟨List.mem_range.mp hi, rfl⟩) hR
  have hflat : buf' = Words.flat n.toInt.toNat width.toInt.toNat out :=
    Words.eq_flat hbuf'.size fun i hi => by rw [hwindow i hi, if_pos (List.mem_range.mpr hi)]
  have hmul : (n * width).toInt = n.toInt * width.toInt :=
    Int64.toInt_mul_eq (by have := Int.mul_nonneg hbuf.count_nonneg hbuf.width_nonneg; omega)
      (by have := hbuf.bound; omega)
  have hlacks : buf.lacks (n * width) = false := by
    apply Words.not_lacks_of_size
    · rw [hmul]
      exact Int.mul_nonneg hbuf.count_nonneg hbuf.width_nonneg
    · rw [hmul, Int.toNat_mul hbuf.count_nonneg hbuf.width_nonneg, hbuf.size]
  refine ⟨w', ?_, by simpa using hR'⟩
  unfold bulk
  simp only [hlacks]
  rw [← hflat]
  exact heach

end Bulk

end TiledAutomata
