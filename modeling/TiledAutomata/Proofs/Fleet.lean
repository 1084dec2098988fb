import TiledAutomata.Proofs.Acts
import TiledAutomata.Proofs.Batches
import TiledAutomata.Proofs.LaneUpdates

/-!
# Buffers as a fleet of instances

The buffers of a simulator hold the windows of its instances, all within bounds that
machine arithmetic can count. Each operation on the buffers then changes one instance,
or one window of each. An update by workers in batches advances every instance once.
-/

open List

namespace TiledAutomata

open Outcome

variable {n : Int64} {ks : List Nat} {pool : Pool}

inductive Part where
  | state
  | input
  | inputMap
  | outputMap
  | output
  deriving DecidableEq

/-- The number of instances and the widths of their windows. -/
structure Shape where
  size : Int64
  inputSize : Int64
  stateSize : Int64
  outputSize : Int64

def Shape.width (s : Shape) : Part → Int64
  | .state => s.stateSize
  | .input | .inputMap => s.inputSize
  | .outputMap | .output => s.outputSize

abbrev Fleet := Part → Nat → Words

namespace Fleet

def put (f : Fleet) (p : Part) (k : Nat) (ws : Words) : Fleet := fun q j =>
  if q = p ∧ j = k then ws else f q j

theorem put_self (f : Fleet) (p : Part) (k : Nat) (ws : Words) : f.put p k ws p k = ws :=
  if_pos ⟨rfl, rfl⟩

theorem put_other (f : Fleet) {p q : Part} {j k : Nat} (h : q = p → j ≠ k) (ws : Words) :
    f.put p k ws q j = f q j :=
  if_neg fun hboth => h hboth.1 hboth.2

def putAll (f : Fleet) (p : Part) (g : Nat → Words) : Fleet := fun q j =>
  if q = p then g j else f q j

def instanceAt (f : Fleet) (i : Nat) : HostBuffers.Instance :=
  ⟨f .state i, f .input i, f .inputMap i, f .outputMap i, f .output i⟩

end Fleet

def Part.of : Part → HostBuffers.Instance → Words
  | .state, x => x.state
  | .input, x => x.input
  | .inputMap, x => x.inputMap
  | .outputMap, x => x.outputMap
  | .output, x => x.output

def Shape.Valid (s : Shape) (i : Int64) : Prop := 0 ≤ i ∧ i < s.size

instance (s : Shape) (i : Int64) : Decidable (s.Valid i) := inferInstanceAs (Decidable (_ ∧ _))

theorem Shape.Valid.nat {s : Shape} {i : Int64} (h : s.Valid i) :
    i.toInt.toNat < s.size.toInt.toNat ∧ i = Int64.ofNat i.toInt.toNat := by
  have hlo := Int64.le_iff_toInt_le.mp h.1
  have hhi := Int64.lt_iff_toInt_lt.mp h.2
  have hzero : (0 : Int64).toInt = 0 := rfl
  rw [hzero] at hlo
  exact ⟨by omega, (Int64.ofNat_toNat hlo).symm⟩

theorem Shape.valid_ofNat {s : Shape} {j : Nat} (hj : j < s.size.toInt.toNat) :
    s.Valid (Int64.ofNat j) ∧ (Int64.ofNat j).toInt.toNat = j := by
  have hindex := Words.Reaches.index hj
  have hlt := s.size.toInt_lt
  refine ⟨⟨?_, ?_⟩, by omega⟩
  · rw [Int64.le_iff_toInt_le, hindex]
    exact Int.natCast_nonneg j
  · rw [Int64.lt_iff_toInt_lt, hindex]
    omega

/-- Machine arithmetic can count the words of all instances. -/
structure Shape.Countable (s : Shape) : Prop where
  count_nonneg : 0 ≤ s.size.toInt
  width_nonneg : ∀ p, 0 ≤ (s.width p).toInt
  bound : ∀ p, s.size.toInt * (s.width p).toInt < 2 ^ 62

theorem Shape.Countable.spans {s : Shape} (h : s.Countable) {p : Part} {buf : Words}
    (hbuf : (buf.size : Int) = s.size.toInt * (s.width p).toInt) :
    Words.Spans s.size (s.width p) buf := by
  refine ⟨h.count_nonneg, h.width_nonneg p, h.bound p, ?_⟩
  rw [← Int.toNat_mul h.count_nonneg (h.width_nonneg p), ← hbuf, Int.toNat_natCast]

namespace HostBuffers

def shape (b : HostBuffers) : Shape := ⟨b.count, b.inputSize, b.stateSize, b.outputSize⟩

def part (b : HostBuffers) : Part → Words
  | .state => b.state
  | .input => b.input
  | .inputMap => b.inputMap
  | .outputMap => b.outputMap
  | .output => b.output

def withPart (b : HostBuffers) (ws : Words) : Part → HostBuffers
  | .state => { b with state := ws }
  | .input => { b with input := ws }
  | .inputMap => { b with inputMap := ws }
  | .outputMap => { b with outputMap := ws }
  | .output => { b with output := ws }

theorem part_withPart (b : HostBuffers) (ws : Words) (p q : Part) :
    (b.withPart ws p).part q = if q = p then ws else b.part q := by
  cases p <;> cases q <;> rfl

theorem shape_withPart (b : HostBuffers) (ws : Words) (p : Part) :
    (b.withPart ws p).shape = b.shape := by
  cases p <;> rfl

structure Holds (b : HostBuffers) (s : Shape) (f : Fleet) : Prop where
  shape : b.shape = s
  spans : ∀ p, Words.Spans s.size (s.width p) (b.part p)
  window : ∀ p, ∀ i < s.size.toInt.toNat, (b.part p).window i (s.width p).toInt.toNat = f p i

variable {b : HostBuffers} {s : Shape} {f : Fleet} {i : Int64} {buf src : Words} {p : Part}

theorem Holds.countable (h : b.Holds s f) : s.Countable :=
  ⟨(h.spans .state).count_nonneg, fun p => (h.spans p).width_nonneg, fun p => (h.spans p).bound⟩

theorem Holds.size_window (h : b.Holds s f) {k : Nat} (hk : k < s.size.toInt.toNat) (p : Part) :
    (f p k).size = (s.width p).toInt.toNat := by
  rw [← h.window p k hk]
  exact Words.size_window ((h.spans p).le hk)

theorem Holds.replace (h : b.Holds s f) {k : Nat} (hk : k < s.size.toInt.toNat)
    (hsrc : src.size = (s.width p).toInt.toNat) :
    (b.withPart ((b.part p).overlay (k * (s.width p).toInt.toNat) src) p).Holds s
      (f.put p k src) := by
  refine ⟨by rw [shape_withPart, h.shape], fun q => ?_, fun q j hj => ?_⟩
  · rw [part_withPart]
    split
    · rename_i hq
      subst hq
      exact (h.spans q).overlay hk hsrc
    · exact h.spans q
  · rw [part_withPart]
    by_cases hq : q = p
    · subst hq
      rw [if_pos rfl]
      by_cases hjk : j = k
      · rw [hjk, f.put_self, Words.window_overlay_self hsrc ((h.spans q).le hk)]
      · rw [f.put_other fun _ => hjk, Words.window_overlay_other hsrc ((h.spans q).le hk) hjk,
          h.window q j hj]
    · rw [if_neg hq, f.put_other fun heq => absurd heq hq, h.window q j hj]

theorem Holds.replaceAll (h : b.Holds s f) {ws : Words} (hws : Words.Spans s.size (s.width p) ws) :
    (b.withPart ws p).Holds s (f.putAll p fun j => ws.window j (s.width p).toInt.toNat) := by
  refine ⟨by rw [shape_withPart, h.shape], fun q => ?_, fun q j hj => ?_⟩
  · rw [part_withPart]
    split
    · rename_i hq
      exact hq ▸ hws
    · exact h.spans q
  · rw [part_withPart, Fleet.putAll]
    split
    · rename_i hq
      rw [hq]
    · exact h.window q j hj

theorem checkIndex_eq (h : b.shape = s) :
    b.checkIndex i = if s.Valid i then .ok () else .error (badInstance "automata" i b.count) := by
  subst h
  unfold checkIndex
  by_cases hvalid : b.shape.Valid i
  · have hlo : ¬i < 0 := Int64.not_lt.mpr hvalid.1
    have hhi : ¬b.count ≤ i := Int64.not_le.mpr hvalid.2
    simp [hlo, hhi, hvalid]
  · rw [if_neg hvalid]
    split
    · rfl
    · rename_i hcond
      simp only [Bool.or_eq_true, decide_eq_true_eq, not_or, Int64.not_lt, Int64.not_le] at hcond
      exact absurd hcond hvalid

/-- A call for one instance goes through for a valid id and a buffer that is long enough. -/
def Accepts (s : Shape) (width i : Int64) (buf : Words) : Prop :=
  s.Valid i ∧ buf.lacks width = false

theorem accepts_ofNat {width : Int64} (hwidth : 0 ≤ width.toInt) {j : Nat}
    (hj : j < s.size.toInt.toNat) (hbuf : buf.size = width.toInt.toNat) :
    Accepts s width (Int64.ofNat j) buf ∧ (Int64.ofNat j).toInt.toNat = j := by
  obtain ⟨hvalid, hid⟩ := Shape.valid_ofNat hj
  exact ⟨⟨hvalid, Words.not_lacks_of_size hwidth hbuf⟩, hid⟩

/-- What is wrong with an id comes before what is wrong with a buffer. -/
def refusal (b : HostBuffers) (what : String) (width i : Int64) (buf : Words) : Error :=
  if b.shape.Valid i then shortBuffer what buf.size width else badInstance "automata" i b.count

theorem checked_error {width : Int64} (hbad : ¬Accepts b.shape width i buf) (what : String)
    (ws : Words) :
    (do
      b.checkIndex i
      if buf.lacks width then throw (shortBuffer what buf.size width)
      return ws : Except Error Words) = .error (b.refusal what width i buf) := by
  rw [checkIndex_eq rfl, refusal]
  split
  · rename_i hvalid
    rw [Bool.eq_true_of_not_eq_false fun hlacks => hbad ⟨hvalid, hlacks⟩]
    rfl
  · rfl

def writePart (b : HostBuffers) (p : Part) (what : String) (i : Int64) (buf : Words) :
    Except Error HostBuffers := do
  return b.withPart (← b.copyIn what (b.part p) (b.shape.width p) i buf) p

def readPart (b : HostBuffers) (p : Part) (what : String) (i : Int64) (buf : Words) :
    Except Error Words :=
  b.copyOut what (b.part p) (b.shape.width p) i buf

theorem size_extract_of_accepts {width : Int64} (h : Accepts s width i buf) :
    (buf.extract 0 width.toInt.toNat).size = width.toInt.toNat := by
  have := Words.le_size_of_not_lacks h.2
  rw [Array.size_extract]
  omega

theorem writePart_ok (h : b.Holds s f) (hacc : Accepts s (s.width p) i buf) (what : String) :
    ∃ b', b.writePart p what i buf = .ok b' ∧
      b'.Holds s (f.put p i.toInt.toNat (buf.extract 0 (s.width p).toInt.toNat)) := by
  obtain ⟨hlt, hnat⟩ := hacc.1.nat
  have hoffset : (i * s.width p).toInt.toNat = i.toInt.toNat * (s.width p).toInt.toNat := by
    rw [hnat, (h.spans p).reaches.offset hlt, (h.spans p).reaches.toNat_mul, ← hnat]
  have hcopy : b.copyIn what (b.part p) (b.shape.width p) i buf =
      .ok ((b.part p).overlay (i.toInt.toNat * (s.width p).toInt.toNat)
        (buf.extract 0 (s.width p).toInt.toNat)) := by
    unfold copyIn
    rw [checkIndex_eq h.shape, if_pos hacc.1, h.shape, hoffset, hacc.2]
    rfl
  exact ⟨_, bind_ok.mpr ⟨_, hcopy, rfl⟩, h.replace hlt (size_extract_of_accepts hacc)⟩

theorem writePart_error (h : b.Holds s f) (hbad : ¬Accepts s (s.width p) i buf) (what : String) :
    b.writePart p what i buf = .error (b.refusal ("automata: " ++ what) (s.width p) i buf) := by
  obtain rfl := h.shape
  rw [writePart, copyIn, checked_error hbad]
  rfl

theorem readPart_ok (h : b.Holds s f) (hacc : Accepts s (s.width p) i buf) (what : String) :
    b.readPart p what i buf = .ok (buf.overlay 0 (f p i.toInt.toNat)) := by
  unfold readPart copyOut
  rw [checkIndex_eq h.shape, if_pos hacc.1, h.shape, hacc.2, h.window p _ hacc.1.nat.1]
  rfl

theorem readPart_error (h : b.Holds s f) (hbad : ¬Accepts s (s.width p) i buf) (what : String) :
    b.readPart p what i buf =
      .error (b.refusal ("automata: " ++ what ++ " buffer") (s.width p) i buf) := by
  obtain rfl := h.shape
  exact checked_error hbad _ _

theorem size_reduced (width : Int64) (m : Words) : (b.reduced width m).size = m.size := by
  unfold reduced reduceMap
  split <;> simp only [Array.size_append, Array.size_map, Array.size_extract] <;> omega

theorem accepts_reduced (b : HostBuffers) {width : Int64} {m : Words} :
    Accepts s width i (b.reduced width m) ↔ Accepts s width i m := by
  unfold Accepts Words.lacks
  rw [size_reduced]

theorem extract_reduced (b : HostBuffers) {width : Int64} {m : Words} (hacc : Accepts s width i m) :
    (b.reduced width m).extract 0 width.toInt.toNat =
      reduceMap (m.extract 0 width.toInt.toNat) b.stateSize := by
  have hsize : (reduceMap (m.extract 0 width.toInt.toNat) b.stateSize).size =
      width.toInt.toNat := by
    unfold reduceMap
    split <;> rw [Array.size_map, size_extract_of_accepts hacc]
  unfold reduced
  rw [Array.extract_append, hsize, Array.extract_eq_self_of_le (by omega)]
  simp

theorem writeMap_ok (h : b.Holds s f) (hacc : Accepts s (s.width p) i buf) (what : String) :
    ∃ b', b.writePart p what i (b.reduced (b.shape.width p) buf) = .ok b' ∧
      b'.Holds s (f.put p i.toInt.toNat
        (reduceMap (buf.extract 0 (s.width p).toInt.toNat) s.stateSize)) := by
  obtain rfl := h.shape
  have hw := writePart_ok h ((accepts_reduced b).mpr hacc) what
  rwa [extract_reduced b hacc] at hw

theorem writeMap_error (h : b.Holds s f) (hbad : ¬Accepts s (s.width p) i buf) (what : String) :
    b.writePart p what i (b.reduced (b.shape.width p) buf) = .error
      (b.refusal ("automata: " ++ what) (s.width p) i (b.reduced (b.shape.width p) buf)) := by
  obtain rfl := h.shape
  exact writePart_error h (mt (accepts_reduced b).mp hbad) what

theorem Holds.congr {g : Fleet} (h : b.Holds s f)
    (hfg : ∀ p, ∀ j < s.size.toInt.toNat, f p j = g p j) : b.Holds s g :=
  ⟨h.shape, h.spans, fun p j hj => (h.window p j hj).trans (hfg p j hj)⟩

theorem instance?_eq_some_iff {x : Instance} :
    b.instance? i = some x ↔ ∀ p : Part, (b.part p).slice? (i * b.shape.width p)
      ((i + 1) * b.shape.width p) = some (p.of x) := by
  unfold HostBuffers.instance?
  simp only [Option.bind_eq_bind, Option.bind_eq_some_iff, Option.pure_def, Option.some.injEq]
  constructor
  · rintro ⟨_, hstate, _, hinput, _, hinputMap, _, houtputMap, _, houtput, rfl⟩ p
    cases p <;> assumption
  · intro h
    exact ⟨_, h .state, _, h .input, _, h .inputMap, _, h .outputMap, _, h .output, rfl⟩

theorem Holds.instance? (h : b.Holds s f) {k : Nat} (hk : k < s.size.toInt.toNat) :
    b.instance? (Int64.ofNat k) = some (f.instanceAt k) := by
  refine instance?_eq_some_iff.mpr fun p => ?_
  rw [h.shape, (h.spans p).reaches.slice hk, h.window p k hk]
  cases p <;> rfl

end HostBuffers

def Fleet.advance (f : Fleet) (p : Plan) (chosen : List Nat) : Fleet := fun q j =>
  if j ∈ chosen then q.of (Cpu.advanced p (f.instanceAt j)) else f q j

theorem Fleet.instanceAt_advance (f : Fleet) (p : Plan) {j : Nat} (hj : j ∉ ks) :
    (f.advance p ks).instanceAt j = f.instanceAt j := by
  simp [Fleet.instanceAt, Fleet.advance, hj]

theorem Fleet.advance_append (f : Fleet) (p : Plan) {ls : List Nat} (h : (ks ++ ls).Nodup) :
    (f.advance p ks).advance p ls = f.advance p (ks ++ ls) := by
  funext q j
  by_cases hj : j ∈ ks
  · have hl : j ∉ ls := fun hmem => (nodup_append.mp h).2.2 j hj j hmem rfl
    simp [Fleet.advance, hj, hl]
  · rw [Fleet.advance, Fleet.instanceAt_advance f p hj]
    simp [Fleet.advance, hj]

namespace Cpu

variable {d : Descriptor} {a : Automaton} {w : Wiring} {cs : List Program.Compiled}
  {ws : Workspace} {b : HostBuffers} {s : Shape} {f : Fleet}

theorem size_scatter (state map input : Words) : (scatter state map input).size = state.size := by
  unfold scatter
  rw [← Array.foldl_toList]
  refine foldlRecOn _ _ (motive := fun st : Words => st.size = state.size) rfl fun st hst x _ => ?_
  rw [Array.size_setIfInBounds, hst]

theorem size_advanced_state (hb : a.Built d w cs) (x : HostBuffers.Instance) :
    (advanced a.plan x).state.size = x.state.size :=
  (hb.run_size a.plan.workspace_fits _ _).trans (size_scatter _ _ _)

theorem size_advanced_output (p : Plan) (x : HostBuffers.Instance) :
    (advanced p x).output.size = x.outputMap.size := by
  simp [advanced, advance, gather]

theorem run_eq (hb : a.Built d w cs) (hws : ws.Fits a.plan) (sch : Schedule)
    {x : HostBuffers.Instance} {k : Nat} (hx : b.instance? (Int64.ofNat k) = some x) :
    ∃ ws', run sch a.plan b ws k = some (ws', b.put (Int64.ofNat k) (advanced a.plan x)) ∧
      ws'.Fits a.plan := by
  refine ⟨(advance sch a.plan ws x).1, ?_, advance_fits hws sch x⟩
  rw [run, hx, ← advance_eq hb hws sch x]
  rfl

theorem run_holds (hb : a.Built d w cs) (hws : ws.Fits a.plan) (sch : Schedule)
    (h : b.Holds s f) {k : Nat} (hk : k < s.size.toInt.toNat) :
    ∃ ws' b', run sch a.plan b ws k = some (ws', b') ∧ ws'.Fits a.plan ∧
      b'.Holds s (f.advance a.plan [k]) := by
  obtain ⟨ws', hrun, hfits⟩ := run_eq hb hws sch (h.instance? hk)
  refine ⟨ws', _, hrun, hfits, ?_⟩
  have hstate : (advanced a.plan (f.instanceAt k)).state.size = (s.width .state).toInt.toNat := by
    rw [size_advanced_state hb]
    exact h.size_window hk .state
  have houtput : (advanced a.plan (f.instanceAt k)).output.size =
      (s.width .output).toInt.toNat := by
    rw [size_advanced_output]
    exact h.size_window hk .outputMap
  have hboth := (h.replace hk hstate).replace hk houtput
  have hoffset : ∀ p, (Int64.ofNat k * s.width p).toInt.toNat = k * (s.width p).toInt.toNat :=
    fun p => by rw [(h.spans p).reaches.offset hk, (h.spans p).reaches.toNat_mul]
  rw [← hoffset, ← hoffset] at hboth
  obtain rfl := h.shape
  refine HostBuffers.Holds.congr hboth fun q j _ => ?_
  unfold Fleet.advance Fleet.put
  by_cases hj : j = k
  · subst hj
    cases q <;> simp [Part.of, advanced, advance, Fleet.instanceAt]
  · simp [hj]

theorem runEach_holds (hb : a.Built d w cs) (sch : Schedule) (hnodup : ks.Nodup)
    (hks : ∀ k ∈ ks, k < s.size.toInt.toNat) (hws : ws.Fits a.plan) (h : b.Holds s f) :
    ∃ ws' b', ks.foldlM (fun (ws, b) k => run sch a.plan b ws k) (ws, b) = some (ws', b') ∧
      b'.Holds s (f.advance a.plan ks) := by
  induction ks generalizing ws b f with
  | nil => exact ⟨ws, b, rfl, h.congr fun q j _ => by simp [Fleet.advance]⟩
  | cons k ks ih =>
    obtain ⟨ws1, b1, hrun, hfits, hfirst⟩ := run_holds hb hws sch h (hks k (by simp))
    obtain ⟨ws', b', heach, hrest⟩ :=
      ih (nodup_cons.mp hnodup).2 (fun j hj => hks j (by simp [hj])) hfits hfirst
    have happend : ([k] ++ ks).Nodup := hnodup
    rw [Fleet.advance_append f a.plan happend] at hrest
    exact ⟨ws', b', Option.bind_eq_some_iff.mpr ⟨(ws1, b1), hrun, heach⟩, hrest⟩

theorem runAll_holds (hb : a.Built d w cs) (sch : Schedule) (batches : List (Int64 × Int64))
    (hnodup : (batches.flatMap batchIds).Nodup)
    (hids : ∀ k ∈ batches.flatMap batchIds, k < s.size.toInt.toNat) (h : b.Holds s f) :
    ∃ b', runAll sch a.plan b batches = some b' ∧
      b'.Holds s (f.advance a.plan (batches.flatMap batchIds)) := by
  unfold runAll
  induction batches generalizing b f with
  | nil => exact ⟨b, rfl, h.congr fun q j _ => by simp [Fleet.advance]⟩
  | cons batch batches ih =>
    rw [flatMap_cons] at hnodup hids ⊢
    obtain ⟨hfirst, hrest, -⟩ := nodup_append.mp hnodup
    obtain ⟨ws1, b1, heach, hbatch⟩ := runEach_holds hb sch hfirst
      (fun k hk => hids k (mem_append_left _ hk)) a.plan.workspace_fits h
    have hrun : runBatch sch a.plan b a.plan.workspace batch = some b1 :=
      Option.map_eq_some_iff.mpr ⟨(ws1, b1), heach, rfl⟩
    obtain ⟨b', hall, hothers⟩ :=
      ih hrest (fun k hk => hids k (mem_append_right _ hk)) hbatch
    rw [Fleet.advance_append f a.plan hnodup] at hothers
    exact ⟨b', Option.bind_eq_some_iff.mpr ⟨b1, hrun, hall⟩, hothers⟩

theorem batches?_of_nonpos (hn : ¬0 < n.toInt) : pool.batches? n = some [] := by
  have hle : n ≤ 0 := by
    rw [Int64.le_iff_toInt_le]
    exact Int.not_lt.mp hn
  rw [Pool.batches?, if_pos hle]

theorem exists_batches (hworkers : 0 < pool.workers.toInt) (hn : n.toInt ≤ 2 ^ 62) :
    ∃ bs, pool.batches? n = some bs := by
  by_cases hpos : 0 < n.toInt
  · obtain ⟨bs, hbs, -⟩ := Pool.batches?_chain hpos hworkers (by omega)
    exact ⟨bs, hbs⟩
  · exact ⟨[], batches?_of_nonpos hpos⟩

theorem batches_ids {bs : List (Int64 × Int64)} (hn : n.toInt ≤ 2 ^ 62)
    (h : pool.batches? n = some bs) : bs.flatMap batchIds = List.range n.toInt.toNat := by
  by_cases hpos : 0 < n.toInt
  · obtain ⟨bs', hbs', hchain, -⟩ := Pool.batches?_chain hpos (Pool.workers_pos hpos h) (by omega)
    obtain rfl := Option.some.inj (hbs'.symm.trans h)
    rw [hchain.ids (by decide), range_eq_range']
    rfl
  · rw [batches?_of_nonpos hpos] at h
    rw [← Option.some.inj h, show n.toInt.toNat = 0 by omega]
    rfl

structure Holds (c : Cpu) (a : Automaton) (s : Shape) (f : Fleet) : Prop where
  automaton : c.automaton = a
  opened : c.closed = false
  workers : 0 < c.pool.workers.toInt
  buffers : c.buffers.Holds s f

theorem update_ok {c : Cpu} (hb : a.Built d w cs) (h : c.Holds a s f)
    (hunits : a.runnable) (hstate : 0 < s.stateSize) :
    ∃ c', c.update false = .ok c' ∧
      c'.Holds a s fun q j => q.of (advanced a.plan (f.instanceAt j)) := by
  have hcount : c.buffers.count = s.size := by
    rw [← h.buffers.shape]
    rfl
  have hsize : c.buffers.stateSize = s.stateSize := by
    rw [← h.buffers.shape]
    rfl
  have hfew : s.size.toInt ≤ 2 ^ 62 := by
    have hone : 1 ≤ s.stateSize.toInt := Int64.lt_iff_toInt_lt.mp hstate
    have hbound := (h.buffers.spans .state).bound
    have hnonneg := (h.buffers.spans .state).count_nonneg
    simp only [Shape.width] at hbound
    nlinarith
  obtain ⟨bs, hbs⟩ := exists_batches h.workers hfew
  have hids := batches_ids hfew hbs
  obtain ⟨b', hrun, hall⟩ := runAll_holds hb c.schedule bs
    (by rw [hids]; exact nodup_range)
    (by rw [hids]; exact fun k hk => mem_range.mp hk) h.buffers
  have hnot :
      ¬((!c.automaton.runnable || decide (c.buffers.stateSize ≤ 0)) = true) := by
    rw [h.automaton, hsize, hunits]
    simp [Int64.not_le.mpr hstate]
  refine ⟨{ c with buffers := b' }, ?_, h.automaton, h.opened, h.workers, ?_⟩
  · unfold update
    rw [h.opened, if_neg (by decide), if_neg (by decide), if_neg hnot, hcount, hbs,
      Option.bind_some, h.automaton, hrun]
  · refine hall.congr fun q j hj => ?_
    rw [Fleet.advance, hids, if_pos (mem_range.mpr hj)]

theorem update_error {c : Cpu} (h : c.Holds a s f)
    (hbad : ¬(a.runnable ∧ 0 < s.stateSize)) : c.update false = .error (.abort none) := by
  have hsize : c.buffers.stateSize = s.stateSize := by
    rw [← h.buffers.shape]
    rfl
  have hcond : (!c.automaton.runnable || decide (c.buffers.stateSize ≤ 0)) = true := by
    rw [h.automaton, hsize, Bool.or_eq_true, Bool.not_eq_true', decide_eq_true_eq]
    cases hu : a.runnable with
    | true => exact Or.inr (Int64.not_lt.mp fun hs => hbad ⟨hu, hs⟩)
    | false => exact Or.inl rfl
  unfold update
  rw [h.opened, if_neg (by decide), if_neg (by decide), if_pos hcond]

end Cpu

end TiledAutomata
