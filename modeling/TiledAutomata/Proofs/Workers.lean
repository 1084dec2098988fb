import TiledAutomata.Proofs.Creation

/-!
# Updates by workers

Workers take batches of instances in any order and at the same time. Each batch runs in a
workspace of its own, a new one or one that an earlier batch has left, and between two
instances of a batch others may run. Whatever the workers do, an update that comes to its
end advances every instance once, by what stands in the instance's own windows.
-/

namespace TiledAutomata

open HostBuffers List Option Words

variable {bs : List (Int64 × Int64)} {p : Plan}

namespace HostBuffers

def Complete (b : HostBuffers) : Prop :=
  ∀ i < b.count.toInt.toNat, ∃ x, b.instance? (Int64.ofNat i) = some x

/-- Buffers in which some instances are one update further and all else is as it was. -/
structure AdvancedAt (p : Plan) (b b' : HostBuffers) (done : List Nat) : Prop where
  each : ∀ i < b.count.toInt.toNat, ∃ x, b.instance? (Int64.ofNat i) = some x ∧
    b'.instance? (Int64.ofNat i) = some (if i ∈ done then Cpu.advanced p x else x)
  kept : ∃ state output, b' = { b with state, output }
  state_rest : ∀ k, b.count.toInt.toNat * b.stateSize.toInt.toNat ≤ k → b'.state[k]? = b.state[k]?
  output_rest : ∀ k, b.count.toInt.toNat * b.outputSize.toInt.toNat ≤ k →
    b'.output[k]? = b.output[k]?

variable {b b' b'' : HostBuffers} {p : Plan} {done : List Nat} {x y : Instance} {k : Nat}

section

variable (h : b.Complete) (hk : k < b.count.toInt.toNat)

include h hk

theorem Complete.reaches (q : Part) : Words.Reaches b.count (b.shape.width q) (b.part q) := by
  refine Words.Reaches.of_slices (by omega) fun i hi => ?_
  obtain ⟨x, hx⟩ := h i hi
  exact ⟨_, instance?_eq_some_iff.mp hx q⟩

theorem Complete.of_window (hx : b.instance? (Int64.ofNat k) = some x) (q : Part) :
    q.of x = (b.part q).window k (b.shape.width q).toInt.toNat := by
  have hslice := instance?_eq_some_iff.mp hx q
  rw [(h.reaches hk q).slice hk] at hslice
  exact (some.inj hslice).symm

theorem Complete.slice_overlay {q : Part} {src : Words}
    (hsrc : src.size = (b.shape.width q).toInt.toNat) {j : Nat} (hj : j < b.count.toInt.toNat) :
    ((b.part q).overlay (Int64.ofNat k * b.shape.width q).toInt.toNat src).slice?
        (Int64.ofNat j * b.shape.width q) ((Int64.ofNat j + 1) * b.shape.width q) =
      some (if j = k then src else (b.part q).window j (b.shape.width q).toInt.toNat) := by
  have hreach := h.reaches hk q
  rw [hreach.offset hk, hreach.toNat_mul, (hreach.overlay hk hsrc).slice hj]
  split
  · rename_i hjk
    rw [hjk, window_overlay_self hsrc (hreach.le hk)]
  · rename_i hjk
    rw [window_overlay_other hsrc (hreach.le hk) hjk]

theorem Complete.size_of (hx : b.instance? (Int64.ofNat k) = some x) (q : Part) :
    (q.of x).size = (b.shape.width q).toInt.toNat := by
  rw [h.of_window hk hx, size_window ((h.reaches hk q).le hk)]

theorem Complete.instance?_put (hx : b.instance? (Int64.ofNat k) = some x)
    (hstate : y.state.size = x.state.size) (houtput : y.output.size = x.output.size) {j : Nat}
    (hj : j < b.count.toInt.toNat) : (b.put (Int64.ofNat k) y).instance? (Int64.ofNat j) =
      if j = k then some { x with state := y.state, output := y.output }
      else b.instance? (Int64.ofNat j) := by
  obtain ⟨z, hz⟩ := h j hj
  have hold := h.of_window hj hz
  have hslice := fun q => (instance?_eq_some_iff.mp hz) q
  have hnew : ∀ q : Part, (q.of y).size = (q.of x).size →
      ((b.part q).overlay (Int64.ofNat k * b.shape.width q).toInt.toNat (q.of y)).slice?
          (Int64.ofNat j * b.shape.width q) ((Int64.ofNat j + 1) * b.shape.width q) =
        some (if j = k then q.of y else q.of z) := fun q hq => by
    rw [h.slice_overlay hk (hq.trans (h.size_of hk hx q)) hj, hold q]
  rw [hz]
  split
  · rename_i hjk
    subst hjk
    obtain rfl := Option.some.inj (hx.symm.trans hz)
    refine instance?_eq_some_iff.mpr fun q => ?_
    cases q with
    | state => exact (hnew .state hstate).trans (by rw [if_pos rfl]; rfl)
    | output => exact (hnew .output houtput).trans (by rw [if_pos rfl]; rfl)
    | input => exact hslice .input
    | inputMap => exact hslice .inputMap
    | outputMap => exact hslice .outputMap
  · rename_i hjk
    refine instance?_eq_some_iff.mpr fun q => ?_
    cases q with
    | state => exact (hnew .state hstate).trans (by rw [if_neg hjk])
    | output => exact (hnew .output houtput).trans (by rw [if_neg hjk])
    | input => exact hslice .input
    | inputMap => exact hslice .inputMap
    | outputMap => exact hslice .outputMap

theorem Complete.overlay_rest {q : Part} {src : Words}
    (hsrc : src.size = (b.shape.width q).toInt.toNat) {m : Nat}
    (hm : b.count.toInt.toNat * (b.shape.width q).toInt.toNat ≤ m) :
    ((b.part q).overlay (Int64.ofNat k * b.shape.width q).toInt.toNat src)[m]? =
      (b.part q)[m]? := by
  have hreach := h.reaches hk q
  have hend : (k + 1) * (b.shape.width q).toInt.toNat ≤
      b.count.toInt.toNat * (b.shape.width q).toInt.toNat := Nat.mul_le_mul_right _ hk
  have hle := hreach.size
  rw [Nat.succ_mul] at hend
  rw [hreach.offset hk, hreach.toNat_mul, getElem?_overlay (by omega), if_neg (by omega),
    if_neg (by omega)]

end

theorem exists_instance_iff {i : Int64} :
    (∃ x, b.instance? i = some x) ↔ ∀ q : Part, ∃ v, (b.part q).slice? (i * b.shape.width q)
      ((i + 1) * b.shape.width q) = some v := by
  constructor
  · rintro ⟨x, hx⟩ q
    exact ⟨_, instance?_eq_some_iff.mp hx q⟩
  · intro h
    choose v hv using h
    refine ⟨⟨v .state, v .input, v .inputMap, v .outputMap, v .output⟩,
      instance?_eq_some_iff.mpr fun q => ?_⟩
    cases q <;> exact hv _

theorem exists_instance_put {i j : Int64} (hx : b.instance? i = some x)
    (hstate : y.state.size = x.state.size) (houtput : y.output.size = x.output.size) :
    (∃ z, (b.put i y).instance? j = some z) ↔ ∃ z, b.instance? j = some z := by
  have hsize : ∀ q : Part, (q.of y).size = (q.of x).size →
      ((b.part q).overlay (i * b.shape.width q).toInt.toNat (q.of y)).size = (b.part q).size :=
    fun q hq => by
      obtain ⟨hlo, hle, hhi, hlen⟩ := slice?_some (instance?_eq_some_iff.mp hx q)
      exact size_overlay (by omega)
  have hparts : ∀ q : Part, ((b.put i y).part q).size = (b.part q).size := by
    intro q
    cases q with
    | state => exact hsize .state hstate
    | output => exact hsize .output houtput
    | input | inputMap | outputMap => rfl
  rw [exists_instance_iff, exists_instance_iff]
  exact forall_congr' fun q => slice?_congr (hparts q) _ _

namespace AdvancedAt

theorem refl (p : Plan) (h : b.Complete) : b.AdvancedAt p b [] :=
  ⟨fun i hi => by
    obtain ⟨x, hx⟩ := h i hi
    exact ⟨x, hx, by simpa using hx⟩, ⟨_, _, rfl⟩, fun _ _ => rfl, fun _ _ => rfl⟩

section

variable (h : b.AdvancedAt p b' done)

include h

theorem shape_eq : b'.shape = b.shape := by
  obtain ⟨_, _, rfl⟩ := h.kept
  rfl

theorem count_eq : b'.count = b.count :=
  congrArg Shape.size h.shape_eq

theorem complete : b'.Complete := by
  intro i hi
  rw [h.count_eq] at hi
  obtain ⟨x, -, hx⟩ := h.each i hi
  exact ⟨_, hx⟩

theorem put (hk : k < b.count.toInt.toNat) (hnew : k ∉ done)
    (hx : b'.instance? (Int64.ofNat k) = some x)
    (hstate : (Cpu.advanced p x).state.size = x.state.size)
    (houtput : (Cpu.advanced p x).output.size = x.output.size) :
    b.AdvancedAt p (b'.put (Int64.ofNat k) (Cpu.advanced p x)) (done ++ [k]) := by
  have hall := h.complete
  have hk' : k < b'.count.toInt.toNat := by rwa [h.count_eq]
  have hshape := h.shape_eq
  have hrest := fun m => hall.overlay_rest hk' (q := .state) (m := m)
    (hstate.trans (hall.size_of hk' hx .state))
  have hrest' := fun m => hall.overlay_rest hk' (q := .output) (m := m)
    (houtput.trans (hall.size_of hk' hx .output))
  refine ⟨fun i hi => ?_, ?_, fun m hm => ?_, fun m hm => ?_⟩
  · obtain ⟨z, hz, hz'⟩ := h.each i hi
    refine ⟨z, hz, ?_⟩
    rw [hall.instance?_put hk' hx hstate houtput (by rwa [h.count_eq])]
    by_cases hik : i = k
    · subst hik
      rw [if_neg hnew, hx] at hz'
      obtain rfl := some.inj hz'
      rw [if_pos rfl, if_pos (by simp)]
      rfl
    · rw [if_neg hik, hz']
      simp [hik]
  · obtain ⟨_, _, rfl⟩ := h.kept
    exact ⟨_, _, rfl⟩
  · refine (hrest m ?_).trans (h.state_rest m hm)
    rw [h.count_eq, hshape]
    exact hm
  · refine (hrest' m ?_).trans (h.output_rest m hm)
    rw [h.count_eq, hshape]
    exact hm

/-- Buffers are determined by the instances that were advanced. -/
theorem unique {done' : List Nat} (h' : b.AdvancedAt p b'' done')
    (hdone : ∀ i < b.count.toInt.toNat, i ∈ done ↔ i ∈ done') : b' = b'' := by
  have hwindow : ∀ q : Part, ∀ i < b.count.toInt.toNat,
      (b'.part q).window i (b.shape.width q).toInt.toNat =
        (b''.part q).window i (b.shape.width q).toInt.toNat := by
    intro q i hi
    obtain ⟨x, hx, hx'⟩ := h.each i hi
    obtain ⟨y, hy, hy'⟩ := h'.each i hi
    obtain rfl := some.inj (hx.symm.trans hy)
    have hleft := h.complete.of_window (by rwa [h.count_eq]) hx' q
    have hright := h'.complete.of_window (by rwa [h'.count_eq]) hy' q
    rw [h.shape_eq] at hleft
    rw [h'.shape_eq] at hright
    rw [← hleft, ← hright]
    simp only [hdone i hi]
  have hstate : b'.state = b''.state :=
    ext_windows (fun i hi => hwindow .state i hi)
      fun m hm => (h.state_rest m hm).trans (h'.state_rest m hm).symm
  have houtput : b'.output = b''.output :=
    ext_windows (fun i hi => hwindow .output i hi)
      fun m hm => (h.output_rest m hm).trans (h'.output_rest m hm).symm
  obtain ⟨_, _, rfl⟩ := h.kept
  obtain ⟨_, _, rfl⟩ := h'.kept
  simp only at hstate houtput
  rw [hstate, houtput]

end

end AdvancedAt

end HostBuffers

namespace Cpu

/-- A batch in the hands of a worker: its workspace, the next instance and the end. -/
structure Task where
  workspace : Workspace
  next : Nat
  stop : Nat

def Task.ids (t : Task) : List Nat := List.range' t.next (t.stop - t.next)

/-- An update under way: the batches that nobody has taken, those that workers are at, and the
workspaces that lie idle. -/
structure Progress where
  buffers : HostBuffers
  waiting : List (Int64 × Int64)
  running : List Task := []
  idle : List Workspace := []
  cancelled : Bool := false

namespace Progress

/-- What can happen next in an update: a worker takes a batch with a new or an idle workspace, goes
on by one instance, or ends a batch; an idle workspace is given up; the caller cancels, and from
then on batches are passed over. -/
inductive Step (sch : Schedule) (p : Plan) : Progress → Progress → Prop
  | fresh {x : Progress} {l r : List (Int64 × Int64)} {batch : Int64 × Int64}
      (hwaiting : x.waiting = l ++ batch :: r) (hopen : x.cancelled = false) :
      Step sch p x { x with
        waiting := l ++ r
        running := ⟨p.workspace, batch.1.toInt.toNat, batch.2.toInt.toNat⟩ :: x.running }
  | reuse {x : Progress} {l r : List (Int64 × Int64)} {batch : Int64 × Int64}
      {u v : List Workspace} {ws : Workspace}
      (hwaiting : x.waiting = l ++ batch :: r) (hidle : x.idle = u ++ ws :: v)
      (hopen : x.cancelled = false) :
      Step sch p x { x with
        waiting := l ++ r
        running := ⟨ws, batch.1.toInt.toNat, batch.2.toInt.toNat⟩ :: x.running
        idle := u ++ v }
  | advance {x : Progress} {l r : List Task} {t : Task} {ws : Workspace} {b : HostBuffers}
      (hrunning : x.running = l ++ t :: r) (hnext : t.next < t.stop)
      (hrun : run sch p x.buffers t.workspace t.next = some (ws, b)) :
      Step sch p x { x with
        buffers := b
        running := l ++ ⟨ws, t.next + 1, t.stop⟩ :: r }
  | finish {x : Progress} {l r : List Task} {t : Task}
      (hrunning : x.running = l ++ t :: r) (hend : t.stop ≤ t.next) :
      Step sch p x { x with
        running := l ++ r
        idle := t.workspace :: x.idle }
  | forget {x : Progress} {u v : List Workspace} {ws : Workspace}
      (hidle : x.idle = u ++ ws :: v) :
      Step sch p x { x with idle := u ++ v }
  | cancel {x : Progress} : Step sch p x { x with cancelled := true }
  | skip {x : Progress} {l r : List (Int64 × Int64)} {batch : Int64 × Int64}
      (hwaiting : x.waiting = l ++ batch :: r) (hcancelled : x.cancelled = true) :
      Step sch p x { x with waiting := l ++ r }

abbrev Reaches (sch : Schedule) (p : Plan) : Progress → Progress → Prop :=
  Relation.ReflTransGen (Step sch p)

structure Succeeded (x : Progress) : Prop where
  waiting : x.waiting = []
  running : x.running = []
  opened : x.cancelled = false

def pending (x : Progress) : List Nat :=
  x.running.flatMap Task.ids ++ x.waiting.flatMap batchIds

/-- What holds at every moment of an update: all workspaces fit the plan, and every instance has
been advanced, is still to be advanced, or was passed over after the caller gave up. -/
structure Sound (p : Plan) (b : HostBuffers) (x : Progress) : Prop where
  idle_fit : ∀ ws ∈ x.idle, ws.Fits p
  running_fit : ∀ t ∈ x.running, t.workspace.Fits p
  account : ∃ done skipped, b.AdvancedAt p x.buffers done ∧
    (done ++ x.pending ++ skipped).Perm (List.range b.count.toInt.toNat) ∧
    (x.cancelled = false → skipped = [])

variable {d : Descriptor} {a : Automaton} {w : Wiring} {cs : List Program.Compiled}
  {sch : Schedule} {b : HostBuffers} {x y : Progress}

theorem ids_cons {t : Task} (h : t.next < t.stop) (ws : Workspace) :
    t.ids = t.next :: Task.ids ⟨ws, t.next + 1, t.stop⟩ := by
  unfold Task.ids
  rw [show t.stop - t.next = t.stop - (t.next + 1) + 1 by omega, range'_succ]

theorem ids_nil {t : Task} (h : t.stop ≤ t.next) : t.ids = [] := by
  rw [Task.ids, show t.stop - t.next = 0 by omega]
  rfl

theorem Sound.step (hb : a.Built d w cs) (h : x.Sound a.plan b) (hstep : Step sch a.plan x y) :
    y.Sound a.plan b := by
  obtain ⟨hidle, hfits, done, skipped, hbuf, hperm, hskipped⟩ := h
  cases hstep with
  | fresh hwaiting hopen =>
    refine ⟨hidle, ?_, done, skipped, hbuf, ?_, hskipped⟩
    · simp only [mem_cons, forall_eq_or_imp]
      exact ⟨a.plan.workspace_fits, hfits⟩
    · refine .trans (perm_iff_count.mpr fun k => ?_) hperm
      simp only [pending, hwaiting, Task.ids, batchIds, flatMap_append, flatMap_cons,
        count_append]
      omega
  | reuse hwaiting hws hopen =>
    rw [hws] at hidle
    refine ⟨fun v hv => hidle v ?_, ?_, done, skipped, hbuf, ?_, hskipped⟩
    · rcases mem_append.mp hv with hv | hv <;> simp [hv]
    · simp only [mem_cons, forall_eq_or_imp]
      exact ⟨hidle _ (by simp), hfits⟩
    · refine .trans (perm_iff_count.mpr fun k => ?_) hperm
      simp only [pending, hwaiting, Task.ids, batchIds, flatMap_append, flatMap_cons,
        count_append]
      omega
  | @advance l r t ws b' hrunning hnext hrun =>
    have hmem : t ∈ x.running := by simp [hrunning]
    have hids := ids_cons hnext ws
    have hnodup := hperm.nodup_iff.mpr nodup_range
    have hpending : t.next ∈ x.pending := by
      simp [pending, hrunning, hids]
    have hlt : t.next < b.count.toInt.toNat :=
      mem_range.mp (hperm.mem_iff.mp (by simp [hpending]))
    have hnew : t.next ∉ done := fun hdone =>
      (nodup_append.mp (nodup_append.mp hnodup).1).2.2 _ hdone _ hpending rfl
    have hall := hbuf.complete
    have hlt' : t.next < x.buffers.count.toInt.toNat := by rwa [hbuf.count_eq]
    obtain ⟨z, hz⟩ := hall _ hlt'
    obtain ⟨ws', hrun', hws'⟩ := run_eq hb (hfits t hmem) sch hz
    obtain ⟨rfl, rfl⟩ := Prod.mk.inj (some.inj (hrun.symm.trans hrun'))
    refine ⟨hidle, fun u hu => ?_, done ++ [t.next], skipped, ?_, ?_, hskipped⟩
    · simp only [mem_append, mem_cons] at hu
      rcases hu with hu | rfl | hu
      · exact hfits u (by simp [hrunning, hu])
      · exact hws'
      · exact hfits u (by simp [hrunning, hu])
    · refine hbuf.put hlt hnew hz (size_advanced_state hb z) ?_
      rw [size_advanced_output]
      exact (hall.size_of hlt' hz .outputMap).trans (hall.size_of hlt' hz .output).symm
    · refine .trans (perm_iff_count.mpr fun k => ?_) hperm
      simp only [pending, hrunning, hids, flatMap_append, flatMap_cons,
        count_append, count_cons, count_nil]
      omega
  | finish hrunning hend =>
    refine ⟨?_, fun u hu => hfits u ?_, done, skipped, hbuf, ?_, hskipped⟩
    · simp only [mem_cons, forall_eq_or_imp]
      exact ⟨hfits _ (by simp [hrunning]), hidle⟩
    · rw [hrunning]
      rcases mem_append.mp hu with hu | hu <;> simp [hu]
    · refine .trans (perm_iff_count.mpr fun k => ?_) hperm
      simp only [pending, hrunning, ids_nil hend, flatMap_append, flatMap_cons,
        count_append, count_nil]
      omega
  | forget hws =>
    refine ⟨fun v hv => hidle v ?_, hfits, done, skipped, hbuf, hperm, hskipped⟩
    rw [hws]
    rcases mem_append.mp hv with hv | hv <;> simp [hv]
  | cancel => exact ⟨hidle, hfits, done, skipped, hbuf, hperm, fun h => by cases h⟩
  | @skip l r batch hwaiting hcancelled =>
    refine ⟨hidle, hfits, done, batchIds batch ++ skipped, hbuf, ?_, fun h => ?_⟩
    · refine .trans (perm_iff_count.mpr fun k => ?_) hperm
      simp only [pending, hwaiting, flatMap_append, flatMap_cons, count_append]
      omega
    · exact absurd (hcancelled.symm.trans h) (by decide)

theorem Sound.reaches (hb : a.Built d w cs) (h : x.Sound a.plan b)
    (hreach : Reaches sch a.plan x y) : y.Sound a.plan b := by
  induction hreach with
  | refl => exact h
  | tail _ hstep ih => exact ih.step hb hstep

theorem sound_start (h : b.Complete) (hids : bs.flatMap batchIds = List.range b.count.toInt.toNat)
    {idle : List Workspace} (hidle : ∀ ws ∈ idle, ws.Fits p) :
    Sound p b { buffers := b, waiting := bs, idle } :=
  ⟨hidle, by simp, [], [], .refl p h, by simp [pending, hids], fun _ => rfl⟩

theorem reaches_batch {ws ws' : Workspace} {b' : HostBuffers} {lo hi : Nat} {r : List Task}
    (hx : x.running = ⟨ws, lo, hi⟩ :: r)
    (h : (List.range' lo (hi - lo)).foldlM (fun (ws, b) i => run sch p b ws i) (ws, x.buffers) =
      some (ws', b')) :
    Reaches sch p x { x with buffers := b', running := r, idle := ws' :: x.idle } := by
  induction hn : hi - lo generalizing lo ws x with
  | zero =>
    rw [hn] at h
    obtain ⟨rfl, rfl⟩ := Prod.mk.inj (some.inj h)
    exact .single (Step.finish (l := []) hx (by simp only; omega))
  | succ n ih =>
    rw [hn, range'_succ] at h
    obtain ⟨⟨ws1, b1⟩, hrun, hrest⟩ := bind_eq_some_iff.mp h
    have hlt : lo < hi := by omega
    have hfirst := Step.advance (l := []) hx hlt hrun
    refine .head hfirst ?_
    refine ih (x := { x with buffers := b1, running := ⟨ws1, lo + 1, hi⟩ :: r }) rfl ?_
      (by omega)
    rw [show hi - (lo + 1) = n by omega]
    exact hrest

theorem reaches_all {b' : HostBuffers} (h : runAll sch p b bs = some b') (idle : List Workspace) :
    ∃ idle', Reaches sch p { buffers := b, waiting := bs, idle }
      { buffers := b', waiting := [], idle := idle' } := by
  induction bs generalizing b idle with
  | nil =>
    obtain rfl := some.inj h
    exact ⟨idle, .refl⟩
  | cons batch bs ih =>
    obtain ⟨b1, hfirst, hrest⟩ := bind_eq_some_iff.mp h
    obtain ⟨⟨ws', b1'⟩, heach, rfl⟩ := map_eq_some_iff.mp hfirst
    obtain ⟨idle', hothers⟩ := ih hrest (ws' :: idle)
    refine ⟨idle', .head (Step.fresh (l := []) rfl rfl) (.trans ?_ hothers)⟩
    exact reaches_batch (r := []) rfl heach

theorem Sound.succeeded (h : x.Sound p b) (hend : x.Succeeded) :
    b.AdvancedAt p x.buffers (List.range b.count.toInt.toNat) := by
  obtain ⟨-, -, done, skipped, hbuf, hperm, hskipped⟩ := h
  rw [pending, hend.waiting, hend.running, hskipped hend.opened] at hperm
  simp only [flatMap_nil, append_nil] at hperm
  refine ⟨fun i hi => ?_, hbuf.kept, hbuf.state_rest, hbuf.output_rest⟩
  simpa only [hperm.mem_iff] using hbuf.each i hi

end Progress

section Batches

variable {d : Descriptor} {a : Automaton} {w : Wiring} {cs : List Program.Compiled}
  {sch : Schedule} {b b' : HostBuffers} {ws ws' : Workspace}

theorem run_some (hb : a.Built d w cs) (hws : ws.Fits a.plan) {k : Nat}
    (h : run sch a.plan b ws k = some (ws', b')) :
    ws'.Fits a.plan ∧ (∃ x, b.instance? (Int64.ofNat k) = some x) ∧
      ∀ j, (∃ x, b'.instance? j = some x) ↔ ∃ x, b.instance? j = some x := by
  obtain ⟨x, hx, hput⟩ := map_eq_some_iff.mp h
  obtain ⟨ws1, hrun, hfits⟩ := run_eq hb hws sch hx
  obtain ⟨rfl, rfl⟩ := Prod.mk.inj (some.inj (h.symm.trans hrun))
  refine ⟨hfits, ⟨x, hx⟩, fun j => exists_instance_put hx (size_advanced_state hb x) ?_⟩
  have hmap := (slice?_some (instance?_eq_some_iff.mp hx .outputMap)).2.2.2
  have hout := (slice?_some (instance?_eq_some_iff.mp hx .output)).2.2.2
  rw [size_advanced_output]
  exact hmap.trans hout.symm

theorem runEach_some (hb : a.Built d w cs) (hws : ws.Fits a.plan) {ks : List Nat}
    (h : ks.foldlM (fun (ws, b) k => run sch a.plan b ws k) (ws, b) = some (ws', b')) :
    (∀ k ∈ ks, ∃ x, b.instance? (Int64.ofNat k) = some x) ∧
      ∀ j, (∃ x, b'.instance? j = some x) ↔ ∃ x, b.instance? j = some x := by
  induction ks generalizing ws b with
  | nil =>
    obtain ⟨rfl, rfl⟩ := Prod.mk.inj (some.inj h)
    exact ⟨by simp, fun j => Iff.rfl⟩
  | cons k ks ih =>
    obtain ⟨⟨ws1, b1⟩, hrun, hrest⟩ := bind_eq_some_iff.mp h
    obtain ⟨hfits, hfound, hkept⟩ := run_some hb hws hrun
    obtain ⟨hothers, hkept'⟩ := ih hfits hrest
    refine ⟨fun j hj => ?_, fun j => (hkept' j).trans (hkept j)⟩
    rcases mem_cons.mp hj with rfl | hj
    · exact hfound
    · exact (hkept _).mp (hothers j hj)

theorem runAll_some (hb : a.Built d w cs) (h : runAll sch a.plan b bs = some b') :
    ∀ k ∈ bs.flatMap batchIds, ∃ x, b.instance? (Int64.ofNat k) = some x := by
  induction bs generalizing b with
  | nil => simp
  | cons batch bs ih =>
    obtain ⟨b1, hfirst, hrest⟩ := bind_eq_some_iff.mp h
    obtain ⟨⟨ws', b1'⟩, heach, rfl⟩ := map_eq_some_iff.mp hfirst
    obtain ⟨hfound, hkept⟩ := runEach_some hb a.plan.workspace_fits heach
    intro k hk
    rcases mem_append.mp (flatMap_cons ▸ hk) with hk | hk
    · exact hfound k hk
    · exact (hkept _).mp (ih hrest k hk)

end Batches

end Cpu

namespace Cpu

theorem update_steps {c c' : Cpu} {cancelled : Bool} (h : c.update cancelled = .ok c') :
    ∃ bs b', c.pool.batches? c.buffers.count = some bs ∧
      runAll c.schedule c.automaton.plan c.buffers bs = some b' ∧
      c' = { c with buffers := b' } := by
  unfold update at h
  split at h
  · cases h
  · split at h
    · cases h
    · split at h
      · cases h
      · split at h
        · cases h
        · rename_i b' hrun
          obtain ⟨bs, hbs, hall⟩ := bind_eq_some_iff.mp hrun
          exact ⟨bs, b', hbs, hall, (Except.ok.inj h).symm⟩

theorem create_count {a : Automaton} {config : Config} {o : Options} {c : Cpu}
    (h : create (some a) config o = .ok c) : c.buffers.count.toInt ≤ 2 ^ 62 := by
  obtain ⟨b, hb, h⟩ := Outcome.bind_ok.mp h
  obtain ⟨pool, -, h⟩ := Outcome.bind_ok.mp h
  cases h
  obtain ⟨hshape, halloc, -⟩ := HostBuffers.create_ok (s := shapeFor a config) hb
  have hcount : b.count = (shapeFor a config).size := congrArg Shape.size hshape
  rw [Allocator.create] at halloc
  split at halloc
  · rename_i hadmits
    have hlimit : Memory.limit = 2 ^ 48 := rfl
    simp only [Memory.admits, hlimit, Bool.and_eq_true, decide_eq_true_eq] at hadmits
    rw [← hcount] at hadmits
    show b.count.toInt ≤ 2 ^ 62
    omega
  · cases halloc

theorem update_advanced {d : Descriptor} {a : Automaton} {w : Wiring} {cs : List Program.Compiled}
    (hb : a.Built d w cs) {c c' : Cpu} (hc : c.automaton = a)
    (hfew : c.buffers.count.toInt ≤ 2 ^ 62) {cancelled : Bool}
    (h : c.update cancelled = .ok c') :
    c.buffers.Complete ∧
      c.buffers.AdvancedAt a.plan c'.buffers (List.range c.buffers.count.toInt.toNat) := by
  obtain ⟨bs, b', hbs, hrun, rfl⟩ := update_steps h
  rw [hc] at hrun
  have hids := batches_ids hfew hbs
  have hcomplete : c.buffers.Complete := fun i hi =>
    runAll_some hb hrun i (by rw [hids]; exact mem_range.mpr hi)
  obtain ⟨idle, hreach⟩ := Progress.reaches_all hrun []
  have hsound := (Progress.sound_start hcomplete hids (by simp)).reaches hb hreach
  exact ⟨hcomplete, hsound.succeeded ⟨rfl, rfl, rfl⟩⟩

end Cpu

/-- An update that succeeds advances each instance once, by its own windows alone, and changes
nothing else. However workers interleave their batches and whichever workspaces they take, an
update that comes to its end leaves the same buffers. No simulator can be created with too many
instances for that. Exactly where the items and the batches can be counted together, the batches
of a pool with workers hold every item once, none is empty, and there is at most one for each
worker. -/
theorem update_independent {d : Descriptor} {a : Automaton}
    (ha : Automaton.compile (some d) = .ok a) {c c' : Cpu} (hc : c.automaton = a)
    (hfew : c.buffers.count.toInt ≤ 2 ^ 62) {cancelled : Bool}
    (h : c.update cancelled = .ok c') :
    c' = { c with buffers := c'.buffers } ∧
    (∃ state output, c'.buffers = { c.buffers with state, output }) ∧
    (∀ i < c.buffers.count.toInt.toNat, ∃ x, c.buffers.instance? (Int64.ofNat i) = some x ∧
      c'.buffers.instance? (Int64.ofNat i) = some (Cpu.advanced a.plan x)) ∧
    (∀ (e e' : Cpu) (given : Bool), e.automaton = a → e.buffers.count.toInt ≤ 2 ^ 62 →
      e.update given = .ok e' →
      ∀ i < c.buffers.count.toInt.toNat, ∀ j < e.buffers.count.toInt.toNat,
        c.buffers.instance? (Int64.ofNat i) = e.buffers.instance? (Int64.ofNat j) →
        c'.buffers.instance? (Int64.ofNat i) = e'.buffers.instance? (Int64.ofNat j)) ∧
    (∃ bs, c.pool.batches? c.buffers.count = some bs ∧
      ∀ idle : List Workspace, (∀ ws ∈ idle, ws.Fits a.plan) →
        (∃ y, Cpu.Progress.Reaches c.schedule a.plan
          { buffers := c.buffers, waiting := bs, idle } y ∧ y.Succeeded) ∧
        ∀ y, Cpu.Progress.Reaches c.schedule a.plan
          { buffers := c.buffers, waiting := bs, idle } y → y.Succeeded →
          y.buffers = c'.buffers) ∧
    (∀ (config : Config) (o : Options) (e : Cpu), Cpu.create (some a) config o = .ok e →
      e.buffers.count.toInt ≤ 2 ^ 62) ∧
    ∀ (pool : Pool) (n : Int64), 0 < n.toInt →
      ((∃ bs, pool.batches? n = some bs ∧ pool.Cuts n bs) ↔
        0 < pool.workers.toInt ∧ n.toInt + min pool.workers.toInt n.toInt ≤ 2 ^ 63) := by
  obtain ⟨w, cs, hb⟩ := Automaton.compile_ok ha
  have each : ∀ {e e' : Cpu} {given : Bool}, e.automaton = a → e.buffers.count.toInt ≤ 2 ^ 62 →
      e.update given = .ok e' → ∀ i < e.buffers.count.toInt.toNat,
      ∃ x, e.buffers.instance? (Int64.ofNat i) = some x ∧
        e'.buffers.instance? (Int64.ofNat i) = some (Cpu.advanced a.plan x) := by
    intro e e' given he hcount hupdate i hi
    have hadvanced := (Cpu.update_advanced hb he hcount hupdate).2.each i hi
    simpa only [List.mem_range, hi, if_true] using hadvanced
  obtain ⟨hcomplete, hadvanced⟩ := Cpu.update_advanced hb hc hfew h
  obtain ⟨bs, b', hbs, hrun, rfl⟩ := Cpu.update_steps h
  rw [hc] at hrun
  refine ⟨rfl, hadvanced.kept, each hc hfew h,
    fun e e' given he hcount hupdate i hi j hj hsame => ?_,
    ⟨bs, hbs, fun idle hidle => ⟨?_, fun y hy hend => ?_⟩⟩,
    fun config o e he => Cpu.create_count he, fun pool n hn => Pool.cuts_iff hn⟩
  · obtain ⟨x, hx, hx'⟩ := each hc hfew h i hi
    obtain ⟨z, hz, hz'⟩ := each he hcount hupdate j hj
    obtain rfl := Option.some.inj ((hx.symm.trans hsame).trans hz)
    exact hx'.trans hz'.symm
  · obtain ⟨idle', hreach⟩ := Cpu.Progress.reaches_all hrun idle
    exact ⟨_, hreach, ⟨rfl, rfl, rfl⟩⟩
  · have hstart := Cpu.Progress.sound_start hcomplete (Cpu.batches_ids hfew hbs) hidle
    have hsound := hstart.reaches hb hy
    exact (hsound.succeeded hend).unique hadvanced fun i _ => Iff.rfl

def HostBuffers.trio : HostBuffers where
  alloc := ⟨[0, 1, 2], #[false, false, false]⟩
  count := 3
  inputSize := 1
  stateSize := 6
  outputSize := 1
  state := #[1, 2, 3, 4, 5, 6, -1, -2, -3, -4, -5, -6, 10, 20, 30, 40, 50, 60]
  input := #[7, 8, 9]
  inputMap := #[0, 4, 0]
  outputMap := #[0, 0, 3]
  output := #[0, 0, 0]

theorem update_independent_trio : ∃ (a : Automaton) (c c' : Cpu) (y : Cpu.Progress),
    Automaton.compile (some Descriptor.relay) = .ok a ∧
    c = { automaton := a, buffers := .trio, pool := { workers := 2 }, schedule := .units,
          logger := none } ∧
    c.update false = .ok c' ∧
    c'.buffers.state = #[4, 1, -6, -7, 5, 6, 13, 12, -9, 5, 8, -6, 7, 26, -51, -61, 50, 60] ∧
    c'.buffers.output = #[4, 13, -61] ∧
    Cpu.Progress.Reaches c.schedule a.plan
      { buffers := c.buffers, waiting := [(0, 2), (2, 3)],
        idle := [(a.plan.run a.plan.workspace #[9, 9, 9, 9, 9, 9] #[]).1] } y ∧
    y.Succeeded ∧ y.buffers = c'.buffers := by
  obtain ⟨a, ha, heval⟩ := Outcome.exists_ok (Automaton.compile (some Descriptor.relay))
    (fun a =>
      let c : Cpu := { automaton := a, buffers := .trio, pool := { workers := 2 },
                       schedule := .units, logger := none }
      let ws := (a.plan.run a.plan.workspace #[9, 9, 9, 9, 9, 9] #[]).1
      ws.frames.size == a.plan.units && ws.scratch.size == a.plan.inlets.length * a.plan.units &&
        (c.update false).toOption.any fun c' =>
          c'.buffers.state ==
              #[4, 1, -6, -7, 5, 6, 13, 12, -9, 5, 8, -6, 7, 26, -51, -61, 50, 60] &&
            c'.buffers.output == #[4, 13, -61])
    (by decide +kernel)
  simp only [Bool.and_eq_true, beq_iff_eq] at heval
  obtain ⟨⟨hframes, hscratch⟩, hupdate⟩ := heval
  obtain ⟨c', hc', hwords⟩ := Outcome.exists_ok _ _ hupdate
  simp only [Bool.and_eq_true, beq_iff_eq] at hwords
  obtain ⟨-, -, -, -, ⟨bs, hbs, hall⟩, -⟩ := update_independent ha rfl
    (show HostBuffers.trio.count.toInt ≤ 2 ^ 62 by decide) hc'
  have hcut : Pool.batches? { workers := 2 } 3 = some [(0, 2), (2, 3)] := by decide +kernel
  obtain rfl := some.inj (hcut.symm.trans hbs)
  obtain ⟨⟨y, hy, hend⟩, hsame⟩ :=
    hall [(a.plan.run a.plan.workspace #[9, 9, 9, 9, 9, 9] #[]).1]
      (by simpa using ⟨hframes, hscratch⟩)
  exact ⟨a, _, c', y, ha, rfl, hc', hwords.1, hwords.2, hy, hend, hsame y hy hend⟩

end TiledAutomata
