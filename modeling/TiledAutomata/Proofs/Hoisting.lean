import Mathlib.Data.List.Pairwise
import TiledAutomata.Proofs.Iterations
import TiledAutomata.Proofs.Naming

/-!
# Outputs that move out of the iterations

An output that reads nothing but parameters which no statement assigns is evaluated once per
update, although nobody marked it constant. Its expression has one value at every point of an
update. Had it stayed where it was, the output would hold that value after every iteration.
Moved, it holds the value to the end only where no statement before another update assigns it:
who reads an expression is checked, who writes its output is not.
-/

open List

namespace TiledAutomata

open Assign Program

open Outcome Layout

namespace Assign

variable {input : Words}

theorem execAll_append (as bs : List Assign) (vars : Vars) :
    execAll input (as ++ bs) vars = execAll input bs (execAll input as vars) :=
  foldl_append

theorem eval_execAll {e : Expr} (as : List Assign) (h : ∀ b ∈ as, b.target ∉ e.reads)
    (vars : Vars) : e.eval (execAll input as vars) input = e.eval vars input :=
  e.eval_congr fun _ hy => execAll_other as (fun b hb hby => h b hb (hby ▸ hy)) vars

theorem execAll_own {as : List Assign} (hu : u ∈ as) (hop : u.op = none)
    (hnodup : (as.map (·.target)).Nodup) (hreads : ∀ b ∈ as, b.target ∉ u.value.reads)
    (vars : Vars) : execAll input as vars u.target = u.value.eval vars input := by
  obtain ⟨before, after, rfl⟩ := append_of_mem hu
  rw [map_append, map_cons] at hnodup
  have hafter : ∀ b ∈ after, b.target ≠ u.target := by
    have hnot := (nodup_cons.mp (nodup_append.mp hnodup).2.1).1
    exact fun b hb heq => hnot (heq ▸ mem_map_of_mem hb)
  calc execAll input (before ++ u :: after) vars u.target
      = execAll input after (u.exec input (execAll input before vars)) u.target := by
        rw [execAll_append]
        rfl
    _ = u.result (execAll input before vars) input := by
        rw [execAll_other after hafter]
        exact Function.update_self ..
    _ = u.value.eval vars input := by
        rw [result, hop]
        exact eval_execAll before (fun b hb => hreads b (by simp [hb])) vars

end Assign

namespace Program

variable {p : Program} {u : Assign} {input state : Words} {n : Nat}

theorem statements_own {cs : List Compiled} {k : Bool} {c : Compiled} (hc : c ∈ cs)
    (hclass : c.constant = k) (hu : c.update = some u) (hop : u.op = none)
    (hnodup : ((cs.filterMap (·.update)).map (·.target)).Nodup)
    (hreads : ∀ b ∈ statements cs k, b.target ∉ u.value.reads) (input : Words) (vars : Vars) :
    Assign.execAll input (statements cs k) vars u.target = u.value.eval vars input := by
  have hown : u ∈ (cs.filter fun c => c.constant == k).filterMap (·.update) :=
    mem_filterMap.mpr ⟨c, mem_filter.mpr ⟨hc, by simpa using hclass⟩, hu⟩
  have hsub : (((cs.filter fun c => c.constant == k).filterMap (·.update)).map (·.target)).Sublist
      ((cs.filterMap (·.update)).map (·.target)) :=
    (filter_sublist.filterMap _).map _
  rw [statements, execAll_append,
    execAll_own hown hop (hnodup.sublist hsub) fun b hb => hreads b (by simp [statements, hb])]
  exact eval_execAll _ (fun b hb => hreads b (mem_append_left _ hb)) vars

structure Untouched (p : Program) (e : Expr) : Prop where
  constant : ∀ b ∈ p.constant, b.target ∉ e.reads
  dynamic : ∀ b ∈ p.dynamic, b.target ∉ e.reads
  readings : ∀ r ∈ p.readings, r.name ∉ e.reads

namespace Untouched

variable {e : Expr}

theorem observed (h : p.Untouched e) (shown : Nat → Vars) (vars : Vars) :
    e.eval (p.observed shown n vars) input = e.eval vars input :=
  e.eval_congr fun _ hy => observed_other (fun r hr hry => h.readings r hr (hry ▸ hy)) vars

theorem moment (h : p.Untouched e) (t : Nat) :
    e.eval ((p.moment state input t).own n) input = e.eval (p.loaded state n) input := by
  induction t with
  | zero => exact eval_execAll _ h.constant _
  | succ t ih => exact (eval_execAll _ h.dynamic _).trans ((h.observed _ _).trans ih)

end Untouched

def classes (l : Layout) (cs : List Compiled) : List Compiled :=
  cs.map (classify l (assignedBefore cs))

def classed (p : Program) (cs : List Compiled) : Program :=
  { p with constant := statements cs true, dynamic := statements cs false }

end Program

/-- A frame of a unit at some point of a run: after some of the constant statements, or after a
number of iterations, a snapshot and some of the dynamic statements. -/
inductive Plan.Reaches (q : Plan) (ws : Workspace) (state input : Words) (n : Nat) : Frame → Prop
  | constants (k : Nat) :
    Reaches q ws state input n (Plan.execute (q.constant.take k) (q.loaded state input n))
  | dynamic (t k : Nat) (f : Frame) :
    (q.eachUnit q.snapshot (q.iterateN t
      (q.eachUnit q.constants (q.eachUnit (q.load state input) ws)))).frames[n]? = some f →
    Reaches q ws state input n (Plan.execute (q.dynamic.take k) f)

section Points

variable {d : Descriptor} {a : Automaton} {w : Wiring} {cs : List Program.Compiled}
  {ws : Workspace} {state input : Words} {n : Nat} {f : Frame} {e : Expr}

open WorkGroup

theorem Plan.Reaches.shows (hb : a.Built d w cs) (hws : ws.Fits a.plan) (hn : n < a.plan.units)
    (he : a.program.Untouched e) (hf : a.plan.Reaches ws state input n f) :
    ∃ vars, f.Shows a.program input vars ∧
      e.eval vars input = e.eval (a.program.loaded state n) input := by
  cases hf with
  | constants k =>
    refine ⟨_, (hb.loaded_shows state input n).execute (forall₂_take k hb.plan.constant), ?_⟩
    exact eval_execAll _ (fun b hb => he.constant b (mem_of_mem_take hb)) _
  | dynamic t k f hf =>
    have hshows := hb.shows_iterations state t 0 (hb.shows_first hws state input)
    obtain ⟨g, hg, hframe⟩ := hb.shows_snapshot hshows hn
    rw [phase_snapshot, lockstep_iterations] at hg
    simp only [lockstep, phase_meet, phase_load, phase_constants, start] at hg
    obtain rfl : g = f := Option.some.inj (hg.symm.trans hf)
    refine ⟨_, hframe.execute (forall₂_take k hb.plan.dynamic), ?_⟩
    rw [eval_execAll _ fun b hb => he.dynamic b (mem_of_mem_take hb), he.observed]
    exact he.moment _

end Points

namespace Automaton.Built

variable {d : Descriptor} {a : Automaton} {w : Wiring} {cs : List Program.Compiled}
  {c : Program.Compiled} {u : Assign}

open Program

theorem classed_eq (hb : a.Built d w cs) :
    a.program.classed (classes a.layout cs) = a.program := by
  unfold classed classes Automaton.layout
  rw [← hb.program.constant, ← hb.program.dynamic]

theorem reading_not_name (hb : a.Built d w cs) {r : Reading} (hr : r ∈ a.program.readings) :
    r.name ∉ a.layout.names := by
  rw [hb.program.readings] at hr
  obtain ⟨⟨e, k⟩, -, rfl⟩ := mem_map.mp hr
  obtain ⟨-, -, hl⟩ := build_eq_ok_iff.mp hb.laidOut
  have hnames : a.layout.names = persisted w := congrArg Layout.names hl
  rw [hnames]
  exact externalVar_not_persisted w k

theorem map_update_classes {l : Layout} : (classes l cs).map (·.update) = cs.map (·.update) := by
  simp [classes, Function.comp_def, classify_update]

theorem targets_nodup (hb : a.Built d w cs) {ds : List Compiled}
    (hds : ds.map (·.update) = cs.map (·.update)) :
    ((ds.filterMap (·.update)).map (·.target)).Nodup := by
  have hupdates : ds.filterMap (·.update) = cs.filterMap (·.update) := by
    have h := congrArg (List.filterMap id) hds
    rwa [filterMap_map, filterMap_map] at h
  rw [hupdates]
  exact (outputVars_nodup hb.laidOut).sublist hb.program.targets

theorem target_ne (hb : a.Built d w cs) {e : Compiled} {b : Assign} (hc : c ∈ cs) (he : e ∈ cs)
    (hne : c ≠ e) (hu : c.update = some u) (hbe : e.update = some b) : b.target ≠ u.target := by
  have hpair := pairwise_filterMap.mp (pairwise_map.mp (hb.targets_nodup rfl))
  have hsymm : Std.Symm fun c e : Compiled =>
      ∀ a, c.update = some a → ∀ b, e.update = some b → a.target ≠ b.target :=
    ⟨fun c e h a ha b hb => (h b hb a ha).symm⟩
  exact (hpair.forall hc he hne u hu b hbe).symm

variable {state input : Words} {n : Nat}

section Moved

variable (hb : a.Built d w cs) (hc : c ∈ cs) (hu : c.update = some u) (hflag : c.constant = false)
  (hmoved : (classify a.layout (assignedBefore cs) c).constant = true)

include hb hu hflag hmoved

theorem untouched {ds : List Compiled}
    (hds : ∀ e ∈ ds, ∃ e' ∈ cs, e.before = e'.before ∧ e.update = e'.update) :
    (a.program.classed ds).Untouched u.value := by
  have hparams : readsOnlyParams a.layout (assignedBefore cs) u.value = true := by
    simp only [classify, hu] at hmoved
    split at hmoved
    · exact hmoved
    · rw [hflag] at hmoved
      cases hmoved
  have hreads : ∀ x ∈ u.value.reads, x ∉ outputVars a.layout ∧ x ∉ assignedBefore cs ∧
      (a.layout.slot? x).isSome = true := by
    intro x hx
    simp only [readsOnlyParams, Bool.and_eq_true, all_eq_true] at hparams
    simpa [and_assoc] using hparams.2 x (Expr.mem_idents.mpr hx)
  have hset : ∀ k, ∀ b ∈ statements ds k, b.target ∉ u.value.reads := by
    intro k b hmem hread
    obtain ⟨e, he, -, hmem⟩ := mem_statements.mp hmem
    obtain ⟨e', he', hbefore, hupdate⟩ := hds e he
    obtain ⟨hout, hassigned, -⟩ := hreads _ hread
    obtain hmem | hmem := hmem
    · exact hassigned (mem_flatMap.mpr ⟨e', he', mem_map_of_mem (hbefore ▸ hmem)⟩)
    · exact hout (hb.program.update_ok he' (hupdate ▸ hmem)).1
  exact ⟨hset true, hset false, fun r hr hread =>
    hb.reading_not_name hr (isSome_idxOf?.mp (hreads _ hread).2.2)⟩

theorem moved_untouched : a.program.Untouched u.value := by
  rw [← hb.classed_eq]
  refine hb.untouched hu hflag hmoved fun e he => ?_
  obtain ⟨e', he', rfl⟩ := mem_map.mp he
  exact ⟨e', he', classify_before _ _ e', classify_update _ _ e'⟩

theorem stayed_output {i : Nat} (hi : cs[i]? = some c) (t : Nat) :
    ((a.program.classed ((classes a.layout cs).set i c)).moment state input (t + 1)).own n
      u.target = u.value.eval (a.program.loaded state n) input := by
  have hc := mem_of_getElem? hi
  have hlt : i < (classes a.layout cs).length := by
    simpa [classes] using (List.getElem?_eq_some_iff.mp hi).1
  have hstay : (a.program.classed ((classes a.layout cs).set i c)).Untouched u.value := by
    refine hb.untouched hu hflag hmoved fun e he => ?_
    obtain he | rfl := mem_or_eq_of_mem_set he
    · obtain ⟨e', he', rfl⟩ := mem_map.mp he
      exact ⟨e', he', classify_before _ _ e', classify_update _ _ e'⟩
    · exact ⟨e, hc, rfl, rfl⟩
  have hupdates : ((classes a.layout cs).set i c).map (·.update) = cs.map (·.update) := by
    obtain ⟨hlen, hget⟩ := List.getElem?_eq_some_iff.mp
      (show (cs.map (·.update))[i]? = some c.update by simp [hi])
    rw [map_set, map_update_classes, ← hget, set_getElem_self]
  have hown := statements_own (mem_set hlt c) hflag hu (hb.program.update_ok hc hu).2.1
    (hb.targets_nodup hupdates) hstay.dynamic
  exact (hown _ _).trans ((hstay.observed _ _).trans (hstay.moment t))

include hc

theorem moved_code : ∃ code, u.value.compile a.program.varIndex? = .ok code ∧
    ∀ {ws state input n}, ws.Fits a.plan → n < a.plan.units →
      ∀ f, a.plan.Reaches ws state input n f →
        code f = u.value.eval (a.program.loaded state n) input := by
  have hconstant : u ∈ a.program.constant := by
    rw [hb.program.constant]
    exact mem_classified.mpr ⟨c, hc, hmoved, .inr hu⟩
  obtain ⟨j, hj, rfl⟩ := getElem_of_mem hconstant
  have hcompile := hb.plan.constant.get hj (hb.plan.constant.length_eq ▸ hj)
  obtain ⟨_, -, hcompile⟩ := bind_ok.mp hcompile
  obtain ⟨code, hcode, -⟩ := bind_ok.mp hcompile
  refine ⟨code, hcode, fun hws hn f hf => ?_⟩
  obtain ⟨vars, hshows, hvalue⟩ := hf.shows hb hws hn (hb.moved_untouched hu hflag hmoved)
  rw [Expr.compile_eval hshows.holds hcode, hshows.input]
  exact hvalue

/-- Moved, the output keeps its value while no statement before a dynamic update assigns it. -/
theorem moved_output (hbefore : ∀ e ∈ classes a.layout cs, e.constant = false →
      ∀ b ∈ e.before, b.target ≠ u.target) (t : Nat) :
    (a.program.moment state input t).own n u.target =
      u.value.eval (a.program.loaded state n) input := by
  obtain ⟨hout, hop, -⟩ := hb.program.update_ok hc hu
  have hother : ∀ b ∈ a.program.dynamic, b.target ≠ u.target := by
    intro b hmem
    rw [hb.program.dynamic] at hmem
    obtain ⟨e, he, hclass, hmem⟩ := mem_classified.mp hmem
    obtain hmem | hmem := hmem
    · exact hbefore _ (mem_map_of_mem he) hclass b (by rwa [classify_before])
    · refine hb.target_ne hc he ?_ hu hmem
      rintro rfl
      exact Bool.noConfusion (hclass.symm.trans hmoved)
  induction t with
  | zero =>
    have hreads := (hb.moved_untouched hu hflag hmoved).constant
    rw [hb.program.constant] at hreads
    have hown := statements_own (mem_map_of_mem hc) hmoved ((classify_update _ _ c).trans hu)
      hop (hb.targets_nodup map_update_classes) hreads input (a.program.loaded state n)
    rw [← hown]
    exact congrArg (fun as => execAll input as _ u.target) hb.program.constant
  | succ t ih =>
    refine (execAll_other _ hother _).trans ((observed_other ?_ _).trans ih)
    exact fun r hr heq => hb.reading_not_name hr (heq ▸ outputVars_sub hb.laidOut hout)

end Moved

end Automaton.Built

/-- An output that is not marked constant but moved to the constant statements: its expression has
one value at every point of a run; the output has it after every iteration of the program in which
it stays; and a run leaves it in the state unless a statement before a dynamic update assigns the
output. -/
theorem hoisted_output {d : Descriptor} {a : Automaton} (h : Automaton.compile (some d) = .ok a)
    {cs : List Program.Compiled} (hcs : Program.compileSites a.layout
      (a.layout.wiring.sites.zip a.layout.wiring.inputs) = .ok cs)
    {i : Nat} {c : Program.Compiled} (hi : cs[i]? = some c) {u : Assign} (hu : c.update = some u)
    (hflag : c.constant = false)
    (hmoved : (Program.classify a.layout (Program.assignedBefore cs) c).constant = true)
    {ws : Workspace} (hws : ws.Fits a.plan) (state input : Words)
    (hstate : state.size = a.layout.size * a.program.unitCount) {n : Nat}
    (hn : n < a.program.unitCount) :
    let classes := classes a.layout cs
    let v := u.value.eval (a.program.loaded state n) input
    (∃ code, u.value.compile a.program.varIndex? = .ok code ∧
      ∀ f, a.plan.Reaches ws state input n f → code f = v) ∧
    (∀ t, ((a.program.classed (classes.set i c)).moment state input (t + 1)).own n u.target = v) ∧
    ∃ s, a.layout.slot? u.target = some s ∧
      ((∀ e ∈ classes, e.constant = false → ∀ b ∈ e.before, b.target ≠ u.target) →
        (a.plan.run ws state input).2[s * a.program.unitCount + n]? = some v) := by
  intro classes v
  obtain ⟨w, cs', hb⟩ := Automaton.compile_ok h
  obtain rfl : cs' = cs := Except.ok.inj (hb.program.compiled.symm.trans hcs)
  have hc := List.mem_of_getElem? hi
  rw [← hb.units] at hn hstate ⊢
  obtain ⟨code, hcode, hpoints⟩ := hb.moved_code hc hu hflag hmoved
  have hout := (hb.program.update_ok hc hu).1
  obtain ⟨s, hs⟩ := slot?_of_mem (outputVars_sub hb.laidOut hout)
  refine ⟨⟨code, hcode, hpoints hws hn⟩, hb.stayed_output hu hflag hmoved hi, s, hs,
    fun hbefore => ?_⟩
  rw [hb.run_output hws state input hout hs hn (by rw [hstate]; exact place_lt hs hn),
    hb.moved_output hc hu hflag hmoved hbefore]

/-- An output that reads a parameter, and one with a statement before it that assigns the other. -/
def Descriptor.overwritten : Descriptor where
  width := 1
  height := 1
  cellTypes := some [{
    id := "t"
    params := ["k"]
    outputs := some [
      { id := "1", update := "\x7bk\x7d" },
      { id := "2", update := "1", before := "\x7boutput1\x7d = 5;" }] }]
  unit := { neighbors := "4", rows := some [{ cells := some [{ type := "t" }] }] }

/-- A run leaves what the statement assigns, where the program in which the output stays would leave
the parameter. -/
theorem hoisted_output_overwritten : ∃ a cs c,
    Automaton.compile (some Descriptor.overwritten) = .ok a ∧
    (a.plan.run a.plan.workspace #[1, 2, 3] #[]).2 = #[5, 1, 3] ∧
    ((a.program.classed ((Program.classes a.layout cs).set 0 c)).moment #[1, 2, 3] #[] 1).own 0
      "cell_1_out1" = 3 := by
  obtain ⟨a, ha, heval⟩ := exists_ok (Automaton.compile (some Descriptor.overwritten))
    (fun a => a.layout.size == 3 && a.program.unitCount == 1 &&
      (a.plan.run a.plan.workspace #[1, 2, 3] #[]).2 == #[5, 1, 3] &&
      (compileSites a.layout
        (a.layout.wiring.sites.zip a.layout.wiring.inputs)).toOption.any fun cs =>
          cs[0]?.any fun c => !c.constant &&
            (classify a.layout (assignedBefore cs) c).constant &&
            c.update.any fun u => u.target == "cell_1_out1" &&
              u.value.eval (a.program.loaded #[1, 2, 3] 0) #[] == 3) (by decide +kernel)
  simp only [Bool.and_eq_true, beq_iff_eq] at heval
  obtain ⟨⟨⟨hsize, hunits⟩, hrun⟩, hcs⟩ := heval
  obtain ⟨cs, hcs, hfirst⟩ := exists_ok _ _ hcs
  obtain ⟨c, hc, hfirst⟩ := exists_some _ _ hfirst
  simp only [Bool.and_eq_true, Bool.not_eq_true'] at hfirst
  obtain ⟨⟨hflag, hmoved⟩, hupdate⟩ := hfirst
  obtain ⟨u, hu, hvalue⟩ := exists_some _ _ hupdate
  simp only [Bool.and_eq_true, beq_iff_eq] at hvalue
  have hmain := hoisted_output ha hcs hc hu hflag hmoved a.plan.workspace_fits #[1, 2, 3] #[]
    (by rw [hsize, hunits]; rfl) (n := 0) (by rw [hunits]; decide)
  rw [hvalue.1, hvalue.2] at hmain
  exact ⟨a, cs, c, ha, hrun, hmain.2.1 0⟩

end TiledAutomata
