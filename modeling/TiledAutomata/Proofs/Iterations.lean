import TiledAutomata.Proofs.Synchronous

/-!
# An update of several iterations is as many updates of one

Between updates only slots persist: frames start anew, constants are evaluated again,
and neighbors read what was stored. When no output is marked constant or has statements
of its own before the update, nothing is lost by that. Every variable that a statement
assigns is an output, hence stored; what is evaluated once per update depends on
parameters alone, which nothing assigns. The number of iterations is the only part of a
compiled automaton that depends on the number a descriptor asks for.
-/

open List

namespace TiledAutomata

open Assign Automaton Descriptor Function Program

open Outcome

variable {a : Assign} {c : Compiled} {d : Descriptor} {l : Layout} {cs : List Compiled} {o : Output}
  {p : Program}

namespace Descriptor

def withIterations (d : Descriptor) (n : Int64) : Descriptor := { d with iterations := n }

end Descriptor

theorem Descriptor.effectiveIterations_withIterations (d : Descriptor) {n : Int64} (hn : 1 ≤ n) :
    (d.withIterations n).effectiveIterations = n := by
  have hpos : ¬n ≤ 0 := by
    rw [Int64.le_iff_toInt_le] at hn ⊢
    have : (1 : Int64).toInt = 1 := rfl
    have : (0 : Int64).toInt = 0 := rfl
    omega
  exact if_neg hpos

theorem Program.build_withIterations (h : build d l = .ok p) (n : Int64) :
    build (d.withIterations n) l =
      .ok { p with iterations := (d.withIterations n).effectiveIterations } := by
  obtain ⟨cs, hcs, h⟩ := bind_ok.mp h
  obtain ⟨c, hc, h⟩ := bind_ok.mp h
  obtain ⟨e, he, h⟩ := bind_ok.mp h
  cases h
  exact bind_ok.mpr ⟨cs, hcs, bind_ok.mpr ⟨c, hc, bind_ok.mpr ⟨e, he, rfl⟩⟩⟩

theorem Plan.build_withIterations {q : Plan} (h : build p = .ok q) (n : Int64) :
    build { p with iterations := n } = .ok { q with iterations := n.toInt.toNat } := by
  obtain ⟨c, hc, h⟩ := bind_ok.mp h
  obtain ⟨e, he, h⟩ := bind_ok.mp h
  cases h
  exact bind_ok.mpr ⟨c, hc, bind_ok.mpr ⟨e, he, rfl⟩⟩

theorem Automaton.compile_withIterations {a : Automaton} (h : compile (some d) = .ok a)
    (n : Int64) :
    ∃ b, compile (some (d.withIterations n)) = .ok b ∧
      b.program = { a.program with iterations := (d.withIterations n).effectiveIterations } := by
  obtain ⟨hv, b, hb, rfl⟩ := compile_eq_ok_iff.mp h
  obtain ⟨w, hw, hl, hp, hq⟩ := build_steps hb
  have hv' : (d.withIterations n).validate = .ok () := (d.validate_with d.element n).trans hv
  have hw' : Wiring.resolve (d.withIterations n) = .ok w :=
    (Wiring.resolve_with d d.element n).trans hw
  exact ⟨_, compile_eq_ok_iff.mpr ⟨hv', _, bind_ok.mpr
    ⟨w, mapError_ok.mpr hw', bind_ok.mpr ⟨_, mapError_ok.mpr hl, bind_ok.mpr
      ⟨_, build_withIterations hp n, bind_ok.mpr
        ⟨_, mapError_ok.mpr (Plan.build_withIterations hq _), rfl⟩⟩⟩⟩, rfl⟩, rfl⟩

namespace Assign

variable {input : Words} {vars other : Vars} {x : String}

theorem execAll_other (as : List Assign) (h : ∀ a ∈ as, a.target ≠ x) (vars : Vars) :
    execAll input as vars x = vars x := by
  induction as generalizing vars with
  | nil => rfl
  | cons a as ih =>
    have htail : ∀ b ∈ as, b.target ≠ x := fun b hb => h b (by simp [hb])
    have hhead : x ≠ a.target := (h a (by simp)).symm
    calc execAll input (a :: as) vars x = execAll input as (a.exec input vars) x := rfl
      _ = a.exec input vars x := ih htail _
      _ = vars x := update_of_ne hhead _ _

theorem execAll_agree {Q : String → Prop} (as : List Assign) (hop : ∀ a ∈ as, a.op = none)
    (hreads : ∀ a ∈ as, ∀ y ∈ a.value.reads, Q y) (htarget : ∀ a ∈ as, ¬Q a.target)
    (hQ : ∀ y, Q y → vars y = other y) (hx : (∃ a ∈ as, a.target = x) ∨ vars x = other x) :
    execAll input as vars x = execAll input as other x := by
  induction as generalizing vars other with
  | nil =>
    rcases hx with ⟨a, ha, -⟩ | hx
    · cases ha
    · exact hx
  | cons a as ih =>
    have hresult : a.result vars input = a.result other input := by
      unfold result
      rw [hop a (by simp)]
      exact a.value.eval_congr fun y hy => hQ y (hreads a (by simp) y hy)
    have hkeep : ∀ y, y ≠ a.target → vars y = other y →
        a.exec input vars y = a.exec input other y := by
      intro y hne hy
      unfold exec
      rw [update_of_ne hne, update_of_ne hne, hy]
    have hset : a.exec input vars a.target = a.exec input other a.target := by
      unfold exec
      rw [update_self, update_self, hresult]
    refine ih (fun b hb => hop b (by simp [hb])) (fun b hb => hreads b (by simp [hb]))
      (fun b hb => htarget b (by simp [hb])) (fun y hy => ?_) ?_
    · exact hkeep y (fun h => htarget a (by simp) (h ▸ hy)) (hQ y hy)
    · by_cases hxa : x = a.target
      · exact Or.inr (hxa ▸ hset)
      · rcases hx with ⟨b, hb, hbx⟩ | hx
        · rcases mem_cons.mp hb with rfl | hb
          · exact absurd hbx.symm hxa
          · exact Or.inl ⟨b, hb, hbx⟩
        · exact Or.inr (hkeep x hxa hx)

end Assign

/-- An output that is not marked constant and that no statements come before. -/
def Output.Plain (o : Output) : Prop :=
  o.constant = false ∧ ∀ s as, Program.compileBefore s o = .ok as → as = []

theorem Output.plain_of_empty (hconstant : o.constant = false) (hbefore : o.before = "") :
    o.Plain := by
  refine ⟨hconstant, fun s as h => ?_⟩
  rw [compileBefore, if_pos hbefore] at h
  cases h
  rfl

theorem Output.Plain.with_id (h : o.Plain) (id : String) : Output.Plain { o with id } := by
  refine ⟨h.1, fun s as has => h.2 s as ?_⟩
  unfold compileBefore at has ⊢
  split at has
  · rename_i hempty
    rwa [if_pos hempty]
  · rename_i hempty
    rw [if_neg hempty]
    obtain ⟨text, htext, has⟩ := bind_ok.mp has
    exact bind_ok.mpr ⟨text, htext, mapError_ok.mpr (mapError_ok.mp has)⟩

namespace Program

structure Compiled.Plain (c : Compiled) : Prop where
  before : c.before = []
  constant : c.constant = false

theorem compileUpdate_ok {s : Placeholder.Scope} (h : compileUpdate s o = .ok (some a)) :
    a.target = Layout.outputVar s.site.id o.id ∧ a.op = none ∧ a.declares = false := by
  unfold compileUpdate at h
  split at h
  · cases h
  · obtain ⟨text, -, h⟩ := bind_ok.mp h
    obtain ⟨e, -, h⟩ := bind_ok.mp h
    cases h
    exact ⟨rfl, rfl, rfl⟩

theorem compileOutput_update {s : Site} {inputs : List Binding}
    (h : compileOutput l s inputs o = .ok c) (ha : c.update = some a) :
    a.target = Layout.outputVar s.id o.id ∧ a.op = none ∧ a.declares = false := by
  obtain ⟨before, -, h⟩ := bind_ok.mp h
  obtain ⟨update, hupdate, h⟩ := bind_ok.mp h
  cases h
  obtain rfl : update = some a := ha
  exact compileUpdate_ok hupdate

theorem compileOutput_plain {s : Site} {inputs : List Binding} (ho : o.Plain)
    (h : compileOutput l s inputs o = .ok c) : c.Plain := by
  obtain ⟨before, hbefore, h⟩ := bind_ok.mp h
  obtain ⟨update, -, h⟩ := bind_ok.mp h
  cases h
  exact ⟨ho.2 _ _ hbefore, ho.1⟩

theorem flatMap_zip_sublist {α β γ : Type} (f : α → List γ) (as : List α) (bs : List β) :
    ((as.zip bs).flatMap fun p => f p.1).Sublist (as.flatMap f) := by
  induction as generalizing bs with
  | nil => exact List.Sublist.refl _
  | cons a as ih =>
    cases bs with
    | nil => exact nil_sublist _
    | cons b bs => exact List.Sublist.append (List.Sublist.refl _) (ih bs)

theorem targets_sublist {xs : List String}
    (h : List.Forall₂ (fun x c => ∀ a, c.update = some a → a.target = x) xs cs) :
    ((cs.filterMap (·.update)).map (·.target)).Sublist xs := by
  induction h with
  | nil => exact List.Sublist.refl _
  | @cons x c xs cs hc _ ih =>
    cases hu : c.update with
    | none =>
      rw [filterMap_cons_none hu]
      exact ih.cons x
    | some a =>
      rw [filterMap_cons_some hu, map_cons, hc a hu]
      exact ih.cons_cons x

theorem Built.targets (hb : Built d l cs p) :
    ((cs.filterMap (·.update)).map (·.target)).Sublist (outputVars l) :=
  (targets_sublist (compileSites_forall₂ (fun _ _ _ _ _ hc _ ha => (compileOutput_update hc ha).1)
    hb.compiled)).trans (flatMap_zip_sublist
      (fun s : Site => s.type.outputList.map fun o => Layout.outputVar s.id o.id) _ _)

theorem Built.update_ok (hb : Built d l cs p) (hc : c ∈ cs) (ha : c.update = some a) :
    a.target ∈ outputVars l ∧ a.op = none ∧ a.declares = false := by
  obtain ⟨s, -, o, -, ho⟩ := mem_compiled hb.compiled hc
  exact ⟨hb.targets.subset (mem_map_of_mem (mem_filterMap.mpr ⟨c, hc, ha⟩)),
    (compileOutput_update ho ha).2⟩

/-- The class of a plain output depends on its update alone. -/
theorem Compiled.Plain.classify (h : c.Plain) (l : Layout) (assigned : List String)
    (ha : c.update = some a) :
    (Program.classify l assigned c).constant = readsOnlyParams l assigned a.value := by
  unfold Program.classify
  rw [ha]
  simp [h.before, h.constant]

theorem mem_plain_statements {assigned : List String} (h : ∀ c ∈ cs, c.Plain) {k : Bool}
    (ha : a ∈ statements (cs.map (classify l assigned)) k) :
    ∃ c ∈ cs, c.update = some a ∧ readsOnlyParams l assigned a.value = k := by
  obtain ⟨c, hc, hclass, hbefore | hupdate⟩ := mem_classified.mp ha
  · rw [(h c hc).before] at hbefore
    cases hbefore
  · exact ⟨c, hc, hupdate, (h c hc).classify l assigned hupdate ▸ hclass⟩

/-- Statements set outputs, each class its own, and those that run once per update read no
output. -/
structure Hoisted (p : Program) : Prop where
  constant_target : ∀ a ∈ p.constant, a.target ∈ outputVars p.layout
  dynamic_target : ∀ a ∈ p.dynamic, a.target ∈ outputVars p.layout
  disjoint : ∀ a ∈ p.constant, ∀ b ∈ p.dynamic, b.target ≠ a.target
  constant_op : ∀ a ∈ p.constant, a.op = none
  constant_reads : ∀ a ∈ p.constant, ∀ x ∈ a.value.reads, x ∉ outputVars p.layout

end Program

theorem Automaton.Built.hoisted {a : Automaton} {w : Wiring} {cs : List Program.Compiled}
    (hb : a.Built d w cs) (hplain : ∀ t ∈ d.typeList, ∀ o ∈ t.outputList, o.Plain) :
    a.program.Hoisted := by
  have hsites : ∀ s ∈ a.program.layout.wiring.sites, ∀ o ∈ s.type.outputList, o.Plain := by
    intro s hs o ho
    rw [Layout.wiring_of_build hb.laidOut] at hs
    obtain ⟨links, hw⟩ := Wiring.resolve_ok hb.wired
    obtain ⟨t, ht, o', ho', heq⟩ := (hw.drawn s hs).output o ho
    rw [heq]
    exact (hplain t ht o' ho').with_id o.id
  have hcs : ∀ c ∈ cs, c.Plain := by
    intro c hc
    obtain ⟨s, hs, o, ho, hcompile⟩ := Program.mem_compiled hb.program.compiled hc
    exact Program.compileOutput_plain (hsites s.1 (of_mem_zip hs).1 o ho) hcompile
  have hconst : ∀ b ∈ a.program.constant, ∃ c ∈ cs, c.update = some b ∧
      Program.readsOnlyParams a.program.layout (Program.assignedBefore cs) b.value = true :=
    fun b hmem => Program.mem_plain_statements hcs (hb.program.constant ▸ hmem)
  have hdyn : ∀ b ∈ a.program.dynamic, ∃ c ∈ cs, c.update = some b ∧
      Program.readsOnlyParams a.program.layout (Program.assignedBefore cs) b.value = false :=
    fun b hmem => Program.mem_plain_statements hcs (hb.program.dynamic ▸ hmem)
  constructor
  case constant_target =>
    intro b hmem
    obtain ⟨c, hc, hu, -⟩ := hconst b hmem
    exact (hb.program.update_ok hc hu).1
  case dynamic_target =>
    intro b hmem
    obtain ⟨c, hc, hu, -⟩ := hdyn b hmem
    exact (hb.program.update_ok hc hu).1
  case disjoint =>
    intro b hmem b' hmem' heq
    obtain ⟨c, hc, hu, hclass⟩ := hconst b hmem
    obtain ⟨c', hc', hu', hclass'⟩ := hdyn b' hmem'
    have hinj := inj_on_of_nodup_map
      ((Layout.outputVars_nodup hb.laidOut).sublist hb.program.targets)
    rw [hinj (mem_filterMap.mpr ⟨c', hc', hu'⟩) (mem_filterMap.mpr ⟨c, hc, hu⟩) heq,
      hclass] at hclass'
    cases hclass'
  case constant_op =>
    intro b hmem
    obtain ⟨c, hc, hu, -⟩ := hconst b hmem
    exact (hb.program.update_ok hc hu).2.1
  case constant_reads =>
    intro b hmem x hx
    obtain ⟨c, -, -, hparams⟩ := hconst b hmem
    simp only [Program.readsOnlyParams, Bool.and_eq_true, all_eq_true] at hparams
    simpa using (hparams.2 x (Expr.mem_idents.mpr hx)).1.1

namespace Program

variable {p : Program} {input state state' : Words} {m : Moment} {u : Nat} {x : String}

/-- A moment of an update continues as an update that starts from a state: units own the same
variables, those of external cells apart, and show the same outputs. -/
structure Resumes (p : Program) (input : Words) (m : Moment) (state : Words) : Prop where
  own : ∀ u < p.unitCount, ∀ x, (∀ r ∈ p.readings, r.name ≠ x) →
    m.own u x = (p.first state input).own u x
  shown : ∀ u < p.unitCount, ∀ x ∈ outputVars p.layout, m.shown u x = p.loaded state u x

theorem Resumes.next_own (hsource : ∀ r ∈ p.readings, r.source ∈ outputVars p.layout)
    (h : p.Resumes input m state) (hu : u < p.unitCount) :
    (p.next input m).own u = (p.next input (p.first state input)).own u := by
  have hobserved : p.observed m.shown u (m.own u) =
      p.observed (p.loaded state) u ((p.first state input).own u) := by
    funext x
    unfold observed
    cases hk : p.readings.findIdx? fun r => r.name == x with
    | none =>
      refine h.own u hu x fun r hr => ?_
      exact beq_eq_false_iff_ne.mp (List.findIdx?_eq_none_iff.mp hk r hr)
    | some k => exact reading_congr fun v hv r hr => h.shown v hv _ (hsource r hr)
  exact congrArg (execAll input p.dynamic) hobserved

/-- What constant statements set is the same after an update, and what they do not set is what the
update left. -/
theorem Hoisted.first_own (hh : p.Hoisted)
    (hout : ∀ x ∈ outputVars p.layout,
      p.loaded state' u x = (p.next input (p.first state input)).own u x)
    (hkeep : ∀ x, x ∉ outputVars p.layout → p.loaded state' u x = p.loaded state u x)
    (hx : ∀ r ∈ p.readings, r.name ≠ x) :
    (p.next input (p.first state input)).own u x = (p.first state' input).own u x := by
  -- a variable that dynamic statements do not set keeps the word of the constant statements
  have hstill : (∀ b ∈ p.dynamic, b.target ≠ x) →
      (p.next input (p.first state input)).own u x = (p.first state input).own u x := by
    intro hnot
    exact (execAll_other _ hnot _).trans (observed_other hx _)
  by_cases hconst : ∃ a ∈ p.constant, a.target = x
  · obtain ⟨a, ha, rfl⟩ := hconst
    rw [hstill fun b hb => hh.disjoint a ha b hb]
    exact execAll_agree (Q := fun y => y ∉ outputVars p.layout) _ hh.constant_op
      hh.constant_reads (fun b hb hnot => hnot (hh.constant_target b hb))
      (fun y hy => (hkeep y hy).symm) (Or.inl ⟨a, ha, rfl⟩)
  · have hset : ∀ b ∈ p.constant, b.target ≠ x := fun b hb hbx => hconst ⟨b, hb, hbx⟩
    have hafter : (p.first state' input).own u x = p.loaded state' u x :=
      execAll_other _ hset _
    rw [hafter]
    by_cases hxo : x ∈ outputVars p.layout
    · exact (hout x hxo).symm
    · rw [hkeep x hxo, hstill fun b hb hbx => hxo (hbx ▸ hh.dynamic_target b hb)]
      exact execAll_other _ hset _

theorem Resumes.step (hh : p.Hoisted)
    (hsource : ∀ r ∈ p.readings, r.source ∈ outputVars p.layout)
    (h : p.Resumes input m state)
    (hout : ∀ u < p.unitCount, ∀ x ∈ outputVars p.layout,
      p.loaded state' u x = (p.next input (p.first state input)).own u x)
    (hkeep : ∀ u < p.unitCount, ∀ x, x ∉ outputVars p.layout →
      p.loaded state' u x = p.loaded state u x) :
    p.Resumes input (p.next input m) state' := by
  constructor
  case own =>
    intro u hu x hx
    rw [h.next_own hsource hu]
    exact hh.first_own (hout u hu) (hkeep u hu) hx
  case shown =>
    intro u hu x hx
    rw [hout u hu x hx, ← h.next_own hsource hu]
    rfl

theorem moment_iterations (p : Program) (n : Int64) (state input : Words) (t : Nat) :
    moment { p with iterations := n } state input t = p.moment state input t := by
  induction t with
  | zero => rfl
  | succ t ih =>
    rw [moment, moment, ih]
    rfl

end Program

namespace Automaton.Built

variable {d : Descriptor} {a : Automaton} {w : Wiring} {cs : List Program.Compiled}
  {ws : Workspace} {state input : Words} {u : Nat} {x : String}

theorem loaded_run_output (hb : a.Built d w cs) (hws : ws.Fits a.plan)
    (hstate : state.size = a.program.layout.size * a.program.unitCount)
    (hx : x ∈ Program.outputVars a.program.layout) (hu : u < a.program.unitCount) :
    a.program.loaded (a.plan.run ws state input).2 u x =
      (a.program.moment state input a.plan.iterations).own u x := by
  obtain ⟨s, hs⟩ := slot?_of_mem (Layout.outputVars_sub hb.laidOut hx)
  rw [← hb.units] at hu hstate
  unfold loaded
  simp only [hs, Array.getD_eq_getD_getElem?]
  rw [← hb.units, hb.run_output hws state input hx hs hu
    (by rw [hstate]; exact place_lt hs hu), Option.getD_some]

theorem loaded_run_other (hb : a.Built d w cs) (hws : ws.Fits a.plan)
    (hx : x ∉ Program.outputVars a.program.layout) (hu : u < a.program.unitCount) :
    a.program.loaded (a.plan.run ws state input).2 u x = a.program.loaded state u x := by
  unfold loaded
  cases hs : a.program.layout.slot? x with
  | none => rfl
  | some s =>
    simp only [Array.getD_eq_getD_getElem?]
    rw [← hb.units] at hu ⊢
    rw [hb.run_other hws state input]
    intro y hy t ht v hv heq
    by_cases huv : v = u
    · subst huv
      obtain rfl := Plan.column_injective hv heq
      exact hx (slot?_injective hs ht ▸ hy)
    · exact Plan.column_ne hu hv huv s t heq

/-- What updates leave that together took a number of iterations. -/
structure Carried (a : Automaton) (input state : Words) (k : Nat) (r : Workspace × Words) :
    Prop where
  fits : r.1.Fits a.plan
  size : r.2.size = state.size
  other : ∀ i : Nat, (∀ x ∈ Program.outputVars a.program.layout, ∀ s,
      a.program.layout.slot? x = some s → ∀ u < a.plan.units, i ≠ s * a.plan.units + u) →
    r.2[i]? = state[i]?
  resumes : a.program.Resumes input (a.program.moment state input k) r.2

theorem carried_updates (hb : a.Built d w cs) (hh : a.program.Hoisted)
    (hone : a.plan.iterations = 1) (hws : ws.Fits a.plan)
    (hstate : state.size = a.program.layout.size * a.program.unitCount) (input : Words) (k : Nat) :
    Carried a input state k ((fun r => a.plan.run r.1 r.2 input)^[k] (ws, state)) := by
  induction k with
  | zero => exact ⟨hws, rfl, fun _ _ => rfl, fun _ _ _ _ => rfl, fun _ _ _ _ => rfl⟩
  | succ k ih =>
    rw [iterate_succ_apply']
    generalize (fun r => a.plan.run r.1 r.2 input)^[k] (ws, state) = r at ih ⊢
    have hsize : r.2.size = a.program.layout.size * a.program.unitCount := ih.size.trans hstate
    constructor
    case fits => exact Plan.run_fits ih.fits _ _
    case size => rw [hb.run_size ih.fits, ih.size]
    case other => exact fun i hi => (hb.run_other ih.fits _ _ hi).trans (ih.other i hi)
    case resumes =>
      refine ih.resumes.step hh (fun t ht => hb.source_mem ht) (fun u hu x hx => ?_)
        fun u hu x hx => hb.loaded_run_other ih.fits hx hu
      rw [hb.loaded_run_output ih.fits hsize hx hu, hone]
      rfl

theorem Carried.output {k : Nat} {r : Workspace × Words}
    (h : Carried a input state (k + 1) r)
    (hstate : state.size = a.program.layout.size * a.program.unitCount)
    (hx : x ∈ Program.outputVars a.program.layout) {s : Nat}
    (hs : a.program.layout.slot? x = some s) (hu : u < a.program.unitCount) :
    r.2[s * a.program.unitCount + u]? = some ((a.program.moment state input (k + 1)).own u x) := by
  have hlt : s * a.program.unitCount + u < r.2.size := by
    rw [h.size, hstate]
    exact Program.place_lt hs hu
  have hshown := h.resumes.shown u hu x hx
  simp only [Program.loaded, hs, Array.getD_eq_getD_getElem?,
    Array.getElem?_eq_getElem hlt, Option.getD_some] at hshown
  rw [Array.getElem?_eq_getElem hlt, ← hshown]
  rfl

end Automaton.Built

/-- One update of several iterations leaves the state of as many updates of one iteration, unless
an output is marked constant or has statements before its update. -/
theorem run_iterations {d : Descriptor} {a : Automaton} (h : Automaton.compile (some d) = .ok a)
    (hplain : ∀ t ∈ d.typeList, ∀ o ∈ t.outputList, o.Plain) {n : Int64} (hn : 1 ≤ n) :
    ∃ one many, Automaton.compile (some (d.withIterations 1)) = .ok one ∧
      Automaton.compile (some (d.withIterations n)) = .ok many ∧
      ∀ ws ws' : Workspace, ws.Fits one.plan → ws'.Fits many.plan → ∀ state input : Words,
        state.size = a.layout.size * a.program.unitCount →
        (many.plan.run ws' state input).2 =
          ((fun r => one.plan.run r.1 r.2 input)^[n.toInt.toNat] (ws, state)).2 := by
  obtain ⟨one, hone, hprog⟩ := compile_withIterations h 1
  obtain ⟨many, hmany, hprog'⟩ := compile_withIterations hone n
  refine ⟨one, many, hone, hmany, fun ws ws' hws hws' state input hstate => ?_⟩
  obtain ⟨w, cs, hb⟩ := compile_ok hone
  obtain ⟨w', cs', hb'⟩ := compile_ok hmany
  have hiter : one.plan.iterations = 1 := by
    rw [hb.plan.iterations, hb.program.iterations]
    rfl
  have hiter' : many.plan.iterations = n.toInt.toNat := by
    rw [hb'.plan.iterations, hb'.program.iterations,
      effectiveIterations_withIterations _ hn]
  have hsize : state.size = one.program.layout.size * one.program.unitCount := by
    rw [hstate, hprog]
    rfl
  have hlayout : many.program.layout = one.program.layout := by rw [hprog']
  have hunits : many.plan.units = one.plan.units := by
    rw [hb'.units, hb.units, hprog']
    rfl
  obtain ⟨k, hk⟩ : ∃ k, n.toInt.toNat = k + 1 := by
    rw [Int64.le_iff_toInt_le] at hn
    have : (1 : Int64).toInt = 1 := rfl
    exact ⟨n.toInt.toNat - 1, by omega⟩
  have hcarried := hb.carried_updates (hb.hoisted hplain) hiter hws hsize input (k + 1)
  refine Array.ext_getElem? fun i => ?_
  rw [hk]
  by_cases hi : ∃ x ∈ outputVars one.program.layout, ∃ s,
      one.program.layout.slot? x = some s ∧ ∃ u < one.plan.units, i = s * one.plan.units + u
  · obtain ⟨x, hx, s, hs, u, hu, rfl⟩ := hi
    have hlong := hb'.run_output hws' state input (hlayout ▸ hx) (hlayout ▸ hs) (hunits ▸ hu)
      (by rw [hunits, hsize, ← hb.units]; exact place_lt hs hu)
    rw [hunits, hiter', hk, hprog', moment_iterations] at hlong
    rw [hlong, hb.units, hcarried.output hsize hx hs (hb.units ▸ hu)]
  · have hnot : ∀ x ∈ outputVars one.program.layout, ∀ s,
        one.program.layout.slot? x = some s → ∀ u < one.plan.units, i ≠ s * one.plan.units + u :=
      fun x hx s hs u hu heq => hi ⟨x, hx, s, hs, u, hu, heq⟩
    rw [hcarried.other i hnot, hb'.run_other hws' state input]
    rw [hlayout, hunits]
    exact hnot

/-- Three iterations at once and one by one, with an output that is evaluated once per update. -/
theorem run_iterations_relay : ∃ one many : Automaton,
    Automaton.compile (some (Descriptor.relay.withIterations 1)) = .ok one ∧
    Automaton.compile (some (Descriptor.relay.withIterations 3)) = .ok many ∧
    (many.plan.run many.plan.workspace #[1, 2, 3, 4, 5, 6] #[]).2 =
      ((fun r => one.plan.run r.1 r.2 #[])^[3] (one.plan.workspace, #[1, 2, 3, 4, 5, 6])).2 := by
  obtain ⟨a, ha, heval⟩ := Outcome.exists_ok (compile (some relay))
    (fun a => a.layout.size == 3 && a.program.unitCount == 2) (by decide +kernel)
  simp only [Bool.and_eq_true, beq_iff_eq] at heval
  have hplain : ∀ t ∈ relay.typeList, ∀ o ∈ t.outputList, o.Plain := by
    simp only [relay, typeList, CellType.outputList, Option.getD_some,
      forall_eq, List.mem_cons, List.not_mem_nil, or_false, forall_eq_or_imp]
    exact ⟨Output.plain_of_empty rfl rfl, Output.plain_of_empty rfl rfl⟩
  obtain ⟨one, many, hone, hmany, hrun⟩ := run_iterations ha hplain (n := 3) (by decide)
  refine ⟨one, many, hone, hmany, ?_⟩
  exact hrun _ _ one.plan.workspace_fits many.plan.workspace_fits _ _
    (by rw [heval.1, heval.2]; rfl)

end TiledAutomata
