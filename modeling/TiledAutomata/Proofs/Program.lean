import TiledAutomata.Automaton
import TiledAutomata.Proofs.Evaluation
import TiledAutomata.Proofs.Layout

/-!
# Compiled automata

What the parts of a compiled automaton are, and where its working variables stand: each
has one index, slots come first, and every name that a statement or an external cell
uses is among them.
-/

namespace TiledAutomata

open List

open Outcome

variable {a : Assign} {d : Descriptor} {l : Layout} {cs : List Compiled} {s : Nat} {p : Program}

namespace Program

def assignedBefore (cs : List Compiled) : List String :=
  cs.flatMap fun c => c.before.map (·.target)

structure Built (d : Descriptor) (l : Layout) (cs : List Compiled) (p : Program) : Prop where
  compiled : compileSites l (l.wiring.sites.zip l.wiring.inputs) = .ok cs
  width : p.width = d.width
  height : p.height = d.height
  iterations : p.iterations = d.effectiveIterations
  addressing : p.addressing = .ofText d.effectiveAddressing
  layout : p.layout = l
  readings : p.readings = readingsOf l
  vars : p.vars = l.names ++ (readingsOf l).map (·.name) ++ p.locals
  constant : p.constant = statements (cs.map (classify l (assignedBefore cs))) true
  dynamic : p.dynamic = statements (cs.map (classify l (assignedBefore cs))) false
  stored : p.stored = (outputVars l).filterMap l.slot?

theorem build_checks (h : build d l = .ok p) :
    ∃ cs, Built d l cs p ∧
      p.locals = addLocals (l.names ++ (readingsOf l).map (·.name))
        (l.wiring.sites.flatMap Site.varNames ++ declared cs) ∧
      checkNames p.vars p.constant = .ok () ∧ checkNames p.vars p.dynamic = .ok () := by
  obtain ⟨cs, hcs, h⟩ := bind_ok.mp h
  obtain ⟨_, hconstant, h⟩ := bind_ok.mp h
  obtain ⟨_, hdynamic, h⟩ := bind_ok.mp h
  cases h
  exact ⟨cs, ⟨hcs, rfl, rfl, rfl, rfl, rfl, rfl, rfl, rfl, rfl, rfl⟩, rfl, hconstant, hdynamic⟩

theorem build_ok (h : build d l = .ok p) : ∃ cs, Built d l cs p := by
  obtain ⟨cs, hcs, -⟩ := build_checks h
  exact ⟨cs, hcs⟩

theorem compileSites_forall₂ {α : Type} {ss : List (Site × List Binding)}
    {f : Site × List Binding → Output → α} {R : α → Compiled → Prop}
    (hR : ∀ s ∈ ss, ∀ o ∈ s.1.type.outputList, ∀ c, compileOutput l s.1 s.2 o = .ok c → R (f s o) c)
    (h : compileSites l ss = .ok cs) :
    List.Forall₂ R (ss.flatMap fun s => s.1.type.outputList.map (f s)) cs := by
  have houtputs : ∀ s os cs, (∀ o ∈ os, ∀ c, compileOutput l s.1 s.2 o = .ok c → R (f s o) c) →
      compileOutputs l s.1 s.2 os = .ok cs → List.Forall₂ R (os.map (f s)) cs := by
    intro s os
    induction os with
    | nil =>
      rintro _ - ⟨⟩
      exact .nil
    | cons o os ih =>
      intro cs hos h
      obtain ⟨c, hc, h⟩ := bind_ok.mp h
      obtain ⟨ds, hds, h⟩ := bind_ok.mp h
      cases h
      exact .cons (hos o (by simp) c hc) (ih ds (fun o ho => hos o (by simp [ho])) hds)
  induction ss generalizing cs with
  | nil =>
    cases h
    exact .nil
  | cons s ss ih =>
    obtain ⟨cs1, h1, h⟩ := bind_ok.mp h
    obtain ⟨cs2, h2, h⟩ := bind_ok.mp h
    cases h
    rw [flatMap_cons]
    exact rel_append (houtputs s _ _ (hR s (by simp)) h1)
      (ih (fun t ht => hR t (by simp [ht])) h2)

theorem mem_compiled {ss : List (Site × List Binding)} (h : compileSites l ss = .ok cs)
    {c : Compiled} (hc : c ∈ cs) :
    ∃ s ∈ ss, ∃ o ∈ s.1.type.outputList, compileOutput l s.1 s.2 o = .ok c := by
  obtain ⟨i, hi, rfl⟩ := getElem_of_mem hc
  have hall := compileSites_forall₂ (f := fun _ _ => ()) (R := fun _ c => ∃ s ∈ ss,
    ∃ o ∈ s.1.type.outputList, compileOutput l s.1 s.2 o = .ok c)
    (fun s hs o ho c hc => ⟨s, hs, o, ho, hc⟩) h
  exact hall.get (hall.length_eq ▸ hi) hi

section Index

variable {p : Program} {x y : String} {i : Nat}

theorem varIndex?_lt (h : p.varIndex? x = some i) : i < p.frameSize :=
  (idxOf?_eq_some_iff.mp h).1

theorem varIndex?_injective (hx : p.varIndex? x = some i) (hy : p.varIndex? y = some i) :
    x = y := by
  obtain ⟨_, h1, -⟩ := idxOf?_eq_some_iff.mp hx
  obtain ⟨_, h2, -⟩ := idxOf?_eq_some_iff.mp hy
  exact h1.symm.trans h2

theorem varIndex?_of_mem (h : x ∈ p.vars) : ∃ i, p.varIndex? x = some i :=
  Option.isSome_iff_exists.mp (isSome_idxOf?.mpr h)

variable {d : Descriptor} {l : Layout} {cs : List Compiled}

theorem slot?_lt (h : l.slot? x = some s) : s < l.size :=
  (idxOf?_eq_some_iff.mp h).1

theorem slot?_of_mem (h : x ∈ l.names) : ∃ s, l.slot? x = some s :=
  Option.isSome_iff_exists.mp (isSome_idxOf?.mpr h)

theorem slot?_injective (hx : l.slot? x = some s) (hy : l.slot? y = some s) : x = y := by
  obtain ⟨_, h1, -⟩ := idxOf?_eq_some_iff.mp hx
  obtain ⟨_, h2, -⟩ := idxOf?_eq_some_iff.mp hy
  exact h1.symm.trans h2

theorem place_lt {u units : Nat} (hs : l.slot? x = some s) (hu : u < units) :
    s * units + u < l.size * units := by
  have hslot : s + 1 ≤ l.size := slot?_lt hs
  calc s * units + u < (s + 1) * units := by rw [Nat.succ_mul]; omega
    _ ≤ l.size * units := Nat.mul_le_mul_right _ hslot

theorem varIndex?_eq_slot? (hb : Built d l cs p) (hi : i < l.size) :
    p.varIndex? x = some i ↔ l.slot? x = some i := by
  unfold varIndex? Layout.slot? idxOf?
  rw [hb.vars, append_assoc, findIdx?_append]
  unfold Layout.size at hi
  cases hn : l.names.findIdx? (· == x) with
  | some j => simp
  | none =>
    simp only [Option.none_or, Option.map_eq_some_iff, reduceCtorEq, iff_false]
    rintro ⟨j, -, hj⟩
    omega

theorem varIndex?_of_slot? (hb : Built d l cs p) (h : l.slot? x = some s) :
    p.varIndex? x = some s :=
  (varIndex?_eq_slot? hb (slot?_lt h)).mpr h

theorem mem_vars_of_name (hb : Built d l cs p) (h : x ∈ l.names) : x ∈ p.vars := by
  rw [hb.vars]
  simp [h]

theorem reading_mem_vars (hb : Built d l cs p) {r : Reading} (h : r ∈ p.readings) :
    r.name ∈ p.vars := by
  rw [hb.readings] at h
  rw [hb.vars]
  simp only [mem_append, mem_map]
  exact Or.inl (Or.inr ⟨r, h, rfl⟩)

end Index

theorem classify_update (l : Layout) (assigned : List String) (c : Compiled) :
    (classify l assigned c).update = c.update := by
  unfold classify
  split
  · split <;> rfl
  · rfl

theorem classify_before (l : Layout) (assigned : List String) (c : Compiled) :
    (classify l assigned c).before = c.before := by
  unfold classify
  split
  · split <;> rfl
  · rfl

theorem mem_statements {k : Bool} :
    a ∈ statements cs k ↔ ∃ c ∈ cs, c.constant = k ∧ (a ∈ c.before ∨ c.update = some a) := by
  simp only [statements, mem_append, mem_flatMap, mem_filterMap, mem_filter,
    beq_iff_eq, and_or_left, exists_or, and_assoc]

theorem mem_classified {assigned : List String} {k : Bool} :
    a ∈ statements (cs.map (classify l assigned)) k ↔
      ∃ c ∈ cs, (classify l assigned c).constant = k ∧ (a ∈ c.before ∨ c.update = some a) := by
  simp only [mem_statements, mem_map, exists_exists_and_eq_and, classify_before,
    classify_update]

theorem mem_classes (assigned : List String) :
    a ∈ statements (cs.map (classify l assigned)) true ++
        statements (cs.map (classify l assigned)) false ↔
      ∃ c ∈ cs, a ∈ c.before ∨ c.update = some a := by
  rw [mem_append, mem_classified, mem_classified]
  constructor
  · rintro (⟨c, hc, -, h⟩ | ⟨c, hc, -, h⟩) <;> exact ⟨c, hc, h⟩
  · rintro ⟨c, hc, h⟩
    cases hk : (classify l assigned c).constant with
    | true => exact .inl ⟨c, hc, hk, h⟩
    | false => exact .inr ⟨c, hc, hk, h⟩

end Program

namespace Plan

theorem compileAll_ok {r : Resolver} {as : List Assign} {xs : List (Frame → Frame)}
    (h : compileAll r as = .ok xs) : List.Forall₂ (fun a x => a.compile r = .ok x) as xs := by
  induction as generalizing xs with
  | nil =>
    cases h
    exact .nil
  | cons a as ih =>
    obtain ⟨x, hx, h⟩ := bind_ok.mp h
    obtain ⟨ys, hys, h⟩ := bind_ok.mp h
    cases h
    exact .cons hx (ih hys)

structure Built (p : Program) (q : Plan) : Prop where
  units : q.units = p.units.toInt.toNat
  slots : q.slots = p.layout.size
  frameSize : q.frameSize = p.frameSize
  iterations : q.iterations = p.iterations.toInt.toNat
  constant : List.Forall₂ (fun a x => a.compile p.varIndex? = .ok x) p.constant q.constant
  dynamic : List.Forall₂ (fun a x => a.compile p.varIndex? = .ok x) p.dynamic q.dynamic
  inlets : q.inlets = p.readings.map (inletOf p q.units)
  stored : q.stored = p.stored

theorem build_ok {q : Plan} (h : build p = .ok q) : Built p q := by
  obtain ⟨constant, hc, h⟩ := bind_ok.mp h
  obtain ⟨dynamic, hd, h⟩ := bind_ok.mp h
  cases h
  exact ⟨rfl, rfl, rfl, rfl, compileAll_ok hc, compileAll_ok hd, rfl, rfl⟩

end Plan

theorem Descriptor.grid_pos_of_validate (h : d.validate = .ok ()) :
    0 < d.width.toInt ∧ 0 < d.height.toInt := by
  unfold validate at h
  obtain ⟨hgrid, -⟩ := guard_ok.mp h
  simp only [Bool.or_eq_true, decide_eq_true_eq, not_or, Int64.not_le] at hgrid
  exact ⟨Int64.lt_iff_toInt_lt.mp hgrid.1, Int64.lt_iff_toInt_lt.mp hgrid.2⟩

namespace Automaton

structure Built (d : Descriptor) (a : Automaton) (w : Wiring) (cs : List Program.Compiled) :
    Prop where
  valid : d.validate = .ok ()
  wired : Wiring.resolve d = .ok w
  laidOut : Layout.build w = .ok a.program.layout
  program : Program.Built d a.program.layout cs a.program
  plan : Plan.Built a.program a.plan

variable {d : Descriptor} {a : Automaton}

theorem build_steps (h : build d = .ok a) :
    ∃ w, Wiring.resolve d = .ok w ∧ Layout.build w = .ok a.program.layout ∧
      Program.build d a.program.layout = .ok a.program ∧ Plan.build a.program = .ok a.plan := by
  obtain ⟨w, hw, h⟩ := bind_ok.mp h
  obtain ⟨l, hl, h⟩ := bind_ok.mp h
  obtain ⟨p, hp, h⟩ := bind_ok.mp h
  obtain ⟨q, hq, h⟩ := bind_ok.mp h
  cases h
  obtain ⟨cs, hcs⟩ := Program.build_ok hp
  obtain rfl := hcs.layout
  exact ⟨w, mapError_ok.mp hw, mapError_ok.mp hl, hp, mapError_ok.mp hq⟩

theorem built_of_build (hv : d.validate = .ok ()) (h : build d = .ok a) :
    ∃ w cs, Built d a w cs := by
  obtain ⟨w, hw, hl, hp, hq⟩ := build_steps h
  obtain ⟨cs, hcs⟩ := Program.build_ok hp
  exact ⟨w, cs, hv, hw, hl, hcs, Plan.build_ok hq⟩

theorem build_unnamed (d : Descriptor) :
    build d.unnamed = (fun a => { a with descriptor := d.unnamed }) <$> build d := by
  have hwired : Wiring.resolve d.unnamed = Wiring.resolve d :=
    Wiring.resolve_with d {} d.iterations
  simp only [build, map_bind, map_pure, hwired]
  rfl

theorem compile_eq_ok_iff : compile (some d) = .ok a ↔
    d.validate = .ok () ∧ ∃ b, build d = .ok b ∧ { b with descriptor := d.unnamed } = a := by
  rw [compile, mapError_ok, admit?, Descriptor.checked]
  split
  · rename_i hv
    rw [and_iff_right hv, ← map_ok, ← build_unnamed]
    rfl
  · rename_i hv
    exact iff_of_false (by rintro ⟨⟩) fun h => by cases hv.symm.trans h.1

theorem compile_ok (h : compile (some d) = .ok a) : ∃ w cs, Built d a w cs := by
  obtain ⟨hv, b, hbuild, rfl⟩ := compile_eq_ok_iff.mp h
  obtain ⟨w, cs, hb⟩ := built_of_build hv hbuild
  exact ⟨w, cs, hb.valid, hb.wired, hb.laidOut, hb.program, hb.plan⟩

namespace Built

variable {w : Wiring} {cs : List Program.Compiled}

theorem grid_pos (hb : a.Built d w cs) : 0 < d.width.toInt ∧ 0 < d.height.toInt :=
  Descriptor.grid_pos_of_validate hb.valid

theorem reading_step (hb : a.Built d w cs) {r : Program.Reading}
    (hr : r ∈ a.program.readings) :
    (-1 ≤ r.relRow ∧ r.relRow ≤ 1) ∧ (-1 ≤ r.relCol ∧ r.relCol ≤ 1) := by
  rw [hb.program.readings] at hr
  obtain ⟨⟨e, k⟩, hek, rfl⟩ := mem_map.mp hr
  have he : e ∈ w.externals := by
    rw [← Layout.wiring_of_build hb.laidOut]
    exact (mem_zipIdx' hek).2 ▸ getElem_mem _
  exact (Wiring.externals_real hb.wired e he).step

end Built

end Automaton

/-- Two units of one cell. Its first output mixes what the unit on its left showed with a parameter,
its second depends on the parameter alone. -/
def Descriptor.relay : Descriptor where
  width := 2
  height := 1
  iterations := 2
  addressing := "toroidal"
  cellTypes := some [{
    id := "t"
    params := ["k"]
    outputs := some [
      { id := "1", update := "\x7binput1\x7d ^ \x7bk\x7d" },
      { id := "2", update := "~\x7bk\x7d" }] }]
  unit := { neighbors := "4", rows := some [{ cells := some [{ type := "t" }] }] }

end TiledAutomata
