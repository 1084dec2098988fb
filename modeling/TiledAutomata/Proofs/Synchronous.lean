import TiledAutomata.Proofs.Addressing
import TiledAutomata.Proofs.Phases
import TiledAutomata.Proofs.Program

/-!
# Updates are synchronous

The meaning of an update, told without frames, arena or indices. Every unit has its
variables by name. It loads its slots and runs the constant statements; in each iteration
it sets the variables of external cells to what its neighbors had at the end of the
iteration before, and runs the dynamic statements. Where all neighbors are units, the plan
of a compiled automaton leaves in the state what this meaning says, whatever its workspace
held before. Where the count of units has wrapped, a neighbor can be a number that is no
unit, and its place in the arena belongs to another external cell or is outside.
-/

open Option List

namespace TiledAutomata

variable {f : Frame} {u : Nat} {r : Program.Reading} {vars : Vars} {input : Words}

namespace Program

def unitCount (p : Program) : Nat := p.units.toInt.toNat

def loaded (p : Program) (state : Words) (u : Nat) : Vars := fun x =>
  match p.layout.slot? x with
  | some s => state.getD (s * p.unitCount + u) 0
  | none => 0

/-- Where a unit reads an external cell, in an arena with a row for each. -/
def place? (p : Program) (u k : Nat) : Option Nat := do
  let r ← p.readings[k]?
  let unit ← p.neighbor? (Int64.ofNat u) r.relRow r.relCol
  let n : Int := (k * p.unitCount : Nat) + unit.toInt
  if 0 ≤ n ∧ n < (p.readings.length * p.unitCount : Nat) then some n.toNat else none

/-- What a unit finds at a place of the arena, of variables that units show. -/
def found (p : Program) (shown : Nat → Vars) (n : Nat) : Option Word :=
  p.readings[n / p.unitCount]?.map fun r => shown (n % p.unitCount) r.source

def reading (p : Program) (shown : Nat → Vars) (u k : Nat) : Word :=
  ((p.place? u k).bind (p.found shown)).getD 0

def observed (p : Program) (shown : Nat → Vars) (u : Nat) (vars : Vars) : Vars := fun x =>
  match p.readings.findIdx? fun r => r.name == x with
  | some k => p.reading shown u k
  | none => vars x

/-- The variables of all units between two iterations: those that each works with, and those that
its neighbors read. -/
structure Moment where
  own : Nat → Vars
  shown : Nat → Vars

/-- Neighbors read in the first iteration what was loaded, also of constants. -/
def first (p : Program) (state input : Words) : Moment where
  own u := Assign.execAll input p.constant (p.loaded state u)
  shown := p.loaded state

def next (p : Program) (input : Words) (m : Moment) : Moment where
  own u := Assign.execAll input p.dynamic (p.observed m.shown u (m.own u))
  shown u := Assign.execAll input p.dynamic (p.observed m.shown u (m.own u))

def moment (p : Program) (state input : Words) : Nat → Moment
  | 0 => p.first state input
  | t + 1 => p.next input (moment p state input t)

theorem observed_other {p : Program} {shown : Nat → Vars} {x : String}
    (h : ∀ r ∈ p.readings, r.name ≠ x) (vars : Vars) : p.observed shown u vars x = vars x := by
  have hnone : p.readings.findIdx? (fun r => r.name == x) = none :=
    List.findIdx?_eq_none_iff.mpr fun r hr => beq_eq_false_iff_ne.mpr (h r hr)
  rw [observed, hnone]

/-- Every unit that an external cell reads is a unit of the grid. -/
def Closed (p : Program) : Prop :=
  ∀ r ∈ p.readings, ∀ u < p.unitCount, ∃ n,
    p.neighbor? (Int64.ofNat u) r.relRow r.relCol = some n ∧ 0 ≤ n.toInt ∧ n.toInt < p.unitCount

/-- What a unit begins an iteration with: of each external cell what the neighbor shows, and
otherwise what it owns. -/
structure Sees (p : Program) (m : Moment) (u : Nat) (vars : Vars) : Prop where
  external : ∀ r ∈ p.readings, ∃ n, p.neighbor? (Int64.ofNat u) r.relRow r.relCol = some n ∧
    0 ≤ n.toInt ∧ n.toInt < p.unitCount ∧ vars r.name = m.shown n.toInt.toNat r.source
  own : ∀ x ∉ p.readings.map (·.name), vars x = m.own u x

/-- An update without an arena, iteration by iteration. -/
structure Synchronous (p : Program) (state input : Words) (h : Nat → Moment) : Prop where
  loaded : ∀ u, (h 0).shown u = p.loaded state u
  constants : ∀ u, (h 0).own u = Assign.execAll input p.constant (p.loaded state u)
  step : ∀ t, ∀ u < p.unitCount, ∃ vars, p.Sees (h t) u vars ∧
    (h (t + 1)).own u = Assign.execAll input p.dynamic vars
  shown : ∀ t u, (h (t + 1)).shown u = (h (t + 1)).own u

section

variable {p : Program} {state input : Words}

theorem Sees.unique {m m' : Moment} {vars vars' : Vars} (hown : m.own u = m'.own u)
    (hshown : ∀ v < p.unitCount, m.shown v = m'.shown v) (h : p.Sees m u vars)
    (h' : p.Sees m' u vars') : vars = vars' := by
  funext x
  by_cases hx : x ∈ p.readings.map (·.name)
  · obtain ⟨r, hr, rfl⟩ := mem_map.mp hx
    obtain ⟨n, hn, h0, hlt, hvar⟩ := h.external r hr
    obtain ⟨n', hn', -, -, hvar'⟩ := h'.external r hr
    obtain rfl := Option.some.inj (hn.symm.trans hn')
    rw [hvar, hvar', hshown _ (by omega)]
  · rw [h.own x hx, h'.own x hx, hown]

theorem Synchronous.closed {h : Nat → Moment} (hs : p.Synchronous state input h) : p.Closed := by
  intro r hr u hu
  obtain ⟨vars, hsees, -⟩ := hs.step 0 u hu
  obtain ⟨n, hn, h0, h1, -⟩ := hsees.external r hr
  exact ⟨n, hn, h0, h1⟩

theorem Synchronous.unique {h h' : Nat → Moment} (hs : p.Synchronous state input h)
    (hs' : p.Synchronous state input h') (t : Nat) :
    ∀ u < p.unitCount, (h t).own u = (h' t).own u ∧ (h t).shown u = (h' t).shown u := by
  induction t with
  | zero =>
    intro u _
    rw [hs.constants, hs'.constants, hs.loaded, hs'.loaded]
    exact ⟨rfl, rfl⟩
  | succ t ih =>
    intro u hu
    obtain ⟨vars, hsees, hown⟩ := hs.step t u hu
    obtain ⟨vars', hsees', hown'⟩ := hs'.step t u hu
    obtain rfl := hsees.unique (ih u hu).1 (fun v hv => (ih v hv).2) hsees'
    rw [hs.shown, hs'.shown, hown, hown']
    exact ⟨rfl, rfl⟩

end

end Program

structure Frame.Shows (p : Program) (input : Words) (f : Frame) (vars : Vars) : Prop where
  input : f.input = input
  size : f.vars.size = p.frameSize
  holds : f.Holds p.varIndex? vars

namespace Frame.Shows

variable {p : Program} {input : Words} {f : Frame} {vars : Vars}

theorem set (h : f.Shows p input vars) {x : String} {i : Nat} (hi : p.varIndex? x = some i)
    (w : Word) :
    Frame.Shows p input { f with vars := f.vars.setIfInBounds i w } (Function.update vars x w) := by
  refine ⟨h.input, by simp [h.size], ?_⟩
  intro y j hj
  have hlt : i < f.vars.size := by
    rw [h.size]
    exact Program.varIndex?_lt hi
  simp only [Array.getD_eq_getD_getElem?, Array.getElem?_setIfInBounds]
  by_cases hij : i = j
  · subst hij
    rw [Program.varIndex?_injective hj hi, Function.update_self]
    simp [hlt]
  · have hxy : y ≠ x := by
      rintro rfl
      rw [hi] at hj
      exact hij (Option.some.inj hj)
    rw [if_neg hij, Function.update_of_ne hxy, ← h.holds y j hj, Array.getD_eq_getD_getElem?]

theorem assign (h : f.Shows p input vars) {a : Assign} {x : Frame → Frame}
    (ha : a.compile p.varIndex? = .ok x) : (x f).Shows p input (a.exec input vars) := by
  obtain ⟨i, hi, hx⟩ := Assign.compile_ok ha
  rw [hx f vars h.holds]
  obtain rfl := h.input
  exact h.set hi _

theorem execute {as : List Assign} {xs : List (Frame → Frame)}
    (hxs : List.Forall₂ (fun a x => a.compile p.varIndex? = .ok x) as xs)
    (h : f.Shows p input vars) :
    (Plan.execute xs f).Shows p input (Assign.execAll input as vars) := by
  induction hxs generalizing f vars with
  | nil => exact h
  | cons ha _ ih => exact ih (h.assign ha)

end Frame.Shows

theorem Frame.Shows.foldl_inlets {p : Program} {units n : Nat} {word : Plan.Inlet → Nat → Word}
    (value : Nat → Word) {rs : List Program.Reading} (hrs : ∀ r ∈ rs, r.name ∈ p.vars)
    (hvalue : ∀ (k : Nat) r, rs[k]? = some r →
      word (Plan.inletOf p units r) (n + k) = value (n + k))
    (h : f.Shows p input vars) :
    Frame.Shows p input
      ⟨((rs.map (Plan.inletOf p units)).zipIdx n).foldl
        (fun vars e => vars.setIfInBounds e.1.var (word e.1 e.2)) f.vars, f.input⟩
      ((rs.zipIdx n).foldl (fun vars r => Function.update vars r.1.name (value r.2)) vars) := by
  induction rs generalizing n f vars with
  | nil => exact h
  | cons r rs ih =>
    obtain ⟨i, hi⟩ := Program.varIndex?_of_mem (hrs r (by simp))
    have hset := h.set hi (value n)
    have hvar : (Plan.inletOf p units r).var = i := by simp [Plan.inletOf, hi]
    have hfirst : word (Plan.inletOf p units r) n = value n := hvalue 0 r rfl
    simp only [map_cons, zipIdx_cons, foldl_cons]
    rw [hfirst, hvar]
    refine ih (fun t ht => hrs t (by simp [ht])) (fun k t ht => ?_) hset
    rw [Nat.add_right_comm]
    exact hvalue (k + 1) t (by simpa using ht)

theorem foldl_update_eq_findIdx {rs : List Program.Reading} (hn : (rs.map (·.name)).Nodup)
    (value : Nat → Word) (vars : Vars) (x : String) (n : Nat) :
    (rs.zipIdx n).foldl (fun vars r => Function.update vars r.1.name (value r.2)) vars x =
      match rs.findIdx? fun r => r.name == x with
      | some k => value (n + k)
      | none => vars x := by
  induction rs generalizing vars n with
  | nil => rfl
  | cons r rs ih =>
    rw [map_cons, nodup_cons] at hn
    rw [zipIdx_cons, foldl_cons, ih hn.2, List.findIdx?_cons]
    by_cases hx : r.name = x
    · have hnone : rs.findIdx? (fun r => r.name == x) = none := by
        rw [List.findIdx?_eq_none_iff]
        intro t ht
        rw [beq_eq_false_iff_ne]
        rintro rfl
        exact hn.1 (mem_map.mpr ⟨t, ht, hx.symm⟩)
      rw [hnone]
      simp [hx]
    · cases rs.findIdx? fun r => r.name == x with
      | none => simp [hx, Function.update_of_ne (Ne.symm hx)]
      | some k => simp [hx, Nat.add_assoc, Nat.add_comm 1]

section Automaton

variable {d : Descriptor} {a : Automaton} {w : Wiring} {cs : List Program.Compiled}

section

variable (hb : a.Built d w cs)

include hb

theorem Automaton.Built.units : a.plan.units = a.program.unitCount :=
  hb.plan.units

theorem Automaton.Built.loaded_shows (state input : Words) (u : Nat) :
    (a.plan.loaded state input u).Shows a.program input (a.program.loaded state u) := by
  refine ⟨rfl, by simp [Plan.loaded, hb.plan.frameSize], ?_⟩
  intro x i hi
  have hlt : i < a.plan.frameSize := by
    rw [hb.plan.frameSize]
    exact Program.varIndex?_lt hi
  have hword : (a.plan.loaded state input u).vars.getD i 0 =
      if i < a.plan.slots then state.getD (i * a.plan.units + u) 0 else 0 := by
    simp [Plan.loaded, Array.getD_eq_getD_getElem?, hlt]
  rw [hword, hb.plan.slots, hb.units]
  unfold Program.loaded
  by_cases hslot : i < a.program.layout.size
  · rw [(Program.varIndex?_eq_slot? hb.program hslot).mp hi, if_pos hslot]
  · cases hs : a.program.layout.slot? x with
    | none => rw [if_neg hslot]
    | some s =>
      have := Program.varIndex?_of_slot? hb.program hs
      rw [hi] at this
      cases this
      exact absurd (Program.slot?_lt hs) hslot

theorem Automaton.Built.readings_nodup : (a.program.readings.map (·.name)).Nodup := by
  rw [hb.program.readings]
  exact Layout.readings_nodup _

theorem Automaton.Built.observe_shows {scratch : Words} {shown : Nat → Vars}
    (hread : ∀ (k : Nat) r, a.program.readings[k]? = some r →
      a.plan.received scratch u (Plan.inletOf a.program a.plan.units r) k =
        a.program.reading shown u k) (h : f.Shows a.program input vars) :
    (a.plan.observe scratch u f).Shows a.program input (a.program.observed shown u vars) := by
  have hobserved : a.program.observed shown u vars =
      a.program.readings.zipIdx.foldl
        (fun vars r => Function.update vars r.1.name (a.program.reading shown u r.2)) vars := by
    funext x
    rw [foldl_update_eq_findIdx hb.readings_nodup]
    simp only [Nat.zero_add]
    rfl
  have hinlets : a.plan.inlets.zipIdx =
      (a.program.readings.map (Plan.inletOf a.program a.plan.units)).zipIdx := by
    rw [hb.plan.inlets]
  rw [hobserved]
  unfold Plan.observe
  rw [hinlets]
  exact h.foldl_inlets _ (fun r hr => Program.reading_mem_vars hb.program hr)
    fun k r hk => by rw [Nat.zero_add]; exact hread k r hk

theorem Automaton.Built.source_mem (hr : r ∈ a.program.readings) :
    r.source ∈ Program.outputVars a.program.layout := by
  rw [hb.program.readings] at hr
  exact Layout.reading_source hb.laidOut (Wiring.externals_real hb.wired) hr

theorem Automaton.Built.source_index (hr : r ∈ a.program.readings) :
    ∃ i, a.program.varIndex? r.source = some i :=
  Program.varIndex?_of_mem
    (Program.mem_vars_of_name hb.program (Layout.outputVars_sub hb.laidOut (hb.source_mem hr)))

theorem Automaton.Built.visible_shows (h : f.Shows a.program input vars) {k : Nat}
    (hk : a.program.readings[k]? = some r) : (a.plan.visible f).getD k 0 = vars r.source := by
  obtain ⟨i, hi⟩ := hb.source_index (mem_of_getElem? hk)
  rw [← h.holds r.source i hi]
  unfold Plan.visible
  rw [hb.plan.inlets]
  simp [Array.getD_eq_getD_getElem?, hk, Plan.inletOf, hi]

end

end Automaton

structure WorkGroup.Shows (p : Program) (units : Nat) (input : Words) (g : WorkGroup)
    (m : Program.Moment) : Prop where
  frame : ∀ u < units, ∃ f, g.workspace.frames[u]? = some f ∧ f.Shows p input (m.own u)
  arena : ∀ u < units, ∀ (k : Nat) r, p.readings[k]? = some r →
    g.workspace.scratch[k * units + u]? = some (m.shown u r.source)

theorem Program.neighbor?_some {p : Program} (hp : 0 < p.unitCount) (unit : Int64)
    (relRow relCol : Int) : ∃ n, p.neighbor? unit relRow relCol = some n := by
  have hne : p.width * p.height ≠ 0 := by
    intro h
    simp [unitCount, units, h] at hp
  have hw : p.width ≠ 0 := by
    intro h
    exact hne (by rw [h, Int64.zero_mul])
  have hh : p.height ≠ 0 := by
    intro h
    exact hne (by rw [h, Int64.mul_zero])
  unfold neighbor? Addressing.neighbor?
  cases p.addressing <;> simp [hne, hw, hh]

theorem Program.place?_lt {p : Program} {k n : Nat} (h : p.place? u k = some n) :
    n < p.readings.length * p.unitCount := by
  obtain ⟨r, -, h⟩ := bind_eq_some_iff.mp h
  obtain ⟨unit, -, h⟩ := bind_eq_some_iff.mp h
  obtain ⟨⟨h0, hlt⟩, rfl⟩ := ite_some_none_eq_some.mp h
  omega

theorem Plan.place_lt {p : Plan} {k : Nat} (hk : k < p.inlets.length) (hu : u < p.units) :
    k * p.units + u < p.inlets.length * p.units :=
  calc
    k * p.units + u < (k + 1) * p.units := by rw [Nat.succ_mul]; omega
    _ ≤ p.inlets.length * p.units := Nat.mul_le_mul_right _ hk

namespace Program

variable {p : Program} {k : Nat} {unit : Int64}

theorem reading_congr {shown shown' : Nat → Vars}
    (h : ∀ v < p.unitCount, ∀ r ∈ p.readings, shown v r.source = shown' v r.source) :
    p.reading shown u k = p.reading shown' u k := by
  unfold reading
  cases hn : p.place? u k with
  | none => rfl
  | some n =>
    have hpos : 0 < p.unitCount := Nat.pos_of_ne_zero fun h0 => by
      simpa [h0] using place?_lt hn
    unfold found
    rw [bind_some, bind_some]
    cases hr : p.readings[n / p.unitCount]? with
    | none => rfl
    | some r => exact h _ (Nat.mod_lt n hpos) r (mem_of_getElem? hr)

theorem findIdx?_name (hn : (p.readings.map (·.name)).Nodup) (hk : p.readings[k]? = some r) :
    p.readings.findIdx? (fun t => t.name == r.name) = some k := by
  obtain ⟨hlt, rfl⟩ := List.getElem?_eq_some_iff.mp hk
  rw [List.findIdx?_eq_some_iff_getElem]
  refine ⟨hlt, beq_self_eq_true _, fun j hj hname => ?_⟩
  have hne := List.pairwise_iff_getElem.mp hn j k (by rw [length_map]; omega) (by simpa) hj
  simp only [List.getElem_map] at hne
  exact hne (eq_of_beq hname)

theorem place?_unit (hk : p.readings[k]? = some r)
    (hunit : p.neighbor? (Int64.ofNat u) r.relRow r.relCol = some unit) (h0 : 0 ≤ unit.toInt)
    (h1 : unit.toInt < p.unitCount) :
    p.place? u k = some (k * p.unitCount + unit.toInt.toNat) := by
  have hrow : (k + 1) * p.unitCount ≤ p.readings.length * p.unitCount :=
    Nat.mul_le_mul_right _ (List.getElem?_eq_some_iff.mp hk).1
  rw [Nat.succ_mul] at hrow
  unfold place?
  simp only [hk, hunit, bind_eq_bind, bind_some]
  rw [if_pos (by omega)]
  congr 1
  omega

theorem reading_unit {shown : Nat → Vars} (hk : p.readings[k]? = some r)
    (hunit : p.neighbor? (Int64.ofNat u) r.relRow r.relCol = some unit) (h0 : 0 ≤ unit.toInt)
    (h1 : unit.toInt < p.unitCount) :
    p.reading shown u k = shown unit.toInt.toNat r.source := by
  have hlt : unit.toInt.toNat < p.unitCount := by omega
  unfold reading found
  rw [place?_unit hk hunit h0 h1, bind_some, Nat.mul_add_mod_of_lt hlt, Nat.mul_comm,
    Nat.mul_add_div (by omega), Nat.div_eq_of_lt hlt, Nat.add_zero, hk]
  rfl

theorem observed_sees (hn : (p.readings.map (·.name)).Nodup) (hclosed : p.Closed)
    (hu : u < p.unitCount) (m : Moment) : p.Sees m u (p.observed m.shown u (m.own u)) := by
  constructor
  case external =>
    intro r hr
    obtain ⟨n, hunit, h0, h1⟩ := hclosed r hr u hu
    obtain ⟨k, hk⟩ := List.mem_iff_getElem?.mp hr
    refine ⟨n, hunit, h0, h1, ?_⟩
    rw [observed, findIdx?_name hn hk]
    exact reading_unit hk hunit h0 h1
  case own =>
    exact fun x hx => observed_other (fun r hr hrx => hx (mem_map.mpr ⟨r, hr, hrx⟩)) _

theorem moment_synchronous (hn : (p.readings.map (·.name)).Nodup) (hclosed : p.Closed)
    (state input : Words) : p.Synchronous state input (p.moment state input) where
  loaded _ := rfl
  constants _ := rfl
  step _ _ hu := ⟨_, observed_sees hn hclosed hu _, rfl⟩
  shown _ _ := rfl

end Program

namespace Automaton.Built

open WorkGroup

variable {d : Descriptor} {a : Automaton} {w : Wiring} {cs : List Program.Compiled}
  {input : Words} {g : WorkGroup} {m : Program.Moment} {ws : Workspace}

section

variable (hb : a.Built d w cs)

include hb

theorem inlets_length : a.plan.inlets.length = a.program.readings.length := by
  rw [hb.plan.inlets, length_map]

theorem inlet_lt {k : Nat} (hk : a.program.readings[k]? = some r) : k < a.plan.inlets.length := by
  rw [hb.inlets_length]
  exact (List.getElem?_eq_some_iff.mp hk).1

theorem place?_eq (hu : u < a.plan.units) {k : Nat} (hk : a.program.readings[k]? = some r) :
    a.plan.place? u (Plan.inletOf a.program a.plan.units r) k = a.program.place? u k := by
  have hpos : 0 < a.program.unitCount := by
    rw [← hb.units]
    exact Nat.zero_lt_of_lt hu
  obtain ⟨n, hn⟩ := Program.neighbor?_some hpos (Int64.ofNat u) r.relRow r.relCol
  have hreads : (Plan.inletOf a.program a.plan.units r).reads.getD u 0 = n.toInt := by
    simp [Plan.inletOf, Array.getD_eq_getD_getElem?, hu, hn]
  unfold Plan.place? Program.place?
  rw [hreads, hb.inlets_length, hb.units]
  simp only [hk, hn, bind_eq_bind, bind_some]

theorem found_word (h : g.Shows a.program a.plan.units input m) {n : Nat}
    (hn : n < a.program.readings.length * a.plan.units) :
    g.workspace.scratch[n]? = a.program.found m.shown n := by
  have hpos : 0 < a.plan.units := Nat.pos_of_ne_zero fun h0 => by simp [h0] at hn
  have hrow : n / a.plan.units < a.program.readings.length := Nat.div_lt_of_lt_mul (by
    rwa [Nat.mul_comm])
  have hword := h.arena _ (Nat.mod_lt n hpos) _ _ (List.getElem?_eq_getElem hrow)
  rw [Nat.div_add_mod'] at hword
  rw [hword, Program.found, ← hb.units, List.getElem?_eq_getElem hrow, map_some]

theorem received_reading (h : g.Shows a.program a.plan.units input m) {k : Nat}
    (hu : u < a.plan.units) (hk : a.program.readings[k]? = some r) :
    a.plan.received g.workspace.scratch u (Plan.inletOf a.program a.plan.units r) k =
      a.program.reading m.shown u k := by
  unfold Plan.received Program.reading
  rw [hb.place?_eq hu hk]
  cases hn : a.program.place? u k with
  | none => rfl
  | some n => rw [bind_some, bind_some, hb.found_word h (hb.units ▸ Program.place?_lt hn)]

theorem shows_first (hws : ws.Fits a.plan) (state input : Words) :
    (lockstep a.plan input [.load, .constants, .meet] (start a.plan ws state)).Shows a.program
      a.plan.units input (a.program.first state input) := by
  simp only [lockstep, phase_meet]
  refine ⟨fun u hu => ?_, fun u hu k r hk => ?_⟩
  · obtain ⟨f, hframe⟩ := hws.frame hu
    refine ⟨Plan.execute a.plan.constant (a.plan.loaded state input u), ?_,
      (hb.loaded_shows state input u).execute hb.plan.constant⟩
    rw [(phase_sameAt hu).frame]
    simp only [perform, Plan.constants, Array.getElem?_modify, if_true]
    rw [(phase_sameAt hu).frame]
    simp only [perform, Plan.load_frame, start, hframe, map_some]
  · obtain ⟨f, hframe⟩ := hws.frame hu
    have hlt := hb.inlet_lt hk
    obtain ⟨w, hw⟩ := hws.word (Plan.place_lt hlt hu)
    rw [phase_scratch (by decide) (by decide), (phase_sameAt hu).shown]
    simp only [perform, Plan.load_column hu, start, hframe, if_pos hlt, hw, map_some,
      hb.visible_shows (hb.loaded_shows state input u) hk]
    rfl

theorem shows_snapshot (h : g.Shows a.program a.plan.units input m) (hu : u < a.plan.units) :
    ∃ f, (phase a.plan input g .snapshot).workspace.frames[u]? = some f ∧
      f.Shows a.program input (a.program.observed m.shown u (m.own u)) := by
  obtain ⟨f, hf, hshows⟩ := h.frame u hu
  refine ⟨a.plan.observe g.workspace.scratch u f, ?_,
    hb.observe_shows (fun k r hk => hb.received_reading h hu hk) hshows⟩
  rw [(phase_sameAt hu).frame]
  simp only [perform, Plan.snapshot, Array.getElem?_modify, if_true, hf, map_some]

theorem shows_iteration (h : g.Shows a.program a.plan.units input m) :
    (lockstep a.plan input iteration g).Shows a.program a.plan.units input
      (a.program.next input m) := by
  simp only [iteration, lockstep, phase_meet]
  -- the frame of a unit after the snapshot and the step, and its words after the publication
  have hstep : ∀ u < a.plan.units, ∃ f,
      (phase a.plan input (phase a.plan input g .snapshot) .step).workspace.frames[u]? = some f ∧
        f.Shows a.program input ((a.program.next input m).own u) := by
    intro u hu
    obtain ⟨f, hf, hshows⟩ := hb.shows_snapshot h hu
    refine ⟨Plan.execute a.plan.dynamic f, ?_, hshows.execute hb.plan.dynamic⟩
    rw [(phase_sameAt hu).frame]
    simp only [perform, Plan.step, Array.getElem?_modify, if_true, hf, map_some]
  refine ⟨fun u hu => ?_, fun u hu k r hk => ?_⟩
  · obtain ⟨f, hf, hshows⟩ := hstep u hu
    refine ⟨f, ?_, hshows⟩
    rw [(phase_sameAt hu).frame]
    simpa only [perform, Plan.publish_frames] using hf
  · obtain ⟨f, hf, hshows⟩ := hstep u hu
    rw [(phase_sameAt hu).shown]
    simp only [perform, Plan.publish_column hu, hf, if_pos (hb.inlet_lt hk),
      hb.visible_shows hshows hk]
    rw [phase_scratch (by decide) (by decide), phase_scratch (by decide) (by decide),
      h.arena u hu k r hk, map_some]
    rfl

theorem shows_iterations (state : Words) (n t : Nat)
    (h : g.Shows a.program a.plan.units input (a.program.moment state input t)) :
    (lockstep a.plan input (iterations n) g).Shows a.program a.plan.units input
      (a.program.moment state input (t + n)) := by
  induction n generalizing g t with
  | zero => exact h
  | succ n ih =>
    rw [iterations, lockstep_append, Nat.add_comm n 1, ← Nat.add_assoc]
    exact ih (t + 1) (hb.shows_iteration h)

theorem shows_last (hws : ws.Fits a.plan) (state input : Words) :
    ∃ g : WorkGroup, g.Shows a.program a.plan.units input
        (a.program.moment state input a.plan.iterations) ∧ g.state = state ∧
      (a.plan.run ws state input).2 = (phase a.plan input g .store).state := by
  refine ⟨lockstep a.plan input (iterations a.plan.iterations)
    (lockstep a.plan input [.load, .constants, .meet] (start a.plan ws state)), ?_, ?_, ?_⟩
  · have h := hb.shows_iterations state a.plan.iterations 0 (hb.shows_first hws state input)
    rwa [Nat.zero_add] at h
  · rw [lockstep_iterations]
    simp only [lockstep, phase_meet, phase_load, phase_constants, start]
  · rw [run_eq_lockstep, script, lockstep_append, lockstep_append]
    rfl

theorem mem_stored {s : Nat} : s ∈ a.plan.stored ↔
      ∃ x ∈ Program.outputVars a.program.layout, a.program.layout.slot? x = some s := by
  rw [hb.plan.stored, hb.program.stored, mem_filterMap]

theorem run_size (hws : ws.Fits a.plan) (state input : Words) :
    (a.plan.run ws state input).2.size = state.size := by
  obtain ⟨g, -, hstate, hrun⟩ := hb.shows_last hws state input
  rw [hrun, phase_store, ← hstate]
  exact foldlRecOn _ _ (motive := fun st : Words => st.size = g.state.size) rfl
    fun _ hst _ _ => Plan.store_size.trans hst

theorem run_output (hws : ws.Fits a.plan) (state input : Words) {x : String}
    (hx : x ∈ Program.outputVars a.program.layout) {s : Nat}
    (hs : a.program.layout.slot? x = some s) (hu : u < a.plan.units)
    (hlt : s * a.plan.units + u < state.size) :
    (a.plan.run ws state input).2[s * a.plan.units + u]? =
      some ((a.program.moment state input a.plan.iterations).own u x) := by
  obtain ⟨g, hshows, hstate, hrun⟩ := hb.shows_last hws state input
  obtain ⟨f, hf, hframe⟩ := hshows.frame u hu
  have hvar := hframe.holds x s (Program.varIndex?_of_slot? hb.program hs)
  have hstored : s ∈ a.plan.stored := hb.mem_stored.mpr ⟨x, hx, hs⟩
  rw [hrun, (phase_sameAt hu).column]
  simp only [perform, Plan.store_column hu, hf, if_pos hstored, hstate,
    Array.getElem?_eq_getElem hlt, map_some, hvar]

theorem run_other (hws : ws.Fits a.plan) (state input : Words) {i : Nat}
    (hi : ∀ x ∈ Program.outputVars a.program.layout, ∀ s, a.program.layout.slot? x = some s →
      ∀ u < a.plan.units, i ≠ s * a.plan.units + u) :
    (a.plan.run ws state input).2[i]? = state[i]? := by
  obtain ⟨g, -, hstate, hrun⟩ := hb.shows_last hws state input
  rw [hrun]
  rcases Nat.eq_zero_or_pos a.plan.units with h0 | hpos
  · rw [phase_store, hstate]
    simp [Plan.eachUnit, h0]
  · have hu : i % a.plan.units < a.plan.units := Nat.mod_lt i hpos
    have hsplit : i / a.plan.units * a.plan.units + i % a.plan.units = i := Nat.div_add_mod' i _
    have hnot : i / a.plan.units ∉ a.plan.stored := by
      intro hmem
      obtain ⟨x, hx, hs⟩ := hb.mem_stored.mp hmem
      exact hi x hx _ hs _ hu hsplit.symm
    rw [← hsplit, (phase_sameAt hu).column]
    simp only [perform, Plan.store_column hu, if_neg hnot, hstate]
    split <;> rfl

/-- Where the units of a grid can be counted, every unit that an external cell reads is there. -/
theorem closed (hfit : d.width.toInt * d.height.toInt < 2 ^ 62) : a.program.Closed := by
  intro r hr u hu
  obtain ⟨hw, hh⟩ := hb.grid_pos
  have hpos := mul_pos hw hh
  have hcount : (a.program.unitCount : Int) = d.width.toInt * d.height.toInt := by
    unfold Program.unitCount Program.units
    rw [hb.program.width, hb.program.height, Int64.toInt_mul_eq (by omega) (by omega)]
    exact Int.toNat_of_nonneg hpos.le
  obtain ⟨hrow, hcol⟩ := hb.reading_step hr
  have hunit : (Int64.ofNat u).toInt = u := Int64.toInt_ofNat_of_lt (by omega)
  rw [hcount]
  unfold Program.neighbor?
  rw [hb.program.width, hb.program.height]
  exact Addressing.neighbor?_unit _ hw hh hfit (by omega) (by omega)
    (by rw [Int64.toInt_ofInt_of_le (by omega) (by omega)]; exact hrow)
    (by rw [Int64.toInt_ofInt_of_le (by omega) (by omega)]; exact hcol)

theorem readable (hclosed : a.program.Closed) : a.plan.readable = true := by
  refine List.all_eq_true.mpr fun ⟨e, k⟩ he => List.all_eq_true.mpr fun u hu => ?_
  have hu := mem_range.mp hu
  have hk := List.mem_zipIdx_iff_getElem?.mp he
  rw [hb.plan.inlets, List.getElem?_map] at hk
  obtain ⟨r, hr, rfl⟩ := Option.map_eq_some_iff.mp hk
  obtain ⟨n, hunit, h0, h1⟩ := hclosed r (mem_of_getElem? hr) u (hb.units ▸ hu)
  rw [hb.place?_eq hu hr, Program.place?_unit hr hunit h0 h1]
  rfl

end

end Automaton.Built

/-- Where every neighbor that a unit reads is a unit, no unit reads outside the arena, and
whatever a workspace held before, a run of a compiled automaton writes to each output slot of each
unit the value of the synchronous meaning and changes no other word. The neighbors are units where
the units of the grid can be counted. -/
theorem run_synchronous {d : Descriptor} {a : Automaton} (h : Automaton.compile (some d) = .ok a)
    {ws : Workspace} (hws : ws.Fits a.plan) (state input : Words)
    (hstate : state.size = a.layout.size * a.program.unitCount) :
    (d.width.toInt * d.height.toInt < 2 ^ 62 → a.program.Closed) ∧
    (a.program.Closed →
      a.plan.readable = true ∧
      (∃ m, a.program.Synchronous state input m) ∧
      ∀ m, a.program.Synchronous state input m →
        (a.plan.run ws state input).2.size = state.size ∧
        (∀ x ∈ Program.outputVars a.layout, ∃ s, a.layout.slot? x = some s ∧
          ∀ u < a.program.unitCount,
            (a.plan.run ws state input).2[s * a.program.unitCount + u]? =
              some ((m d.effectiveIterations.toInt.toNat).own u x)) ∧
        ∀ i : Nat, (∀ x ∈ Program.outputVars a.layout, ∀ s, a.layout.slot? x = some s →
            ∀ u < a.program.unitCount, i ≠ s * a.program.unitCount + u) →
          (a.plan.run ws state input).2[i]? = state[i]?) := by
  obtain ⟨w, cs, hb⟩ := Automaton.compile_ok h
  have hunits := hb.units
  have hiter : a.plan.iterations = d.effectiveIterations.toInt.toNat := by
    rw [hb.plan.iterations, hb.program.iterations]
  refine ⟨hb.closed, fun hclosed => ?_⟩
  have hmoment := Program.moment_synchronous hb.readings_nodup hclosed state input
  refine ⟨hb.readable hclosed, ⟨_, hmoment⟩, fun m hm => ?_⟩
  have hsame := hmoment.unique hm
  rw [← hunits] at hsame ⊢
  rw [← hiter]
  refine ⟨hb.run_size hws state input, fun x hx => ?_, fun i hi => hb.run_other hws state input hi⟩
  obtain ⟨s, hs⟩ := Program.slot?_of_mem (Layout.outputVars_sub hb.laidOut hx)
  refine ⟨s, hs, fun u hu => ?_⟩
  rw [← (hsame a.plan.iterations u hu).1]
  refine hb.run_output hws state input hx hs hu ?_
  rw [hstate, ← hunits]
  exact Program.place_lt hs hu

theorem run_synchronous_relay : ∃ a, Automaton.compile (some Descriptor.relay) = .ok a ∧
    a.program.Closed ∧ ∃ ws : Workspace, ws.Fits a.plan ∧
      (a.plan.run ws #[1, 2, 3, 4, 5, 6] #[7]).2 =
        #[2, 1, -6, -7, 5, 6] ∧
      ∃ m, a.program.Synchronous #[1, 2, 3, 4, 5, 6] #[7] m ∧
        ∃ s, a.layout.slot? "cell_1_out1" = some s ∧ ∀ u < 2,
          (a.plan.run ws #[1, 2, 3, 4, 5, 6] #[7]).2[s * 2 + u]? =
            some ((m 2).own u "cell_1_out1") := by
  obtain ⟨a, ha, heval⟩ := Outcome.exists_ok (Automaton.compile (some Descriptor.relay))
    (fun a =>
      let ws := (a.plan.run a.plan.workspace #[9, 9, 9, 9, 9, 9] #[]).1
      ws.frames.size == a.plan.units && ws.scratch.size == a.plan.inlets.length * a.plan.units &&
        a.layout.size == 3 && a.program.unitCount == 2 &&
        (Program.outputVars a.layout).contains "cell_1_out1" &&
        (a.plan.run ws #[1, 2, 3, 4, 5, 6] #[7]).2 == #[2, 1, -6, -7, 5, 6])
    (by decide +kernel)
  simp only [Bool.and_eq_true, beq_iff_eq, List.contains_iff_mem] at heval
  obtain ⟨⟨⟨⟨⟨hframes, hscratch⟩, hslots⟩, hunits⟩, hout⟩, hwords⟩ := heval
  obtain ⟨hclosed, hmain⟩ := run_synchronous ha ⟨hframes, hscratch⟩ #[1, 2, 3, 4, 5, 6] #[7]
    (by rw [hslots, hunits]; rfl)
  have hclosed := hclosed (by decide)
  obtain ⟨-, ⟨m, hm⟩, hall⟩ := hmain hclosed
  have hwritten := (hall m hm).2.1 _ hout
  rw [hunits] at hwritten
  exact ⟨a, ha, hclosed, _, ⟨hframes, hscratch⟩, hwords, m, hm, hwritten⟩

/-- The units of this grid count as two, and a unit reads outside the arena. -/
theorem run_synchronous_wrapped : ∃ a, Automaton.compile
      (some { Descriptor.relay with width := 3, height := 6148914691236517206 }) = .ok a ∧
    a.program.unitCount = 2 ∧ a.plan.readable = false ∧
    ∀ state input m, ¬a.program.Synchronous state input m := by
  obtain ⟨a, ha, heval⟩ := Outcome.exists_ok (Automaton.compile
      (some { Descriptor.relay with width := 3, height := 6148914691236517206 }))
    (fun a => a.program.unitCount == 2 && !a.plan.readable) (by decide +kernel)
  simp only [Bool.and_eq_true, beq_iff_eq, Bool.not_eq_true'] at heval
  obtain ⟨hunits, hreadable⟩ := heval
  obtain ⟨w, cs, hb⟩ := Automaton.compile_ok ha
  refine ⟨a, ha, hunits, hreadable, fun state input m hm => ?_⟩
  rw [hb.readable hm.closed] at hreadable
  cases hreadable

end TiledAutomata
