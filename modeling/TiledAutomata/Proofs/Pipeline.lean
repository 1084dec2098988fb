import Mathlib.Data.List.Count
import TiledAutomata.Proofs.CheckedRuns
import TiledAutomata.Proofs.Dimensions
import TiledAutomata.Proofs.Iterations
import TiledAutomata.Proofs.Naming
import TiledAutomata.Proofs.Target.Folded

/-!
# From descriptors to runs

Compilation is safe for every descriptor, valid or not. A valid descriptor cannot be wired
only where two cells have one id or a cell keeps none of its outputs. Every program has a
plan. Its working variables are the declared names, each with an index of its own, and the
slots come first. A run of the plan of a valid descriptor is safe.
-/

namespace TiledAutomata

open Descriptor Layout Program

open Outcome

variable {c : Cell} {cs : List Cell} {vars xs : List String} {p : Placing}

/-! ## What cannot be wired -/

def Descriptor.cells (d : Descriptor) : List Cell := d.unit.rowList.flatMap Row.cellList

namespace Wiring

def cellId (next : Nat) (c : Cell) : String := if c.id = "" then toString next else c.id

def ids : Nat → List Cell → List String
  | _, [] => []
  | next, c :: cs => cellId next c :: ids (if c.id = "" then next + 1 else next) cs

/-- A cell whose type has outputs, but none that the cell lists. -/
def KeepsNothing (d : Descriptor) (c : Cell) : Prop :=
  c.keeps ≠ "" ∧ ∃ t, type? d c.type = some t ∧ t.outputList ≠ [] ∧
    ∀ i ∈ numbersIn c.keeps, ∀ o ∈ t.outputList, o.id ≠ i

/-- What keeps a valid descriptor from being wired. -/
def Refused (d : Descriptor) : Flaw → Prop
  | .repeatedCell id => 2 ≤ (ids 1 d.cells).count id
  | .keepsNoOutputs _ => ∃ c ∈ d.cells, KeepsNothing d c
  | _ => False

def Typed (d : Descriptor) (c : Cell) : Prop := ∃ t, type? d c.type = some t ∧ t.outputList ≠ []

def Remaining (d : Descriptor) (p : Placing) (cs : List Cell) : Prop :=
  p.sites.map (·.id) ++ ids p.next cs = ids 1 d.cells

variable {d : Descriptor}

theorem restrict_eq_nil {t : CellType} {id spec : String}
    (h : (t.restrict id spec).outputList = []) :
    ∀ i ∈ numbersIn spec, ∀ o ∈ t.outputList, o.id ≠ i := by
  intro i hi o ho heq
  simp only [CellType.restrict, CellType.outputList, Option.getD_some] at h ho
  have hnone := List.filterMap_eq_nil_iff.mp h i hi
  exact List.find?_eq_none.mp hnone o ho (by simpa using heq)

theorem place_cases (row col : Nat) (p : Placing) (ht : Typed d c) :
    (place d row col p c = .error (.repeatedCell (cellId p.next c)) ∧
        cellId p.next c ∈ p.sites.map (·.id)) ∨
      (place d row col p c = .error (.keepsNoOutputs (cellId p.next c)) ∧ KeepsNothing d c) ∨
      ∃ s, place d row col p c =
        .ok ⟨p.sites ++ [s], if c.id = "" then p.next + 1 else p.next⟩ ∧
          s.id = cellId p.next c := by
  obtain ⟨t, htype, hout⟩ := ht
  have hplace : place d row col p c =
      if p.sites.any fun s => s.id == cellId p.next c then .error (.repeatedCell (cellId p.next c))
      else
        let t' := if c.keeps = "" then t else t.restrict (t.id ++ "_e" ++ cellId p.next c) c.keeps
        if t'.outputList.isEmpty then .error (.keepsNoOutputs (cellId p.next c))
        else .ok ⟨p.sites ++ [⟨cellId p.next c, t', row, col⟩],
          if c.id = "" then p.next + 1 else p.next⟩ := by
    unfold place cellId
    rw [htype]
    by_cases hid : c.id = "" <;> simp only [hid, if_true, if_false] <;> rfl
  rw [hplace]
  by_cases hany : (p.sites.any fun s => s.id == cellId p.next c) = true
  · refine .inl ⟨if_pos hany, ?_⟩
    obtain ⟨s, hs, hsid⟩ := List.any_eq_true.mp hany
    exact List.mem_map.mpr ⟨s, hs, by simpa using hsid⟩
  · rw [if_neg hany]
    right
    by_cases hkeeps : c.keeps = ""
    · have hne : ¬t.outputList.isEmpty = true := by simpa using hout
      simp only [hkeeps, if_true, if_neg hne]
      exact .inr ⟨_, rfl, rfl⟩
    · simp only [hkeeps, if_false]
      split
      · rename_i hempty
        exact .inl ⟨rfl, hkeeps, t, htype, hout, restrict_eq_nil (List.isEmpty_iff.mp hempty)⟩
      · exact .inr ⟨_, rfl, rfl⟩

theorem place_step (row col : Nat) (ht : Typed d c) (hc : c ∈ d.cells)
    (hrem : Remaining d p (c :: cs)) :
    (∃ f, place d row col p c = .error f ∧ Refused d f) ∨
      ∃ p', place d row col p c = .ok p' ∧ Remaining d p' cs := by
  unfold Remaining at hrem
  rcases place_cases row col p ht with ⟨h, hmem⟩ | ⟨h, hnone⟩ | ⟨s, h, hid⟩
  · refine .inl ⟨_, h, ?_⟩
    rw [Refused, ← hrem, List.count_append, ids, List.count_cons_self]
    have := List.count_pos_iff.mpr hmem
    omega
  · exact .inl ⟨_, h, c, hc, hnone⟩
  · refine .inr ⟨_, h, ?_⟩
    rw [Remaining, ← hrem, ids, List.map_append, List.map_singleton, hid, List.append_assoc]
    rfl

theorem placeCells_step (row col : Nat) {rest : List Cell}
    (ht : ∀ c ∈ cs, Typed d c ∧ c ∈ d.cells) (hrem : Remaining d p (cs ++ rest)) :
    (∃ f, placeCells d row col p cs = .error f ∧ Refused d f) ∨
      ∃ p', placeCells d row col p cs = .ok p' ∧ Remaining d p' rest := by
  induction cs generalizing col p with
  | nil => exact .inr ⟨p, rfl, hrem⟩
  | cons c cs ih =>
    obtain ⟨htype, hc⟩ := ht c (by simp)
    rw [placeCells]
    rcases place_step row col htype hc hrem with ⟨f, h, hf⟩ | ⟨p', h, hrem'⟩
    · exact .inl ⟨f, by rw [h]; rfl, hf⟩
    · rw [h]
      exact ih (col + 1) (fun c' hc' => ht c' (by simp [hc'])) hrem'

theorem placeRows_step (row : Nat) {rs : List Row}
    (hlen : ∀ r ∈ rs, r.cellList.length = d.unit.cols)
    (ht : ∀ r ∈ rs, ∀ c ∈ r.cellList, Typed d c ∧ c ∈ d.cells)
    (hrem : Remaining d p (rs.flatMap Row.cellList)) :
    (∃ f, placeRows d row p rs = .error f ∧ Refused d f) ∨ ∃ p', placeRows d row p rs = .ok p' := by
  induction rs generalizing row p with
  | nil => exact .inr ⟨p, rfl⟩
  | cons r rs ih =>
    rw [placeRows, if_neg (not_not.mpr (hlen r (by simp)))]
    rw [List.flatMap_cons] at hrem
    rcases placeCells_step row 0 (ht r (by simp)) hrem with
      ⟨f, h, hf⟩ | ⟨p', h, hrem'⟩
    · exact .inl ⟨f, by rw [h]; rfl, hf⟩
    · rw [h]
      exact ih (row + 1) (fun t htail => hlen t (by simp [htail]))
        (fun t htail => ht t (by simp [htail])) hrem'

end Wiring

namespace Descriptor

variable {d : Descriptor}

theorem repeated?_nodup (h : repeated? xs = none) : xs.Nodup := by
  induction xs with
  | nil => exact .nil
  | cons x xs ih =>
    rw [repeated?] at h
    split at h
    · cases h
    · rename_i hx
      exact List.nodup_cons.mpr ⟨by simpa using hx, ih h⟩

theorem checkCells_ok {row col : Nat} (h : d.checkCells row col cs = .ok ()) :
    ∀ c ∈ cs, ∃ t, d.cellType? c.type = some t ∧ t.outputList ≠ [] := by
  induction cs generalizing col with
  | nil => simp
  | cons c cs ih =>
    obtain ⟨_, hc, h⟩ := bind_ok.mp h
    intro c' hc'
    rcases List.mem_cons.mp hc' with rfl | hmem
    · unfold checkCell at hc
      split at hc
      · cases hc
      · rename_i t ht
        split at hc
        · cases hc
        · rename_i hne
          exact ⟨t, ht, by simpa using hne⟩
    · exact ih h c' hmem

theorem checkRows_ok {i : Nat} {rs : List Row} (h : d.checkRows i rs = .ok ()) :
    ∀ r ∈ rs, r.cellList.length = d.unit.cols ∧ r.cellList ≠ [] ∧
      ∀ c ∈ r.cellList, ∃ t, d.cellType? c.type = some t ∧ t.outputList ≠ [] := by
  induction rs generalizing i with
  | nil => simp
  | cons r rs ih =>
    rw [checkRows] at h
    obtain ⟨hne, h⟩ := guard_ok.mp h
    obtain ⟨hlen, h⟩ := guard_ok.mp h
    obtain ⟨_, hcells, h⟩ := bind_ok.mp h
    intro r' hr'
    rcases List.mem_cons.mp hr' with rfl | hmem
    · exact ⟨not_not.mp hlen, by simpa using hne, checkCells_ok hcells⟩
    · exact ih h r' hmem

theorem validate_ok (h : d.validate = .ok ()) :
    d.unit.rowList ≠ [] ∧ d.unit.strategy ∈ ["3", "4", "8"] ∧ (d.typeList.map (·.id)).Nodup ∧
      d.checkRows 0 d.unit.rowList = .ok () := by
  unfold validate at h
  obtain ⟨-, h⟩ := guard_ok.mp h
  obtain ⟨hrows, h⟩ := guard_ok.mp h
  obtain ⟨hstrategy, h⟩ := require_ok.mp h
  obtain ⟨-, h⟩ := require_ok.mp h
  dsimp only at h
  split at h
  · cases h
  · rename_i hrepeated
    refine ⟨by simpa using hrows, by simpa using hstrategy, repeated?_nodup ?_, h⟩
    cases hr : repeated? (d.typeList.map (·.id)) with
    | none => rfl
    | some t => exact absurd hr (hrepeated t)

theorem typed_of_cellType? (hn : (d.typeList.map (·.id)).Nodup)
    (h : ∃ t, d.cellType? c.type = some t ∧ t.outputList ≠ []) : Wiring.Typed d c := by
  obtain ⟨t, ht, hout⟩ := h
  unfold cellType? at ht
  have hmem : t ∈ d.typeList := List.mem_of_find?_eq_some ht
  have hid : t.id = c.type := by simpa using List.find?_some ht
  obtain ⟨t', ht'⟩ : ∃ t', d.typeList.reverse.find? (fun t => t.id == c.type) = some t' := by
    rw [← Option.isSome_iff_exists, List.find?_isSome]
    exact ⟨t, List.mem_reverse.mpr hmem, by simpa using hid⟩
  have hmem' : t' ∈ d.typeList := List.mem_reverse.mp (List.mem_of_find?_eq_some ht')
  have hid' : t'.id = c.type := by simpa using List.find?_some ht'
  -- ids of types differ, so the last type with an id is the first one
  obtain rfl : t' = t := List.inj_on_of_nodup_map hn hmem' hmem (hid'.trans hid.symm)
  refine ⟨t'.expand, by rw [Wiring.type?, ht']; rfl, ?_⟩
  obtain ⟨o, ho⟩ := List.exists_mem_of_ne_nil _ hout
  simp only [CellType.expand, CellType.outputList, Option.getD_some]
  refine List.ne_nil_of_mem (a := if numbersIn o.id = [] then o else
    { o with id := (numbersIn o.id).headD "" }) (List.mem_flatMap.mpr ⟨o, ho, ?_⟩)
  cases hnum : numbersIn o.id <;> simp

end Descriptor

/-- A valid descriptor that cannot be wired has a repeated cell id or a cell that keeps nothing. -/
theorem Wiring.resolve_refused {d : Descriptor} (hv : d.validate = .ok ()) {f : Flaw}
    (h : resolve d = .error f) : Refused d f := by
  obtain ⟨hrows, hstrategy, hnodup, hcheck⟩ := validate_ok hv
  have hcells := checkRows_ok hcheck
  have hcols : d.unit.cols ≠ 0 := by
    obtain ⟨r, rs, hcons⟩ := List.exists_cons_of_ne_nil hrows
    obtain ⟨hlen, hne, -⟩ := hcells r (by simp [hcons])
    rw [← hlen]
    simpa using hne
  obtain ⟨links, hlinks⟩ : ∃ links, Link.ofStrategy? d.unit.strategy = some links := by
    simp only [List.mem_cons, List.not_mem_nil, or_false] at hstrategy
    rcases hstrategy with h | h | h <;> rw [h] <;> exact ⟨_, rfl⟩
  unfold resolve at h
  rw [if_neg hcols, hlinks] at h
  rcases placeRows_step (d := d) 0 (p := ⟨[], 1⟩) (fun r hr => (hcells r hr).1)
      (fun r hr c hc => ⟨typed_of_cellType? hnodup ((hcells r hr).2.2 c hc),
        List.mem_flatMap.mpr ⟨r, hr, hc⟩⟩) (by rfl) with ⟨f', hf', href⟩ | ⟨p, hp⟩
  · rw [hf'] at h
    cases h
    exact href
  · rw [hp] at h
    cases h

/-! ## Working variables -/

namespace Program

/-- The names that a program declares: its slots, the variables of external cells and of cells, and
the targets of statements that declare them. -/
def Declares (p : Program) (x : String) : Prop :=
  x ∈ p.layout.names ∨ (∃ r ∈ p.readings, r.name = x) ∨
    (∃ s ∈ p.layout.wiring.sites, x ∈ s.varNames) ∨
    ∃ a ∈ p.constant ++ p.dynamic, a.declares = true ∧ a.target = x

/-- The declared names and the numbers below the size of a frame correspond to each other, and a
slot is its own number. -/
structure Indexed (p : Program) : Prop where
  total : ∀ x, (∃ i, p.varIndex? x = some i) ↔ p.Declares x
  bounded : ∀ x i, p.varIndex? x = some i → i < p.frameSize
  onto : ∀ i < p.frameSize, ∃! x, p.varIndex? x = some i
  slot : ∀ s x, p.layout.names[s]? = some x → p.varIndex? x = some s

variable {d : Descriptor} {l : Layout} {p : Program} {cs : List Compiled}

theorem checkNames_ok {as : List Assign} (h : checkNames vars as = .ok ()) :
    ∀ a ∈ as, a.target ∈ vars ∧ ∀ x ∈ a.value.reads, x ∈ vars := by
  induction as with
  | nil => simp
  | cons a as ih =>
    rw [checkNames] at h
    split at h
    · cases h
    · rename_i hnone
      have hall := List.find?_eq_none.mp hnone
      intro b hb
      rcases List.mem_cons.mp hb with rfl | hmem
      · refine ⟨by simpa using hall b.target (by simp), fun x hx => ?_⟩
        simpa using hall x (List.mem_cons_of_mem _ (Expr.mem_idents.mpr hx))
      · exact ih h b hmem

theorem addLocals_nodup (h : vars.Nodup) : (vars ++ addLocals vars xs).Nodup := by
  induction xs generalizing vars with
  | nil => simpa [addLocals] using h
  | cons x xs ih =>
    rw [addLocals]
    split
    · exact ih h
    · rename_i hx
      have hnew : x ∉ vars := by simpa using hx
      have hmore : (vars ++ [x]).Nodup := by
        refine List.nodup_append.mpr ⟨h, by simp, ?_⟩
        rintro a ha b hb rfl
        rw [List.mem_singleton] at hb
        exact hnew (hb ▸ ha)
      simpa using ih hmore

theorem mem_addLocals {x : String} : x ∈ vars ++ addLocals vars xs ↔ x ∈ vars ∨ x ∈ xs := by
  induction xs generalizing vars with
  | nil => simp [addLocals]
  | cons y xs ih =>
    rw [addLocals]
    split
    · rename_i hy
      have hmem : y ∈ vars := by simpa using hy
      rw [ih, List.mem_cons]
      constructor
      · rintro (h | h)
        · exact .inl h
        · exact .inr (.inr h)
      · rintro (h | rfl | h)
        · exact .inl h
        · exact .inl hmem
        · exact .inr h
    · have hmore := @ih (vars ++ [y])
      simp only [List.append_assoc, List.singleton_append] at hmore
      rw [hmore]
      simp [or_assoc]

theorem mem_declared (hb : Built d l cs p) {x : String} :
    x ∈ declared cs ↔ ∃ a ∈ p.constant ++ p.dynamic, a.declares = true ∧ a.target = x := by
  rw [hb.constant, hb.dynamic]
  simp only [mem_classes, declared, List.mem_flatMap, List.mem_filterMap]
  constructor
  · rintro ⟨c, hc, a, ha, hx⟩
    split at hx
    · rename_i hdecl
      exact ⟨a, ⟨c, hc, .inl ha⟩, hdecl, Option.some.inj hx⟩
    · cases hx
  · rintro ⟨a, ⟨c, hc, ha | ha⟩, hdecl, rfl⟩
    · exact ⟨c, hc, a, ha, by rw [if_pos hdecl]⟩
    · rw [(hb.update_ok hc ha).2.2] at hdecl
      cases hdecl

theorem fixedVars_nodup {w : Wiring} (hl : Layout.build w = .ok l) :
    (l.names ++ (readingsOf l).map (·.name)).Nodup := by
  obtain ⟨-, hnodup, rfl⟩ := build_eq_ok_iff.mp hl
  refine List.nodup_append.mpr ⟨hnodup, readings_nodup _, ?_⟩
  rintro x hx y hy rfl
  obtain ⟨r, hr, rfl⟩ := List.mem_map.mp hy
  obtain ⟨⟨e, k⟩, -, rfl⟩ := List.mem_map.mp hr
  exact externalVar_not_persisted w k hx

theorem indexed {w : Wiring} (hl : Layout.build w = .ok l) (h : build d l = .ok p) :
    p.Indexed := by
  obtain ⟨cs, hb, hlocals, -, -⟩ := build_checks h
  have hvars : p.vars = l.names ++ (readingsOf l).map (·.name) ++ addLocals
      (l.names ++ (readingsOf l).map (·.name))
      (l.wiring.sites.flatMap Site.varNames ++ declared cs) := by
    rw [hb.vars, hlocals]
  have hnodup : p.vars.Nodup := by
    rw [hvars]
    exact addLocals_nodup (fixedVars_nodup hl)
  refine ⟨fun x => ?_, fun x i => varIndex?_lt, fun i hi => ?_, fun s x hs => ?_⟩
  · have hmem : (∃ i, p.varIndex? x = some i) ↔ x ∈ p.vars := by
      rw [← Option.isSome_iff_exists]
      exact List.isSome_idxOf?
    rw [hmem, hvars, mem_addLocals, List.mem_append, List.mem_append, mem_declared hb, Declares,
      hb.layout, hb.readings, List.mem_map, List.mem_flatMap, or_assoc]
  · have hfound := (Layout.idxOf?_of_nodup hnodup).mpr (List.getElem?_eq_getElem hi)
    exact ⟨p.vars[i], hfound, fun y hy => varIndex?_injective hy hfound⟩
  · rw [hb.layout] at hs
    have hnames := (fixedVars_nodup hl).of_append_left
    exact varIndex?_of_slot? hb ((Layout.idxOf?_of_nodup hnames).mpr hs)

end Program

theorem Assign.compile_total {r : Resolver} {a : Assign} (ht : ∃ i, r a.target = some i)
    (hv : ∀ x ∈ a.value.reads, ∃ i, r x = some i) : ∃ x, a.compile r = .ok x := by
  obtain ⟨i, hi⟩ := ht
  obtain ⟨v, hv⟩ := Expr.compile_ok_iff.mpr fun x hx => hv x (a.value.reads_fold hx)
  exact ⟨_, bind_ok.mpr ⟨i, by rw [Resolver.index, hi], bind_ok.mpr ⟨v, hv, rfl⟩⟩⟩

theorem Plan.build_total {d : Descriptor} {l : Layout} {p : Program}
    (h : Program.build d l = .ok p) : ∃ q, Plan.build p = .ok q := by
  have hall : ∀ as : List Assign,
      (∀ a ∈ as, a.target ∈ p.vars ∧ ∀ x ∈ a.value.reads, x ∈ p.vars) →
      ∃ xs, compileAll p.varIndex? as = .ok xs := by
    intro as
    induction as with
    | nil => exact fun _ => ⟨[], rfl⟩
    | cons a as ih =>
      intro hnames
      obtain ⟨htarget, hreads⟩ := hnames a (by simp)
      obtain ⟨x, hx⟩ := Assign.compile_total (varIndex?_of_mem htarget)
        fun y hy => varIndex?_of_mem (hreads y hy)
      obtain ⟨xs, hxs⟩ := ih fun b hb => hnames b (by simp [hb])
      exact ⟨x :: xs, bind_ok.mpr ⟨x, hx, bind_ok.mpr ⟨xs, hxs, rfl⟩⟩⟩
  obtain ⟨cs, -, -, hconstant, hdynamic⟩ := build_checks h
  obtain ⟨constant, hc⟩ := hall _ (checkNames_ok hconstant)
  obtain ⟨dynamic, hd⟩ := hall _ (checkNames_ok hdynamic)
  exact ⟨_, bind_ok.mpr ⟨constant, hc, bind_ok.mpr ⟨dynamic, hd, rfl⟩⟩⟩

/-! ## Runs of compiled automata -/

/-- The words of the frames of all units can be counted; so can those of a state and those that
are published, which are fewer. -/
def Program.WordsFit (p : Program) : Prop :=
  p.width.toInt * p.height.toInt * p.frameSize < 2 ^ 63

namespace Automaton

variable {d : Descriptor} {a : Automaton}

namespace Built

variable {w : Wiring} {cs : List Program.Compiled}

section

variable (hb : a.Built d w cs)

include hb

theorem slots_le : a.plan.slots ≤ a.plan.frameSize := by
  rw [hb.plan.slots, hb.plan.frameSize, frameSize, hb.program.vars, size]
  simp only [List.length_append]
  omega

theorem two_le_frameSize {r : Program.Reading} (hr : r ∈ a.program.readings) :
    2 ≤ a.program.frameSize := by
  have hreadings : 0 < (readingsOf a.program.layout).length := by
    rw [← hb.program.readings]
    exact List.length_pos_of_mem hr
  have hsource := outputVars_sub hb.laidOut
    (reading_source hb.laidOut (Wiring.externals_real hb.wired) (hb.program.readings ▸ hr))
  have hnames := List.length_pos_of_mem hsource
  rw [frameSize, hb.program.vars]
  simp only [List.length_append, List.length_map]
  omega

theorem sound (hfit : a.program.WordsFit) : a.plan.Sound a.program := by
  have hlt : ∀ x i, a.program.varIndex? x = some i → i < a.plan.frameSize := by
    intro x i hi
    rw [hb.plan.frameSize]
    exact varIndex?_lt hi
  have hinlet : ∀ e ∈ a.plan.inlets, ∃ r ∈ a.program.readings,
      Plan.inletOf a.program a.plan.units r = e := by
    intro e he
    rw [hb.plan.inlets] at he
    exact List.mem_map.mp he
  refine ⟨hb.slots_le, hlt, fun e he => ?_, fun e he => ?_, fun e he u hu => ?_, fun s hs => ?_,
    hb.plan.constant, hb.plan.dynamic⟩
  · obtain ⟨r, hr, rfl⟩ := hinlet e he
    obtain ⟨i, hi⟩ := varIndex?_of_mem (reading_mem_vars hb.program hr)
    simpa [Plan.inletOf, hi] using hlt _ i hi
  · obtain ⟨r, hr, rfl⟩ := hinlet e he
    have hsource := outputVars_sub hb.laidOut (reading_source hb.laidOut
      (Wiring.externals_real hb.wired) (hb.program.readings ▸ hr))
    obtain ⟨i, hi⟩ := varIndex?_of_mem (mem_vars_of_name hb.program hsource)
    simpa [Plan.inletOf, hi] using hlt _ i hi
  · obtain ⟨r, hr, rfl⟩ := hinlet e he
    have hgrid : d.width.toInt * d.height.toInt < 2 ^ 62 := by
      have htwo := hb.two_le_frameSize hr
      have hpos := mul_pos hb.grid_pos.1 hb.grid_pos.2
      unfold Program.WordsFit at hfit
      rw [hb.program.width, hb.program.height] at hfit
      nlinarith
    obtain ⟨n, hn, h0, h1⟩ := hb.closed hgrid r hr u (hb.units ▸ hu)
    refine ⟨n.toInt.toNat, ?_, by rw [hb.units]; omega⟩
    rw [Int.toNat_of_nonneg h0]
    simp [Plan.inletOf, hu, hn]
  · rw [hb.plan.stored, hb.program.stored] at hs
    obtain ⟨x, -, hx⟩ := List.mem_filterMap.mp hs
    rw [hb.plan.slots]
    exact slot?_lt hx

theorem stateSize_eq (hfit : a.program.WordsFit) :
    a.stateSize.toInt = (a.plan.slots * a.plan.units : Nat) := by
  apply hb.stateSize_words
  have hslots : a.layout.size ≤ a.program.frameSize := by
    have hle := hb.slots_le
    rwa [hb.plan.slots, hb.plan.frameSize] at hle
  unfold Program.WordsFit at hfit
  rw [hb.program.width, hb.program.height] at hfit
  have hpos : 0 < d.width.toInt * d.height.toInt := hb.area_pos
  unfold Descriptor.area
  nlinarith

end

end Built

end Automaton

/-- Compilation is safe for every descriptor, and where it succeeds, its working variables are the
declared names. A valid descriptor is refused only for a repeated cell id or a cell that keeps
nothing, and every program has a plan. Where the words of a valid automaton can be counted, its runs
are safe on every state of its size, whatever the input and the workspace hold. -/
theorem pipeline_safe (d : Descriptor) :
    Checked.build d = .safe (Automaton.build d) ∧
    (d.validate = .ok () → ∀ f, Wiring.resolve d = .error f → Wiring.Refused d f) ∧
    (∀ l p, Program.build d l = .ok p → ∃ q, Plan.build p = .ok q) ∧
    ∀ a, Automaton.build d = .ok a →
      a.program.Indexed ∧ a.plan.workspace.Shaped a.plan ∧
      (d.validate = .ok () → a.program.WordsFit →
        ∀ (ws : Workspace) (state input : Words), ws.Shaped a.plan →
          (state.size : Int) = a.stateSize.toInt →
          Checked.runPlan a.program a.plan ws state input = some (a.plan.run ws state input) ∧
            (a.plan.run ws state input).1.Shaped a.plan ∧
            (a.plan.run ws state input).2.size = state.size) := by
  refine ⟨Checked.build_safe d, fun hv f hf => Wiring.resolve_refused hv hf,
    fun l p => Plan.build_total, fun a ha => ?_⟩
  obtain ⟨w, -, hl, hp, -⟩ := Automaton.build_steps ha
  refine ⟨indexed hl hp, a.plan.workspace_shaped, ?_⟩
  intro hv hfit ws state input hws hstate
  obtain ⟨w, cs, hb⟩ := Automaton.built_of_build hv ha
  refine Checked.runPlan_safe (hb.sound hfit) hws ?_ input
  rw [hb.stateSize_eq hfit] at hstate
  exact_mod_cast hstate

/-- A run on the workspace that another run has left. -/
theorem pipeline_safe_relay : ∃ a, Automaton.build Descriptor.relay = .ok a ∧
    Checked.build Descriptor.relay = .safe (.ok a) ∧
    (∃! x, a.program.varIndex? x = some 3) ∧
    ∃ ws : Workspace, ws.Shaped a.plan ∧
      Checked.runPlan a.program a.plan ws #[1, 2, 3, 4, 5, 6] #[7] =
        some (a.plan.run ws #[1, 2, 3, 4, 5, 6] #[7]) := by
  obtain ⟨a, ha, heval⟩ := Outcome.exists_ok (Automaton.build relay)
    (fun a => a.stateSize == 6 && a.program.frameSize == 7 && a.program.width == 2 &&
      a.program.height == 1) (by decide +kernel)
  simp only [Bool.and_eq_true, beq_iff_eq] at heval
  obtain ⟨⟨⟨hsize, hframe⟩, hwidth⟩, hheight⟩ := heval
  obtain ⟨hbuild, -, -, hsafe⟩ := pipeline_safe relay
  obtain ⟨hindexed, hfresh, hrun⟩ := hsafe a ha
  have hrun := hrun (by decide +kernel) (by
    rw [Program.WordsFit, hframe, hwidth, hheight]
    decide)
  obtain ⟨-, hused, -⟩ := hrun a.plan.workspace #[9, 9, 9, 9, 9, 9] #[] hfresh (by rw [hsize]; rfl)
  refine ⟨a, ha, by rw [hbuild, ha], hindexed.onto 3 (by rw [hframe]; decide), _, hused, ?_⟩
  exact (hrun _ #[1, 2, 3, 4, 5, 6] #[7] hused (by rw [hsize]; rfl)).1

end TiledAutomata
