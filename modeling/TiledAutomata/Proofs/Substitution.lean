import TiledAutomata.Proofs.Naming
import TiledAutomata.Proofs.Program
import TiledAutomata.Proofs.Sources

/-!
# Placeholders are replaced before a text is read

The statements of an output are read from its texts with variables in place of
placeholders. Where placeholders stand apart, that is what one reads with every
placeholder taken as one name. Elsewhere it need not be: the ids of cells and parameters
are any texts, and what stands next to a placeholder may continue its variable.
-/

open List

namespace TiledAutomata

open Text (Bytes)
open Outcome

variable {ys : List Letter} {o : Output} {s : Scope}

namespace Placeholder

/-! ## Sources of texts -/

def letters? (s : Scope) : List Piece → Option (List Letter)
  | [] => some []
  | .plain c :: ps => do return (String.utf8EncodeChar c).map .byte ++ (← letters? s ps)
  | .token t :: ps => do return .var (← resolve? s t) :: (← letters? s ps)

def source? (s : Scope) (text : String) : Option (List Letter) :=
  letters? s (pieces 0 (Text.trim text).toList)

theorem spellAll_bytes (bs : Bytes) : Letter.spellAll (bs.map .byte) = bs := by
  induction bs with
  | nil => rfl
  | cons b bs ih => rw [map_cons, Letter.spellAll_cons, ih]; rfl

theorem expandPieces_ok {ps : List Piece} {cs : List Char} (h : expandPieces s ps = .ok cs) :
    ∃ ys, letters? s ps = some ys ∧ cs.flatMap String.utf8EncodeChar = Letter.spellAll ys := by
  induction ps generalizing cs with
  | nil =>
    cases h
    exact ⟨[], rfl, rfl⟩
  | cons p ps ih =>
    cases p with
    | plain c =>
      obtain ⟨ds, hds, h⟩ := bind_ok.mp h
      cases h
      obtain ⟨ys, hys, hbytes⟩ := ih hds
      refine ⟨(String.utf8EncodeChar c).map .byte ++ ys, by simp [letters?, hys], ?_⟩
      have hchar := spellAll_bytes (String.utf8EncodeChar c)
      unfold Letter.spellAll at hbytes hchar ⊢
      rw [flatMap_cons, flatMap_append, hbytes, hchar]
    | token t =>
      rw [expandPieces] at h
      cases hv : resolve? s t with
      | none => rw [hv] at h; cases h
      | some v =>
        rw [hv] at h
        obtain ⟨ds, hds, h⟩ := bind_ok.mp h
        cases h
        obtain ⟨ys, hys, hbytes⟩ := ih hds
        refine ⟨.var v :: ys, by simp [letters?, hys, hv], ?_⟩
        rw [flatMap_append, hbytes, Letter.spellAll_cons, Letter.spell, ← Text.bytes_ofList,
          String.ofList_toList]

theorem expand_ok {text t : String} (h : expand s text = .ok t) :
    ∃ ys, source? s text = some ys ∧ Text.bytes t = Letter.spellAll ys := by
  obtain ⟨cs, hcs, h⟩ := bind_ok.mp h
  cases h
  obtain ⟨ys, hys, hbytes⟩ := expandPieces_ok hcs
  exact ⟨ys, hys, (Text.bytes_ofList cs).trans hbytes⟩

/-! ## Variables of placeholders -/

def reserved : List String := ["int", Expr.inputName, Expr.inputLengthName]

/-- The beginnings of the variables of a layout. -/
def marks : List String := ["cell_", "ex_"]

theorem not_reserved {m x : String} (hm : m ∈ marks) : m ++ x ∉ reserved := by
  have hstart : ∀ m ∈ marks, ∀ r ∈ reserved, m.toList ≠ [] ∧ m.toList.head? ≠ r.toList.head? := by
    decide +kernel
  intro hmem
  obtain ⟨hne, hhead⟩ := hstart m hm _ hmem
  apply hhead
  rw [String.toList_append, List.head?_append_of_ne_nil _ hne]

theorem paramVar_not_reserved (cell param : String) : Layout.paramVar cell param ∉ reserved := by
  rw [Layout.paramVar, String.append_assoc, String.append_assoc]
  exact not_reserved (by decide)

theorem resolve?_not_reserved {t v : String} (h : resolve? s t = some v) : v ∉ reserved := by
  obtain ⟨m, -, rfl⟩ | ⟨b, -, rfl⟩ := resolve?_cases h
  · exact paramVar_not_reserved _ m
  · cases b with
    | inside i o =>
      rw [Layout.bindingVar, Layout.outputVar_eq]
      exact paramVar_not_reserved _ _
    | outside k => exact not_reserved (by decide)

theorem letters?_not_reserved {ps : List Piece} (h : letters? s ps = some ys) :
    ∀ x, Letter.var x ∈ ys → x ∉ reserved := by
  induction ps generalizing ys with
  | nil =>
    cases h
    simp
  | cons p ps ih =>
    cases p with
    | plain c =>
      obtain ⟨zs, hzs, h⟩ := Option.bind_eq_some_iff.mp h
      cases h
      intro x hx
      exact ih hzs x (by simpa using hx)
    | token t =>
      obtain ⟨v, hv, h⟩ := Option.bind_eq_some_iff.mp h
      obtain ⟨zs, hzs, h⟩ := Option.bind_eq_some_iff.mp h
      cases h
      intro x hx
      rcases mem_cons.mp hx with heq | hx
      · cases heq
        exact resolve?_not_reserved hv
      · exact ih hzs x hx

/-! ## Reading sources -/

def readExpr (ys : List Letter) : Except SyntaxError Expr := do
  Reader.expression (← Letter.scan .between 0 ys)

def readAssigns (ys : List Letter) : Except SyntaxError (List Assign) := do
  Reader.assigns .start (← Letter.scan .between 0 ys)

theorem parse_spellAll (h : Letter.Apart false ys) :
    Expr.parse (Letter.spellAll ys) = readExpr ys := by
  rw [Expr.parse, Letter.tokenize_spellAll h, readExpr]

theorem parseAssigns_spellAll (h : Letter.Apart false ys) :
    Assign.parse (Letter.spellAll ys) = readAssigns ys := by
  rw [Assign.parse, Letter.tokenize_spellAll h, readAssigns]

end Placeholder

namespace Program

open Placeholder

/-- A text has a source in which placeholders stand for variables of their own, and where the
source has a property its reading is that of the source. -/
def SourceReads (P Reading : List Letter → Prop) (s : Scope) (text : String) : Prop :=
  ∃ ys, source? s text = some ys ∧ (∀ x, Letter.var x ∈ ys → x ∉ reserved) ∧ (P ys → Reading ys)

/-- The statements of an output are the readings of its texts, where their sources have a
property. -/
structure Compiled.Substitutes (P : List Letter → Prop) (s : Scope) (o : Output) (c : Compiled) :
    Prop where
  before : if o.before = "" then c.before = []
    else SourceReads P (fun ys => readAssigns ys = .ok c.before) s o.before
  update : if o.update = "" then c.update = none
    else SourceReads P (fun ys => ∃ e, readExpr ys = .ok e ∧
      c.update = some ⟨false, Layout.outputVar s.site.id o.id, none, e⟩) s o.update
  constant : c.constant = o.constant

def scopes (l : Layout) (ss : List (Site × List Binding)) : List (Scope × Output) :=
  ss.flatMap fun x => x.1.type.outputList.map fun o => (⟨l, x.1, x.2, o.id⟩, o)

theorem compileBefore_reads {as : List Assign} (h : compileBefore s o = .ok as) :
    if o.before = "" then as = []
    else SourceReads (Letter.Apart false) (fun ys => readAssigns ys = .ok as) s o.before := by
  unfold compileBefore at h
  split at h
  · next hempty =>
    cases h
    rw [if_pos hempty]
  · next hne =>
    rw [if_neg hne]
    obtain ⟨t, ht, h⟩ := bind_ok.mp h
    obtain ⟨ys, hys, hbytes⟩ := expand_ok (mapError_ok.mp ht)
    refine ⟨ys, hys, letters?_not_reserved hys, fun hapart => ?_⟩
    show readAssigns ys = .ok as
    rw [← parseAssigns_spellAll hapart, ← hbytes]
    exact mapError_ok.mp h

theorem compileUpdate_reads {u : Option Assign} (h : compileUpdate s o = .ok u) :
    if o.update = "" then u = none
    else SourceReads (Letter.Apart false) (fun ys => ∃ e, readExpr ys = .ok e ∧
      u = some ⟨false, Layout.outputVar s.site.id o.id, none, e⟩) s o.update := by
  unfold compileUpdate at h
  split at h
  · next hempty =>
    cases h
    rw [if_pos hempty]
  · next hne =>
    rw [if_neg hne]
    obtain ⟨t, ht, h⟩ := bind_ok.mp h
    obtain ⟨e, he, h⟩ := bind_ok.mp h
    cases h
    obtain ⟨ys, hys, hbytes⟩ := expand_ok (mapError_ok.mp ht)
    refine ⟨ys, hys, letters?_not_reserved hys, fun hapart => ⟨e, ?_, rfl⟩⟩
    rw [← parse_spellAll hapart, ← hbytes]
    exact mapError_ok.mp he

theorem compileOutput_ok {l : Layout} {s : Site} {inputs : List Binding} {c : Compiled}
    (h : compileOutput l s inputs o = .ok c) :
    c.Substitutes (Letter.Apart false) ⟨l, s, inputs, o.id⟩ o := by
  obtain ⟨before, hbefore, h⟩ := bind_ok.mp h
  obtain ⟨update, hupdate, h⟩ := bind_ok.mp h
  cases h
  exact ⟨compileBefore_reads hbefore, compileUpdate_reads hupdate, rfl⟩

def texts (p : Program) : List (Scope × Output) :=
  scopes p.layout (p.layout.wiring.sites.zip p.layout.wiring.inputs)

/-- The statements of a program are those of its outputs, class by class, and those of each output
are the readings of its texts where their sources have a property. -/
def Substitutes (P : List Letter → Prop) (p : Program) : Prop :=
  ∃ cs, List.Forall₂ (fun x c => c.Substitutes P x.1 x.2) p.texts cs ∧
    p.constant = statements (cs.map (classify p.layout (assignedBefore cs))) true ∧
    p.dynamic = statements (cs.map (classify p.layout (assignedBefore cs))) false

theorem Substitutes.update_mem {P : List Letter → Prop} {p : Program} (h : p.Substitutes P)
    {e : Expr} (hmem : (s, o) ∈ p.texts) (hne : o.update ≠ "")
    (hys : source? s o.update = some ys) (hP : P ys) (he : readExpr ys = .ok e) :
    ⟨false, Layout.outputVar s.site.id o.id, none, e⟩ ∈ p.constant ++ p.dynamic := by
  obtain ⟨cs, hall, hconstant, hdynamic⟩ := h
  obtain ⟨i, hi, hget⟩ := getElem_of_mem hmem
  have hlen := hall.length_eq
  have hc := hall.get hi (hlen ▸ hi)
  simp only [get_eq_getElem, hget] at hc
  have hupdate := hc.update
  rw [if_neg hne] at hupdate
  obtain ⟨zs, hzs, -, hread⟩ := hupdate
  obtain rfl := Option.some.inj (hys.symm.trans hzs)
  obtain ⟨f, hf, hassign⟩ := hread hP
  obtain rfl := Except.ok.inj (he.symm.trans hf)
  rw [hconstant, hdynamic, mem_classes]
  exact ⟨_, getElem_mem (hlen ▸ hi), .inr hassign⟩

end Program

open Placeholder (Letter source? readExpr readAssigns)

/-- In every compiled automaton, where the placeholders of a text stand for names and apart from
other names, the statements are those of the text with each placeholder as one name, that of the
variable it resolves to. -/
theorem substitution_commutes {d : Descriptor} {a : Automaton}
    (h : Automaton.compile (some d) = .ok a) : a.program.Substitutes (Letter.Apart false) := by
  obtain ⟨w, cs, hb⟩ := Automaton.compile_ok h
  rw [Program.Substitutes, Program.texts, hb.program.layout]
  refine ⟨cs, Program.compileSites_forall₂ (fun s _ o _ c hc => ?_) hb.program.compiled,
    hb.program.constant, hb.program.dynamic⟩
  exact Program.compileOutput_ok hc

def Descriptor.annotated : Descriptor where
  width := 1
  height := 1
  cellTypes := some [{
    id := "t"
    params := ["k", "a//b"]
    vars := ["v"]
    outputs := some [
      { id := "1", before := "int z=\x7bk\x7d^\x7binput1\x7d;\x7bv\x7d=z-1;// \x7ba//b\x7d"
        update := "\x7bv\x7d--\x7bk\x7d/3+\x7boutput2\x7d" },
      { id := "2", update := "~\x7bk\x7d//\x7ba//b\x7d" }] }]
  unit := { neighbors := "4", rows := some [{ cells := some [{ type := "t" }] }] }

theorem substitution_commutes_annotated :
    ∃ a, Automaton.compile (some Descriptor.annotated) = .ok a ∧
      a.program.Substitutes (Letter.Apart false) ∧ a.program.texts.length = 2 ∧
      ∀ x ∈ a.program.texts, ∀ text ∈ [x.2.before, x.2.update],
        ∃ ys, source? x.1 text = some ys ∧ Letter.Apart false ys := by
  obtain ⟨a, ha, heval⟩ := Outcome.exists_ok (Automaton.compile (some Descriptor.annotated))
    (fun a => decide (a.program.texts.length = 2 ∧ ∀ x ∈ a.program.texts,
      ∀ text ∈ [x.2.before, x.2.update],
        (source? x.1 text).any fun ys => decide (Letter.Apart false ys)))
    (by decide +kernel)
  obtain ⟨hlen, hall⟩ := of_decide_eq_true heval
  refine ⟨a, ha, substitution_commutes ha, hlen, fun x hx text htext => ?_⟩
  obtain ⟨ys, hys, hapart⟩ := (Option.any_eq_true _ _).mp (hall x hx text htext)
  exact ⟨ys, hys, of_decide_eq_true hapart⟩

/-- A cell with two parameters, the id of one being that of the other with an operator and a
variable behind it. -/
def Descriptor.spliced : Descriptor where
  width := 1
  height := 1
  cellTypes := some [{
    id := "t"
    params := ["x", "x+cell_1_x"]
    outputs := some [{ id := "1", update := "\x7bx+cell_1_x\x7d" }] }]
  unit := { neighbors := "4", rows := some [{ cells := some [{ type := "t" }] }] }

/-- Where ids are no parts of names, a placeholder can be read as operators and other variables. -/
theorem substitution_captured :
    ∃ a, Automaton.compile (some Descriptor.spliced) = .ok a ∧
      ¬a.program.Substitutes (fun _ => True) := by
  obtain ⟨a, ha, heval⟩ := Outcome.exists_ok (Automaton.compile (some Descriptor.spliced))
    (fun a => decide (∃ x ∈ a.program.texts, x.2.update ≠ "" ∧
      ((source? x.1 x.2.update).any fun ys => (readExpr ys).toOption.any fun e =>
        decide (∀ b ∈ a.program.constant ++ a.program.dynamic, b.value ≠ e))))
    (by decide +kernel)
  obtain ⟨⟨s, o⟩, hmem, hne, hcheck⟩ := of_decide_eq_true heval
  obtain ⟨ys, hys, hcheck⟩ := (Option.any_eq_true _ _).mp hcheck
  obtain ⟨e, he, hcheck⟩ := Outcome.exists_ok _ _ hcheck
  refine ⟨a, ha, fun h => ?_⟩
  exact of_decide_eq_true hcheck _ (h.update_mem hmem hne hys trivial he) rfl

end TiledAutomata
