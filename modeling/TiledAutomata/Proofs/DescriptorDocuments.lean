import TiledAutomata.Descriptor.Xml
import TiledAutomata.Proofs.Documents
import TiledAutomata.Proofs.Outcome

/-!
# Descriptors as documents

Every descriptor is read as it was written: a field that is left out has its zero value, a list
that is not given is null, and no two fields of an object have names that count as the same. So
the compact document tells descriptors apart. The one thing that no document says is from which
element a descriptor was read before.
-/

namespace TiledAutomata

open Descriptor List

open Json (Plain)

/-! ## Members -/

section Members

variable {m : String × Json} {key : String} {j : Json} {absent : Bool}

@[simp]
theorem mem_member : m ∈ member key j ↔ m = (key, j) := mem_singleton

@[simp]
theorem mem_memberUnless : m ∈ memberUnless absent key j ↔ absent = false ∧ m = (key, j) := by
  cases absent <;> simp [memberUnless]

end Members

namespace Schema

@[simp]
theorem occurrences_append (name : String) (ms ms' : List (String × Json)) :
    occurrences name [.obj (ms ++ ms')] =
      occurrences name [.obj ms] ++ occurrences name [.obj ms'] := by
  simp [occurrences]

@[simp]
theorem occurrences_member (name key : String) (j : Json) :
    occurrences name [.obj (member key j)] = if sameName key name then [j] else [] := by
  cases h : sameName key name <;> simp [occurrences, member, h]

@[simp]
theorem occurrences_memberUnless (name key : String) (absent : Bool) (j : Json) :
    occurrences name [.obj (memberUnless absent key j)] =
      if sameName key name then if absent then [] else [j] else [] := by
  cases h : sameName key name <;> cases absent <;> simp [occurrences, memberUnless, h]

@[simp]
theorem memberFault_cons (f : Field) (fields : List Field) (m : String × Json) :
    memberFault (f :: fields) m =
      if sameName m.1 f.name then f.fault? m.2 else memberFault fields m := by
  cases h : sameName m.1 f.name <;> simp [memberFault, h]

/-! ## Schemas -/

/-- A value is accepted and read as an element. -/
structure Recovers {α : Type} (s : Schema α) (j : Json) (x : α) : Prop where
  accepts : s.fault? j = none
  build : s.build [j] = x

section Scalars

@[simp]
theorem text_fault? (s : String) : text.fault? (.str s) = none := rfl

@[simp]
theorem text_build (s : String) : text.build [.str s] = s := rfl

@[simp]
theorem text_build_unless (s : String) : text.build (if s = "" then [] else [.str s]) = s := by
  by_cases h : s = ""
  · rw [if_pos h, h]
    rfl
  · rw [if_neg h, text_build]

@[simp]
theorem flag_fault? (b : Bool) : flag.fault? (.bool b) = none := rfl

@[simp]
theorem flag_build_unless (b : Bool) : flag.build (if b = false then [] else [.bool b]) = b := by
  cases b <;> rfl

theorem int_recovers (n : Int64) : int.Recovers (.int n.toInt) n := by
  have hread := Text.Numeral.decimal64_toString n.le_toInt n.toInt_lt
  constructor
  · simp only [int, scalar, Json.int, hread]
    rfl
  · simp only [int, scalar, Json.int, List.filterMap_cons, List.filterMap_nil, hread]
    exact Int64.ofInt_toInt n

@[simp]
theorem int_fault? (n : Int64) : int.fault? (.int n.toInt) = none := (int_recovers n).accepts

@[simp]
theorem int_build (n : Int64) : int.build [.int n.toInt] = n := (int_recovers n).build

@[simp]
theorem int_build_unless (n : Int64) : int.build (if n = 0 then [] else [.int n.toInt]) = n := by
  by_cases h : n = 0
  · rw [if_pos h, h]
    rfl
  · rw [if_neg h, int_build]

end Scalars

section Lists

variable {α : Type} {s : Schema α} {f : α → Json}

theorem list_recovers (h : ∀ x, s.Recovers (f x) x) (xs : Option (List α)) :
    (list s).Recovers (Json.ofList? f xs) xs := by
  cases xs with
  | none => exact ⟨rfl, rfl⟩
  | some xs =>
    constructor
    · simp only [list, Json.ofList?, findSome?_eq_none_iff, mem_map]
      rintro j ⟨x, -, rfl⟩
      exact (h x).accepts
    · simp only [list, Json.ofList?, getLast?_singleton, length_map]
      refine congrArg some (ext_getElem (by simp) fun i _ hi => ?_)
      simp [sinceReset, items, hi, (h xs[i]).build]

theorem named_recovers (id : String) : named.Recovers (.obj (member "id" (.str id))) id := by
  constructor <;> simp +decide [named, object, field]

theorem names_recovers (ids : List String) : names.Recovers (Json.names ids) ids := by
  have h := list_recovers named_recovers (some ids)
  exact ⟨h.accepts, congrArg (Option.getD · []) h.build⟩

@[simp]
theorem names_fault? (ids : List String) : names.fault? (Json.names ids) = none :=
  (names_recovers ids).accepts

@[simp]
theorem names_build_unless (ids : List String) :
    names.build (if ids = [] then [] else [Json.names ids]) = ids := by
  by_cases h : ids = []
  · rw [if_pos h, h]
    rfl
  · rw [if_neg h, (names_recovers ids).build]

end Lists

section Records

theorem output_recovers (o : Output) : output.Recovers o.toJson o := by
  constructor <;> simp +decide [output, object, Output.toJson, field]

theorem cellType_recovers (t : CellType) : cellType.Recovers t.toJson t := by
  have houtputs := list_recovers output_recovers t.outputs
  constructor <;> simp +decide [cellType, object, CellType.toJson, field, houtputs.accepts,
    houtputs.build]

theorem cell_recovers (c : Cell) : cell.Recovers c.toJson c := by
  constructor <;> simp +decide [cell, object, Cell.toJson, field]

theorem row_recovers (r : Row) : row.Recovers r.toJson r := by
  have hcells := list_recovers cell_recovers r.cells
  constructor <;> simp +decide [row, object, Row.toJson, field, hcells.accepts, hcells.build]

theorem logicalUnit_recovers (u : LogicalUnit) : logicalUnit.Recovers u.toJson u := by
  have hrows := list_recovers row_recovers u.rows
  constructor <;> simp +decide [logicalUnit, object, LogicalUnit.toJson, field, hrows.accepts,
    hrows.build]

theorem descriptor_recovers (d : Descriptor) : descriptor.Recovers d.toJson d.unnamed := by
  have htypes := list_recovers cellType_recovers d.cellTypes
  have hunit := logicalUnit_recovers d.unit
  constructor <;> simp +decide [descriptor, object, toJson, unnamed, field, htypes.accepts,
    htypes.build, hunit.accepts, hunit.build]

end Records

end Schema

/-! ## Round trips -/

section Plain

variable {α : Type} (n : Nat)

theorem plain_ofList? {n : Nat} {f : α → Json} (h : ∀ x, Plain n (f x)) (xs : Option (List α)) :
    Plain (n + 1) (Json.ofList? f xs) := by
  cases xs with
  | none => exact .null _
  | some xs => exact .arr (by simpa using fun x _ => h x)

theorem plain_names (ids : List String) : Plain (n + 2) (Json.names ids) :=
  .arr (by simpa using fun i _ => .obj (by simpa using .str n i))

theorem plain_output (o : Output) : Plain (n + 3) o.toJson :=
  .obj (by simp [or_imp, forall_and, Plain.str, Plain.bool, plain_names])

theorem plain_cellType (t : CellType) : Plain (n + 5) t.toJson :=
  .obj (by simp [or_imp, forall_and, Plain.str, plain_names, plain_ofList? (plain_output n)])

theorem plain_cell (c : Cell) : Plain (n + 1) c.toJson :=
  .obj (by simp [or_imp, forall_and, Plain.str])

theorem plain_row (r : Row) : Plain (n + 3) r.toJson :=
  .obj (by simp [plain_ofList? (plain_cell n)])

theorem plain_logicalUnit (u : LogicalUnit) : Plain (n + 5) u.toJson :=
  .obj (by simp [or_imp, forall_and, Plain.str, plain_ofList? (plain_row n)])

theorem plain_descriptor (d : Descriptor) : Plain 7 d.toJson :=
  .obj (by simp [or_imp, forall_and, Plain.str, Plain.int, plain_ofList? (plain_cellType 0),
    plain_logicalUnit 1])

end Plain

namespace Descriptor

theorem ofJson_toJson (d : Descriptor) : ofJson d.toJson = .ok d.unnamed := by
  have h := Schema.descriptor_recovers d
  rw [ofJson, h.accepts, h.build]

theorem clone_eq (d : Descriptor) : d.clone = .ok d.unnamed := by
  rw [clone, decode, encoding, Json.parse_compact (plain_descriptor d) (by decide)]
  exact d.ofJson_toJson

theorem readJson_writeJson (d : Descriptor) :
    readJson (Text.bytes d.writeJson) = d.unnamed.checked := by
  rw [readJson, decode, writeJson, Json.parse_pretty (plain_descriptor d) (by decide)]
  simp only [ofJson_toJson]
  rfl

theorem checked_unnamed {d : Descriptor} (h : d.validate = .ok ()) :
    d.unnamed.checked = .ok d.unnamed := by
  rw [checked, validate_unnamed, h]

theorem encoding_eq_iff {d d' : Descriptor} :
    d.encoding = d'.encoding ↔ d.unnamed = d'.unnamed := by
  constructor
  · intro h
    have hclone : d.clone = d'.clone := congrArg decode h
    rw [clone_eq, clone_eq] at hclone
    exact Except.ok.inj hclone
  · intro h
    have hencoding : d.unnamed.encoding = d'.unnamed.encoding := congrArg encoding h
    exact hencoding

end Descriptor

/-- Up to the element that it was read from, a valid descriptor comes back from the document that it
is written to, and what its fingerprint digests is that of no other descriptor. -/
theorem documents_faithful {d : Descriptor} (h : d.validate = .ok ()) :
    Descriptor.readJson (Text.bytes d.writeJson) = .ok d.unnamed ∧
      ∀ d' : Descriptor, d'.encoding = d.encoding ↔ d'.unnamed = d.unnamed :=
  ⟨(readJson_writeJson d).trans (checked_unnamed h), fun _ => encoding_eq_iff⟩

def Descriptor.motley : Descriptor where
  element := ⟨"urn:tiles", "cellularAutomatonDescriptor"⟩
  width := 3
  height := 9223372036854775807
  iterations := -9223372036854775808
  cellTypes := some [
    { id := "<a href=\"&\">\\\u2028é€😀"
      outputs := some [{ id := "1", update := "\x7binput1\x7d\t<< 1", before := "\x01\r\n\x7f",
                         constant := true, params := ["", "p"] }]
      vars := ["v"] },
    { id := "null", outputs := none },
    { id := "empty", outputs := some [] }]
  unit :=
    { rows := some [{ cells := some [{ type := "<a href=\"&\">\\\u2028é€😀", keeps := "1" }] }] }

theorem documents_faithful_motley :
    Descriptor.motley.validate = .ok () ∧
      Descriptor.readJson (Text.bytes Descriptor.motley.writeJson) = .ok motley.unnamed ∧
      ({ Descriptor.motley with cellTypes := some [] } : Descriptor).encoding ≠
        Descriptor.motley.encoding := by
  have hvalid : motley.validate = .ok () := by decide +kernel
  obtain ⟨hread, hone⟩ := documents_faithful hvalid
  exact ⟨hvalid, hread, fun h => absurd ((hone _).mp h) (by decide)⟩

/-- A descriptor that was read from an element does not come back as it was, and what its
fingerprint digests is also that of another descriptor. -/
theorem element_forgotten :
    ∃ d d' : Descriptor,
      Descriptor.readXml (Text.ascii ("<cellularAutomatonDescriptor width='1' height='1'>" ++
        "<cellType id='t'><output id='1'/></cellType>" ++
        "<logicalUnit><row><cell type='t'/></row></logicalUnit>" ++
        "</cellularAutomatonDescriptor>")) = .ok d ∧
      Descriptor.readJson (Text.bytes d.writeJson) = .ok d' ∧
      d' ≠ d ∧ d'.encoding = d.encoding := by
  obtain ⟨d, hread, hd⟩ := Outcome.exists_ok (Descriptor.readXml (Text.ascii
      ("<cellularAutomatonDescriptor width='1' height='1'>" ++
        "<cellType id='t'><output id='1'/></cellType>" ++
        "<logicalUnit><row><cell type='t'/></row></logicalUnit>" ++
        "</cellularAutomatonDescriptor>")))
    (fun d => d.validate.toBool && d.element != {}) (by decide +kernel)
  obtain ⟨hvalid, hnamed⟩ := Bool.and_eq_true_iff.mp hd
  refine ⟨d, d.unnamed, hread, ?_, fun h => ?_, encoding_eq_iff.mpr rfl⟩
  · refine (readJson_writeJson d).trans (checked_unnamed ?_)
    cases hv : d.validate with
    | ok _ => rfl
    | error f =>
      rw [hv] at hvalid
      cases hvalid
  · rw [← h] at hnamed
    exact absurd hnamed (by simp [unnamed])

end TiledAutomata
