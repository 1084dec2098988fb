import TiledAutomata.Descriptor.Basic
import TiledAutomata.Json.Parse
import TiledAutomata.Sha256
import TiledAutomata.Text.Numeral

/-!
# Descriptors as JSON documents

A field may be given more than once. A reader sees all its values, oldest first: of
texts, numbers and flags the last one counts, objects merge, and an item of a list
merges with the items that stood at its place before.
-/

namespace TiledAutomata

structure Schema (α : Type) where
  fault? : Json → Option DocumentFault
  build : List Json → α

namespace Schema

/-- Field names are compared without regard to case. The long s and the Kelvin sign are cases
of their letters. -/
def foldChar (c : Char) : Char :=
  if c.toNat == 0x17f then 's' else if c.toNat == 0x212a then 'k' else c.toLower

def sameName (a b : String) : Bool := a.toList.map foldChar == b.toList.map foldChar

/-- A value of a single kind; null leaves it as it was. -/
def scalar {α : Type} (read : Json → Option α) (zero : α) : Schema α where
  fault?
    | .null => none
    | j => if (read j).isSome then none else some .jsonType
  build js := ((js.filterMap read).getLast?).getD zero

def text : Schema String := scalar (fun | .str s => some s | _ => none) ""

def flag : Schema Bool := scalar (fun | .bool b => some b | _ => none) false

def int : Schema Int64 :=
  scalar (fun
    | .num n => (Text.Numeral.decimal64 n).toOption.map Int64.ofInt
    | _ => none) 0

def items : Json → List Json
  | .arr xs => xs
  | _ => []

/-- Null and the empty list start afresh. -/
def isReset : Json → Bool
  | .arr xs => xs.isEmpty
  | _ => true

/-- The last reset among the values of a list, if any, and what came after it. -/
def sinceReset : List Json → List Json
  | [] => []
  | j :: js => if js.any isReset then sinceReset js else j :: js

/-- A list, or nothing where it was never given or last given as null. -/
def list {α : Type} (s : Schema α) : Schema (Option (List α)) where
  fault?
    | .null => none
    | .arr xs => xs.findSome? s.fault?
    | _ => some .jsonType
  build js :=
    match js.getLast? with
    | some (.arr xs) =>
      some ((List.range xs.length).map fun i =>
        s.build ((sinceReset js).filterMap fun j => (items j)[i]?))
    | _ => none

structure Field where
  name : String
  fault? : Json → Option DocumentFault

def field {α : Type} (name : String) (s : Schema α) : Field := ⟨name, s.fault?⟩

def occurrences (name : String) (js : List Json) : List Json :=
  js.flatMap fun
    | .obj ms => ms.filterMap fun m => if sameName m.1 name then some m.2 else none
    | _ => []

def memberFault (fields : List Field) (m : String × Json) : Option DocumentFault :=
  match fields.find? fun f => sameName m.1 f.name with
  | some f => f.fault? m.2
  | none => some (.jsonUnknownField m.1)

/-- An object with known fields. The first fault in the order of the document is reported. -/
def object {α : Type} (fields : List Field) (build : List Json → α) : Schema α where
  fault?
    | .null => none
    | .obj ms => ms.findSome? (memberFault fields)
    | _ => some .jsonType
  build

def named : Schema String :=
  object [field "id" text] fun js => text.build (occurrences "id" js)

def names : Schema (List String) where
  fault? := (list named).fault?
  build js := ((list named).build js).getD []

def output : Schema Output :=
  object [field "id" text, field "updateExpression" text, field "beforeUpdate" text,
    field "constant" flag, field "params" names] fun js =>
    { id := text.build (occurrences "id" js)
      update := text.build (occurrences "updateExpression" js)
      before := text.build (occurrences "beforeUpdate" js)
      constant := flag.build (occurrences "constant" js)
      params := names.build (occurrences "params" js) }

def cellType : Schema CellType :=
  object [field "id" text, field "outputs" (list output), field "params" names,
    field "vars" names] fun js =>
    { id := text.build (occurrences "id" js)
      outputs := (list output).build (occurrences "outputs" js)
      params := names.build (occurrences "params" js)
      vars := names.build (occurrences "vars" js) }

def cell : Schema Cell :=
  object [field "id" text, field "type" text, field "outputs" text] fun js =>
    { id := text.build (occurrences "id" js)
      type := text.build (occurrences "type" js)
      keeps := text.build (occurrences "outputs" js) }

def row : Schema Row :=
  object [field "cells" (list cell)] fun js =>
    { cells := (list cell).build (occurrences "cells" js) }

def logicalUnit : Schema LogicalUnit :=
  object [field "neighborConnections" text, field "rows" (list row)] fun js =>
    { neighbors := text.build (occurrences "neighborConnections" js)
      rows := (list row).build (occurrences "rows" js) }

def descriptor : Schema Descriptor :=
  object [field "width" int, field "height" int, field "iterationsPerUpdate" int,
    field "addressing" text, field "cellTypes" (list cellType),
    field "logicalUnit" logicalUnit] fun js =>
    { width := int.build (occurrences "width" js)
      height := int.build (occurrences "height" js)
      iterations := int.build (occurrences "iterationsPerUpdate" js)
      addressing := text.build (occurrences "addressing" js)
      cellTypes := (list cellType).build (occurrences "cellTypes" js)
      unit := logicalUnit.build (occurrences "logicalUnit" js) }

end Schema

def member (name : String) (j : Json) : List (String × Json) := [(name, j)]

/-- A member that is left out at its zero value. -/
def memberUnless (absent : Bool) (name : String) (j : Json) : List (String × Json) :=
  if absent then [] else [(name, j)]

def Json.ofList? {α : Type} (f : α → Json) : Option (List α) → Json
  | none => .null
  | some xs => .arr (xs.map f)

def Json.names (ids : List String) : Json := .arr (ids.map fun i => .obj [("id", .str i)])

def Output.toJson (o : Output) : Json :=
  .obj (member "id" (.str o.id) ++ member "updateExpression" (.str o.update) ++
    memberUnless (o.before == "") "beforeUpdate" (.str o.before) ++
    memberUnless (!o.constant) "constant" (.bool o.constant) ++
    memberUnless o.params.isEmpty "params" (Json.names o.params))

def CellType.toJson (t : CellType) : Json :=
  .obj (member "id" (.str t.id) ++ member "outputs" (Json.ofList? Output.toJson t.outputs) ++
    memberUnless t.params.isEmpty "params" (Json.names t.params) ++
    memberUnless t.vars.isEmpty "vars" (Json.names t.vars))

def Cell.toJson (c : Cell) : Json :=
  .obj (memberUnless (c.id == "") "id" (.str c.id) ++ member "type" (.str c.type) ++
    memberUnless (c.keeps == "") "outputs" (.str c.keeps))

def Row.toJson (r : Row) : Json := .obj (member "cells" (Json.ofList? Cell.toJson r.cells))

def LogicalUnit.toJson (u : LogicalUnit) : Json :=
  .obj (memberUnless (u.neighbors == "") "neighborConnections" (.str u.neighbors) ++
    member "rows" (Json.ofList? Row.toJson u.rows))

namespace Descriptor

/-- The element that a descriptor was read from is left out. -/
def toJson (d : Descriptor) : Json :=
  .obj (member "width" (.int d.width.toInt) ++ member "height" (.int d.height.toInt) ++
    memberUnless (d.iterations == 0) "iterationsPerUpdate" (.int d.iterations.toInt) ++
    memberUnless (d.addressing == "") "addressing" (.str d.addressing) ++
    member "cellTypes" (Json.ofList? CellType.toJson d.cellTypes) ++
    member "logicalUnit" d.unit.toJson)

def writeJson (d : Descriptor) : String := d.toJson.pretty

def encoding (d : Descriptor) : Text.Bytes := Text.bytes d.toJson.compact

/-- The digest of the compact document. It tells descriptors apart, but for their elements. -/
def fingerprint (d : Descriptor) : String := Sha256.hexDigest d.encoding

def ofJson (j : Json) : Except DocumentFault Descriptor :=
  match Schema.descriptor.fault? j with
  | some f => .error f
  | none => .ok (Schema.descriptor.build [j])

def decode (bs : Text.Bytes) : Except DocumentFault Descriptor :=
  match Json.parse bs with
  | .error .empty => .error .jsonEmpty
  | .error .malformed => .error .jsonMalformed
  | .ok j => ofJson j

/-- A copy that shares nothing with the original, by way of the compact document. -/
def clone (d : Descriptor) : Except DocumentFault Descriptor := decode d.encoding

def checked (d : Descriptor) : Except Error Descriptor :=
  match d.validate with
  | .ok () => .ok d
  | .error f => .error (.flaw f)

def readJson (bs : Text.Bytes) : Except Error Descriptor := do
  let d ← (decode bs).mapError .document
  d.checked

end Descriptor

end TiledAutomata
