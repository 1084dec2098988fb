import TiledAutomata.Error

/-!
# Descriptors

A descriptor tiles a grid with copies of one logical unit, a matrix of cells. Cells
have types, and types have outputs with an update expression each. A list that a
document leaves out is told apart from an empty one, since it is written differently.
Texts are made of characters: a descriptor with other bytes in it is in no document that
can be read, and is left out.
-/

namespace TiledAutomata

/-- A value that a cell computes in every iteration. An id that lists several numbers stands for
one output per number. -/
structure Output where
  id : String := ""
  update : String := ""
  before : String := ""
  constant : Bool := false
  params : List String := []
  deriving DecidableEq, Repr

structure CellType where
  id : String := ""
  outputs : Option (List Output) := none
  params : List String := []
  vars : List String := []
  deriving DecidableEq, Repr

/-- A place of a type in a unit. `keeps` lists the outputs that the cell keeps, all if empty. -/
structure Cell where
  id : String := ""
  type : String := ""
  keeps : String := ""
  deriving DecidableEq, Repr

structure Row where
  cells : Option (List Cell) := none
  deriving DecidableEq, Repr

structure LogicalUnit where
  neighbors : String := ""
  rows : Option (List Row) := none
  deriving DecidableEq, Repr

/-- The name of an element of a document, with its namespace. -/
structure ElementName where
  space : String := ""
  part : String := ""
  deriving DecidableEq, Repr

/-- `element` is the element that a descriptor was read from, if it was read from one. -/
structure Descriptor where
  element : ElementName := {}
  width : Int64 := 0
  height : Int64 := 0
  iterations : Int64 := 0
  addressing : String := ""
  cellTypes : Option (List CellType) := none
  unit : LogicalUnit := {}
  deriving DecidableEq, Repr

namespace CellType

def outputList (t : CellType) : List Output := t.outputs.getD []

end CellType

def Row.cellList (r : Row) : List Cell := r.cells.getD []

namespace LogicalUnit

def rowList (u : LogicalUnit) : List Row := u.rows.getD []

/-- The cells of the first row decide the width of a unit. -/
def cols (u : LogicalUnit) : Nat := (u.rowList.head?.map fun r => r.cellList.length).getD 0

/-- Eight neighbors unless the unit says otherwise. -/
def strategy (u : LogicalUnit) : String := if u.neighbors = "" then "8" else u.neighbors

end LogicalUnit

namespace Descriptor

def unnamed (d : Descriptor) : Descriptor := { d with element := {} }

def typeList (d : Descriptor) : List CellType := d.cellTypes.getD []

/-- At least one iteration per update. -/
def effectiveIterations (d : Descriptor) : Int64 := if d.iterations ≤ 0 then 1 else d.iterations

def effectiveAddressing (d : Descriptor) : String :=
  if d.addressing = "" then "flat" else d.addressing

def cellType? (d : Descriptor) (id : String) : Option CellType :=
  d.typeList.find? fun t => t.id == id

def repeated? : List String → Option String
  | [] => none
  | x :: xs => if xs.contains x then some x else repeated? xs

def checkCell (d : Descriptor) (row col : Nat) (c : Cell) : Except Flaw Unit :=
  match d.cellType? c.type with
  | none => .error (.unknownType row col c.type)
  | some t => if t.outputList.isEmpty then .error (.noOutputs t.id) else .ok ()

def checkCells (d : Descriptor) (row : Nat) : Nat → List Cell → Except Flaw Unit
  | _, [] => .ok ()
  | col, c :: cs => do
    d.checkCell row col c
    d.checkCells row (col + 1) cs

def checkRows (d : Descriptor) : Nat → List Row → Except Flaw Unit
  | _, [] => .ok ()
  | i, r :: rs => do
    if r.cellList.isEmpty then throw (.emptyRow i)
    if r.cellList.length ≠ d.unit.cols then throw (.raggedRow i r.cellList.length d.unit.cols)
    d.checkCells i 0 r.cellList
    d.checkRows (i + 1) rs

/-- The conditions that compilation relies on, checked in a fixed order. -/
def validate (d : Descriptor) : Except Flaw Unit := do
  if d.width ≤ 0 || d.height ≤ 0 then throw (.grid d.width.toInt d.height.toInt)
  if d.unit.rowList.isEmpty then throw .noRows
  unless ["3", "4", "8"].contains d.unit.strategy do throw (.neighbors d.unit.neighbors)
  unless ["flat", "toroidal"].contains d.effectiveAddressing do throw (.addressing d.addressing)
  if let some t := repeated? (d.typeList.map (·.id)) then throw (.repeatedType t)
  d.checkRows 0 d.unit.rowList

section Aside

/-! Neither the element nor the number of iterations is checked. -/

variable (d : Descriptor) (e : ElementName) (n : Int64)

theorem checkCells_with (row col : Nat) (cs : List Cell) :
    ({ d with element := e, iterations := n } : Descriptor).checkCells row col cs =
      d.checkCells row col cs := by
  induction cs generalizing col with
  | nil => rfl
  | cons c cs ih =>
    rw [checkCells, checkCells, ih]
    rfl

theorem checkRows_with (i : Nat) (rs : List Row) :
    ({ d with element := e, iterations := n } : Descriptor).checkRows i rs = d.checkRows i rs := by
  induction rs generalizing i with
  | nil => rfl
  | cons r rs ih =>
    rw [checkRows, checkRows, ih, checkCells_with]

theorem validate_with :
    ({ d with element := e, iterations := n } : Descriptor).validate = d.validate := by
  unfold validate
  rw [checkRows_with]
  rfl

theorem validate_unnamed : d.unnamed.validate = d.validate := d.validate_with {} d.iterations

end Aside

end Descriptor

def numbersIn (s : String) : List String :=
  (s.toList.splitBy fun a b => a.isDigit == b.isDigit).filterMap fun run =>
    if run.head?.any Char.isDigit then some (String.ofList run) else none

namespace CellType

/-- One output for each number that an output's id lists. -/
def expand (t : CellType) : CellType :=
  { t with
    outputs := some (t.outputList.flatMap fun o =>
      match numbersIn o.id with
      | [] => [o]
      | ids => ids.map fun i => { o with id := i }) }

/-- Only the outputs that a text lists, in its order. -/
def restrict (t : CellType) (id spec : String) : CellType :=
  { t with
    id
    outputs := some ((numbersIn spec).filterMap fun i => t.outputList.find? fun o => o.id == i) }

end CellType

end TiledAutomata
