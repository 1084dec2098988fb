import TiledAutomata.Descriptor.Basic

/-!
# Wiring of a logical unit

Every cell reads one output of each of its neighbors, three, four or eight of them. A
neighbor inside the unit is read directly. One beyond an edge stands in an adjacent
unit, which is a copy of this one, so it is the cell on the opposite side; such a
reading gets an external cell of its own.
-/

namespace TiledAutomata

/-- A neighbor slot: the step to the neighbor and the index of the output that is read there. -/
structure Link where
  step : Nat → Nat → Int × Int
  output : Nat

namespace Link

def fixed (dr dc : Int) (output : Nat) : Link := ⟨fun _ _ => (dr, dc), output⟩

def alternating (output : Nat) : Link :=
  ⟨fun r c => if c % 2 = r % 2 then (-1, 0) else (1, 0), output⟩

def ofStrategy? : String → Option (List Link)
  | "3" => some [fixed 0 (-1) 2, alternating 1, fixed 0 1 0]
  | "4" => some [fixed 0 (-1) 2, fixed (-1) 0 3, fixed 0 1 0, fixed 1 0 1]
  | "8" => some [fixed 0 (-1) 4, fixed (-1) (-1) 5, fixed (-1) 0 6, fixed (-1) 1 7,
      fixed 0 1 0, fixed 1 1 1, fixed 1 0 2, fixed 1 (-1) 3]
  | _ => none

end Link

/-- A cell of the unit with the type it ends up with. -/
structure Site where
  id : String := ""
  type : CellType := {}
  row : Nat := 0
  col : Nat := 0
  deriving Inhabited

/-- The value of a cell in an adjacent unit. `source` is the position of the cell. -/
structure External where
  relRow : Int
  relCol : Int
  source : Nat
  output : String

/-- What an input slot reads. -/
inductive Binding where
  | inside (site : Nat) (output : String)
  | outside (external : Nat)
  deriving DecidableEq, Repr

/-- Cells in row-major order, the bindings of each, and the external cells in the order in which
the slots ask for them. -/
structure Wiring where
  strategy : String
  rows : Nat
  cols : Nat
  sites : List Site
  inputs : List (List Binding)
  externals : List External

namespace Wiring

/-- Cells placed so far, and the number for the next cell without an id. -/
structure Placing where
  sites : List Site
  next : Nat

/-- Of types with one id the last counts. -/
def type? (d : Descriptor) (id : String) : Option CellType :=
  (d.typeList.reverse.find? fun t => t.id == id).map CellType.expand

def place (d : Descriptor) (row col : Nat) (p : Placing) (c : Cell) : Except Flaw Placing := do
  let t ← match type? d c.type with
    | some t => pure t
    | none => throw (.noSuchType c.type)
  let (id, next) := if c.id = "" then (toString p.next, p.next + 1) else (c.id, p.next)
  if p.sites.any fun s => s.id == id then throw (.repeatedCell id)
  let t := if c.keeps = "" then t else t.restrict (t.id ++ "_e" ++ id) c.keeps
  if t.outputList.isEmpty then throw (.keepsNoOutputs id)
  return ⟨p.sites ++ [⟨id, t, row, col⟩], next⟩

def placeCells (d : Descriptor) (row : Nat) : Nat → Placing → List Cell → Except Flaw Placing
  | _, p, [] => .ok p
  | col, p, c :: cs => do placeCells d row (col + 1) (← place d row col p c) cs

def placeRows (d : Descriptor) : Nat → Placing → List Row → Except Flaw Placing
  | _, p, [] => .ok p
  | i, p, r :: rs => do
    if r.cellList.length ≠ d.unit.cols then
      throw (.raggedRow i r.cellList.length d.unit.cols)
    placeRows d (i + 1) (← placeCells d i 0 p r.cellList) rs

/-- The step to the unit that holds a position, and the position in it. -/
def wrap (i : Int) (n : Nat) : Int × Nat :=
  if i < 0 then (-1, (i + n).toNat)
  else if (n : Int) ≤ i then (1, (i - n).toNat)
  else (0, i.toNat)

/-- The output that a slot reads at a cell: its designated index, modulo the outputs there. -/
def designated (s : Site) (index : Nat) : String :=
  (s.type.outputList.getD (index % s.type.outputList.length) {}).id

def connect (rows cols : Nat) (sites : List Site) (s : Site) (l : Link) (exs : List External) :
    Binding × List External :=
  let (dr, dc) := l.step s.row s.col
  let (relRow, row) := wrap (s.row + dr) rows
  let (relCol, col) := wrap (s.col + dc) cols
  let source := row * cols + col
  let output := designated (sites.getD source default) l.output
  if relRow = 0 ∧ relCol = 0 then (.inside source output, exs)
  else (.outside exs.length, exs ++ [⟨relRow, relCol, source, output⟩])

def connectSlots (rows cols : Nat) (sites : List Site) (s : Site) :
    List Link → List External → List Binding × List External
  | [], exs => ([], exs)
  | l :: ls, exs =>
    let (b, exs) := connect rows cols sites s l exs
    let (bs, exs) := connectSlots rows cols sites s ls exs
    (b :: bs, exs)

def connectSites (rows cols : Nat) (sites : List Site) (links : List Link) :
    List Site → List External → List (List Binding) × List External
  | [], exs => ([], exs)
  | s :: ss, exs =>
    let (bs, exs) := connectSlots rows cols sites s links exs
    let (bss, exs) := connectSites rows cols sites links ss exs
    (bs :: bss, exs)

def resolve (d : Descriptor) : Except Flaw Wiring := do
  if d.unit.cols = 0 then throw .emptyUnit
  let links ← match Link.ofStrategy? d.unit.strategy with
    | some ls => pure ls
    | none => throw (.neighbors d.unit.neighbors)
  let p ← placeRows d 0 ⟨[], 1⟩ d.unit.rowList
  let rows := d.unit.rowList.length
  let (inputs, externals) := connectSites rows d.unit.cols p.sites links p.sites []
  return ⟨d.unit.strategy, rows, d.unit.cols, p.sites, inputs, externals⟩

section Aside

/-! A unit is wired in the same way whatever the element and the number of iterations are. -/

variable (d : Descriptor) (e : ElementName) (n : Int64)

theorem placeCells_with (row col : Nat) (p : Placing) (cs : List Cell) :
    placeCells { d with element := e, iterations := n } row col p cs =
      placeCells d row col p cs := by
  induction cs generalizing col p with
  | nil => rfl
  | cons c cs ih =>
    rw [placeCells, placeCells]
    simp only [ih]
    rfl

theorem placeRows_with (i : Nat) (p : Placing) (rs : List Row) :
    placeRows { d with element := e, iterations := n } i p rs = placeRows d i p rs := by
  induction rs generalizing i p with
  | nil => rfl
  | cons r rs ih =>
    rw [placeRows, placeRows]
    simp only [ih, placeCells_with]

theorem resolve_with : resolve { d with element := e, iterations := n } = resolve d := by
  unfold resolve
  simp only [placeRows_with]

end Aside

def degree (w : Wiring) : Nat := ((Link.ofStrategy? w.strategy).map List.length).getD 0

def externalId (k : Nat) : String := "in" ++ toString (k + 1)

def target (w : Wiring) : Binding → String × String
  | .inside s o => ((w.sites.getD s default).id, o)
  | .outside k => (externalId k, "1")

/-- Whether an external cell reads an output of the cell at a position. -/
def feedsExternal (w : Wiring) (site : Nat) (output : String) : Bool :=
  w.externals.any fun e => e.source == site && e.output == output

def find? (w : Wiring) (id : String) : Option Site := w.sites.find? fun s => s.id == id

end Wiring

end TiledAutomata
