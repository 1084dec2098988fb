/-!
# Aligned columns

Cells end at tabs and lines at newlines; what follows the last tab of a line belongs to
no column. A cell is as wide as the widest cell of its column in the lines around it
that have the column too. A cut ends a line and every column.
-/

namespace TiledAutomata.Text.Columns

/-- What a text with columns is made of. A column of cells that all are empty and end softly is
left out where the style says so. -/
inductive Mark where
  | text (s : String)
  | tab (hard : Bool)
  | newline
  | cut
  deriving DecidableEq, Repr

structure Style where
  gap : Nat
  /-- Whether empty columns are left out, and empty cells at the front of a line are tabs. -/
  isSource : Bool

structure Cell where
  text : List Char
  hard : Bool
  width : Nat := 0

structure Line where
  cells : List Cell := []
  tail : List Char := []

def Line.reaches (column : Nat) (l : Line) : Bool := column < l.cells.length

def lines : List Mark → List Line
  | [] => [{}]
  | m :: ms =>
    match lines ms with
    | [] => [{}]
    | l :: ls =>
      match m with
      | .text s =>
        match l.cells with
        | c :: cs => { l with cells := { c with text := s.toList ++ c.text } :: cs } :: ls
        | [] => { l with tail := s.toList ++ l.tail } :: ls
      | .tab hard => { l with cells := ⟨[], hard, 0⟩ :: l.cells } :: ls
      | _ => {} :: l :: ls

def split {α : Type} [BEq α] (marks : List α) : List α → List (List α)
  | [] => [[]]
  | c :: cs =>
    match split marks cs with
    | [] => [[c]]
    | part :: parts => if marks.contains c then [] :: part :: parts else (c :: part) :: parts

def level (s : Style) (column : Nat) (ls : List Line) : List Line :=
  let cells := ls.filterMap fun l => l.cells[column]?
  let width := (cells.map fun c => c.text.length).foldl max 0 + s.gap
  let width := if s.isSource && cells.all fun c => c.text.isEmpty && !c.hard then 0 else width
  ls.map fun l => { l with cells := l.cells.modify column fun c => { c with width } }

def levelRuns (s : Style) (ls : List Line) (column : Nat) : List Line :=
  (ls.splitBy fun a b => a.reaches column == b.reaches column).flatMap fun run =>
    if run.any (·.reaches column) then level s column run else run

def tabWidth : Nat := 8

def cellsText (tabs : Bool) : List Cell → List Char
  | [] => []
  | c :: cs =>
    if tabs && c.text.isEmpty then
      List.replicate ((c.width + tabWidth - 1) / tabWidth) '\t' ++ cellsText tabs cs
    else c.text ++ List.replicate (c.width - c.text.length) ' ' ++ cellsText false cs

def layOutBlock (s : Style) (ms : List Mark) : List String :=
  let ls := lines ms
  let columns := (ls.map fun l => l.cells.length).foldl max 0
  ((List.range columns).foldl (levelRuns s) ls).map fun l =>
    String.ofList (cellsText s.isSource l.cells ++ l.tail)

def layOut (s : Style) (ms : List Mark) : List String :=
  (split [.cut] ms).flatMap (layOutBlock s)

def Style.table : Style := ⟨2, false⟩

def Style.source : Style := ⟨1, true⟩

def marks (text : String) : List Mark :=
  text.toList.map fun c =>
    match c with
    | '\t' | '\x0b' => .tab true
    | '\n' => .newline
    | '\x0c' => .cut
    | c => .text (String.singleton c)

def align (text : String) : String := "\n".intercalate (layOut .table (marks text))

end TiledAutomata.Text.Columns
