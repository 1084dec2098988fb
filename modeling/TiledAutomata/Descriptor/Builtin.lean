import TiledAutomata.Descriptor.Basic
import TiledAutomata.Memory

/-!
# Builtin cell types and plain grids
-/

namespace TiledAutomata

namespace CellType

/-- Reads one word of the input, chosen by a parameter of its output. -/
def input : CellType where
  id := "input"
  outputs := some
    [{ id := "1", params := ["idx"]
       update := "automatonInput[\x7bidx\x7d % automatonInputLength] " }]

def routed (a b : String) : String :=
  "(\x7binput" ++ a ++ "\x7d & \x7binput" ++ a ++ "Mask\x7d) | (\x7binput" ++ b ++
    "\x7d & \x7binput" ++ b ++ "Mask\x7d)"

def routedParams (a b : String) : List String := ["input" ++ a ++ "Mask", "input" ++ b ++ "Mask"]

/-- Routes two of its three inputs to each output through masks. -/
def routing : CellType where
  id := "routing3in3out"
  outputs := some
    [{ id := "1", update := routed "2" "3", params := routedParams "2" "3" },
      { id := "2", update := routed "1" "3", params := routedParams "1" "3" },
      { id := "3", update := routed "1" "2", params := routedParams "1" "2" }]

/-- Inverts each of its outputs in every iteration. -/
def toggle : CellType where
  id := "toggle"
  outputs := some
    [{ id := "1", update := "~\x7boutput1\x7d" },
      { id := "2", update := "~\x7boutput2\x7d" },
      { id := "3", update := "~\x7boutput3\x7d" }]

def builtin? (id : String) : Option CellType := [input, routing, toggle].find? fun t => t.id == id

end CellType

def absentIfEmpty {α : Type} (xs : List α) : Option (List α) := if xs.isEmpty then none else some xs

namespace Descriptor

def ofTypeIds (width height : Int64) (types : List CellType) (ids : List (List String)) :
    Descriptor where
  width
  height
  cellTypes := absentIfEmpty types
  unit :=
    { rows := absentIfEmpty
        (ids.map fun row => { cells := absentIfEmpty (row.map fun t => { type := t }) }) }

def uniform (width height : Int64) (type : CellType) (rows cols : Int64) :
    Except Error Descriptor :=
  if Memory.admits rows.toInt 24 && (rows = 0 || Memory.admits cols.toInt 16) then
    .ok (ofTypeIds width height [type]
      (List.replicate rows.toInt.toNat (List.replicate cols.toInt.toNat type.id)))
  else .error (.abort none)

end Descriptor

end TiledAutomata
