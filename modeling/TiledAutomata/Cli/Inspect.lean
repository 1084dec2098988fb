import TiledAutomata.Automaton
import TiledAutomata.Text.Columns

/-!
# The state layout of an automaton as a text

The sizes of an automaton, how many cells there are of each type, and a table of the
slots with the cell and the role of each variable.
-/

namespace TiledAutomata.Cli.Inspect

structure Owner where
  cell : String := ""
  role : String := ""

def owned (s : Site) : List (String × Owner) :=
  let add (role : String) (name? : Option String) : List (String × Owner) :=
    (name?.map fun n => (n, ⟨s.id, role⟩)).toList
  s.type.outputList.flatMap (fun o =>
    add "output" (s.outputVar? o.id) ++
      o.params.flatMap fun p => add "output param" (s.outputParamVar? o.id p)) ++
    s.type.params.flatMap (fun p => add "param" (s.paramVar? p)) ++
    s.type.vars.flatMap fun v => add "var" (s.paramVar? v)

/-- The last cell that has a variable owns it. -/
def owner (l : Layout) (name : String) : Owner :=
  ((l.wiring.sites.flatMap owned).reverse.lookup name).getD {}

def typeCounts (l : Layout) : List (String × Nat) :=
  let ids := l.wiring.sites.map (·.type.id)
  (ids.eraseDups.mergeSort fun a b => decide (a ≤ b)).map fun id => (id, ids.count id)

def table (l : Layout) : String :=
  Text.Columns.align ("SLOT\tVARIABLE\tCELL\tKIND\n" ++
    "".intercalate (l.names.zipIdx.map fun (n, k) =>
      let o := owner l n
      toString k ++ "\t" ++ n ++ "\t" ++ o.cell ++ "\t" ++ o.role ++ "\n"))

def report (a : Automaton) : String :=
  let p := a.program
  let w := a.layout.wiring
  let int (n : Int64) : String := toString n.toInt
  let sizes : List String := [
    "grid:        " ++ int p.width ++ "x" ++ int p.height ++ " units of " ++
      toString w.rows ++ "x" ++ toString w.cols ++ " cells",
    "neighbors:   " ++ w.strategy,
    "addressing:  " ++ a.descriptor.effectiveAddressing,
    "iterations:  " ++ int p.iterations,
    "externals:   " ++ toString w.externals.length,
    "state:       " ++ int a.unitStateSize ++ " words per unit, " ++ int a.stateSize ++
      " per automaton",
    "workgroup:   " ++ int p.workgroup]
  let types := (typeCounts a.layout).map fun (id, n) => "cell type:   " ++ id ++ " x" ++ toString n
  "".intercalate ((sizes ++ types).map (· ++ "\n")) ++ "\n" ++ table a.layout

end TiledAutomata.Cli.Inspect
