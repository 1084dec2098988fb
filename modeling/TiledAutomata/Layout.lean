import TiledAutomata.Wiring

/-!
# Names and slots of a unit's variables

Outputs and parameters persist, each in a slot of its own: first the outputs that an
external cell reads, then the other outputs, then cell by cell the parameters. The
values of external cells and the cells' own variables do not persist.
-/

namespace TiledAutomata

namespace Layout

def outputVar (cell output : String) : String := "cell_" ++ cell ++ "_out" ++ output

def externalVar (k : Nat) : String := "ex_" ++ Wiring.externalId k

def paramVar (cell param : String) : String := "cell_" ++ cell ++ "_" ++ param

/-- The id by which any expression of a cell can refer to a parameter of an output. -/
def outputParamId (output param : String) : String := "out" ++ output ++ "_" ++ param

def outputParamVar (cell output param : String) : String :=
  "cell_" ++ cell ++ "_out" ++ output ++ "_" ++ param

/-- A persisted variable: its cell, the id that asks for it, and its name. -/
structure Entry where
  cell : String
  id : String
  name : String
  deriving DecidableEq, Repr

/-- The ids that may not repeat within a cell, in the order of their declaration. -/
def declaredIds (t : CellType) : List String :=
  t.params ++ t.vars ++ t.outputList.flatMap fun o => o.params.map (outputParamId o.id)

def firstRepeat : List String → List String → Option String
  | _, [] => none
  | seen, x :: xs => if seen.contains x then some x else firstRepeat (x :: seen) xs

def checkSite (s : Site) : Except DuplicateParameter Unit :=
  match firstRepeat [] (declaredIds s.type) with
  | some id => .error ⟨s.id, id⟩
  | none =>
    match s.type.vars.find? fun v =>
        s.type.outputList.any fun o => paramVar s.id v == outputVar s.id o.id with
    | some v => .error ⟨s.id, v⟩
    | none => .ok ()

def checkSites : List Site → Except DuplicateParameter Unit
  | [] => .ok ()
  | s :: ss => do
    checkSite s
    checkSites ss

def outputEntries (w : Wiring) (feeding : Bool) : List Entry :=
  w.sites.zipIdx.flatMap fun (s, i) =>
    (s.type.outputList.filter fun o => w.feedsExternal i o.id == feeding).map fun o =>
      ⟨s.id, o.id, outputVar s.id o.id⟩

def paramEntries (s : Site) : List Entry :=
  s.type.params.map (fun p => ⟨s.id, p, paramVar s.id p⟩) ++
    s.type.outputList.flatMap fun o =>
      o.params.map fun p => ⟨s.id, outputParamId o.id p, outputParamVar s.id o.id p⟩

def entries (w : Wiring) : List Entry :=
  outputEntries w true ++ outputEntries w false ++ w.sites.flatMap paramEntries

/-- Gives each entry the next slot. A name that is taken is a duplicate. -/
def assign : List String → List Entry → Except DuplicateParameter (List String)
  | names, [] => .ok names
  | names, e :: es =>
    if names.contains e.name then .error ⟨e.cell, e.id⟩ else assign (names ++ [e.name]) es

end Layout

/-- A wired unit with the names of its slots. -/
structure Layout where
  wiring : Wiring
  names : List String

namespace Layout

def build (w : Wiring) : Except DuplicateParameter Layout := do
  checkSites w.sites
  return ⟨w, ← assign [] (entries w)⟩

def size (l : Layout) : Nat := l.names.length

def slot? (l : Layout) (name : String) : Option Nat := l.names.idxOf? name

def bindingVar (l : Layout) : Binding → String
  | .inside s o => outputVar (l.wiring.sites.getD s default).id o
  | .outside k => externalVar k

end Layout

namespace Site

def varNames (s : Site) : List String := s.type.vars.map (Layout.paramVar s.id)

def outputVar? (s : Site) (id : String) : Option String :=
  if s.type.outputList.any fun o => o.id == id then some (Layout.outputVar s.id id) else none

def paramVar? (s : Site) (id : String) : Option String :=
  if s.type.params.contains id then some (Layout.paramVar s.id id)
  else
    (s.type.outputList.findSome? fun o =>
      (o.params.find? fun p => Layout.outputParamId o.id p == id).map fun p =>
        Layout.outputParamVar s.id o.id p) <|>
    if s.type.vars.contains id then some (Layout.paramVar s.id id) else none

def outputParamVar? (s : Site) (output id : String) : Option String :=
  if s.type.outputList.any fun o => o.id == output && o.params.contains id then
    some (Layout.outputParamVar s.id output id)
  else none

end Site

end TiledAutomata
