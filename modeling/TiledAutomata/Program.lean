import TiledAutomata.Expr.Parse
import TiledAutomata.Placeholder

/-!
# Update programs

The statements of one unit, in two classes: those that run once per update and those
that run in every iteration. Within a class all statements that come before updates run
first. An output whose expression reads nothing but parameters that no statement
assigns belongs to the first class by itself.
-/

namespace TiledAutomata

/-- How an external cell finds the unit that it reads. -/
inductive Addressing where
  | flat
  | toroidal
  deriving DecidableEq, Repr

namespace Addressing

def ofText (s : String) : Addressing := if s = "toroidal" then .toroidal else .flat

def text : Addressing → String
  | .flat => "flat"
  | .toroidal => "toroidal"

/-- The unit one step away. Flat addressing counts units in one row after the other and wraps at
the end; toroidal addressing wraps rows and columns by themselves. There is none where the grid
is empty. -/
def neighbor? (a : Addressing) (width height unit relRow relCol : Int64) : Option Int64 :=
  match a with
  | .toroidal =>
    if width = 0 ∨ height = 0 then none
    else some ((unit / width + relRow + height) % height * width +
      (unit % width + relCol + width) % width)
  | .flat =>
    let total := width * height
    if total = 0 then none
    else some (((unit + relRow * width + relCol) % total + total) % total)

end Addressing

namespace Program

structure Compiled where
  before : List Assign
  update : Option Assign
  constant : Bool

/-- The value of an external cell: its variable, what it reads, and in which unit. -/
structure Reading where
  name : String
  source : String
  relRow : Int
  relCol : Int

end Program

structure Program where
  width : Int64
  height : Int64
  iterations : Int64
  addressing : Addressing
  layout : Layout
  readings : List Program.Reading
  /-- Working variables: the slots, the external cells, then the locals. -/
  vars : List String
  locals : List String
  constant : List Assign
  dynamic : List Assign
  stored : List Nat

namespace Program

def units (p : Program) : Int64 := p.width * p.height

def unitStateSize (p : Program) : Int64 := Int64.ofNat p.layout.size

def stateSize (p : Program) : Int64 := p.unitStateSize * p.units

/-- The invocations of a work group of a kernel: one for each unit, at most 64. -/
def workgroup (p : Program) : Int64 := min p.units 64

def frameSize (p : Program) : Nat := p.vars.length

def varIndex? (p : Program) (name : String) : Option Nat := p.vars.idxOf? name

def neighbor? (p : Program) (unit : Int64) (relRow relCol : Int) : Option Int64 :=
  p.addressing.neighbor? p.width p.height unit (Int64.ofInt relRow) (Int64.ofInt relCol)

def readingsOf (l : Layout) : List Reading :=
  l.wiring.externals.zipIdx.map fun (e, k) =>
    ⟨Layout.externalVar k, Layout.outputVar (l.wiring.sites.getD e.source default).id e.output,
      e.relRow, e.relCol⟩

def addLocals (vars : List String) : List String → List String
  | [] => []
  | x :: xs => if vars.contains x then addLocals vars xs else x :: addLocals (vars ++ [x]) xs

def compileBefore (s : Placeholder.Scope) (o : Output) : Except Error (List Assign) :=
  if o.before = "" then .ok []
  else do
    let text ← (Placeholder.expand s o.before).mapError .unresolved
    (Assign.parse (Text.bytes text)).mapError fun e =>
      .within ("codegen: cell " ++ s.site.id ++ " output " ++ o.id ++ " before update") (.source e)

def compileUpdate (s : Placeholder.Scope) (o : Output) : Except Error (Option Assign) :=
  if o.update = "" then .ok none
  else do
    let text ← (Placeholder.expand s o.update).mapError .unresolved
    let e ← (Expr.parse (Text.bytes text)).mapError fun e =>
      .within ("codegen: cell " ++ s.site.id ++ " output " ++ o.id) (.source e)
    return some ⟨false, Layout.outputVar s.site.id o.id, none, e⟩

def compileOutput (l : Layout) (s : Site) (inputs : List Binding) (o : Output) :
    Except Error Compiled := do
  let scope : Placeholder.Scope := ⟨l, s, inputs, o.id⟩
  let before ← compileBefore scope o
  let update ← compileUpdate scope o
  return ⟨before, update, o.constant⟩

def compileOutputs (l : Layout) (s : Site) (inputs : List Binding) :
    List Output → Except Error (List Compiled)
  | [] => .ok []
  | o :: os => do
    let c ← compileOutput l s inputs o
    return c :: (← compileOutputs l s inputs os)

def compileSites (l : Layout) : List (Site × List Binding) → Except Error (List Compiled)
  | [] => .ok []
  | (s, bs) :: rest => do
    let cs ← compileOutputs l s bs s.type.outputList
    return cs ++ (← compileSites l rest)

def outputVars (l : Layout) : List String :=
  l.wiring.sites.flatMap fun s => s.type.outputList.map fun o => Layout.outputVar s.id o.id

/-- An expression with the same value throughout an update. -/
def readsOnlyParams (l : Layout) (assigned : List String) (e : Expr) : Bool :=
  !e.readsInput && e.idents.all fun x =>
    !(outputVars l).contains x && !assigned.contains x && (l.slot? x).isSome

def classify (l : Layout) (assigned : List String) (c : Compiled) : Compiled :=
  match c.update with
  | some u =>
    if !c.constant && c.before.isEmpty then
      { c with constant := readsOnlyParams l assigned u.value }
    else c
  | none => c

/-- The statements of a class in the order in which they run. -/
def statements (cs : List Compiled) (constant : Bool) : List Assign :=
  let own := cs.filter fun c => c.constant == constant
  own.flatMap (·.before) ++ own.filterMap (·.update)

/-- The first name of a statement, target first, that is no working variable. -/
def unknown? (vars : List String) (a : Assign) : Option String :=
  (a.target :: a.value.idents).find? fun x => !vars.contains x

def checkNames (vars : List String) : List Assign → Except Error Unit
  | [] => .ok ()
  | a :: as =>
    match unknown? vars a with
    | some x => .error (.within ("codegen: " ++ a.text) (.unknownIdent ⟨x⟩))
    | none => checkNames vars as

def declared (cs : List Compiled) : List String :=
  cs.flatMap fun c => c.before.filterMap fun a => if a.declares then some a.target else none

def build (d : Descriptor) (l : Layout) : Except Error Program := do
  let rs := readingsOf l
  let fixedVars := l.names ++ rs.map (·.name)
  let compiled ← compileSites l (l.wiring.sites.zip l.wiring.inputs)
  let locals := addLocals fixedVars
    (l.wiring.sites.flatMap Site.varNames ++ declared compiled)
  let vars := fixedVars ++ locals
  let assigned := compiled.flatMap fun c => c.before.map (·.target)
  let classified := compiled.map (classify l assigned)
  let constant := statements classified true
  let dynamic := statements classified false
  checkNames vars constant
  checkNames vars dynamic
  return {
    width := d.width
    height := d.height
    iterations := d.effectiveIterations
    addressing := .ofText d.effectiveAddressing
    layout := l
    readings := rs
    vars, locals, constant, dynamic
    stored := (outputVars l).filterMap l.slot? }

end Program

end TiledAutomata
