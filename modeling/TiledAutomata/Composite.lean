import TiledAutomata.Simulator
import TiledAutomata.Text.Numeral

/-!
# Several simulators as one

The instances of a composite are the ids that its components had free when it was
built. Calls for an instance go to the component behind it.
-/

namespace TiledAutomata

namespace Composite

variable {σ : Type}

/-- How ids are spread over components: one from each in turn, or all of one after the other. -/
inductive Arrangement where
  | interleaved
  | concatenated
  deriving DecidableEq, Repr

/-- Arrangements have numbers. One without a meaning is interleaved. -/
def Arrangement.ofNumber (n : Int64) : Arrangement := if n = 1 then .concatenated else .interleaved

def Arrangement.numberText (n : Int64) : String :=
  if n = 0 then "interleaved"
  else if n = 1 then "concatenated"
  else "Layout(" ++ toString n.toInt ++ ")"

/-- The arrangement with a name or, failing that, with a number. Any other text is interleaved. -/
def Arrangement.ofText (text : String) : Arrangement :=
  if text = "concatenated" then .concatenated
  else .ofNumber (Int64.ofInt ((Text.Numeral.decimal64 text).toOption.getD 0))

/-- The instance of a component behind an id. -/
structure Route where
  component : Nat
  index : Nat
  deriving DecidableEq, Repr

abbrev Components (σ : Type) := List (Nat × Simulator σ)

def take (c : Nat × Simulator σ) : Act σ (Option Route) := do
  if (← c.2.allocator.read).available = 0 then return none
  let id ← Act.during ("composite: allocate from component " ++ toString c.1) c.2.allocate
  return some ⟨c.1, id⟩

def takeRound : Components σ → Act σ (List Route × Components σ)
  | [] => pure ([], [])
  | c :: cs => do
    match ← take c with
    | none => takeRound cs
    | some r =>
      let (rs, active) ← takeRound cs
      return (r :: rs, c :: active)

/-- Takes rounds until no component has a free id. It stops the program if that takes more rounds
than are allowed for. -/
def interleave : Nat → Components σ → Act σ (List Route)
  | _, [] => pure []
  | 0, _ :: _ => Act.abort
  | fuel + 1, c :: cs => do
    let (rs, active) ← takeRound (c :: cs)
    return rs ++ (← interleave fuel active)

/-- Takes ids of a component until it has none free. It stops the program if there are too many. -/
def drain : Nat → Nat × Simulator σ → Act σ (List Route)
  | 0, _ => Act.abort
  | fuel + 1, c => do
    match ← take c with
    | none => return []
    | some r => return r :: (← drain fuel c)

def concatenate (fuel : Nat) : Components σ → Act σ (List Route)
  | [] => pure []
  | c :: cs => do
    let rs ← drain fuel c
    return rs ++ (← concatenate fuel cs)

def totalFree : Components σ → Act σ Nat
  | [] => pure 0
  | c :: cs => do return (← c.2.allocator.read).available + (← totalFree cs)

def routesWithin (fuel : Nat) : Arrangement → Components σ → Act σ (List Route)
  | .interleaved => interleave fuel
  | .concatenated => concatenate fuel

/-- No component has more free ids than all of them together, so the last round finds none. -/
def buildRoutes (a : Arrangement) (cs : Components σ) : Act σ (List Route) := do
  routesWithin ((← totalFree cs) + 1) a cs

def widths (s : Simulator σ) : List Int64 := [s.inputSize, s.stateSize, s.outputSize]

def widthsText (s : Simulator σ) : String :=
  "/".intercalate ((widths s).map fun n => toString n.toInt)

def checkWidths (first : Simulator σ) : Components σ → Except Error Unit
  | [] => .ok ()
  | (i, c) :: cs =>
    if widths c = widths first then checkWidths first cs
    else .error (.noted .widthMismatch ("component " ++ toString i ++ " has " ++ widthsText c ++
      ", want " ++ widthsText first))

def routeOf (routes : Array Route) (i : Int64) : Except Error Route :=
  if i < 0 then .error (badInstance "composite" i (Int64.ofNat routes.size))
  else
    match routes[i.toInt.toNat]? with
    | some r => .ok r
    | none => .error (badInstance "composite" i (Int64.ofNat routes.size))

def failures (label : Nat → String) : List (Nat × Act σ Unit) → Act σ (List Error)
  | [] => pure []
  | (i, x) :: xs => do
    match ← x.attempt with
    | .ok () => failures label xs
    | .error e => return .within (label i) e :: (← failures label xs)

def update (cs : Components σ) (cancelled : Bool) : Act σ Unit := do
  let es ← failures (fun i => "composite: component " ++ toString i)
    (cs.map fun (i, c) => (i, c.update cancelled))
  unless es.isEmpty do throw (.joined es)

/-- Closes every component, also after a failure. -/
def close (cs : Components σ) : Act σ Unit := do
  let es ← failures (fun i => "component " ++ toString i) (cs.map fun (i, c) => (i, c.close))
  unless es.isEmpty do throw (.closing es)

def simulator (first : Simulator σ) (cs : Components σ) (routes : Array Route)
    (alloc : Slot σ Allocator) : Simulator σ :=
  let size := Int64.ofNat routes.size
  let forward {α : Type} (i : Int64) (call : Simulator σ → Int64 → Act σ α) : Act σ α := do
    let r ← Act.ofExcept (routeOf routes i)
    match cs.lookup r.component with
    | some c => call c (Int64.ofNat r.index)
    | none => Act.abort
  let state (i : Int64) (buf : Words) := forward i fun c k => c.state k buf
  let output (i : Int64) (buf : Words) := forward i fun c k => c.output k buf
  let setState (i : Int64) (buf : Words) := forward i fun c k => c.setState k buf
  let setInput (i : Int64) (buf : Words) := forward i fun c k => c.setInput k buf
  let writing (call : Int64 → Words → Act σ Unit) (i : Int64) (w : Words) : Act σ Words := do
    call i w
    return w
  { size
    inputSize := first.inputSize
    stateSize := first.stateSize
    outputSize := first.outputSize
    allocator := alloc
    state, output, setState, setInput
    setInputMap := fun i m => forward i fun c k => c.setInputMap k m
    setOutputMap := fun i m => forward i fun c k => c.setOutputMap k m
    states := bulk "composite" "states" size first.stateSize state
    setStates := fun buf =>
      discard (bulk "composite" "states" size first.stateSize (writing setState) buf)
    setInputs := fun buf =>
      discard (bulk "composite" "inputs" size first.inputSize (writing setInput) buf)
    outputs := bulk "composite" "outputs" size first.outputSize output
    update := update cs
    close := close cs }

def build (sims : List (Simulator σ)) (a : Arrangement) :
    Act σ (Simulator σ × Components σ × Array Route) :=
  match sims with
  | [] => throw (.cause .noComponents)
  | first :: rest => do
    let cs := (first :: rest).zipIdx.map fun (s, i) => (i, s)
    Act.ofExcept (checkWidths first cs)
    let routes ← buildRoutes a cs
    return (first, cs, routes.toArray)

end Composite

end TiledAutomata
