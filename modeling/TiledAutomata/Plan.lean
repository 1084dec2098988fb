import TiledAutomata.Program

/-!
# Update plans

A plan runs a program on the units of one instance. Each unit has a frame of working
variables, and publishes what other units read of it in an arena that all share: a row of
words for each external cell, one word for each unit. Units meet between phases: they load
and publish, evaluate constants, and then in every iteration take a snapshot of what others
published, step, and publish again; last they store.
-/

namespace TiledAutomata

/-- An external cell: its variable, the variable that is published for it, and for each unit the
one that is read. It need not be a unit of the grid where the count of units has wrapped. -/
structure Plan.Inlet where
  var : Nat
  source : Nat
  reads : Array Int

structure Plan where
  units : Nat
  slots : Nat
  frameSize : Nat
  iterations : Nat
  constant : List (Frame → Frame)
  dynamic : List (Frame → Frame)
  inlets : List Plan.Inlet
  stored : List Nat

/-- Frames by unit, and the arena. What earlier runs left in it does not matter. -/
structure Workspace where
  frames : Array Frame
  scratch : Words

namespace Plan

def compileAll (r : Resolver) : List Assign → Except UnknownIdent (List (Frame → Frame))
  | [] => .ok []
  | a :: as => do
    let x ← a.compile r
    return x :: (← compileAll r as)

def inletOf (p : Program) (units : Nat) (r : Program.Reading) : Inlet where
  var := (p.varIndex? r.name).getD 0
  source := (p.varIndex? r.source).getD 0
  reads := (Array.range units).map fun u =>
    ((p.neighbor? (Int64.ofNat u) r.relRow r.relCol).getD 0).toInt

def build (p : Program) : Except UnknownIdent Plan := do
  let constant ← compileAll p.varIndex? p.constant
  let dynamic ← compileAll p.varIndex? p.dynamic
  let units := p.units.toInt.toNat
  return {
    units
    slots := p.layout.size
    frameSize := p.frameSize
    iterations := p.iterations.toInt.toNat
    constant, dynamic
    inlets := p.readings.map (inletOf p units)
    stored := p.stored }

def workspace (p : Plan) : Workspace where
  frames := Array.replicate p.units ⟨Array.replicate p.frameSize 0, #[]⟩
  scratch := Array.replicate (p.inlets.length * p.units) 0

def execute (code : List (Frame → Frame)) (f : Frame) : Frame := code.foldl (fun f x => x f) f

def visible (p : Plan) (f : Frame) : Words := (p.inlets.map fun e => f.vars.getD e.source 0).toArray

def publish (p : Plan) (ws : Workspace) (u : Nat) : Workspace :=
  match ws.frames[u]? with
  | some f =>
    let words := p.visible f
    { ws with
      scratch := (List.range words.size).foldl
        (fun scratch k => scratch.setIfInBounds (k * p.units + u) (words.getD k 0)) ws.scratch }
  | none => ws

/-- The slots of a unit, every other working variable zero. -/
def loaded (p : Plan) (state input : Words) (u : Nat) : Frame where
  vars := (Array.range p.frameSize).map fun s =>
    if s < p.slots then state.getD (s * p.units + u) 0 else 0
  input := input

def load (p : Plan) (state input : Words) (ws : Workspace) (u : Nat) : Workspace :=
  p.publish { ws with frames := ws.frames.setIfInBounds u (p.loaded state input u) } u

def constants (p : Plan) (ws : Workspace) (u : Nat) : Workspace :=
  { ws with frames := ws.frames.modify u (execute p.constant) }

/-- Where a unit reads an external cell, if that is in the arena. -/
def place? (p : Plan) (u : Nat) (e : Inlet) (k : Nat) : Option Nat :=
  let n : Int := (k * p.units : Nat) + e.reads.getD u 0
  if 0 ≤ n ∧ n < (p.inlets.length * p.units : Nat) then some n.toNat else none

def received (p : Plan) (scratch : Words) (u : Nat) (e : Inlet) (k : Nat) : Word :=
  ((p.place? u e k).bind (scratch[·]?)).getD 0

/-- Sets the external variables of a frame from what other units published. -/
def observe (p : Plan) (scratch : Words) (u : Nat) (f : Frame) : Frame :=
  { f with
    vars := p.inlets.zipIdx.foldl (fun vars (e, k) =>
      vars.setIfInBounds e.var (p.received scratch u e k)) f.vars }

def snapshot (p : Plan) (ws : Workspace) (u : Nat) : Workspace :=
  { ws with frames := ws.frames.modify u (p.observe ws.scratch u) }

def step (p : Plan) (ws : Workspace) (u : Nat) : Workspace :=
  { ws with frames := ws.frames.modify u (execute p.dynamic) }

def store (p : Plan) (ws : Workspace) (state : Words) (u : Nat) : Words :=
  match ws.frames[u]? with
  | some f =>
    p.stored.foldl (fun st s => st.setIfInBounds (s * p.units + u) (f.vars.getD s 0)) state
  | none => state

def eachUnit {α : Type} (p : Plan) (f : α → Nat → α) (a : α) : α := (List.range p.units).foldl f a

def iterate (p : Plan) (ws : Workspace) : Workspace :=
  p.eachUnit p.publish (p.eachUnit p.step (p.eachUnit p.snapshot ws))

def iterateN (p : Plan) : Nat → Workspace → Workspace
  | 0, ws => ws
  | n + 1, ws => iterateN p n (p.iterate ws)

def run (p : Plan) (ws : Workspace) (state input : Words) : Workspace × Words :=
  let ws := p.eachUnit (p.load state input) ws
  let ws := p.eachUnit p.constants ws
  let ws := p.iterateN p.iterations ws
  (ws, p.eachUnit (p.store ws) state)

/-- Whether no unit reads outside the arena, which stops the program. -/
def readable (p : Plan) : Bool :=
  p.inlets.zipIdx.all fun (e, k) => (List.range p.units).all fun u => (p.place? u e k).isSome

end Plan

end TiledAutomata
