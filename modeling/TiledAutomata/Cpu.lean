import TiledAutomata.Automaton
import TiledAutomata.HostBuffers
import TiledAutomata.Log
import TiledAutomata.Pool
import TiledAutomata.WorkGroup

/-!
# The processor backend

An update copies inputs into the state through the input map, runs the plan, and copies
the state into outputs through the output map, for each instance by itself. Workers
take batches of instances; the units of an instance run in turn or as a work group.
-/

namespace TiledAutomata

/-- How the units of an instance are run. Both ways give the same states. -/
inductive Schedule where
  | units
  | workGroup
  deriving DecidableEq, Repr

namespace Schedule

def text : Schedule → String
  | .units => "instance"
  | .workGroup => "workgroup"

def ofText (s : String) : Except Error Schedule :=
  if s = "instance" || s = "" then .ok .units
  else if s = "workgroup" then .ok .workGroup
  else .error (.plain ("automata: unknown schedule " ++ Text.quote s))

def numberText (n : Int64) : String :=
  if n = 0 then units.text
  else if n = 1 then workGroup.text
  else "Schedule(" ++ toString n.toInt ++ ")"

end Schedule

structure Config where
  instances : Int64 := 0
  inputSize : Int64 := 0
  outputSize : Int64 := 0

namespace Config

/-- At least one instance, one word of input and one of output. -/
def effective (c : Config) : Config :=
  ⟨max c.instances 1, max c.inputSize 1, max c.outputSize 1⟩

end Config

structure Options where
  workers : Int64 := 0
  schedule : Schedule := .units
  backend : String := ""
  logger : Logger := none
  /-- The workers of a pool that is not told how many to have. -/
  processors : Int64 := 1

structure Cpu where
  automaton : Automaton
  buffers : HostBuffers
  pool : Pool
  schedule : Schedule
  logger : Logger
  closed : Bool := false

namespace Cpu

def scatter (state : Words) (map input : Words) : Words :=
  (map.zip input).foldl (fun st (s, v) => st.setIfInBounds s.toInt.toNat v) state

def gather (state map : Words) : Words := map.map fun s => state.getD s.toInt.toNat 0

def transition (s : Schedule) (p : Plan) (ws : Workspace) (state input : Words) :
    Workspace × Words :=
  match s with
  | .units => p.run ws state input
  | .workGroup => WorkGroup.run p ws state input

def advance (s : Schedule) (p : Plan) (ws : Workspace) (x : HostBuffers.Instance) :
    Workspace × HostBuffers.Instance :=
  let (ws, state) := transition s p ws (scatter x.state x.inputMap x.input) x.input
  (ws, { x with state, output := gather state x.outputMap })

/-- Updates an instance in place, if all its windows are there. -/
def run (s : Schedule) (p : Plan) (b : HostBuffers) (ws : Workspace) (i : Nat) :
    Option (Workspace × HostBuffers) :=
  (b.instance? (Int64.ofNat i)).map fun x =>
    let (ws, x) := advance s p ws x
    (ws, b.put (Int64.ofNat i) x)

/-- The instances of a batch. -/
def batchIds (batch : Int64 × Int64) : List Nat :=
  List.range' batch.1.toInt.toNat (batch.2.toInt.toNat - batch.1.toInt.toNat)

def runBatch (s : Schedule) (p : Plan) (b : HostBuffers) (ws : Workspace)
    (batch : Int64 × Int64) : Option HostBuffers :=
  Option.map (·.2) ((batchIds batch).foldlM (fun (ws, b) i => run s p b ws i) (ws, b))

def runAll (s : Schedule) (p : Plan) (b : HostBuffers) (batches : List (Int64 × Int64)) :
    Option HostBuffers :=
  batches.foldlM (fun b batch => runBatch s p b p.workspace batch) b

/-- Without state words there is nothing for a map to name. -/
def update (c : Cpu) (cancelled : Bool) : Except Error Cpu :=
  if c.closed then .error (.cause .closed)
  else if cancelled then .error (.cause .canceled)
  else if !c.automaton.runnable || c.buffers.stateSize ≤ 0 then .error (.abort none)
  else
    match (c.pool.batches? c.buffers.count).bind
        (runAll c.schedule c.automaton.plan c.buffers) with
    | none => .error (.abort none)
    | some b => .ok { c with buffers := b }

def ready (c : Cpu) : Log.Record where
  level := Log.debug
  message := "automata: cpu simulator ready"
  attrs := [("instances", toString c.buffers.count.toInt),
    ("stateSize", toString c.buffers.stateSize.toInt), ("schedule", c.schedule.text),
    ("workers", toString c.pool.workers.toInt)]

def create (a : Option Automaton) (config : Config) (o : Options) : Except Error Cpu := do
  match a with
  | none => throw (.within "automata" (.flaw .noProgram))
  | some a =>
    let k := config.effective
    return {
      automaton := a
      buffers := ← HostBuffers.create k.instances k.inputSize a.stateSize k.outputSize
      pool := ← Pool.create o.workers o.processors
      schedule := o.schedule
      logger := o.logger }

def close {σ : Type} (c : Slot σ Cpu) (journal : Slot σ Journal) : Act σ Unit := do
  let k ← c.read
  unless k.closed do
    c.write { k with closed := true, pool := k.pool.close }
    k.logger.log journal ⟨Log.debug, "automata: cpu simulator closed", []⟩

def simulator {σ : Type} (init : Cpu) (c : Slot σ Cpu) (journal : Slot σ Journal) : Simulator σ :=
  init.buffers.simulator (c.part (·.buffers) fun c b => { c with buffers := b })
    (fun cancelled => c.change (·.update cancelled)) (close c journal)

end Cpu

end TiledAutomata
