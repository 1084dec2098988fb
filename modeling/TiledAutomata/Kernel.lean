import TiledAutomata.Cpu
import TiledAutomata.Device.Adapter
import TiledAutomata.Device.Basic

/-!
# The kernel backend

Each buffer is kept by the host and by a device. A write by the host makes its copy the
newer one, which is uploaded before the next dispatch. A dispatch makes the device's
copies of state and output the newer ones, which are read back when they are asked for.
-/

namespace TiledAutomata

/-- The storage buffers of a kernel. The device alone keeps the scratch buffer. -/
inductive Storage where
  | state
  | input
  | inputMap
  | outputMap
  | output
  | scratch
  deriving DecidableEq, Repr

namespace Storage

def all : List Storage := [.state, .input, .inputMap, .outputMap, .output, .scratch]

def label : Storage → String
  | .state => "automata_state"
  | .input => "automata_input"
  | .inputMap => "automata_input_map"
  | .outputMap => "automata_output_map"
  | .output => "automata_output"
  | .scratch => "automata_scratch"

/-- One value for each storage buffer. -/
structure Table (α : Type) where
  state : α
  input : α
  inputMap : α
  outputMap : α
  output : α
  scratch : α

namespace Table

variable {α : Type}

def fill (a : α) : Table α := ⟨a, a, a, a, a, a⟩

def get (t : Table α) : Storage → α
  | .state => t.state
  | .input => t.input
  | .inputMap => t.inputMap
  | .outputMap => t.outputMap
  | .output => t.output
  | .scratch => t.scratch

def set (t : Table α) (s : Storage) (a : α) : Table α :=
  match s with
  | .state => { t with state := a }
  | .input => { t with input := a }
  | .inputMap => { t with inputMap := a }
  | .outputMap => { t with outputMap := a }
  | .output => { t with output := a }
  | .scratch => { t with scratch := a }

end Table

end Storage

open Device (Handle)

structure Kernel where
  automaton : Automaton
  buffers : HostBuffers
  device : Option Nat := none
  /-- Whether the device was opened for this kernel. -/
  owned : Bool := false
  shader : Option Handle := none
  bindLayout : Option Handle := none
  pipeLayout : Option Handle := none
  pipeline : Option Handle := none
  bindGroup : Option Handle := none
  storage : Storage.Table (Option Handle) := .fill none
  params : Option Handle := none
  staging : Option Handle := none
  /-- The host's copy is newer. -/
  dirty : Storage.Table Bool := .fill false
  /-- The device's copy is newer. -/
  stale : Storage.Table Bool := .fill false
  closed : Bool := false

/-- What kernels share: devices by number, the driver that opens them, and a log. -/
structure Platform (σ : Type) where
  devices : Nat → Slot σ Device
  count : σ → Nat
  driver : Slot σ Adapter.Driver
  journal : Slot σ Journal
  logger : Slot σ Logger

/-- Somebody else's device, if it is given as one. -/
inductive Provider where
  | bare
  | withoutDevice
  | withoutQueue
  | full (device : Nat)
  deriving DecidableEq, Repr

def Provider.unfit : Error := .plain "provider does not expose HAL device and queue"

def Provider.device : Provider → Except Error Nat
  | .bare => .error unfit
  | .withoutDevice => .error (.within "provider HalDevice is not hal.Device" unfit)
  | .withoutQueue => .error (.within "provider HalQueue is not hal.Queue" unfit)
  | .full n => .ok n

namespace Kernel

variable {σ : Type}

/-- One work group for each instance is as much as a dispatch can take. -/
def maxInstances : Int64 := 65535

def backendError (op : String) (e : Error) : Error := .backend "gpu" op e

def prepare (a : Option Automaton) (config : Config) : Except Error Kernel := do
  match a with
  | none => throw (.within "gpu" (.flaw .noProgram))
  | some a =>
    let c := config.effective
    if maxInstances < c.instances then
      throw (backendError "configure" (.plain (toString c.instances.toInt ++
        " instances exceed the dispatch limit of " ++ toString maxInstances.toInt)))
    return {
      automaton := a
      buffers := ← HostBuffers.create c.instances c.inputSize a.stateSize c.outputSize }

def host? (k : Kernel) : Storage → Option Words
  | .state => some k.buffers.state
  | .input => some k.buffers.input
  | .inputMap => some k.buffers.inputMap
  | .outputMap => some k.buffers.outputMap
  | .output => some k.buffers.output
  | .scratch => none

def setHost (k : Kernel) (s : Storage) (ws : Words) : Kernel :=
  { k with
    buffers := match s with
      | .state => { k.buffers with state := ws }
      | .input => { k.buffers with input := ws }
      | .inputMap => { k.buffers with inputMap := ws }
      | .outputMap => { k.buffers with outputMap := ws }
      | .output => { k.buffers with output := ws }
      | .scratch => k.buffers }

/-- The words of a buffer. A buffer of a device is never empty. -/
def words (k : Kernel) (s : Storage) : Nat :=
  match k.host? s with
  | some ws => max ws.size 1
  | none =>
    let n := k.buffers.count * Int64.ofNat k.automaton.program.readings.length *
      k.automaton.unitCount
    max n.toInt.toNat 1

def stagingWords (k : Kernel) : Nat :=
  ((Storage.all.filterMap k.host?).map Array.size).foldl max 1

def setDirty (s : Storage) (b : Bool) (k : Kernel) : Kernel := { k with dirty := k.dirty.set s b }

def setStale (s : Storage) (b : Bool) (k : Kernel) : Kernel := { k with stale := k.stale.set s b }

def log (p : Platform σ) (r : Log.Record) : Act σ Unit := do (← p.logger.read).log p.journal r

def isBackend : Error → Bool
  | .backend .. => true
  | _ => false

def fail {α : Type} (p : Platform σ) (op : String) (e : Error) : Act σ α := do
  if e.chain.any isBackend then throw e
  log p ⟨Log.warn, "gpu: backend failure", [("op", op), ("err", e.message)]⟩
  throw (backendError op e)

def failing {α : Type} (p : Platform σ) (op : String) (x : Act σ α) : Act σ α := do
  match ← x.attempt with
  | .ok a => return a
  | .error e => fail p op e

def current (k : Slot σ Kernel) (p : Platform σ) : Act σ (Slot σ Device) := do
  return p.devices (← Act.orAbort (← k.read).device)

def sizesText (k : Kernel) : List (String × String) :=
  [("units", toString k.automaton.unitCount.toInt),
    ("stateSize", toString k.buffers.stateSize.toInt),
    ("workgroupSize", toString k.automaton.program.workgroup.toInt)]

def createStorage (k : Slot σ Kernel) (d : Slot σ Device) : List Storage → Act σ Unit
  | [] => pure ()
  | s :: ss => do
    let x ← k.read
    let h ← Act.during ("create " ++ s.label ++ " buffer")
      (Device.createBuffer d s.label (x.words s))
    k.update fun x =>
      { x with
        storage := x.storage.set s (some h)
        dirty := if s = .scratch then x.dirty else x.dirty.set s true
        stale := x.stale.set s false }
    createStorage k d ss

def paramWords (k : Kernel) : Words :=
  #[Int32.ofInt k.buffers.count.toInt, Int32.ofInt k.buffers.inputSize.toInt,
    Int32.ofInt k.buffers.outputSize.toInt, 0]

/-- Creates everything that a dispatch needs. What was created before a failure is kept. -/
def createResources (k : Slot σ Kernel) (p : Platform σ) : Act σ Unit := do
  let d ← current k p
  if (← k.read).automaton.program.workgroup = 0 then Act.abort
  let h ← Act.during "create shader module" (Device.create d .shader)
  k.update fun x => { x with shader := some h }
  let h ← Act.during "create bind group layout" (Device.create d .bindLayout)
  k.update fun x => { x with bindLayout := some h }
  let h ← Act.during "create pipeline layout" (Device.create d (.pipeLayout 1))
  k.update fun x => { x with pipeLayout := some h }
  let h ← Act.during "create compute pipeline" (Device.create d (.pipeline "main"))
  k.update fun x => { x with pipeline := some h }
  createStorage k d Storage.all
  let x ← k.read
  let h ← Act.during "create staging buffer"
    (Device.createBuffer d "automata_staging" x.stagingWords)
  k.update fun x => { x with staging := some h }
  let h ← Act.during "create params buffer" (Device.createBuffer d "automata_params" 4)
  k.update fun x => { x with params := some h }
  Act.during "write params" (Device.write d (some h) x.paramWords)
  let h ← Act.during "create bind group"
    (Device.create d (.bindGroup (Storage.all.map (fun s => 4 * x.words s) ++ [16])))
  k.update fun x => { x with bindGroup := some h }
  log p ⟨Log.debug, "gpu: kernel resources created", x.sizesText⟩

def destroy (d : Slot σ Device) (c : Device.Call) : Option Handle → Act σ Unit
  | some h => Device.note d c [some h]
  | none => pure ()

def destroyBuffer (d : Slot σ Device) : Option Handle → Act σ Unit
  | some h => do Device.note d (.destroyBuffer ((← d.read).resources.labelOf h)) [some h]
  | none => pure ()

def destroyBuffers (d : Slot σ Device) : List (Option Handle) → Act σ Unit
  | [] => pure ()
  | h :: hs => do
    destroyBuffer d h
    destroyBuffers d hs

def destroyResources (k : Slot σ Kernel) (p : Platform σ) : Act σ Unit := do
  let x ← k.read
  match x.device with
  | none => pure ()
  | some n =>
    let d := p.devices n
    destroy d .destroyBindGroup x.bindGroup
    destroyBuffers d (Storage.all.map x.storage.get)
    destroyBuffer d x.staging
    destroyBuffer d x.params
    destroy d .destroyPipeline x.pipeline
    destroy d .destroyPipeLayout x.pipeLayout
    destroy d .destroyBindLayout x.bindLayout
    destroy d .destroyShader x.shader
    k.write { x with
      bindGroup := none
      storage := .fill none
      staging := none
      params := none
      pipeline := none
      pipeLayout := none
      bindLayout := none
      shader := none }

/-- Gives the device up, and destroys it if it was opened for this kernel. -/
def releaseDevice (k : Slot σ Kernel) (p : Platform σ) : Act σ Unit := do
  let x ← k.read
  if x.owned then
    match x.device with
    | some n => Device.note (p.devices n) .destroyDevice
    | none => pure ()
    Adapter.Driver.destroyInstance p.driver
  k.write { x with owned := false, device := none }

def sync (k : Slot σ Kernel) (p : Platform σ) (s : Storage) : Act σ Unit := do
  let x ← k.read
  if x.stale.get s then
    match x.device with
    | none => throw (.cause .closed)
    | some n =>
      let d := p.devices n
      let size := ((x.host? s).getD #[]).size
      failing p ("readback " ++ s.label) (Device.submit d "automata_readback"
        (Device.encodeCopy d (x.storage.get s) x.staging size))
      let ws ← failing p "map staging" (Device.map d x.staging size)
      k.update (·.setHost s ws)
      failing p "unmap staging" (Device.unmap d x.staging)
      k.update (setStale s false)

def syncAll (k : Slot σ Kernel) (p : Platform σ) : List Storage → Act σ Unit
  | [] => pure ()
  | s :: ss => do
    sync k p s
    syncAll k p ss

def upload (k : Slot σ Kernel) (p : Platform σ) (d : Slot σ Device) : List Storage → Act σ Unit
  | [] => pure ()
  | s :: ss => do
    let x ← k.read
    if x.dirty.get s then
      failing p ("upload " ++ s.label)
        (Device.write d (x.storage.get s) ((x.host? s).getD #[]))
      k.update (setDirty s false)
    upload k p d ss

def update (k : Slot σ Kernel) (p : Platform σ) (cancelled : Bool) : Act σ Unit := do
  let x ← k.read
  if x.closed then throw (.cause .closed)
  if cancelled then throw (.cause .canceled)
  let d ← current k p
  upload k p d Storage.all
  failing p "dispatch" (Device.submit d "automata_update"
    (Device.encodeDispatch d x.buffers.count.toInt.toNat x.pipeline x.bindGroup))
  k.update fun x => setStale .output true (setStale .state true x)
  log p ⟨Log.debug, "gpu: dispatched",
    [("instances", toString x.buffers.count.toInt),
      ("workgroupSize", toString x.automaton.program.workgroup.toInt),
      ("iterations", toString x.automaton.program.iterations.toInt)]⟩

def syncFailures (k : Slot σ Kernel) (p : Platform σ) : List Storage → Act σ (List Error)
  | [] => pure []
  | s :: ss => do
    match ← (sync k p s).attempt with
    | .ok () => syncFailures k p ss
    | .error e => return e :: (← syncFailures k p ss)

/-- Reads everything back and releases all resources, whatever fails. -/
def close (k : Slot σ Kernel) (p : Platform σ) : Act σ Unit := do
  if (← k.read).closed then return
  let es ← syncFailures k p Storage.all
  match (← k.read).device with
  | none => pure ()
  | some n =>
    match ← (Device.perform (p.devices n) .waitIdle).attempt with
    | .ok () => pure ()
    | .error e => log p ⟨Log.warn, "gpu: wait idle on close", [("err", e.message)]⟩
  destroyResources k p
  releaseDevice k p
  k.update fun x => { x with closed := true }
  unless es.isEmpty do throw (.joined es)

def attach (k : Slot σ Kernel) (p : Platform σ) (device : Nat) : Act σ Unit := do
  k.update fun x => { x with device := some device, owned := false }
  match ← (createResources k p).attempt with
  | .ok () => pure ()
  | .error e =>
    destroyResources k p
    fail p "create resources" e

def openOwn (k : Slot σ Kernel) (p : Platform σ) : Act σ Unit := do
  let a ← failing p "open device" (Adapter.Driver.openDevice p.driver)
  unless 0 ≤ a.device ∧ a.device < p.count (← MonadState.get) do throw .noDevice
  k.update fun x => { x with device := some a.device.toNat, owned := true }
  match ← (createResources k p).attempt with
  | .ok () => pure ()
  | .error e =>
    destroyResources k p
    releaseDevice k p
    fail p "create resources" e
  log p ⟨Log.info, "gpu: kernel simulator initialized",
    [("adapter", a.name), ("instances", toString (← k.read).buffers.count.toInt)]⟩

/-- Moves a kernel to another device. Results are read back first. -/
def move (k : Slot σ Kernel) (p : Platform σ) (provider : Provider) : Act σ Unit := do
  let device ← Act.during "gpu" (Act.ofExcept provider.device)
  if (← k.read).closed then throw (.cause .closed)
  syncAll k p Storage.all
  destroyResources k p
  releaseDevice k p
  k.update fun x => { x with device := some device }
  match ← (createResources k p).attempt with
  | .ok () => pure ()
  | .error e =>
    destroyResources k p
    fail p "create resources with shared device" e
  log p ⟨Log.info, "gpu: switched to shared GPU device", []⟩

def simulator (init : Kernel) (k : Slot σ Kernel) (p : Platform σ) : Simulator σ :=
  let base := init.buffers.simulator (k.part (·.buffers) fun k b => { k with buffers := b })
    (update k p) (close k p)
  let reading (s : Storage) {α : Type} (x : Act σ α) : Act σ α := do
    sync k p s
    x
  let writing (s : Storage) (x : Act σ Unit) : Act σ Unit := do
    x
    k.update (setDirty s true)
  { base with
    state := fun i buf => reading .state (base.state i buf)
    states := fun buf => reading .state (base.states buf)
    setState := fun i buf => reading .state (writing .state (base.setState i buf))
    setStates := fun buf => do
      base.setStates buf
      k.update fun x => setDirty .state true (setStale .state false x)
    setInput := fun i buf => writing .input (base.setInput i buf)
    setInputs := fun buf => writing .input (base.setInputs buf)
    setInputMap := fun i m => writing .inputMap (base.setInputMap i m)
    setOutputMap := fun i m => writing .outputMap (base.setOutputMap i m)
    output := fun i buf => reading .output (base.output i buf)
    outputs := fun buf => reading .output (base.outputs buf) }

end Kernel

end TiledAutomata
