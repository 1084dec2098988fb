import TiledAutomata.Act
import TiledAutomata.Buffer

/-!
# Compute devices

A device keeps resources and a record of every call. Its memory is that of its buffers.
Commands are noted while they are encoded and take effect when they are submitted. It
runs no kernel: what a dispatch makes of the buffers is told with the device, and unless
it is told a dispatch adds one to every state word and two to every output word. One
failure can be due, and the next call of its name takes it; whoever makes a call that
answers nothing does not learn of it. A device breaks down if it is given nothing where it
needs a resource.
-/

namespace TiledAutomata

namespace Device

/-- What a device is asked to do, with what tells two calls of a kind apart. -/
inductive Call where
  | shader
  | bindLayout
  | pipeLayout (groups : Nat)
  | pipeline (entry : String)
  | buffer (label : String) (bytes : Nat)
  | write (label : String) (bytes : Nat)
  | bindGroup (sizes : List Nat)
  | encoder (label : String)
  | beginCommands
  | dispatch (x y z : Nat)
  | copy (label : String) (bytes : Nat)
  | endCommands
  | submit
  | poll
  | map (bytes : Nat)
  | unmap
  | waitIdle
  | destroyBuffer (label : String)
  | destroyBindGroup
  | destroyBindLayout
  | destroyPipeLayout
  | destroyPipeline
  | destroyShader
  | destroyDevice
  deriving DecidableEq, Repr

namespace Call

def name : Call → String
  | .shader => "shader"
  | .bindLayout => "bind_layout"
  | .pipeLayout _ => "pipe_layout"
  | .pipeline _ => "pipeline"
  | .buffer l _ => "buffer " ++ l
  | .write l _ => "write " ++ l
  | .bindGroup _ => "bind_group"
  | .encoder _ => "encoder"
  | .beginCommands => "begin"
  | .dispatch .. => "dispatch"
  | .copy .. => "copy"
  | .endCommands => "end"
  | .submit => "submit"
  | .poll => "poll"
  | .map _ => "map"
  | .unmap => "unmap"
  | .waitIdle => "wait_idle"
  | .destroyBuffer _ => "destroy_buffer"
  | .destroyBindGroup => "destroy_bind_group"
  | .destroyBindLayout => "destroy_bind_layout"
  | .destroyPipeLayout => "destroy_pipe_layout"
  | .destroyPipeline => "destroy_pipeline"
  | .destroyShader => "destroy_shader"
  | .destroyDevice => "destroy_device"

def detail : Call → List String
  | .bindLayout => ["0:rw,1:ro,2:ro,3:ro,4:rw,5:rw,6:uniform"]
  | .pipeLayout n => [toString n]
  | .pipeline e => [e]
  | .buffer _ n => [toString n]
  | .write _ n => [toString n]
  | .bindGroup sizes =>
    [",".intercalate (sizes.zipIdx.map fun (n, i) => toString i ++ ":" ++ toString n)]
  | .encoder l => [l]
  | .dispatch x y z => [toString x, toString y, toString z]
  | .copy l n => [l, toString n]
  | .map n => [toString n]
  | .destroyBuffer l => [l]
  | _ => []

def text (c : Call) : String := " ".intercalate (c.name :: c.detail)

end Call

/-- A resource is known by the order of its creation. -/
abbrev Handle := Nat

/-- A call that was made, the resources it was given where it needs some, and whether it failed. -/
structure Event where
  call : Call
  handles : List (Option Handle)
  failed : Bool
  deriving DecidableEq, Repr

/-- Whether the device had noted the call when it broke down. A dispatch is only encoded. -/
def Event.isNoted (e : Event) : Bool :=
  match e.call with
  | .dispatch .. => true
  | _ => e.handles.all Option.isSome

def Event.text (e : Event) : String := e.call.text ++ if e.failed then " !" else ""

/-- A buffer of a device has a label and words; other resources have neither. -/
structure Resource where
  label : String := ""
  words : Words := #[]

structure Bindings where
  state : Words
  input : Words
  inputMap : Words
  outputMap : Words
  output : Words

/-- What a dispatch makes of state and output. Buffers keep their sizes. -/
structure Dispatch where
  state : Bindings → Words
  output : Bindings → Words
  size_state : ∀ b, (state b).size = b.state.size
  size_output : ∀ b, (output b).size = b.output.size

/-- A dispatch that can be told apart from none. -/
def Dispatch.counting : Dispatch where
  state b := b.state.map (· + 1)
  output b := b.output.map (· + 2)
  size_state _ := Array.size_map
  size_output _ := Array.size_map

inductive Command where
  | dispatch
  | copy (source target : Handle) (words : Nat)

abbrev Store := Array Resource

namespace Store

def setWords (s : Store) (h : Handle) (ws : Words) : Store :=
  s.modify h fun r => { r with words := ws }

def wordsOf (s : Store) (h : Handle) : Words := (s.getD h {}).words

def labelOf (s : Store) (h : Handle) : String := (s.getD h {}).label

def overwrite (s : Store) (h : Handle) (ws : Words) : Store :=
  s.setWords h ((s.wordsOf h).overlay 0 ws)

def latest? (s : Store) (label : String) : Option Handle :=
  (List.range s.size).reverse.find? fun h => s.labelOf h == label

def labelled (s : Store) (label : String) : Words := (s.latest? label).elim #[] s.wordsOf

def setLabelled? (s : Store) (label : String) (ws : Words) : Option Store :=
  (s.latest? label).map fun h => s.setWords h ws

def bindings (s : Store) : Bindings where
  state := s.labelled "automata_state"
  input := s.labelled "automata_input"
  inputMap := s.labelled "automata_input_map"
  outputMap := s.labelled "automata_output_map"
  output := s.labelled "automata_output"

/-- A dispatch needs a state and an output buffer. -/
def execute? (s : Store) (f : Dispatch) : Command → Option Store
  | .dispatch => do
    let t ← s.setLabelled? "automata_state" (f.state s.bindings)
    t.setLabelled? "automata_output" (f.output s.bindings)
  | .copy source target n => some (s.overwrite target ((s.wordsOf source).extract 0 n))

end Store

end Device

structure Device where
  resources : Device.Store := #[]
  events : List Device.Event := []
  /-- The name of the call that fails the next time it is made. -/
  due : Option String := none
  /-- The calls that fail for a reason of their own, by the number of calls before. -/
  faulty : Nat → Bool := fun _ => false
  calls : Nat := 0
  submissions : Nat := 0
  /-- How often a submission is found unfinished. -/
  lag : Nat := 0
  /-- How long it takes to find out, in microseconds. -/
  pace : Nat := 0
  dispatch : Device.Dispatch := .counting

namespace Device

variable {σ : Type}

/-- Makes a call and tells whether it failed. A failure that was due has come to pass. -/
def attempt (d : Slot σ Device) (c : Call) (handles : List (Option Handle)) : Act σ Bool := do
  let x ← d.read
  let isDue := x.due == some c.name
  let failed := isDue || x.faulty x.calls
  d.write { x with
    events := x.events ++ [⟨c, handles, failed⟩]
    calls := x.calls + 1
    due := if isDue then none else x.due }
  return failed

/-- Makes a call that answers nothing. It has its effect even if it fails. -/
def note (d : Slot σ Device) (c : Call) (handles : List (Option Handle) := []) : Act σ Unit := do
  let _ ← attempt d c handles

def perform (d : Slot σ Device) (c : Call) (handles : List (Option Handle) := []) :
    Act σ Unit := do
  if ← attempt d c handles then throw (.plain "injected")

/-- One of the resources that a call is given. -/
def given (d : Slot σ Device) (c : Call) (handles : List (Option Handle)) :
    Option Handle → Act σ Handle
  | some h => pure h
  | none => do
    d.update fun x => { x with events := x.events ++ [⟨c, handles, false⟩] }
    Act.abort

def create (d : Slot σ Device) (c : Call) (r : Resource := {}) : Act σ Handle := do
  let h := (← d.read).resources.size
  perform d c [some h]
  d.update fun x => { x with resources := x.resources.push r }
  return h

def createBuffer (d : Slot σ Device) (label : String) (words : Nat) : Act σ Handle :=
  create d (.buffer label (4 * words)) ⟨label, Array.replicate words 0⟩

def write (d : Slot σ Device) (buffer : Option Handle) (ws : Words) : Act σ Unit := do
  let h ← given d (.write "" (4 * ws.size)) [buffer] buffer
  perform d (.write ((← d.read).resources.labelOf h) (4 * ws.size)) [some h]
  d.update fun x => { x with resources := x.resources.overwrite h ws }

def encodeDispatch (d : Slot σ Device) (x : Nat) (pipeline bindGroup : Option Handle) :
    Act σ Command := do
  note d (.dispatch x 1 1) [pipeline, bindGroup]
  return .dispatch

def encodeCopy (d : Slot σ Device) (source target : Option Handle) (words : Nat) :
    Act σ Command := do
  let s ← given d (.copy "" (4 * words)) [source, target] source
  let t ← given d (.copy "" (4 * words)) [some s, target] target
  note d (.copy ((← d.read).resources.labelOf s) (4 * words)) [some s, some t]
  return .copy s t words

/-- Microseconds after which a submission is given up. -/
def patience : Nat := 5000000

/-- Waits for a submission that is found unfinished some more times, with longer and longer
pauses. -/
def wait (d : Slot σ Device) (index elapsed pause : Nat) : Nat → Act σ Unit
  | 0 => pure ()
  | n + 1 => do
    note d .poll
    if patience < elapsed then
      throw (.within ("submission " ++ toString index)
        (.plain "timed out waiting for submission"))
    wait d index (elapsed + pause + (← d.read).pace) (min (2 * pause) 1000) n

/-- What is submitted has its effect, whether or not somebody waits for it until it is finished. -/
def submit (d : Slot σ Device) (label : String) (encode : Act σ Command) : Act σ Unit := do
  Act.during "create command encoder" (perform d (.encoder label))
  Act.during "begin encoding" (perform d .beginCommands)
  let c ← encode
  Act.during "end encoding" (perform d .endCommands)
  Act.during "submit" (perform d .submit)
  let x ← d.read
  let resources ← Act.orAbort (x.resources.execute? x.dispatch c)
  let index := x.submissions + 1
  d.write { x with resources, submissions := index }
  wait d index 0 10 x.lag

def map (d : Slot σ Device) (buffer : Option Handle) (words : Nat) : Act σ Words := do
  let h ← given d (.map (4 * words)) [buffer] buffer
  perform d (.map (4 * words)) [some h]
  return ((← d.read).resources.wordsOf h).extract 0 words

def unmap (d : Slot σ Device) (buffer : Option Handle) : Act σ Unit := do
  let h ← given d .unmap [buffer] buffer
  perform d .unmap [some h]

end Device

end TiledAutomata
