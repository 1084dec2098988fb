import TiledAutomata.Simulator

/-!
# Buffers in host memory

The state, input, maps and output of all instances, each in one buffer with a window
for every instance. Map entries are kept reduced modulo the state size.
-/

namespace TiledAutomata

def reduceMap (m : Words) (stateSize : Int64) : Words :=
  if stateSize ≤ 0 then m.map fun _ => 0
  else m.map fun x => Int32.ofInt ((x.toInt.natAbs : Int) % stateSize.toInt)

structure HostBuffers where
  alloc : Allocator
  count : Int64
  inputSize : Int64
  stateSize : Int64
  outputSize : Int64
  state : Words
  input : Words
  inputMap : Words
  outputMap : Words
  output : Words

namespace HostBuffers

def create (count inputSize stateSize outputSize : Int64) : Except Error HostBuffers := do
  let alloc ← Allocator.create count
  let zeros (n : Int64) : Except Error Words :=
    match Words.zeros? n with
    | some ws => .ok ws
    | none => .error (.abort none)
  return {
    alloc, count, inputSize, stateSize, outputSize
    state := ← zeros (count * stateSize)
    input := ← zeros (count * inputSize)
    inputMap := ← zeros (count * inputSize)
    outputMap := ← zeros (count * outputSize)
    output := ← zeros (count * outputSize) }

def checkIndex (b : HostBuffers) (i : Int64) : Except Error Unit :=
  if i < 0 || b.count ≤ i then .error (badInstance "automata" i b.count) else .ok ()

/-- Fills the front of a buffer with the window of an instance. -/
def copyOut (b : HostBuffers) (what : String) (src : Words) (width i : Int64) (buf : Words) :
    Except Error Words := do
  b.checkIndex i
  if buf.lacks width then throw (shortBuffer ("automata: " ++ what ++ " buffer") buf.size width)
  return buf.overlay 0 (src.window i.toInt.toNat width.toInt.toNat)

/-- Replaces the window of an instance by the front of a buffer. -/
def copyIn (b : HostBuffers) (what : String) (dst : Words) (width i : Int64) (buf : Words) :
    Except Error Words := do
  b.checkIndex i
  if buf.lacks width then throw (shortBuffer ("automata: " ++ what) buf.size width)
  return dst.overlay (i * width).toInt.toNat (buf.extract 0 width.toInt.toNat)

def copyAll (what : String) (dst src : Words) : Except Error Words :=
  if dst.size < src.size then
    .error (shortBuffer ("automata: " ++ what ++ " buffer") dst.size (Int64.ofNat src.size))
  else .ok (dst.overlay 0 src)

def getState (b : HostBuffers) (i : Int64) (buf : Words) : Except Error Words :=
  b.copyOut "state" b.state b.stateSize i buf

def getOutput (b : HostBuffers) (i : Int64) (buf : Words) : Except Error Words :=
  b.copyOut "output" b.output b.outputSize i buf

def getStates (b : HostBuffers) (buf : Words) : Except Error Words := copyAll "states" buf b.state

def getOutputs (b : HostBuffers) (buf : Words) : Except Error Words :=
  copyAll "outputs" buf b.output

def setState (b : HostBuffers) (i : Int64) (buf : Words) : Except Error HostBuffers := do
  return { b with state := ← b.copyIn "state" b.state b.stateSize i buf }

def setInput (b : HostBuffers) (i : Int64) (buf : Words) : Except Error HostBuffers := do
  return { b with input := ← b.copyIn "input" b.input b.inputSize i buf }

def reduced (b : HostBuffers) (width : Int64) (m : Words) : Words :=
  reduceMap (m.extract 0 width.toInt.toNat) b.stateSize ++ m.extract width.toInt.toNat m.size

def setInputMap (b : HostBuffers) (i : Int64) (m : Words) : Except Error HostBuffers := do
  return { b with
    inputMap := ← b.copyIn "input map" b.inputMap b.inputSize i (b.reduced b.inputSize m) }

def setOutputMap (b : HostBuffers) (i : Int64) (m : Words) : Except Error HostBuffers := do
  return { b with
    outputMap := ← b.copyIn "output map" b.outputMap b.outputSize i (b.reduced b.outputSize m) }

/-- A buffer may be shorter than all states; then the rest stays as it is. -/
def setStates (b : HostBuffers) (buf : Words) : Except Error HostBuffers := do
  return { b with state := ← copyAll "states" b.state buf }

def setInputs (b : HostBuffers) (buf : Words) : Except Error HostBuffers := do
  return { b with input := ← copyAll "inputs" b.input buf }

structure Instance where
  state : Words
  input : Words
  inputMap : Words
  outputMap : Words
  output : Words

def instance? (b : HostBuffers) (i : Int64) : Option Instance := do
  let part (ws : Words) (width : Int64) := ws.slice? (i * width) ((i + 1) * width)
  return {
    state := ← part b.state b.stateSize
    input := ← part b.input b.inputSize
    inputMap := ← part b.inputMap b.inputSize
    outputMap := ← part b.outputMap b.outputSize
    output := ← part b.output b.outputSize }

def put (b : HostBuffers) (i : Int64) (x : Instance) : HostBuffers :=
  { b with
    state := b.state.overlay (i * b.stateSize).toInt.toNat x.state
    output := b.output.overlay (i * b.outputSize).toInt.toNat x.output }

def simulator {σ : Type} (init : HostBuffers) (b : Slot σ HostBuffers)
    (update : Bool → Act σ Unit) (close : Act σ Unit) : Simulator σ where
  size := init.count
  inputSize := init.inputSize
  stateSize := init.stateSize
  outputSize := init.outputSize
  allocator := b.part (·.alloc) fun b a => { b with alloc := a }
  state i buf := do Act.ofExcept ((← b.read).getState i buf)
  setState i buf := b.change (·.setState i buf)
  setInput i buf := b.change (·.setInput i buf)
  output i buf := do Act.ofExcept ((← b.read).getOutput i buf)
  setInputMap i m := b.change (·.setInputMap i m)
  setOutputMap i m := b.change (·.setOutputMap i m)
  states buf := do Act.ofExcept ((← b.read).getStates buf)
  setStates buf := b.change (·.setStates buf)
  setInputs buf := b.change (·.setInputs buf)
  outputs buf := do Act.ofExcept ((← b.read).getOutputs buf)
  update
  close

end HostBuffers

end TiledAutomata
