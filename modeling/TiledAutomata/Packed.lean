import TiledAutomata.Simulator

/-!
# Many narrow instances in the bits of one

Each instance of a wrapped simulator carries as many logical instances as lanes of a
number of bits fit into a word. Buffers are cached for each wrapped instance. Changed
caches are stored before an update; state and output are loaded again after it.
-/

namespace TiledAutomata

/-- A cached buffer of every wrapped instance. -/
structure LaneCache where
  width : Int64
  words : Array Words
  valid : Bool
  dirty : Bool := false

namespace LaneCache

variable {σ : Type}

/-- A cache that is only written is valid from the start. -/
def create (n width : Int64) (loads : Bool) : Except Error LaneCache :=
  if Memory.admits n.toInt 24 && Memory.admits (n.toInt * width.toInt) 4 then .ok {
    width
    words := (Array.range n.toInt.toNat).map fun _ => Array.replicate width.toInt.toNat 0
    valid := !loads }
  else .error (.abort none)

def setWords (c : LaneCache) (slot : Nat) (w : Words) : LaneCache :=
  { c with words := c.words.setIfInBounds slot w }

def loadSlots (c : Slot σ LaneCache) (load : Int64 → Words → Act σ Words) : List Nat → Act σ Unit
  | [] => pure ()
  | slot :: rest => do
    let w ← load (Int64.ofNat slot) ((← c.read).words.getD slot #[])
    c.update (·.setWords slot w)
    loadSlots c load rest

/-- Makes a cache valid. One that is only written has nothing to load. -/
def ensure (c : Slot σ LaneCache) (load : Option (Int64 → Words → Act σ Words)) : Act σ Unit := do
  let x ← c.read
  unless x.valid do
    match load with
    | some load => loadSlots c load (List.range x.words.size)
    | none => pure ()
    c.update fun x => { x with valid := true, dirty := false }

def storeSlots (c : Slot σ LaneCache) (store : Int64 → Words → Act σ Unit) : List Nat → Act σ Unit
  | [] => pure ()
  | slot :: rest => do
    store (Int64.ofNat slot) ((← c.read).words.getD slot #[])
    storeSlots c store rest

def flush (c : Slot σ LaneCache) (store : Int64 → Words → Act σ Unit) : Act σ Unit := do
  let x ← c.read
  if x.dirty then
    storeSlots c store (List.range x.words.size)
    c.update fun x => { x with dirty := false }

def invalidate (x : LaneCache) : LaneCache := { x with valid := false, dirty := false }

end LaneCache

structure Packed where
  bits : Nat
  alloc : Allocator
  state : LaneCache
  input : LaneCache
  output : LaneCache

namespace Packed

variable {σ : Type}

def lanes (bits : Nat) : Int64 := Int64.ofNat (32 / bits)

def mask (bits : Nat) : UInt32 := 0xffffffff >>> (32 - bits).toUInt32

def extract (bits shift : Nat) (ws : Words) : Words :=
  ws.map fun w => ((w.toUInt32 >>> shift.toUInt32) &&& mask bits).toInt32

def insert (bits shift : Nat) (ws buf : Words) : Words :=
  let m := mask bits
  ws.mapIdx fun j w =>
    ((w.toUInt32 &&& ~~~(m <<< shift.toUInt32)) |||
      (((buf.getD j 0).toUInt32 &&& m) <<< shift.toUInt32)).toInt32

def create (sim : Simulator σ) (bits : Int64) : Except Error Packed := do
  if bits ≤ 0 || 32 < bits || 32 % bits ≠ 0 then
    throw (.noted .laneWidth ("got " ++ toString bits.toInt))
  let k := bits.toInt.toNat
  return {
    bits := k
    alloc := ← Allocator.create (sim.size * lanes k)
    state := ← LaneCache.create sim.size sim.stateSize true
    input := ← LaneCache.create sim.size sim.inputSize false
    output := ← LaneCache.create sim.size sim.outputSize true }

def stateSlot (p : Slot σ Packed) : Slot σ LaneCache :=
  p.part (·.state) fun p c => { p with state := c }

def inputSlot (p : Slot σ Packed) : Slot σ LaneCache :=
  p.part (·.input) fun p c => { p with input := c }

def outputSlot (p : Slot σ Packed) : Slot σ LaneCache :=
  p.part (·.output) fun p c => { p with output := c }

def locate (size : Int64) (bits : Nat) (i : Int64) : Except Error (Nat × Nat) :=
  if i < 0 || size ≤ i then .error (badInstance "bitwise" i size)
  else
    let bit := i.toInt.toNat * bits
    .ok (bit / 32, bit % 32)

def get (size : Int64) (bits : Nat) (c : Slot σ LaneCache) (load : Int64 → Words → Act σ Words)
    (what : String) (i : Int64) (buf : Words) : Act σ Words := do
  let (slot, shift) ← Act.ofExcept (locate size bits i)
  let width := (← c.read).width
  if buf.lacks width then throw (shortBuffer ("bitwise: " ++ what ++ " buffer") buf.size width)
  Act.during ("bitwise: load " ++ what) (LaneCache.ensure c (some load))
  return buf.overlay 0 (extract bits shift ((← c.read).words.getD slot #[]))

def set (size : Int64) (bits : Nat) (c : Slot σ LaneCache)
    (load : Option (Int64 → Words → Act σ Words)) (what : String) (i : Int64) (buf : Words) :
    Act σ Unit := do
  let (slot, shift) ← Act.ofExcept (locate size bits i)
  let width := (← c.read).width
  if buf.lacks width then throw (shortBuffer ("bitwise: " ++ what) buf.size width)
  Act.during ("bitwise: load " ++ what) (LaneCache.ensure c load)
  c.update fun x =>
    { x.setWords slot (insert bits shift (x.words.getD slot #[]) buf) with dirty := true }

/-- Drops every cached buffer with the writes that were not stored. -/
def invalidate (p : Packed) : Packed :=
  { p with
    state := p.state.invalidate
    input := p.input.invalidate
    output := p.output.invalidate }

def update (sim : Simulator σ) (p : Slot σ Packed) (cancelled : Bool) : Act σ Unit := do
  Act.during "bitwise: flush" do
    LaneCache.flush (stateSlot p) sim.setState
    LaneCache.flush (inputSlot p) sim.setInput
  sim.update cancelled
  p.update fun p => { p with state := p.state.invalidate, output := p.output.invalidate }

def simulator (sim : Simulator σ) (bits : Nat) (p : Slot σ Packed) : Simulator σ :=
  let size := sim.size * lanes bits
  let state := get size bits (stateSlot p) sim.state "state"
  let output := get size bits (outputSlot p) sim.output "output"
  let setState := set size bits (stateSlot p) (some sim.state) "state"
  let setInput := set size bits (inputSlot p) none "input"
  let shared (call : Int64 → Words → Act σ Unit) (i : Int64) (m : Words) : Act σ Unit := do
    let (slot, _) ← Act.ofExcept (locate size bits i)
    call (Int64.ofNat slot) m
  let writing (call : Int64 → Words → Act σ Unit) (i : Int64) (w : Words) : Act σ Words := do
    call i w
    return w
  { size
    inputSize := sim.inputSize
    stateSize := sim.stateSize
    outputSize := sim.outputSize
    allocator := p.part (·.alloc) fun p a => { p with alloc := a }
    state, setState, setInput, output
    setInputMap := shared sim.setInputMap
    setOutputMap := shared sim.setOutputMap
    states := bulk "bitwise" "states" size sim.stateSize state
    setStates := fun buf =>
      discard (bulk "bitwise" "states" size sim.stateSize (writing setState) buf)
    setInputs := fun buf =>
      discard (bulk "bitwise" "inputs" size sim.inputSize (writing setInput) buf)
    outputs := bulk "bitwise" "outputs" size sim.outputSize output
    update := update sim p
    close := sim.close }

end Packed

end TiledAutomata
