import TiledAutomata.Act
import TiledAutomata.Allocator
import TiledAutomata.Buffer

/-!
# Simulators

A simulator advances many instances of one automaton. Calls for one instance take its
id; bulk calls take or fill the buffers of all instances back to back. A call that reads
gets a buffer and returns it with what it filled in.
-/

namespace TiledAutomata

structure Simulator (σ : Type) where
  size : Int64
  inputSize : Int64
  stateSize : Int64
  outputSize : Int64
  allocator : Slot σ Allocator
  state : Int64 → Words → Act σ Words
  setState : Int64 → Words → Act σ Unit
  setInput : Int64 → Words → Act σ Unit
  output : Int64 → Words → Act σ Words
  setInputMap : Int64 → Words → Act σ Unit
  setOutputMap : Int64 → Words → Act σ Unit
  states : Words → Act σ Words
  setStates : Words → Act σ Unit
  setInputs : Words → Act σ Unit
  outputs : Words → Act σ Words
  /-- Advances every instance once, unless the caller has given up. -/
  update : (cancelled : Bool) → Act σ Unit
  close : Act σ Unit

namespace Simulator

variable {σ : Type}

def allocate (s : Simulator σ) : Act σ Nat := do
  let (id, a) ← Act.ofExcept (← s.allocator.read).allocate
  s.allocator.write a
  return id

def deallocate (s : Simulator σ) (id : Int64) : Act σ Unit := s.allocator.change (·.deallocate id)

end Simulator

def badInstance (who : String) (i n : Int64) : Error :=
  .within (who ++ ": instance " ++ toString i.toInt ++ " of " ++ toString n.toInt)
    (.cause .badIndex)

def shortBuffer (what : String) (have_ : Nat) (need : Int64) : Error :=
  .within (what ++ " of " ++ toString have_ ++ " words, need " ++ toString need.toInt)
    (.cause .shortBuffer)

def Words.lacks (ws : Words) (n : Int64) : Bool := Int64.ofNat ws.size < n

def eachWindow {σ : Type} (buf : Words) (width : Int64) (call : Int64 → Words → Act σ Words) :
    List Nat → Act σ Words
  | [] => pure buf
  | i :: is => do
    let k := Int64.ofNat i
    let w ← Act.orAbort (buf.slice? (k * width) ((k + 1) * width))
    let w ← call k w
    eachWindow (buf.overlay (k * width).toInt.toNat w) width call is

def bulk {σ : Type} (who what : String) (n width : Int64) (call : Int64 → Words → Act σ Words)
    (buf : Words) : Act σ Words := do
  if buf.lacks (n * width) then
    throw (shortBuffer (who ++ ": " ++ what ++ " buffer") buf.size (n * width))
  eachWindow buf width call (List.range n.toInt.toNat)

end TiledAutomata
