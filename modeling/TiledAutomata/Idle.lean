import TiledAutomata.Pcg
import TiledAutomata.Simulator

/-!
# Simulators that compute nothing

An idle simulator keeps sizes and ids only. With a source of random words it fills the
outputs that are read from it.
-/

namespace TiledAutomata

structure Idle where
  alloc : Allocator
  source : Option Pcg := none

namespace Idle

def create (size : Int64) (source : Option Pcg) : Except Error Idle := do
  return ⟨← Allocator.create size, source⟩

def seeded (seed : UInt64) : Pcg := Pcg.ofSeeds seed (seed ^^^ 0x9e3779b97f4a7c15)

def fill {σ : Type} (s : Slot σ Idle) (buf : Words) : Act σ Words := do
  let i ← s.read
  match i.source with
  | none => return buf
  | some g =>
    let (ws, g) := g.words buf.size
    s.write { i with source := some g }
    return ws.toArray

def simulator {σ : Type} (size inputSize stateSize outputSize : Int64) (s : Slot σ Idle) :
    Simulator σ :=
  let check (i : Int64) : Act σ Unit :=
    if i < 0 || size ≤ i then throw (.cause .badIndex) else pure ()
  { size, inputSize, stateSize, outputSize
    allocator := s.part (·.alloc) fun i a => { i with alloc := a }
    state := fun i buf => do check i; return buf
    setState := fun i _ => check i
    setInput := fun i _ => check i
    output := fun i buf => do check i; fill s buf
    setInputMap := fun i _ => check i
    setOutputMap := fun i _ => check i
    states := fun buf => pure buf
    setStates := fun _ => pure ()
    setInputs := fun _ => pure ()
    outputs := fill s
    update := fun cancelled => if cancelled then throw (.cause .canceled) else pure ()
    close := pure () }

end Idle

end TiledAutomata
