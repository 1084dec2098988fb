import TiledAutomata.Idle

/-!
# Scripted simulators

A scripted simulator notes the calls that it gets, fails where its script says so, and
answers every read with words that tell the simulator and the instance.
-/

namespace TiledAutomata

structure Scripted where
  idle : Idle
  id : Int64
  failures : List (String × String)
  calls : List String := []

namespace Scripted

variable {σ : Type}

def called (s : Slot σ Scripted) (name : String) (detail : String := "") : Act σ Unit := do
  let x ← s.read
  s.write { x with calls := x.calls ++ [name ++ detail] }
  match x.failures.lookup name with
  | some t => if t = "" then pure () else throw (.plain t)
  | none => pure ()

def mark (x : Scripted) (i : Int64) (k : Nat) : Word :=
  Int32.ofInt (x.id * 1000 + i * 100 + Int64.ofNat k).toInt

def simulator (size inputSize stateSize outputSize : Int64) (s : Slot σ Scripted) : Simulator σ :=
  let idle := Idle.simulator size inputSize stateSize outputSize
    (s.part (·.idle) fun x i => { x with idle := i })
  let at_ (name : String) (i : Int64) : Act σ Unit := called s name (" " ++ toString i.toInt)
  let marks (i : Int64) (buf : Words) (sign : Word) : Act σ Words := do
    let x ← s.read
    return (Array.range buf.size).map fun k => sign * x.mark i k
  { idle with
    state := fun i buf => do at_ "state" i; marks i buf 1
    output := fun i buf => do at_ "output" i; marks i buf (-1)
    setState := fun i _ => at_ "set_state" i
    setInput := fun i _ => at_ "set_input" i
    setInputMap := fun i _ => at_ "set_input_map" i
    setOutputMap := fun i _ => at_ "set_output_map" i
    states := fun buf => do called s "states"; return buf
    setStates := fun _ => called s "set_states"
    update := fun _ => called s "update"
    close := called s "close" }

end Scripted

end TiledAutomata
