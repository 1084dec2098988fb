import TiledAutomata.Descriptor.Json
import TiledAutomata.Plan

/-!
# Compiled automata
-/

namespace TiledAutomata

/-- A descriptor with everything that compilation derives from it. -/
structure Automaton where
  descriptor : Descriptor
  fingerprint : String
  program : Program
  plan : Plan

namespace Automaton

def build (d : Descriptor) : Except Error Automaton := do
  let w ← (Wiring.resolve d).mapError fun f => .within "topology" (.flaw f)
  let l ← (Layout.build w).mapError .duplicate
  let program ← Program.build d l
  let plan ← (Plan.build program).mapError .unknownIdent
  return ⟨d, d.fingerprint, program, plan⟩

/-- What is wrong with a descriptor before anything is built from it. -/
def admit? : Option Descriptor → Except Error Descriptor
  | none => .error (.flaw .noDescriptor)
  | some d => d.checked

/-- An automaton has a copy of its descriptor, which does not say where that was read from. -/
def compile (d : Option Descriptor) : Except Error Automaton :=
  (do build (← admit? d).unnamed).mapError (.within "program")

def layout (a : Automaton) : Layout := a.program.layout

def unitCount (a : Automaton) : Int64 := a.program.units

/-- Whether the units can be run: they are not fewer than none, and none reads outside the arena. -/
def runnable (a : Automaton) : Bool := 0 ≤ a.unitCount && a.plan.readable

def unitStateSize (a : Automaton) : Int64 := a.program.unitStateSize

def stateSize (a : Automaton) : Int64 := a.program.stateSize

def stateIndex? (a : Automaton) (unit : Int64) (name : String) : Option Int64 :=
  if unit < 0 || a.unitCount ≤ unit then none
  else (a.layout.slot? name).map fun s => Int64.ofNat s * a.unitCount + unit

end Automaton

end TiledAutomata
