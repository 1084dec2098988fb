import TiledAutomata.Automaton
import TiledAutomata.Buffer

/-!
# States put together by variable name
-/

namespace TiledAutomata

structure StateBuilder where
  automaton : Automaton
  count : Int64
  words : Words

namespace StateBuilder

def create (a : Automaton) (count : Int64) : Except Error StateBuilder :=
  match Words.zeros? (count * a.stateSize) with
  | some words => .ok ⟨a, count, words⟩
  | none => .error (.abort none)

def setAll (b : StateBuilder) (v : Word) : StateBuilder :=
  { b with words := b.words.map fun _ => v }

def instance? (b : StateBuilder) (i : Int64) : Option Words :=
  b.words.slice? (i * b.automaton.stateSize) ((i + 1) * b.automaton.stateSize)

def outOfRange (what : String) (i n : Int64) : Error :=
  .abort (some ("program: " ++ what ++ " " ++ toString i.toInt ++ " out of range [0," ++
    toString n.toInt ++ ")"))

def checkUnit (b : StateBuilder) (i unit : Int64) : Except Error Unit :=
  if i < 0 || b.count ≤ i then .error (outOfRange "instance" i b.count)
  else if unit < 0 || b.automaton.unitCount ≤ unit then
    .error (outOfRange "unit" unit b.automaton.unitCount)
  else .ok ()

def index (b : StateBuilder) (i unit : Int64) (name : String) : Except Error Int64 := do
  b.checkUnit i unit
  match b.automaton.stateIndex? unit name with
  | some k => return k
  | none => throw (.abort (some ("program: unknown variable " ++ Text.quote name)))

def place (b : StateBuilder) (i unit : Int64) (name : String) : Except Error Nat := do
  return (i * b.automaton.stateSize + (← b.index i unit name)).toInt.toNat

def get (b : StateBuilder) (i unit : Int64) (name : String) : Except Error Word := do
  return b.words.getD (← b.place i unit name) 0

def set (b : StateBuilder) (i unit : Int64) (name : String) (v : Word) :
    Except Error StateBuilder := do
  return { b with words := b.words.setIfInBounds (← b.place i unit name) v }

end StateBuilder

end TiledAutomata
