import TiledAutomata.Error

/-!
# Operations that may fail

An operation works on a world. When it fails, what it had changed by then stays
changed. A slot is a part of a world.
-/

namespace TiledAutomata

abbrev Act (σ α : Type) := ExceptT Error (StateM σ) α

structure Slot (σ α : Type) where
  get : σ → α
  set : σ → α → σ

namespace Act

variable {σ α : Type}

def abort : Act σ α := throw (.abort none)

/-- The outcome of an operation as a value. What stops a program is no outcome. -/
def attempt (x : Act σ α) : Act σ (Except Error α) := do
  match ← (ExceptT.lift x.run : Act σ (Except Error α)) with
  | .error (.abort t) => throw (.abort t)
  | .error .noDevice => throw .noDevice
  | r => return r

def during (context : String) (x : Act σ α) : Act σ α :=
  ExceptT.adapt (fun
    | .abort t => .abort t
    | .noDevice => .noDevice
    | e => .within context e) x

def ofExcept : Except Error α → Act σ α
  | .ok a => pure a
  | .error e => throw e

def orAbort : Option α → Act σ α
  | some a => pure a
  | none => abort

end Act

namespace Slot

variable {σ α β : Type}

def read (s : Slot σ α) : Act σ α := do return s.get (← MonadState.get)

def write (s : Slot σ α) (a : α) : Act σ Unit := modify fun w => s.set w a

def update (s : Slot σ α) (f : α → α) : Act σ Unit := modify fun w => s.set w (f (s.get w))

def change (s : Slot σ α) (f : α → Except Error α) : Act σ Unit := do
  s.write (← Act.ofExcept (f (← s.read)))

def part (s : Slot σ α) (get : α → β) (set : α → β → α) : Slot σ β :=
  ⟨fun w => get (s.get w), fun w b => s.set w (set (s.get w) b)⟩

end Slot

end TiledAutomata
