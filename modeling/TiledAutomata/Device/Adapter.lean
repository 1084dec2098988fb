import TiledAutomata.Act

/-!
# Opening a device

Adapters are enumerated by a driver. The first adapter of a graphics processor is
opened, or else the first of all.
-/

namespace TiledAutomata

inductive Adapter.Kind where
  | discrete
  | integrated
  | processor
  | other
  deriving DecidableEq, Repr

structure Adapter where
  name : String
  kind : Adapter.Kind
  device : Int
  failure : String := ""

namespace Adapter

def isGraphics (a : Adapter) : Bool := a.kind = .discrete || a.kind = .integrated

def choose (as : List Adapter) : Option Adapter := as.find? isGraphics <|> as.head?

/-- A driver with its adapters, if it can be started, and what it was asked to do. -/
structure Driver where
  adapters : Option (List Adapter) := none
  events : List String := []

namespace Driver

variable {σ : Type}

def note (d : Slot σ Driver) (event : String) : Act σ Unit :=
  d.update fun x => { x with events := x.events ++ [event] }

def destroyInstance (d : Slot σ Driver) : Act σ Unit := note d "destroy_instance"

def openDevice (d : Slot σ Driver) : Act σ Adapter := do
  match (← d.read).adapters with
  | none => throw (.within "create instance" (.plain "no vulkan here"))
  | some as =>
    note d "create_instance"
    match choose as with
    | none =>
      destroyInstance d
      throw (.plain "no GPU adapters found")
    | some a =>
      note d ("open " ++ a.name)
      unless a.failure = "" do
        destroyInstance d
        throw (.within "open device" (.plain a.failure))
      return a

end Driver

end Adapter

end TiledAutomata
