import TiledAutomata.Plan

/-!
# Units that run side by side

Every unit of an instance goes through the same script of phases. Units advance in any
order, but none passes a meeting point before all have reached it.
-/

namespace TiledAutomata

namespace WorkGroup

/-- One entry of the script: a phase of the unit's own, or a meeting point. -/
inductive Action where
  | load
  | constants
  | snapshot
  | step
  | publish
  | store
  | meet
  deriving DecidableEq, Repr

def iteration : List Action := [.snapshot, .meet, .step, .meet, .publish, .meet]

def iterations : Nat → List Action
  | 0 => []
  | n + 1 => iteration ++ iterations n

def script (p : Plan) : List Action :=
  [.load, .constants, .meet] ++ iterations p.iterations ++ [.store]

end WorkGroup

/-- What the units share, and what each has still to do. -/
structure WorkGroup where
  workspace : Workspace
  state : Words
  todo : Array (List WorkGroup.Action)

namespace WorkGroup

def start (p : Plan) (ws : Workspace) (state : Words) : WorkGroup :=
  ⟨ws, state, Array.replicate p.units (script p)⟩

/-- Whether every unit has come as far as one with this much left to do. -/
def allReached (g : WorkGroup) (left : List Action) : Bool :=
  g.todo.all fun t => t.length ≤ left.length

def perform (p : Plan) (input : Words) (g : WorkGroup) (u : Nat) : Action → WorkGroup
  | .load => { g with workspace := p.load g.state input g.workspace u }
  | .constants => { g with workspace := p.constants g.workspace u }
  | .snapshot => { g with workspace := p.snapshot g.workspace u }
  | .step => { g with workspace := p.step g.workspace u }
  | .publish => { g with workspace := p.publish g.workspace u }
  | .store => { g with state := p.store g.workspace g.state u }
  | .meet => g

def advance? (p : Plan) (input : Words) (g : WorkGroup) (u : Nat) : Option WorkGroup :=
  match g.todo.getD u [] with
  | [] => none
  | a :: left =>
    if a = .meet && !g.allReached (a :: left) then none
    else
      let g := g.perform p input u a
      some { g with todo := g.todo.setIfInBounds u left }

def advance (p : Plan) (input : Words) (g : WorkGroup) (u : Nat) : WorkGroup :=
  (g.advance? p input u).getD g

def round (p : Plan) (input : Words) (g : WorkGroup) : WorkGroup :=
  p.eachUnit (advance p input) g

def rounds (p : Plan) (input : Words) : Nat → WorkGroup → WorkGroup
  | 0, g => g
  | n + 1, g => rounds p input n (round p input g)

def run (p : Plan) (ws : Workspace) (state input : Words) : Workspace × Words :=
  let g := rounds p input (script p).length (start p ws state)
  (g.workspace, g.state)

end WorkGroup

end TiledAutomata
