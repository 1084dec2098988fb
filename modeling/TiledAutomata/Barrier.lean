import TiledAutomata.Error
import TiledAutomata.Memory

/-!
# Cyclic barriers

Parties arrive one by one. The last one to arrive starts the next generation, and every
party waits until the generation in which it arrived is over.
-/

namespace TiledAutomata

structure Barrier where
  parties : Nat
  waiting : Nat := 0
  generation : UInt64 := 0
  deriving DecidableEq, Repr

namespace Barrier

def create (n : Int) : Except Error Barrier :=
  if n ≤ 0 then .error (.abort (some "parallel: barrier needs at least one party"))
  else .ok { parties := n.toNat }

def arrive (b : Barrier) : UInt64 × Barrier :=
  if b.waiting + 1 = b.parties then
    (b.generation, { b with waiting := 0, generation := b.generation + 1 })
  else (b.generation, { b with waiting := b.waiting + 1 })

def isOver (b : Barrier) (generation : UInt64) : Bool := b.generation != generation

/-- Parties arrive in turn; each counts itself before it arrives. -/
def arriveAll : Nat → Nat → Barrier → List UInt64 × Nat × Barrier
  | 0, count, b => ([], count, b)
  | n + 1, count, b =>
    let (g, b) := b.arrive
    let (gs, count, b) := arriveAll n (count + 1) b
    (g :: gs, count, b)

/-- One round: all parties arrive, and each that may go on adds up how many it finds counted. -/
def round (b : Barrier) : Nat × Barrier :=
  let (gs, count, b) := arriveAll b.parties 0 b
  (gs.foldl (fun sum g => if b.isOver g then sum + count else sum) 0, b)

def rounds : Nat → Barrier → List Nat
  | 0, _ => []
  | n + 1, b =>
    let (seen, b) := b.round
    seen :: rounds n b

def record (b : Barrier) (n : Int64) : Except Error (List Nat) :=
  if Memory.admits n.toInt 8 then .ok (rounds n.toInt.toNat b) else .error (.abort none)

end Barrier

end TiledAutomata
