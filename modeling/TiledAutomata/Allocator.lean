import TiledAutomata.Error
import TiledAutomata.Memory

/-!
# Allocation of instance ids

A fresh allocator hands out 0, 1, … in order. Released ids come first, the one released
last before all others.
-/

namespace TiledAutomata

structure Allocator where
  free : List Nat := []
  inUse : Array Bool := #[]
  deriving Inhabited

namespace Allocator

def create (capacity : Int64) : Except Error Allocator :=
  if Memory.admits capacity.toInt 8 then
    let n := capacity.toInt.toNat
    .ok ⟨List.range n, Array.replicate n false⟩
  else .error (.abort none)

def allocate (a : Allocator) : Except Error (Nat × Allocator) :=
  match a.free with
  | [] => .error (.cause .capacityExhausted)
  | id :: free => .ok (id, ⟨free, a.inUse.setIfInBounds id true⟩)

def deallocate (a : Allocator) (id : Int64) : Except Error Allocator :=
  let context := "automata: deallocate " ++ toString id.toInt
  if id < 0 || Int64.ofNat a.inUse.size ≤ id then .error (.within context (.cause .badIndex))
  else
    let k := id.toInt.toNat
    if a.inUse.getD k false then .ok ⟨k :: a.free, a.inUse.setIfInBounds k false⟩
    else .error (.plain (context ++ ": id is not allocated"))

def available (a : Allocator) : Nat := a.free.length

def capacity (a : Allocator) : Nat := a.inUse.size

end Allocator

end TiledAutomata
