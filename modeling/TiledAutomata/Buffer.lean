import TiledAutomata.Memory
import TiledAutomata.Word

/-!
# Parts of buffers
-/

namespace TiledAutomata.Words

def slice? (ws : Words) (lo hi : Int64) : Option Words :=
  if 0 ≤ lo ∧ lo ≤ hi ∧ hi.toInt ≤ ws.size then
    some (ws.extract lo.toInt.toNat hi.toInt.toNat)
  else none

/-- The words of window `i`, where every window has the same width. -/
def window (ws : Words) (i width : Nat) : Words := ws.extract (i * width) ((i + 1) * width)

def overlay (ws : Words) (offset : Nat) (src : Words) : Words :=
  ws.extract 0 offset ++ src ++ ws.extract (offset + src.size) ws.size

def zeros? (n : Int64) : Option Words :=
  if Memory.admits n.toInt 4 then some (Array.replicate n.toInt.toNat 0) else none

def patternWord (id : UInt32) (k : Nat) : Word :=
  let x := UInt32.ofNat (k + 1) * 2654435761 + id * 40503
  ((x ^^^ (x >>> 15)) * 2246822519).toInt32

def pattern? (id : UInt32) (n : Int64) : Option Words :=
  (zeros? n).map fun ws => ws.mapIdx fun k _ => patternWord id k

end TiledAutomata.Words
