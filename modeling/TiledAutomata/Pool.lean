import TiledAutomata.Buffer
import TiledAutomata.Error

/-!
# Worker pools

A pool cuts a range of items into contiguous batches, at most one for each worker. A
closed pool still runs what it is given.
-/

namespace TiledAutomata

structure Pool where
  workers : Int64
  running : Bool := true

namespace Pool

def create (workers processors : Int64) : Except Error Pool :=
  let n := if workers ≤ 0 then processors else workers
  if Memory.admits n.toInt 8 then .ok { workers := n } else .error (.abort none)

/-- The batches of one size from a start on, the last of which ends with the items. Nothing is
returned if the fuel is used up. -/
def ranges (n size : Int64) : Nat → Int64 → Option (List (Int64 × Int64))
  | 0, _ => none
  | fuel + 1, start =>
    if start < n then
      (ranges n size fuel (start + size)).map fun bs => (start, min (start + size) n) :: bs
    else some []

/-- The batches of the items below a number. Nothing is returned without a worker, and where the
starts of batches never reach the end: among more starts than there are numbers one has come
twice, and so it goes on for ever. -/
def batches? (p : Pool) (n : Int64) : Option (List (Int64 × Int64)) :=
  if n ≤ 0 then some []
  else
    let k := min p.workers n
    if k = 1 then some [(0, n)]
    else if k ≤ 0 then none
    else ranges n ((n + k - 1) / k) (Nat.pow 2 64) 0

/-- Runs every piece of work once. -/
def executeAll {α : Type} (_ : Pool) (work : List (α → α)) (a : α) : α :=
  work.foldl (fun a f => f a) a

/-- Counts pieces of work into the cells of a buffer: piece `i` adds `i + 1` to cell `i`. -/
def tally (p : Pool) (n : Int64) : Except Error Words :=
  match Words.zeros? n with
  | none => .error (.abort none)
  | some ws => .ok (p.executeAll
      ((List.range ws.size).map fun i (ws : Words) => ws.modify i (· + Int32.ofNat (i + 1))) ws)

def close (p : Pool) : Pool := { p with running := false }

end Pool

end TiledAutomata
