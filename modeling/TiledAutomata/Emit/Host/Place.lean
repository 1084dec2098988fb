/-!
# Places in a source

A place is the number of a byte, counted from one; zero is no place. A table of the
places where lines start tells the line and the column of a place. Lines can be joined
without a change of places, and a source may say that its lines are numbered anew.
-/

namespace TiledAutomata.Emit.Host

abbrev Place := Nat

/-- A place with its line and column, which count from one. -/
structure Pos where
  place : Place := 1
  line : Nat := 1
  column : Nat := 1
  deriving DecidableEq, Repr, Inhabited

structure LineTable where
  starts : Array Place := #[1]
  /-- Where lines are numbered anew, and the number of the first of them, the last first. -/
  renumbered : List (Place × Nat) := []
  deriving Repr, Inhabited

namespace LineTable

/-- How many of the numbers from an index on, up to another, are at most a bound. The numbers
increase. -/
def countTo (a : Array Nat) (bound : Nat) (lo hi : Nat) : Nat :=
  if h : lo < hi then
    let mid := (lo + hi) / 2
    if a.getD mid 0 ≤ bound then countTo a bound (mid + 1) hi else countTo a bound lo mid
  else lo
termination_by hi - lo

def line (t : LineTable) (p : Place) : Nat := countTo t.starts p 0 t.starts.size

def lineStart (t : LineTable) (line : Nat) : Place := t.starts.getD (line - 1) 0

def pos (t : LineTable) (p : Place) : Pos :=
  let l := t.line p
  ⟨p, l, if l = 0 then 0 else p - t.lineStart l + 1⟩

def saidLine (t : LineTable) (p : Place) : Nat :=
  match t.renumbered.find? fun (q, _) => q ≤ p with
  | some (q, n) => n + (t.line p - t.line q)
  | none => t.line p

def count (t : LineTable) : Nat := t.starts.size

def join (t : LineTable) (line : Nat) : LineTable :=
  if 0 < line && line < t.count then
    { t with starts := t.starts.extract 0 line ++ t.starts.extract (line + 1) t.count }
  else t

end LineTable

end TiledAutomata.Emit.Host
