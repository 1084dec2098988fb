import TiledAutomata.Emit.Host.Page
import TiledAutomata.Emit.Host.Syntax

/-!
# The standard layout of host source: lists

A list keeps the lines of its source, indented behind the first break. Elements of about the
same size on lines of their own share columns.
-/

namespace TiledAutomata.Emit.Host

abbrev Pen := StateM Page Unit

namespace Pen

def space (s : Space) : Pen := modify (·.space s)

def mark (t : String) : Pen := modify (·.write .mark t)

def goTo (p : Place) : Pen := modify fun g => if p = 0 then g else { g with pos := g.lines.pos p }

def markAt (p : Place) (t : String) : Pen := do
  goTo p
  mark t

def name (n : Name) : Pen := do
  goTo n.place
  modify (·.write .name n.text)

def lineAt (p : Place) : StateM Page Nat := do return (← get).lines.line p

def breakLine (line least : Nat) (s : Space) (isCut : Bool) : StateM Page Nat :=
  modifyGet fun g => let (g, n) := g.breakLine line least s isCut; (n, g)

def markLine : Pen := modify fun g => { g with marking := true }

def noting (pen : Pen) : Pen := do
  modify fun g => { g with marked := 0 :: g.marked }
  pen
  modify fun g => { g with marked := g.marked.drop 1 }

def isBelow : StateM Page Bool := do
  let g ← get
  return g.marked.headD 0 < g.line

def unspaced (noBlank noBreak : Bool) (pen : Pen) : Pen := do
  modify fun g => { g with noBlank := g.noBlank != noBlank, noBreak := g.noBreak != noBreak }
  pen
  modify fun g => { g with noBlank := g.noBlank != noBlank, noBreak := g.noBreak != noBreak }

/-- The bytes of a part between two places that a pen writes without comments, if it is one line.
No part is measured twice. -/
def width? (start stop : Place) (depth : Nat) (pen : Pen) : StateM Page (Option Nat) := do
  let g ← get
  match g.widths[(start, stop)]? with
  | some n => return n
  | none =>
    let page := (pen.run { lines := g.lines, depth, widths := g.widths }).2.close
    modify fun g => { g with widths := page.widths.insert (start, stop) page.width? }
    return page.width?

end Pen

structure Writers where
  /-- Writes a node where operators bind at a level and stand so deep. What a call calls is told
  that it does so, and tells whether the line is indented further. -/
  node : Node → (level depth : Nat) → (isCalled : Bool) → StateM Page Bool
  /-- Writes a statement, which may be the last before a brace. -/
  stmt : Stmt → (isLast : Bool) → Pen

namespace Layout

open Pen

def nodeAt (w : Writers) (depth : Nat) (x : Node) : Pen := discard (w.node x 0 depth false)

def node (w : Writers) (x : Node) : Pen := nodeAt w 1 x

structure ListStyle where
  /-- Where the list comes from and where it leads to, if that is known. -/
  start : Place := 0
  stop : Place := 0
  /-- Whether the lines behind the first are indented. -/
  indents : Bool := true
  /-- Whether a comma comes behind the last item if its line ends there. -/
  closes : Bool := false

def flatList (w : Writers) (depth : Nat) : Bool → List Node → Pen
  | _, [] => pure ()
  | isFirst, x :: xs => do
    unless isFirst do
      markAt x.place ","
      space .blank
    nodeAt w depth x
    flatList w depth false xs

structure Course where
  index : Nat := 0
  line : Nat
  /-- Whether a line was broken, and the index of the first item of the last line, counted from
  one. -/
  broken : Bool
  lastBreak : Nat
  /-- The size of the item before, zero if it is not known, and of those that share columns with
  it: their product and how many they are. -/
  size : Nat := 0
  product : Nat := 1
  count : Nat := 0

namespace Course

def smallSize : Nat := 40

/-- Whether an item of a size shares columns with the items before it: both are small, or it is
within two and a half times their geometric mean. -/
def shares (c : Course) (size : Nat) : Bool :=
  0 < c.size && 0 < size &&
    (c.count = 0 || (c.size ≤ smallSize && size ≤ smallSize) ||
      !(Nat.pow (5 * size) c.count ≤ Nat.pow 2 c.count * c.product ||
        Nat.pow 5 c.count * c.product ≤ Nat.pow (2 * size) c.count))

def count_ (c : Course) (line size : Nat) : Course :=
  let c := { c with index := c.index + 1, line, size }
  if 0 < size then { c with product := c.product * size, count := c.count + 1 } else c

end Course

def maxSize : Nat := 1000000

def sizeOf (w : Writers) (x : Node) : StateM Page Nat := do
  match ← width? x.place x.stop 0 (node w x) with
  | none => return 0
  | some n =>
    if maxSize < n then return 0
    else
      match x with
      | .pair k _ _ => return (← width? k.place k.stop 0 (node w k)).getD 0
      | _ => return n

def comma (s : ListStyle) (c : Course) (x : Node) (line size : Nat) : StateM Page Course := do
  let breaks := 0 < c.line && c.line < line
  unless breaks do goTo x.place
  mark ","
  let n ← if breaks then
      breakLine line 0 (if c.broken || !s.indents then .nothing else .indent)
        (!c.shares size || c.lastBreak < c.index)
    else pure 0
  if n = 0 then
    space .blank
    return c
  else
    let c := { c with broken := true, lastBreak := c.index + 1 }
    return if 1 < n then { c with product := 1, count := 0 } else c

def brokenList (w : Writers) (s : ListStyle) (depth : Nat) (isLone : Bool) :
    Course → List Node → StateM Page Course
  | c, [] => return c
  | c, x :: xs => do
    let line ← lineAt x.place
    let size ← if s.start = 0 || s.stop = 0 then pure 0 else sizeOf w x
    let breaks := 0 < c.line && c.line < line
    let c ← if c.index = 0 then pure c else comma s c x line size
    match x with
    | .pair k p v =>
      if !isLone && 0 < size && breaks then
        node w k
        markAt p ":"
        space .cell
        node w v
      else nodeAt w depth x
    | _ => nodeAt w depth x
    brokenList w s depth isLone (c.count_ line size) xs

def list (w : Writers) (s : ListStyle) (depth : Nat) (xs : List Node) : Pen := do
  match xs with
  | [] => pure ()
  | x :: _ =>
    let start ← lineAt s.start
    let line ← lineAt x.place
    let endLine ← lineAt ((xs.getLast?.map Node.stop).getD 0)
    if 0 < start && start = line && line = endLine then flatList w depth true xs
    else
      let n ← if 0 < start && start < line then
          breakLine line 0 (if s.indents then .indent else .nothing) true
        else pure 0
      let c ← brokenList w s depth (xs.length = 1)
        { line := start, broken := 0 < n, lastBreak := if 0 < n then 1 else 0 } xs
      let closes := s.closes && (← get).pos.line < (← lineAt s.stop)
      if closes then mark ","
      if c.broken && s.indents then space .unindent
      if closes then space .cut

def names (w : Writers) (indents : Bool) (ns : List Name) : Pen :=
  list w { indents } 1 (ns.map .name)

def stmtLines (w : Writers) (indents isLast : Bool) (count : Nat) : Nat → List Stmt → Pen
  | _, [] => pure ()
  | i, s :: ss => do
    match s with
    | .empty _ _ => stmtLines w indents isLast count i ss
    | _ =>
      unless (← get).written.isEmpty do
        let isCut := i = 0 || !indents || (← isBelow)
        let _ ← breakLine (← lineAt s.place) 1 .nothing isCut
      markLine
      w.stmt s (isLast && i + 1 = count)
      modify fun g => { g with marked := (g.marked.headD 0 + labels s) :: g.marked.drop 1 }
      stmtLines w indents isLast count (i + 1) ss
where
  labels : Stmt → Nat
    | .labeled _ _ s => labels s + 1
    | _ => 0

def stmtList (w : Writers) (indents isLast : Bool) (ss : List Stmt) : Pen := do
  if indents then space .indent
  noting (stmtLines w indents isLast ss.length 0 ss)
  if indents then space .unindent

def block (w : Writers) (indents : Bool) (b : Block) : Pen := do
  markAt b.opening "\x7b"
  stmtList w indents true b.stmts
  let _ ← breakLine (← lineAt b.closing) 1 .nothing false
  markAt b.closing "\x7d"

end Layout

end TiledAutomata.Emit.Host
