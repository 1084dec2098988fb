import TiledAutomata.Emit.Host.Comment.Constraint
import TiledAutomata.Emit.Host.Comment.Doc
import Std.Data.HashMap

/-!
# Pages of host source

Tokens are written to a page one after the other. Space between them is kept back until
the next token is written, since a comment that comes first takes part in it: what ends
a line stays behind the comment, and a comment that shares its line with the token behind
it needs no more than a blank.

Whoever writes a token may tell its place in the source. Comments that stand before that
place are written first, unless the end of their line would end the statement; and an
empty line of the source stays one.
-/

namespace TiledAutomata.Emit.Host

open Text.Columns (Mark)

inductive Space where
  | nothing
  | blank
  /-- The end of a cell. -/
  | cell
  | newline
  /-- A new line that no cell of a line before reaches into. -/
  | cut
  | indent
  | unindent
  deriving DecidableEq, Repr

namespace Space

def isBreak (s : Space) : Bool := s = .newline || s = .cut

end Space

inductive Role where
  | name
  | number
  | literal
  | mark
  deriving DecidableEq, Repr

structure Page where
  lines : LineTable := {}
  /-- Whether numerals are written in their standard form. -/
  normalizes : Bool := false
  /-- What is written, the last first, and how much it is. -/
  written : List Mark := []
  size : Nat := 0
  pos : Pos := {}
  /-- The place in the source behind the last token or comment. -/
  last : Pos := ⟨0, 0, 0⟩
  /-- The line that is written, and the column of what comes next. -/
  line : Nat := 1
  column : Nat := 1
  pending : List Space := []
  depth : Nat := 0
  comments : List Group := []
  /-- Whether the end of the line would end the statement. -/
  closes : Bool := false
  token : String := ""
  opened : String := ""
  ragged : Bool := false
  /-- Whether the line of the next token is wanted, and the lines that were noted last for lists
  inside each other, the innermost first. -/
  marking : Bool := false
  marked : List Nat := []
  /-- Whether a comment before the next token needs no blank or no new line behind it. -/
  noBlank : Bool := false
  noBreak : Bool := false
  level : Nat := 0
  /-- Where build constraints in the new and in the old notation are written, the last first. -/
  builds : List Nat := []
  oldBuilds : List Nat := []
  /-- The widths of parts that were measured, by where they start and stop. -/
  widths : Std.HashMap (Place × Place) (Option Nat) := {}

namespace Page

def maxBreaks : Nat := 2

def maxPending : Nat := 16

def push (p : Page) (m : Mark) (n : Nat) : Page :=
  { p with written := List.replicate n m ++ p.written, size := p.size + n }

def indentLine (p : Page) : Page :=
  if p.column = 1 && p.depth != 0 then
    let p := p.push (.tab true) p.depth
    { p with
      pos := ⟨p.pos.place + p.depth, p.pos.line, p.pos.column + p.depth⟩
      column := p.column + p.depth }
  else p

def put (p : Page) (m : Mark) (n : Nat := 1) : Page :=
  let isBreak := m = .newline || m = .cut
  let m' := if !p.ragged then m else if isBreak then .cut else .text " "
  let p := { p with ragged := p.ragged && !isBreak }
  let p := p.indentLine.push m' n
  if isBreak then
    { p with pos := ⟨p.pos.place + n, p.pos.line + n, 1⟩, line := p.line + n, column := 1 }
  else
    { p with pos := ⟨p.pos.place + n, p.pos.line, p.pos.column + n⟩, column := p.column + n }

def breaksOf (s : String) : Nat × Nat :=
  s.foldl (fun (n, k) c =>
    if c = '\n' || c = '\x0c' then (n + 1, 0) else (n, k + c.utf8Size)) (0, 0)

def putText (p : Page) (pos : Pos) (s : String) : Page :=
  let p := p.indentLine.push (.text s) 1
  let (breaks, tail) := breaksOf s
  let after : Pos := ⟨pos.place + s.utf8ByteSize, pos.line + breaks,
    if breaks = 0 then pos.column + tail else tail + 1⟩
  { p with
    pos := after
    last := after
    line := p.line + breaks
    column := if breaks = 0 then p.column + tail else tail + 1
    ragged := p.ragged || breaks != 0 }

/-- Writes space. A new line before the end of an indentation comes after it. -/
def putSpaces : Page → List Space → Page
  | p, [] => p
  | p, .nothing :: ss => putSpaces p ss
  | p, .blank :: ss => putSpaces (p.put (.text " ")) ss
  | p, .cell :: ss => putSpaces (p.put (.tab false)) ss
  | p, .indent :: ss => putSpaces { p with depth := p.depth + 1 } ss
  | p, .unindent :: ss => putSpaces { p with depth := p.depth - 1 } ss
  | p, .newline :: .unindent :: ss | p, .cut :: .unindent :: ss =>
    putSpaces { p with depth := p.depth - 1 } (.cut :: ss)
  | p, .newline :: ss => putSpaces (p.put .newline) ss
  | p, .cut :: ss => putSpaces (p.put .cut) ss
termination_by _ ss => ss.length

def release (p : Page) (n : Nat) : Page :=
  let now := p.pending.take n
  { p with pending := p.pending.drop n }.putSpaces now

def hold (held : Space → Bool) (ss : List Space) : Nat :=
  if ss.all fun s => !held s then 0 else (ss.takeWhile fun s => !held s).length

def leadSameLine (p : Page) (pos next : Pos) (isFirst : Bool) : Page :=
  let (p, separated) := if isFirst then
      let passed (s : Space) : Bool := s = .blank || s = .cell || s = .indent
      let front := p.pending.takeWhile passed
      let pending := front.map (fun s => if s = .blank then .nothing else s) ++
        p.pending.drop front.length
      ({ p with pending }.release (hold (fun s => !passed s) p.pending), front.contains .cell)
    else (p, false)
  if separated then p
  else if pos.line = next.line then p.put (.text " ") else p.put (.tab true)

def leadNewLine (p : Page) (pos next : Pos) (isFirst : Bool) (afterLine : Bool) (tok : String) :
    Page :=
  let rec look : Nat → List Space → List Space × Nat × Bool
    | _, [] => ([], 0, false)
    | i, s :: ss =>
      let on (s : Space) : List Space × Nat × Bool :=
        let (r, j, d) := look (i + 1) ss
        (s :: r, j, d)
      match s with
      | .nothing => (s :: ss, i, false)
      | .blank | .cell => on .nothing
      | .indent => on s
      | .unindent =>
        if ss.head? = some .unindent || (tok != "\x7d" && pos.column = next.column) then on s
        else (s :: ss, i, false)
      | .newline | .cut => (.nothing :: ss, i, isFirst)
  let (pending, j, dropped) := look 0 p.pending
  let p := { p with pending }.release j
  let n := pos.line - p.last.line + (if p.depth = 0 && dropped then 1 else 0)
  let n := if n = 0 && afterLine then 1 else n
  if n = 0 then p else p.put .cut (min n maxBreaks)

def lead (p : Page) (pos next : Pos) (before : Option Comment) (tok : String) : Page :=
  let afterLine := before.any (·.isLine)
  if p.written.isEmpty then p
  else if pos.line = p.last.line && !afterLine then p.leadSameLine pos next before.isNone
  else p.leadNewLine pos next before.isNone afterLine tok

def trimRight (cs : List Char) : List Char := (cs.reverse.dropWhile Text.isWhite).reverse

def isEmpty (c : Char) : Bool := c.toNat ≤ 0x20

def commonMargin : List Char → List Char → List Char
  | a :: as, b :: bs => if a = b && (isEmpty a || a = '*') then a :: commonMargin as bs else []
  | _, _ => []

def dropEnd (suffix s : List Char) : List Char :=
  if suffix.isSuffixOf s then s.take (s.length - suffix.length) else s

/-- What the lines of a comment behind the first begin with, less what belongs to their text. -/
def margin (first : List Char) (inner : List (List Char)) (last : List Char) : List Char × Bool :=
  let common := match inner.filter fun l => !l.all isEmpty with
    | [] => commonMargin last last
    | l :: ls => ls.foldl commonMargin (commonMargin l l)
  if common.contains '*' then
    (dropEnd [' '] (common.takeWhile (· != '*')), true)
  else
    let opening := first.drop 2
    if opening.all isEmpty then
      let blanks := min 3 (common.reverse.takeWhile (· == ' ')).length
      let shorter := common.take (common.length - blanks)
      (if blanks = 0 then dropEnd ['\t'] shorter else shorter, false)
    else
      let gap := opening.takeWhile isEmpty
      (dropEnd (if gap.head? = some '\t' then gap else ' ' :: ' ' :: gap) common, false)

def flushLeft : List (List Char) → List (List Char)
  | first :: second :: more =>
    let rest := second :: more
    let last := rest.getLastD []
    let inner := rest.dropLast.map fun l => if l.all isEmpty then [] else l
    let (m, starred) := margin first inner last
    let text := last.take (last.length - 2)
    let bare := text.all isEmpty
    let m' := if bare then m else commonMargin m last
    let end_ := if bare then m ++ (if starred then " */" else "*/").toList else last
    first :: (inner ++ [end_]).map fun l => if l.isEmpty then l else l.drop m'.length
  | ls => ls

/-- Writes a comment that ends with its line. One that numbers lines anew is not indented. -/
def putLineComment (p : Page) (pos : Pos) (c : Comment) : Page :=
  let p := if (Constraint.expression? c.text).isSome then { p with builds := p.size :: p.builds }
    else if (Constraint.alternatives? c.text).isSome then
      { p with oldBuilds := p.size :: p.oldBuilds }
    else p
  let depth := p.depth
  let p := if c.text.startsWith "//line " && pos.column = 1 then { p with depth := 0 } else p
  { p.putText pos (String.ofList (trimRight c.text.toList)) with depth }

def putComment (p : Page) (c : Comment) : Page :=
  let pos := p.lines.pos c.place
  if c.isLine then p.putLineComment pos c
  else
    let ls := Text.Columns.split ['\n'] c.text.toList
    let ls := if pos.column = 1 && 0 < p.depth then
        match ls with
        | [] => []
        | l :: more => l :: more.map fun m => "   ".toList ++ m
      else ls
    match flushLeft ls with
    | [] => p
    | l :: more =>
      more.foldl (fun p l =>
        let p := p.put .cut
        if l.isEmpty then p else p.putText p.pos (String.ofList (trimRight l)))
        (p.putText pos (String.ofList (trimRight l)))

/-- Gives up the spaces before a token that follows comments, but for one new line if there has
to be one. Tells whether there is one, and whether a new section was given up. -/
def trail (p : Page) (breaks : Bool) : Page × Bool × Bool :=
  let rec look : Bool → List Space → List Space × Bool × Bool
    | left, [] => ([], left, false)
    | left, s :: ss =>
      match s with
      | .nothing | .blank | .cell =>
        let (r, l, d) := look left ss
        (.nothing :: r, l, d)
      | .indent | .unindent =>
        let (r, l, d) := look left ss
        (s :: r, l, d)
      | .newline | .cut =>
        if left then
          let (r, l, d) := look false ss
          (s :: r, l, d)
        else
          let (r, l, d) := look false ss
          (.nothing :: r, l, d || s = .cut)
  let (pending, left, dropped) := look breaks p.pending
  let p := { p with pending }.release pending.length
  let p := if left then p.put .newline else p
  (p, breaks, dropped)

def haveBreaks (t : LineTable) (cs : List Comment) : Bool :=
  cs.any fun c => c.isLine || c.breaks != 0 ||
    cs.head?.any fun d => t.line c.place != t.line d.place

def isDue (p : Page) (next : Pos) (g : Group) : Bool :=
  g.place < next.place && !(p.closes && haveBreaks p.lines g.comments)

def commentDue (p : Page) (next : Pos) : Bool := p.comments.head?.any (p.isDue next)

def commentSize (p : Page) (next : Pos) : Nat :=
  (p.comments.takeWhile (p.isDue next)).foldl (fun n g =>
    g.comments.foldl (fun n c => n + c.text.utf8ByteSize) n) 0

def putGroup (next : Pos) (tok : String) :
    Page → Option Comment → List Comment → Page × Option Comment
  | p, before, [] => (p, before)
  | p, before, c :: cs =>
    putGroup next tok ((p.lead (p.lines.pos c.place) next before tok).putComment c) (some c) cs

def afterComments (p : Page) (next : Pos) (tok : String) (c : Comment) : Page × Bool × Bool :=
  let sharesLine := !p.noBlank && !c.isLine && p.lines.line c.place = next.line && tok != "," &&
    (tok != ")" || p.opened = "(") && (tok != "]" || p.opened = "[")
  let breaksHere := sharesLine && !p.noBreak && p.level = 0 && p.pending.any Space.isBreak
  let p := if sharesLine && !breaksHere then p.put (.text " ") else p
  p.trail (breaksHere || c.isLine || tok = "" || (tok = "\x7d" && !p.noBreak))

/-- Writes the groups of comments that come before a token, behind a comment. One right above the
token that is not indented documents it. -/
def putGroups (next : Pos) (tok : String) : Nat → Page → Option Comment → Page × Bool × Bool
  | 0, p, _ => (p, false, false)
  | n + 1, p, before =>
    match p.comments with
    | g :: gs =>
      if p.isDue next g then
        let start := p.lines.pos g.place
        let isDoc := tok != "import" && start.column = 1 && p.lines.pos (g.stop + 1) = next
        let cs := if isDoc then Doc.formatted g.comments else g.comments
        if cs.isEmpty then
          { p.lead start next before tok with
            pos := next, last := next, comments := gs }.trail false
        else
          let (p, before) := putGroup next tok { p with comments := gs } before cs
          if isDoc then
            let stop := p.lines.pos g.stop
            putGroups next tok n { p with pos := stop, last := stop } g.comments.getLast?
          else putGroups next tok n p before
      else (before.map (p.afterComments next tok)).getD (p, false, false)
    | [] => (before.map (p.afterComments next tok)).getD (p, false, false)

/-- Writes what comes before a token: the comments before its place, or else the space that was
kept back. Tells whether a new line was written, and whether a new section was given up. -/
def flush (p : Page) (next : Pos) (tok : String) : Page × Bool × Bool :=
  if p.commentDue next then putGroups next tok (p.comments.length + 1) p none
  else (p.release p.pending.length, false, false)

def noteOpening (p : Page) : Page :=
  if p.token = "" then p
  else { p with opened := if p.token = "(" || p.token = "[" then p.token else "" }

def space (p : Page) (s : Space) : Page :=
  let p := p.noteOpening
  if s = .nothing then p
  else
    let p := if p.pending.length = maxPending then p.release maxPending else p
    { p with
      pending := p.pending ++ [s]
      closes := p.closes && !s.isBreak
      token := "" }

def combines (before : String) (mark : String) : Bool :=
  match mark.toList with
  | [] => false
  | c :: _ =>
    match before with
    | "0" => c = '.'
    | "+" => c = '+'
    | "-" => c = '-'
    | "/" => c = '*'
    | "<" => c = '-' || c = '<'
    | "&" => c = '&' || c = '^'
    | _ => false

def write (p : Page) (role : Role) (text : String) : Page :=
  let p := p.noteOpening
  let p := if role = .mark && combines p.token text then { p with pending := [.blank] } else p
  let tok := match role with
    | .mark => text
    | .number => "0"
    | _ => "x"
  let closes := role != .mark || Lexeme.closers.contains text
  let p := { p with token := tok }
  let next := p.pos
  let (p, broke, dropped) := p.flush next tok
  let (p, closes) := if p.closes then (p, closes)
    else
      let n := min (next.line - p.pos.line) maxBreaks
      let n := if broke && n = maxBreaks then n - 1 else n
      if n = 0 then (p, closes) else (p.put (if dropped then .cut else .newline) n, false)
  let p := if p.marking then { p with marking := false, marked := p.line :: p.marked.drop 1 } else p
  { p.putText next text with closes }

def breakLine (p : Page) (line least : Nat) (s : Space) (isCut : Bool) : Page × Nat :=
  let n := max (min (line - p.pos.line) maxBreaks) least
  if n = 0 then (p, 0)
  else
    let p := p.space s
    if isCut then
      ((List.replicate (n - 1) Space.newline).foldl space (p.space .cut), n + 1)
    else ((List.replicate n Space.newline).foldl space p, n)

def close (p : Page) : Page :=
  ({ p with closes := false }.flush ⟨Nat.pow 2 62, Nat.pow 2 62, 0⟩ "").1

def isBreak (m : Mark) : Bool := m = .newline || m = .cut

def width? (p : Page) : Option Nat :=
  let isSpace (m : Mark) : Bool := match m with
    | .tab _ => true
    | .text s => s == " "
    | _ => false
  let size (m : Mark) : Nat := match m with
    | .text s => s.utf8ByteSize
    | _ => 1
  if p.line = 1 then some ((p.written.dropWhile isSpace).foldl (fun n m => n + size m) 0) else none

/-- Where build constraints can be written latest: behind the last empty line that only comments
come before. -/
def constraintPlace : Nat → Nat → Nat → List Mark → Nat
  | 0, _, found, _ => found
  | n + 1, at_, found, ms =>
    let spaces := ms.takeWhile fun m => m = .text " " || m = .tab true
    let ms := ms.drop spaces.length
    let isComment := match ms with
      | .text s :: _ => s.startsWith "//"
      | _ => false
    let comment := if isComment then ms.takeWhile fun m => !isBreak m else []
    match ms.drop comment.length with
    | m :: ms =>
      if isBreak m then
        let next := at_ + spaces.length + comment.length + 1
        constraintPlace n next (if isComment then found else next) ms
      else found
    | [] => found

def lineOf (ms : List Mark) : List Mark :=
  let l := ms.takeWhile fun m => !isBreak m
  l ++ (ms.drop l.length).take 1

def appendLines (xs ys : List Mark) : List Mark :=
  let isApart := match xs.reverse with
    | [] => true
    | a :: b :: _ => isBreak a && isBreak b
    | _ => false
  if isApart && ys.head?.any isBreak then xs ++ ys.drop 1 else xs ++ ys

def constraintOf (builds oldBuilds : List (Option String)) : Option Constraint :=
  match builds with
  | [] =>
    match oldBuilds.mapM (·.bind Constraint.ofComment?) with
    | some (x :: xs) => some (xs.foldl .and x)
    | _ => none
  | [b] => b.bind Constraint.ofComment?
  | _ => none

def withConstraints (p : Page) (ms : List Mark) : List Mark :=
  let (builds, oldBuilds) := (p.builds.reverse, p.oldBuilds.reverse)
  if builds.isEmpty && oldBuilds.isEmpty then ms
  else
    let found := constraintPlace (ms.length + 1) 0 0 ms
    let insert := match builds, oldBuilds with
      | b :: _, os => if b < found then b else match os with
        | o :: _ => if o < found then o else found
        | [] => found
      | [], o :: _ => if o < found then o else found
      | [], [] => found
    let lineAt (n : Nat) : List Mark := lineOf (ms.drop n)
    let textAt (n : Nat) : Option String := match ms.drop n with
      | .text s :: _ => some s
      | _ => none
    let block := match constraintOf (builds.map textAt) (oldBuilds.map textAt) with
      | none => (builds ++ oldBuilds).flatMap lineAt
      | some x =>
        (("//go:build " ++ x.text) :: (if oldBuilds.isEmpty then [] else x.oldLines)).flatMap
          fun l => [.text l, .newline]
    let step (acc : List Mark × Nat) (n : Nat) : List Mark × Nat :=
      let (after, start) := acc
      if n < start then acc
      else (appendLines after ((ms.take n).drop start), n + (lineAt n).length)
    let (after, start) := ((builds ++ oldBuilds).mergeSort).foldl step ([], insert)
    let after := appendLines after (ms.drop start)
    let after := match after.reverse with
      | a :: b :: rest => if isBreak a && isBreak b then (b :: rest).reverse else after
      | _ => after
    ms.take insert ++ block ++ [.newline] ++ after

def text (p : Page) : String :=
  "\n".intercalate ((Text.Columns.layOut .source (p.withConstraints p.written.reverse)).map fun l =>
    if l.endsWith " " || l.endsWith "\t" then String.ofList
      (l.toList.reverse.dropWhile fun c => c == ' ' || c == '\t').reverse
    else l)

end Page

end TiledAutomata.Emit.Host
