import TiledAutomata.Emit.Host.Layout.Basic

/-!
# The standard layout of host source: types and expressions

Blanks around a binary operator depend on how tightly it binds and on how deep it stands: the
deeper it is, the fewer there are, so that `a*b + c` tells what is computed first. Fields stand
in columns, and a body that is short enough stays on its line.
-/

namespace TiledAutomata.Emit.Host.Layout

open Pen

def numeral (text : String) : String :=
  let replaceLast (c d : Char) (cs : List Char) : List Char :=
    let after := (cs.reverse.takeWhile (· != c)).length
    if cs.contains c then cs.take (cs.length - after - 1) ++ d :: cs.drop (cs.length - after)
    else cs
  match text.toList with
  | '0' :: 'X' :: cs | '0' :: 'x' :: cs => String.ofList ('0' :: 'x' :: replaceLast 'P' 'p' cs)
  | '0' :: 'O' :: cs => String.ofList ('0' :: 'o' :: cs)
  | '0' :: 'B' :: cs => String.ofList ('0' :: 'b' :: cs)
  | cs =>
    if text.startsWith "0o" || text.startsWith "0b" || cs.length < 2 then text
    else if cs.contains 'E' then String.ofList (replaceLast 'E' 'e' cs)
    else if cs.getLast? = some 'i' && !cs.contains '.' && !cs.contains 'e' then
      let ds := cs.dropWhile fun c => c == '0' || c == '_'
      if ds = ['i'] then "0i" else String.ofList ds
    else text

def literal (l : Literal) : Pen := do
  goTo l.place
  modify fun g =>
    let text := if g.normalizes && [Kind.integer, .real, .imaginary].contains l.kind then
        numeral l.text
      else l.text
    g.write (if l.kind = .integer then .number else .literal) text

/-- Parentheses undo one level of depth. -/
def reduced (depth : Nat) : Nat := max 1 (depth - 1)

def unaryLevel : Nat := 6

def operandLevel : Nat := 7

def levelOf (op : String) : Nat := (level? op).getD 0

/-- Which of the two tightest levels a chain of operators has, and the level of an operator that
would run into the one behind it. -/
def profile : Node → Bool × Bool × Nat
  | .binary x _ op y =>
    let l := levelOf op
    let (x4, x5, xn) := match x with
      | .binary _ _ o _ => if levelOf o < l then (false, false, 0) else profile x
      | _ => (false, false, 0)
    let (y4, y5, yn) := match y with
      | .binary _ _ o _ => if levelOf o ≤ l then (false, false, 0) else profile y
      | .deref _ _ => (false, false, if op = "/" then 5 else 0)
      | .unary _ u _ =>
        (false, false,
          if ["/*", "&&", "&^"].contains (op ++ u) then 5
          else if ["++", "--"].contains (op ++ u) then 4 else 0)
      | _ => (false, false, 0)
    (l = 4 || x4 || y4, l = 5 || x5 || y5, max xn yn)
  | _ => (false, false, 0)

/-- The level from which on operators have no blanks around them. -/
def cutoff (x : Node) (depth : Nat) : Nat :=
  let (has4, has5, clash) := profile x
  if 0 < clash then clash + 1
  else if has4 && has5 then if depth = 1 then 5 else 4
  else if depth = 1 then 6 else 4

def isGroup : Node → Bool
  | .group _ _ _ => true
  | _ => false

def isBinary : Node → Bool
  | .binary _ _ _ _ => true
  | _ => false

def ungrouped : Node → Node
  | .group _ x _ => ungrouped x
  | x => x

def isTypeOnly : Node → Bool
  | .array _ _ _ | .struct _ _ | .function _ _ _ | .interface _ _ | .map _ _ _
  | .channel _ _ _ _ => true
  | .unary _ op _ => op = "~"
  | .binary x _ _ y => isTypeOnly x || isTypeOnly y
  | .group _ x _ => isTypeOnly x
  | _ => false

/-- Whether a name before a node can be taken for its operand. -/
def joinsName : Node → Bool
  | .deref _ x => !isTypeOnly x
  | .binary x _ _ y => joinsName x && !isTypeOnly y
  | _ => false

/-! ## Parameters -/

def paramLines (w : Writers) : Bool → Bool → Nat → List Field → StateM Page (Bool × Nat)
  | _, broken, line, [] => return (broken, line)
  | isFirst, broken, line, f :: fs => do
    let start ← lineAt f.place
    let breaks := 0 < line && line < start
    unless isFirst do
      unless breaks do goTo f.place
      mark ","
    let n ← if breaks then breakLine start 0 (if broken then .nothing else .indent) true else pure 0
    if n = 0 && !isFirst then space .blank
    let broken := broken || 0 < n
    unless f.names.isEmpty do
      names w (!broken) f.names
      space .blank
    node w (ungrouped f.type)
    paramLines w false broken (← lineAt f.stop) fs

def params (w : Writers) (opening closing : String) (ofType : Bool) (l : FieldList) : Pen := do
  markAt l.opening opening
  unless l.fields.isEmpty do
    let (broken, line) ← paramLines w true false (← lineAt l.opening) l.fields
    let last ← lineAt l.closing
    if 0 < line && line < last then
      mark ","
      let _ ← breakLine last 0 .nothing true
    else
      match l.fields with
      | [f] => if ofType && f.names.length ≤ 1 && joinsName (ungrouped f.type) then mark ","
      | _ => pure ()
    if broken then space .unindent
  markAt l.closing closing

def signature (w : Writers) (ps : FieldList) (rs : Option FieldList) : Pen := do
  params w "(" ")" false ps
  match rs with
  | none => pure ()
  | some r =>
    match r.fields with
    | [] => pure ()
    | [.mk [] t _ _] =>
      space .blank
      node w (ungrouped t)
    | _ =>
      space .blank
      params w "(" ")" false r

/-! ## Fields -/

def structLines (w : Writers) (sep : Space) : Bool → List Field → Pen
  | _, [] => pure ()
  | isFirst, f :: fs => do
    unless isFirst do
      let _ ← breakLine (← lineAt f.place) 1 .nothing (← isBelow)
    markLine
    unless f.names.isEmpty do
      names w false f.names
      space sep
    node w f.type
    match f.tag with
    | some t => do
      if !f.names.isEmpty && sep = .cell then space sep
      space sep
      literal t
    | none =>
      if f.note.isSome then
        if f.names.isEmpty then space sep
        space sep
    structLines w sep false fs

def method (w : Writers) (f : Field) : Pen := do
  match f.names, f.type with
  | n :: _, .function _ ps rs =>
    name n
    signature w ps rs
  | _, t => node w t

def interfaceLines (w : Writers) : Bool → List Field → Pen
  | _, [] => pure ()
  | isFirst, f :: fs => do
    unless isFirst do
      let _ ← breakLine (← lineAt f.place) 1 .nothing (← isBelow)
    markLine
    method w f
    interfaceLines w false fs

def maxFieldWidth : Nat := 30

def areSlim (w : Writers) : List Field → StateM Page Bool
  | [.mk ns t tag note] => do
    if tag.isSome || note.isSome then return false
    let n ← width? t.place t.stop 0 (node w t)
    return n.any fun n => n + (if ns.isEmpty then 0 else 1) ≤ maxFieldWidth
  | _ => return false

def slimField (w : Writers) (f : Field) : Pen := do
  flatNames true f.names
  unless f.names.isEmpty do space .blank
  node w f.type
where
  flatNames : Bool → List Name → Pen
    | _, [] => pure ()
    | isFirst, n :: ns => do
      unless isFirst do
        mark ","
        space .blank
      name n
      flatNames false ns

def fieldList (w : Writers) (isStruct : Bool) (l : FieldList) : Pen := do
  let g ← get
  let isNoted := g.commentDue (g.lines.pos l.closing)
  let isFlat := !isNoted && g.lines.line l.opening = g.lines.line l.closing
  if isFlat && (l.fields.isEmpty || (← areSlim w l.fields)) then
    markAt l.opening "\x7b"
    for f in l.fields do
      space .blank
      if isStruct then slimField w f else method w f
      space .blank
    markAt l.closing "\x7d"
  else
    space .blank
    markAt l.opening "\x7b"
    space .indent
    if isNoted || !l.fields.isEmpty then space .cut
    noting (if isStruct then
        structLines w (if l.fields.length = 1 then .blank else .cell) true l.fields
      else interfaceLines w true l.fields)
    space .unindent
    space .cut
    markAt l.closing "\x7d"

/-! ## Bodies -/

/-- The width of a function that can stand on one line, and the most statements it can have. -/
def maxBodyWidth : Nat := 100

def maxBodyLength : Nat := 5

def bodyWidth? (w : Writers) : Bool → Nat → List Stmt → StateM Page (Option Nat)
  | _, n, [] => return some n
  | isFirst, n, s :: ss => do
    if maxBodyWidth < n then return none
    let depth := match s with
      | .labeled _ _ _ => 1
      | _ => 0
    match ← width? s.place s.stop depth (w.stmt s false) with
    | none => return none
    | some k => bodyWidth? w false (n + k + (if isFirst then 0 else 2)) ss

def isSlim (w : Writers) (head : Nat) (b : Block) : StateM Page Bool := do
  let g ← get
  if g.lines.line b.opening != g.lines.line b.closing || maxBodyLength < b.stmts.length then
    return false
  let n ← bodyWidth? w true (g.commentSize (g.lines.pos b.closing)) b.stmts
  return n.any fun n => head + n ≤ maxBodyWidth

def slimStmts (w : Writers) : Bool → List Stmt → Pen
  | _, [] => pure ()
  | isFirst, s :: ss => do
    unless isFirst do
      mark ";"
      space .blank
    w.stmt s ss.isEmpty
    slimStmts w false ss

def body (w : Writers) (head : Option Nat) (sep : Space) (b : Block) : Pen := do
  let level := (← get).level
  modify fun g => { g with level := 0 }
  let isSlim ← match head with
    | some n => isSlim w n b
    | none => pure false
  if isSlim then
    space sep
    markAt b.opening "\x7b"
    unless b.stmts.isEmpty do
      space .blank
      slimStmts w true b.stmts
      space .blank
    unspaced false true (markAt b.closing "\x7d")
  else
    space .blank
    block w true b
  modify fun g => { g with level }

def distance? (p : Place) (column : Int) : StateM Page (Option Nat) := do
  let g ← get
  return if g.lines.line p = g.pos.line then some (g.column - column).toNat else none

/-! ## Expressions -/

def selection (x : Pen) (n : Name) (isCalled : Bool) : StateM Page Bool := do
  x
  mark "."
  if (← get).pos.line < (← lineAt n.place) then
    space .indent
    space .newline
    name n
    unless isCalled do space .unindent
    return true
  else
    name n
    return false

def operation (x : Pen) (p : Place) (op : String) (next : Place) (y : Pen) (blanks : Bool) :
    Pen := do
  x
  if blanks then space .blank
  let here := (← get).pos.line
  let line ← lineAt next
  markAt p op
  let n ← if here = line then pure 0 else breakLine line 1 .indent true
  if blanks && n = 0 then space .blank
  y
  if 0 < n then space .unindent

def inParens (isIn : Bool) (pen : Pen) : Pen := do
  if isIn then mark "("
  pen
  if isIn then mark ")"

def bounds (w : Writers) (depth : Nat) (blanks : Bool) : Option Node → List (Option Node) → Pen
  | _, [] => pure ()
  | before, x :: xs => do
    if blanks && before.isSome then space .blank
    mark ":"
    if blanks && x.isSome then space .blank
    match x with
    | some y => nodeAt w depth y
    | none => pure ()
    bounds w depth blanks x xs

def slice (w : Writers) (depth : Nat) (low high top : Option Node) : Pen := do
  let given := [low, high, top].filterMap id
  let blanks := depth ≤ 1 && 1 < given.length && given.any isBinary
  match low with
  | some x => nodeAt w (depth + 1) x
  | none => pure ()
  bounds w (depth + 1) blanks low (if top.isSome then [high, top] else [high])

def arguments (w : Writers) (depth : Nat) (o : Place) (args : List Node) (spread c : Place) :
    Pen := do
  markAt o "("
  if spread = 0 then list w { start := o, stop := c, closes := true } depth args
  else
    list w { start := o, stop := spread } depth args
    markAt spread "..."
    if (← lineAt spread) < (← lineAt c) then
      mark ","
      space .cut
  markAt c ")"

def elements (w : Writers) (o : Place) (xs : List Node) (c : Place) : Pen := do
  modify fun g => { g with level := g.level + 1 }
  markAt o "\x7b"
  list w { start := o, stop := c, closes := true } 1 xs
  space .indent
  space .unindent
  unspaced (!xs.isEmpty) true (markAt c "\x7d")
  modify fun g => { g with level := g.level - 1 }

def channel (w : Writers) (d : Direction) (arrow : Place) (x : Node) : Pen := do
  match d with
  | .both => mark "chan"
  | .receive =>
    mark "<-"
    mark "chan"
  | .send =>
    mark "chan"
    markAt arrow "<-"
  space .blank
  node w x

def needsParens : Node → Bool
  | .function _ _ _ | .channel _ .receive _ _ => true
  | _ => false

def call (w : Writers) (f : Node) (o : Place) (args : List Node) (spread c : Place) (depth : Nat) :
    Pen := do
  let depth := if args.length > 1 then depth + 1 else depth
  if needsParens f then mark "("
  let indented ← w.node f operandLevel depth true
  if needsParens f then mark ")"
  arguments w depth o args spread c
  if indented then space .unindent

def binary (w : Writers) (x : Node) (p : Place) (op : String) (y : Node) (level depth : Nat) :
    Pen := do
  let l := levelOf op
  let depth := if l < level then reduced depth else depth
  let same : Bool := match x with
    | .binary _ _ o _ => levelOf o == l
    | _ => false
  inParens (l < level) (operation
    (discard (w.node x l (if same then depth else depth + 1) false)) p op y.place
    (discard (w.node y (l + 1) (depth + 1) false)) (l < cutoff (.binary x p op y) depth))

def closure (w : Writers) (type : Node) (b : Block) : Pen := do
  match type with
  | .function p ps rs =>
    markAt p "func"
    let column := (← get).column - 4
    signature w ps rs
    body w (← distance? p column) .blank b
  | _ => pure ()

def plainNode (w : Writers) (x : Node) (level depth : Nat) : Pen := do
  match x with
  | .name n => name n
  | .literal l => literal l
  | .group _ y c =>
    if isGroup y then nodeAt w depth y
    else
      mark "("
      nodeAt w (reduced depth) y
      markAt c ")"
  | .select y n => discard (selection (discard (w.node y operandLevel depth false)) n false)
  | .index y o is c =>
    discard (w.node y operandLevel 1 false)
    markAt o "["
    match is with
    | [i] => nodeAt w (depth + 1) i
    | _ => list w { start := o, stop := c, closes := true } (depth + 1) is
    markAt c "]"
  | .slice y o low high top c =>
    discard (w.node y operandLevel 1 false)
    markAt o "["
    slice w depth low high top
    markAt c "]"
  | .assert y o t c =>
    discard (w.node y operandLevel depth false)
    mark "."
    markAt o "("
    match t with
    | some t => node w t
    | none => mark "type"
    markAt c ")"
  | .call f o args spread c => call w f o args spread c depth
  | .deref _ y => inParens (unaryLevel < level) (do
      mark "*"
      node w y)
  | .unary _ op y => inParens (unaryLevel < level) (do
      mark op
      discard (w.node y unaryLevel (if unaryLevel < level then 1 else depth) false))
  | .binary y p op z => binary w y p op z level depth
  | .pair k p v =>
    node w k
    markAt p ":"
    space .blank
    node w v
  | .composite t o xs c =>
    match t with
    | some t => discard (w.node t operandLevel depth false)
    | none => pure ()
    elements w o xs c
  | .closure t b => closure w t b
  | .dots _ t =>
    mark "..."
    match t with
    | some t => node w t
    | none => pure ()
  | .array _ n y =>
    mark "["
    match n with
    | some n => node w n
    | none => pure ()
    mark "]"
    node w y
  | .map _ k v =>
    mark "map"
    mark "["
    node w k
    mark "]"
    node w v
  | .channel _ d a y => channel w d a y
  | .function _ ps rs =>
    mark "func"
    signature w ps rs
  | .struct _ fs =>
    mark "struct"
    fieldList w true fs
  | .interface _ fs =>
    mark "interface"
    fieldList w false fs

def writeNode (w : Writers) (x : Node) (level depth : Nat) (isCalled : Bool) :
    StateM Page Bool := do
  goTo x.place
  match x with
  | .select y n =>
    if isCalled then selection (discard (w.node y operandLevel depth false)) n true
    else
      plainNode w x level depth
      return false
  | _ =>
    plainNode w x level depth
    return false

end TiledAutomata.Emit.Host.Layout
