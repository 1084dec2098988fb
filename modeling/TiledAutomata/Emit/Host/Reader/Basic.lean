import TiledAutomata.Emit.Host.Syntax

/-!
# Reading host source

Readers take tokens from the front of a list. What contains parts of other kinds is read
with a grammar, which has a reader for each kind; parts are read with a smaller grammar.
-/

namespace TiledAutomata.Emit.Host

abbrev Reader := StateT (List Token) Option

namespace Token

def is (t : Token) (text : String) : Bool :=
  (t.kind = .mark || t.kind = .keyword) && t.text == text

def isAny (t : Token) (texts : List String) : Bool :=
  (t.kind = .mark || t.kind = .keyword) && texts.contains t.text

def isLiteral (t : Token) : Bool :=
  [Kind.integer, .real, .imaginary, .rune, .text].contains t.kind

def isSeparator (t : Token) : Bool :=
  match t.kind with
  | .separator _ => true
  | _ => false

def literal (t : Token) : Literal := ⟨t.place, t.stop, t.kind, t.text⟩

end Token

/-- Readers of the kinds of parts. In the head of a statement, an opening brace behind a name
belongs to the statement. -/
structure Grammar where
  fuel : Nat
  /-- An expression whose operators bind at least at a level. -/
  expr : (inHead : Bool) → Nat → Reader Node
  unary : (inHead : Bool) → Reader Node
  type? : Reader (Option Node)
  stmt : Reader Stmt

namespace Reader

def peek : Reader Token := do
  match ← get with
  | t :: _ => return t
  | [] => failure

def take : Reader Token := do
  match ← get with
  | t :: ts => set ts; return t
  | [] => failure

def sees (text : String) : Reader Bool := do return (← peek).is text

def demand (text : String) : Reader Place := do
  let t ← take
  if t.is text then return t.place else failure

def name : Reader Name := do
  let t ← take
  if t.kind = .name then return ⟨t.place, t.text⟩ else failure

/-- The end of a field, declaration or statement, and the comments that end its line. Before a
closing bracket there need be none. -/
def finish : Reader (Option Nat) := do
  let t ← peek
  if t.isAny [")", "\x7d"] then return none
  let t ← take
  match t.kind with
  | .separator true => return (← peek).note
  | .separator false => return t.note
  | _ => failure

def goesOn (closing : String) : Reader Bool := do
  let t ← peek
  if t.is "," then
    let _ ← take
    return true
  else if t.is closing then return false
  else failure

def itemsTo {α : Type} (closing : String) (item : Reader α) : Nat → Array α → Reader (List α)
  | 0, _ => failure
  | n + 1, xs => do
    if ← sees closing then return xs.toList
    let x ← item
    if ← goesOn closing then itemsTo closing item n (xs.push x)
    else return (xs.push x).toList

def items {α : Type} (item : Reader α) : Nat → Array α → Reader (List α)
  | 0, _ => failure
  | n + 1, xs => do
    let x ← item
    if ← sees "," then
      let _ ← take
      items item n (xs.push x)
    else return (xs.push x).toList

def itemsWhile {α : Type} (starts : Token → Bool) (item : Reader α) :
    Nat → Array α → Reader (List α)
  | 0, _ => failure
  | n + 1, xs => do
    if starts (← peek) then
      let x ← item
      itemsWhile starts item n (xs.push x)
    else return xs.toList

def names (g : Grammar) : Reader (List Name) := items name g.fuel #[]

def type (g : Grammar) : Reader Node := do
  match ← g.type? with
  | some t => return t
  | none => failure

def inner (g : Grammar) : Reader Node := g.expr false 1

def exprs (g : Grammar) (inHead : Bool) : Reader (List Node) := items (g.expr inHead 1) g.fuel #[]

def stmts (g : Grammar) : Reader (List Stmt) :=
  itemsWhile (fun t => !t.isAny ["case", "default", "\x7d"] && t.kind != .stop) g.stmt g.fuel #[]

def block (g : Grammar) : Reader Block := do
  let o ← demand "\x7b"
  let ss ← stmts g
  return .mk o ss (← demand "\x7d")

end Reader

end TiledAutomata.Emit.Host
