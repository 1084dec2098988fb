import TiledAutomata.Emit.Host.Reader.Stmt

/-!
# Reading source files

A file names its package, imports others and declares its members, in this order.
-/

namespace TiledAutomata.Emit.Host

def Grammar.ofDepth : Nat → Grammar
  | 0 => ⟨0, fun _ _ => failure, fun _ => failure, failure, failure⟩
  | n + 1 => {
    fuel := n + 1
    expr := fun inHead level => Reader.readExpr (ofDepth n) inHead level
    unary := fun inHead => Reader.readUnary (ofDepth n) inHead
    type? := fun ts => Reader.readType? (ofDepth n) ts
    stmt := fun ts => Reader.readStmt (ofDepth n) ts }

namespace Reader

def func (g : Grammar) : Reader Func := do
  let t ← take
  if !t.is "func" then failure
  let receiver ← if ← sees "(" then some <$> paramList g else pure none
  let n ← name
  let typeParams ← if receiver.isNone && (← sees "[") then some <$> typeParamList g else pure none
  let ps ← paramList g
  let rs ← results g
  let body ← if ← sees "\x7b" then some <$> block g else pure none
  let _ ← finish
  if body.isNone && (← sees "\x7b") then failure
  return ⟨t.lead, t.place, receiver, n, typeParams, ps, rs, body⟩

def member (g : Grammar) : Reader Member := do
  if ← sees "func" then return .func (← func g) else return .decl (← decl g)

def areOrdered (ms : List Member) : Bool :=
  (ms.dropWhile fun m => m.keyword == "import").all fun m => m.keyword != "import"

def file (g : Grammar) (groups : List Group) (lines : LineTable) : Reader File := do
  let p ← demand "package"
  let n ← name
  let _ ← finish
  let ms ← itemsWhile (fun t => t.kind != .stop) (member g) g.fuel #[]
  if areOrdered ms then return ⟨p, n, ms, groups, lines⟩ else failure

end Reader

def File.ofText (text : String) : Option File := do
  let s ← Source.ofText text
  let g := Grammar.ofDepth (16 * s.tokens.length + 16)
  let (f, _) ← (Reader.file g s.groups s.lines).run s.tokens
  return f

end TiledAutomata.Emit.Host
