import TiledAutomata.Emit.Host.Reader.Decl

/-!
# Reading statements
-/

namespace TiledAutomata.Emit.Host.Reader

def assignments : List String :=
  ["=", ":=", "+=", "-=", "*=", "/=", "%=", "&=", "|=", "^=", "<<=", ">>=", "&^="]

structure Ranging where
  targets : List Node
  place : Place
  op : String
  range : Place
  value : Node

def ranging (g : Grammar) (targets : List Node) (place : Place) (op : String) : Reader Ranging := do
  let r ← demand "range"
  return ⟨targets, place, op, r, ← g.expr true 1⟩

def simple (g : Grammar) (inHead mayRange mayLabel : Bool) : Reader (Ranging ⊕ Stmt) := do
  let xs ← exprs g inHead
  let t ← peek
  if t.isAny assignments then
    let _ ← take
    if mayRange && (t.is "=" || t.is ":=") && (← sees "range") then
      return .inl (← ranging g xs t.place t.text)
    return .inr (.assign xs t.place t.text (← exprs g inHead))
  match xs with
  | [x] =>
    if t.is ":" then
      match x with
      | .name n =>
        if mayLabel then
          let _ ← take
          return .inr (.labeled n t.place (← g.stmt))
        else failure
      | _ => failure
    else if t.is "<-" then
      let _ ← take
      return .inr (.send x t.place (← g.expr inHead 1))
    else if t.isAny ["++", "--"] then
      let _ ← take
      return .inr (.step x t.place t.text)
    else return .inr (.value x)
  | _ => failure

def headStmt (g : Grammar) : Reader Stmt := do
  match ← simple g true false false with
  | .inr s => return s
  | .inl _ => failure

def valueOf? : Option Stmt → Reader (Option Node)
  | none => return none
  | some (.value x) => return some x
  | some _ => failure

def spawn (g : Grammar) : Reader Stmt := do
  let t ← take
  let x ← inner g
  let _ ← finish
  match x with
  | .call _ _ _ _ _ => return .spawn t.place t.text x
  | _ => failure

def leave (g : Grammar) : Reader Stmt := do
  let p ← demand "return"
  let t ← peek
  let xs ← if t.isSeparator || t.is "\x7d" then pure [] else exprs g false
  let _ ← finish
  return .leave p xs

def branch : Reader Stmt := do
  let t ← take
  let l ← if t.is "goto" || (t.isAny ["continue", "break"] && (← peek).kind = .name) then
      some <$> name
    else pure none
  let _ ← finish
  return .branch t.place t.text l

def condition (g : Grammar) : Reader (Option Stmt × Node) := do
  let first ← if (← peek).isSeparator then pure none else some <$> headStmt g
  if ← sees "\x7b" then
    match ← valueOf? first with
    | some x => return (none, x)
    | none => failure
  let t ← take
  if !t.isSeparator then failure
  match ← valueOf? (some (← headStmt g)) with
  | some x => return (first, x)
  | none => failure

def choose (g : Grammar) : Reader Stmt := do
  let p ← demand "if"
  if ← sees "\x7b" then failure
  let (init, cond) ← condition g
  let body ← block g
  if ← sees "else" then
    let _ ← take
    if ← sees "if" then return .choose p init cond body (some (← g.stmt))
    let b ← block g
    let _ ← finish
    return .choose p init cond body (some (.block b))
  else
    let _ ← finish
    return .choose p init cond body none

def caseClause (g : Grammar) : Reader Stmt := do
  let t ← take
  let xs ← if t.is "case" then exprs g false else if t.is "default" then pure [] else failure
  let c ← demand ":"
  return .case t.place xs c (← stmts g)

def isTypeGuard : Node → Bool
  | .assert _ _ none _ => true
  | _ => false

def clauses (g : Grammar) (clause : Reader Stmt) : Reader Block := do
  let o ← demand "\x7b"
  let cs ← itemsWhile (fun t => t.isAny ["case", "default"]) clause g.fuel #[]
  let c ← demand "\x7d"
  let _ ← finish
  return .mk o cs c

def switch (g : Grammar) : Reader Stmt := do
  let p ← demand "switch"
  let (init, tag) ← if ← sees "\x7b" then pure (none, none) else do
    let first ← if (← peek).isSeparator then pure none else some <$> headStmt g
    if (← peek).isSeparator then
      let _ ← take
      let second ← if ← sees "\x7b" then pure none else some <$> headStmt g
      pure (first, second)
    else pure (none, first)
  match tag with
  | some (.assign [x] q op [y]) =>
    if isTypeGuard y then
      if op = ":=" then
        return .typeSwitch p init (.assign [x] q op [y]) (← clauses g (caseClause g))
      else failure
    else failure
  | some (.value x) =>
    let body ← clauses g (caseClause g)
    if isTypeGuard x then return .typeSwitch p init (.value x) body
    else return .switch p init (some x) body
  | none => return .switch p init none (← clauses g (caseClause g))
  | _ => failure

def commClause (g : Grammar) : Reader Stmt := do
  let t ← take
  let s ← if t.is "case" then do
      let xs ← exprs g false
      let u ← peek
      if u.is "<-" then do
        let _ ← take
        let y ← inner g
        match xs with
        | [x] => pure (some (.send x u.place y))
        | _ => failure
      else if u.isAny ["=", ":="] then do
        let _ ← take
        let y ← inner g
        if 2 < xs.length then failure
        pure (some (.assign xs u.place u.text [y]))
      else match xs with
        | [x] => pure (some (.value x))
        | _ => failure
    else if t.is "default" then pure none
    else failure
  let c ← demand ":"
  return .comm t.place s c (← stmts g)

def counted (g : Grammar) (p : Place) (init : Option Stmt) : Reader Stmt := do
  let _ ← take
  let t ← peek
  if t.is "\x7b" then failure
  let cond ← if t.isSeparator then pure none else valueOf? (some (← headStmt g))
  let t ← take
  if !t.isSeparator then failure
  let post ← if ← sees "\x7b" then pure none else some <$> headStmt g
  return .loop p init cond post (← block g)

def ranged (g : Grammar) (p : Place) (r : Ranging) : Reader Stmt := do
  let body ← block g
  match r.targets with
  | [] => return .range p none none r.place r.op r.range r.value body
  | [k] => return .range p (some k) none r.place r.op r.range r.value body
  | [k, v] => return .range p (some k) (some v) r.place r.op r.range r.value body
  | _ => failure

def loop (g : Grammar) : Reader Stmt := do
  let p ← demand "for"
  let t ← peek
  let s ← if t.is "\x7b" then do pure (.loop p none none none (← block g))
    else if t.isSeparator then counted g p none
    else if t.is "range" then ranged g p (← ranging g [] 0 "")
    else do
      match ← simple g true true false with
      | .inl r => ranged g p r
      | .inr s =>
        if (← peek).isSeparator then counted g p (some s)
        else do pure (.loop p none (← valueOf? (some s)) none (← block g))
  let _ ← finish
  return s

def startsExpr (t : Token) : Bool :=
  t.kind = .name || t.isLiteral ||
    t.isAny ["func", "(", "[", "struct", "map", "chan", "interface", "+", "-", "*", "&", "^", "~",
      "<-", "!"]

def readStmt (g : Grammar) : Reader Stmt := do
  let t ← peek
  if startsExpr t then
    match ← simple g false false true with
    | .inr (.labeled n c s) => return .labeled n c s
    | .inr s =>
      let _ ← finish
      return s
    | .inl _ => failure
  else
    match t.kind with
    | .separator written =>
      let _ ← take
      return .empty t.place (!written)
    | .keyword =>
      match t.text with
      | "const" | "type" | "var" => return .declare (← decl g)
      | "go" | "defer" => spawn g
      | "return" => leave g
      | "break" | "continue" | "goto" | "fallthrough" => branch
      | "if" => choose g
      | "switch" => switch g
      | "select" => do
        let _ ← take
        return .select t.place (← clauses g (commClause g))
      | "for" => loop g
      | _ => failure
    | _ =>
      if t.is "\x7b" then
        let b ← block g
        let _ ← finish
        return .block b
      else if t.is "\x7d" then return .empty t.place true
      else failure

end TiledAutomata.Emit.Host.Reader
