import TiledAutomata.Emit.Host.Reader.Expr

/-!
# Reading declarations

Brackets behind the name of a type may hold its parameters or the size of an array. Only
what stands in them tells: a name and what can be nothing but a type make a parameter.
-/

namespace TiledAutomata.Emit.Host.Reader

def importSpec (doc : Option Nat) : Reader Spec := do
  let t ← peek
  let n ← if t.kind = .name then some <$> name
    else if t.is "." then do
      let _ ← take
      pure (some ⟨t.place, "."⟩)
    else pure none
  let t ← take
  if t.kind = .text then return .imported doc n t.literal 0 (← finish) else failure

def initial (g : Grammar) : Reader (List Node) := do
  if ← sees "=" then
    let _ ← take
    exprs g false
  else return []

def constSpec (g : Grammar) : Reader Spec := do
  let ns ← names g
  let t ← peek
  if t.kind = .stop || t.isSeparator || t.is ")" then return .value ns none [] (← finish)
  let type ← g.type?
  let vs ← initial g
  return .value ns type vs (← finish)

def varSpec (g : Grammar) : Reader Spec := do
  let ns ← names g
  let type ← if ← sees "=" then pure none else some <$> type g
  let vs ← initial g
  return .value ns type vs (← finish)

def isType : Node → Bool
  | .array _ _ _ | .struct _ _ | .function _ _ _ | .interface _ _ | .map _ _ _
  | .channel _ _ _ _ => true
  | .binary x _ _ y => isType x || isType y
  | .unary _ op _ => op == "~"
  | .group _ x _ => isType x
  | _ => false

/-- An expression as a name and the type behind it, if it can be read so. It is, if the type can be
nothing else or if this is forced. -/
def nameAndType? (forced : Bool) : Node → Option (Name × Option Node)
  | .name n => some (n, none)
  | .binary x p op y =>
    if op = "*" then
      match x with
      | .name n => if forced || isType y then some (n, some (.deref p y)) else none
      | _ => none
    else if op = "|" then
      match nameAndType? (forced || isType y) x with
      | some (n, some l) => some (n, some (.binary l p "|" y))
      | _ => none
    else none
  | .call (.name n) o [x] 0 c => if forced || isType x then some (n, some (.group o x c)) else none
  | _ => none

def typeBody (g : Grammar) : Reader (Place × Node) := do
  let t ← peek
  if t.is "=" then
    let _ ← take
    return (t.place, ← type g)
  else return (0, ← type g)

def typeSpec (g : Grammar) : Reader Spec := do
  let n ← name
  if ← sees "[" then
    let o ← demand "["
    if (← peek).kind != .name then
      let t ← array g o none
      return .type n none 0 t (← finish)
    let x : Node := .name (← name)
    let x ← if ← sees "[" then pure x
      else operators g false 1 g.fuel (← suffixes g false g.fuel x)
    let t ← peek
    match nameAndType? (t.is ",") x with
    | some (p, y) =>
      if y.isSome || !t.is "]" then
        let fs ← params g "]" (some (p, y))
        let c ← demand "]"
        let (a, t) ← typeBody g
        return .type n (some (.mk o fs c)) a t (← finish)
      else
        let t ← array g o (some x)
        return .type n none 0 t (← finish)
    | none =>
      let t ← array g o (some x)
      return .type n none 0 t (← finish)
  else
    let (a, t) ← typeBody g
    return .type n none a t (← finish)

def decl (g : Grammar) : Reader Decl := do
  let t ← take
  let spec : Reader Spec := do
    let lead := (← peek).lead
    match t.text with
    | "import" => importSpec lead
    | "const" => constSpec g
    | "var" => varSpec g
    | "type" => typeSpec g
    | _ => failure
  if !t.isAny ["import", "const", "var", "type"] then failure
  let o ← peek
  if o.is "(" then
    let _ ← take
    let ss ← itemsWhile (fun t => !t.is ")" && t.kind != .stop) spec g.fuel #[]
    let c ← demand ")"
    let _ ← finish
    return .mk t.lead t.place t.text o.place ss c
  else
    let s ← match t.text with
      | "import" => importSpec none
      | _ => spec
    return .mk t.lead t.place t.text 0 [s] 0

end TiledAutomata.Emit.Host.Reader
