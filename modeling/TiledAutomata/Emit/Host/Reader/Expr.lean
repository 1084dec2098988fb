import TiledAutomata.Emit.Host.Reader.Type

/-!
# Reading expressions

An operand takes what is selected, indexed, called or listed behind it; unary operators
stand before it and binary operators between operands, by how tightly they bind.
-/

namespace TiledAutomata.Emit.Host.Reader

def closure (g : Grammar) : Reader Node := do
  let t ← functionType g
  if ← sees "\x7b" then return .closure t (← block g) else return t

def operand (g : Grammar) : Reader Node := do
  let t ← peek
  if t.kind = .name then return .name (← name)
  if t.isLiteral then return .literal (← take).literal
  if t.is "(" then
    let _ ← take
    let x ← inner g
    return .group t.place x (← demand ")")
  if t.is "func" then closure g else type g

def indexed (g : Grammar) (x : Node) : Reader Node := do
  let o ← demand "["
  let bound : Reader (Option Node) := do
    if (← peek).isAny [":", "]"] then return none else return some (← inner g)
  let low ← bound
  let t ← peek
  if t.is ":" then
    let _ ← take
    let high ← bound
    if ← sees ":" then
      let _ ← take
      let top ← bound
      if high.isNone || top.isNone then failure
      return .slice x o low high top (← demand "]")
    return .slice x o low high none (← demand "]")
  match low with
  | none => failure
  | some i =>
    let more ← if t.is "," then do
        let _ ← take
        itemsTo "]" (type g) g.fuel #[]
      else pure []
    return .index x o (i :: more) (← demand "]")

def arguments (g : Grammar) : Nat → Array Node → Reader (List Node × Place)
  | 0, _ => failure
  | n + 1, xs => do
    if ← sees ")" then return (xs.toList, 0)
    let x ← inner g
    let t ← peek
    if t.is "..." then
      let _ ← take
      let _ ← goesOn ")"
      return ((xs.push x).toList, t.place)
    if ← goesOn ")" then arguments g n (xs.push x)
    else return ((xs.push x).toList, 0)

def listed (g : Grammar) : Nat → Option Node → Reader Node
  | 0, _ => failure
  | n + 1, type => do
    let o ← demand "\x7b"
    let value : Reader Node := do
      if ← sees "\x7b" then listed g n none else inner g
    let item : Reader Node := do
      let k ← value
      let t ← peek
      if t.is ":" then
        let _ ← take
        return .pair k t.place (← value)
      else return k
    let xs ← itemsTo "\x7d" item g.fuel #[]
    return .composite type o xs (← demand "\x7d")

def isListed (inHead : Bool) : Node → Bool
  | .name _ | .select _ _ | .index _ _ _ _ => !inHead
  | .array _ _ _ | .struct _ _ | .map _ _ _ => true
  | .group _ x _ => isListed inHead x
  | _ => false

def isGroup : Node → Bool
  | .group _ _ _ => true
  | _ => false

def suffixes (g : Grammar) (inHead : Bool) : Nat → Node → Reader Node
  | 0, _ => failure
  | n + 1, x => do
    let t ← peek
    if t.is "." then
      let _ ← take
      let t ← peek
      if t.is "(" then
        let _ ← take
        let y ← if ← sees "type" then do
            let _ ← take
            pure none
          else some <$> type g
        suffixes g inHead n (.assert x t.place y (← demand ")"))
      else suffixes g inHead n (.select x (← name))
    else if t.is "[" then suffixes g inHead n (← indexed g x)
    else if t.is "(" then
      let _ ← take
      let (args, spread) ← arguments g g.fuel #[]
      suffixes g inHead n (.call x t.place args spread (← demand ")"))
    else if t.is "\x7b" && isListed inHead x then
      if isGroup x then failure
      suffixes g inHead n (← listed g g.fuel (some x))
    else return x

/-- An arrow before a channel type belongs to it: it makes the channel one to receive from, and an
arrow behind `chan` belongs to the type of its elements. -/
def received? (arrow : Place) : Node → Option Node
  | .channel _ .both _ x => some (.channel arrow .receive arrow x)
  | .channel _ .send a x => (received? a x).map fun y => .channel arrow .receive arrow y
  | _ => none

def readUnary (g : Grammar) (inHead : Bool) : Reader Node := do
  let t ← peek
  if t.isAny ["+", "-", "!", "^", "&", "~"] then
    let _ ← take
    return .unary t.place t.text (← g.unary inHead)
  if t.is "<-" then
    let _ ← take
    match ← g.unary inHead with
    | .channel p d a x =>
      match received? t.place (.channel p d a x) with
      | some y => return y
      | none => failure
    | x => return .unary t.place "<-" x
  if t.is "*" then
    let _ ← take
    return .deref t.place (← g.unary inHead)
  suffixes g inHead g.fuel (← operand g)

def operators (g : Grammar) (inHead : Bool) (level : Nat) : Nat → Node → Reader Node
  | 0, _ => failure
  | n + 1, x => do
    let t ← peek
    match if t.kind = .mark then level? t.text else none with
    | none => return x
    | some l =>
      if l < level then return x
      let _ ← take
      operators g inHead level n (.binary x t.place t.text (← g.expr inHead (l + 1)))

def readExpr (g : Grammar) (inHead : Bool) (level : Nat) : Reader Node := do
  operators g inHead level g.fuel (← g.unary inHead)

end TiledAutomata.Emit.Host.Reader
