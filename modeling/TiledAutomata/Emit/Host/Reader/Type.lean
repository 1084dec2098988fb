import TiledAutomata.Emit.Host.Reader.Basic

/-!
# Reading types

A name before a bracket may be that of a field whose type is an array, or a type with
arguments: what follows the bracket tells.
-/

namespace TiledAutomata.Emit.Host.Reader

def typeName (first : Option Name) : Reader Node := do
  let x ← match first with
    | some n => pure n
    | none => name
  if ← sees "." then
    let _ ← take
    return .select (.name x) (← name)
  else return .name x

def instantiated (g : Grammar) (x : Node) : Reader Node := do
  let o ← demand "["
  let xs ← itemsTo "]" (type g) g.fuel #[]
  let c ← demand "]"
  if xs.isEmpty then failure
  return .index x o xs c

def qualified (g : Grammar) (first : Option Name) : Reader Node := do
  let x ← typeName first
  if ← sees "[" then instantiated g x else return x

def array (g : Grammar) (o : Place) (size : Option Node) : Reader Node := do
  let size ← match size with
    | some n => pure (some n)
    | none => do
      let t ← peek
      if t.is "..." then
        let _ ← take
        pure (some (.dots t.place none))
      else if t.is "]" then pure none
      else some <$> inner g
  let _ ← demand "]"
  return .array o size (← type g)

def term (g : Grammar) : Reader Node := do
  let t ← peek
  if t.is "~" then
    let _ ← take
    return .unary t.place "~" (← type g)
  else type g

def moreTerms (g : Grammar) : Nat → Node → Reader Node
  | 0, _ => failure
  | n + 1, x => do
    let t ← peek
    if t.is "|" then
      let _ ← take
      moreTerms g n (.binary x t.place "|" (← term g))
    else return x

def constraint (g : Grammar) (first : Option Node) : Reader Node := do
  let x ← match first with
    | some x => pure x
    | none => term g
  moreTerms g g.fuel x

/-- Behind a name that a bracket follows: the name with the type of its array, or no name and the
type with arguments. -/
def arrayOrInstance (g : Grammar) (x : Name) : Reader (Option Name × Node) := do
  let o ← demand "["
  if ← sees "]" then
    let _ ← take
    return (some x, .array o none (← type g))
  let item : Reader (Option Node) := do
    if ← sees "]" then return none else return some (← inner g)
  let args ← items item g.fuel #[]
  let c ← demand "]"
  let trailing := args.any (·.isNone)
  match args.filterMap id with
  | [size] =>
    match ← g.type? with
    | some t => if trailing then failure else return (some x, .array o (some size) t)
    | none => return (none, .index (.name x) o [size] c)
  | xs => return (none, .index (.name x) o xs c)

def variadic (g : Grammar) : Reader Node := do
  let p ← demand "..."
  return .dots p (some (← type g))

def param (g : Grammar) (isTypeParam : Bool) (known : Option Name) :
    Reader (Option Name × Option Node) := do
  let t ← peek
  if known.isNone && isTypeParam && t.is "~" then return (none, some (← constraint g none))
  if known.isSome || t.kind = .name then
    let n ← match known with
      | some n => pure n
      | none => name
    let t ← peek
    if t.is "..." then return (some n, some (← variadic g))
    if t.is "~" && isTypeParam then return (some n, some (← constraint g none))
    if t.is "|" && isTypeParam then return (none, some (← constraint g (some (.name n))))
    let (n, x) ← if t.is "[" then do
        let (n, x) ← arrayOrInstance g n
        pure (n, some x)
      else if t.is "." then do
        pure (none, some (← qualified g (some n)))
      else do pure (some n, ← g.type?)
    match x with
    | some x => return (n, some (← if isTypeParam then constraint g (some x) else pure x))
    | none => return (n, none)
  else if t.is "..." then return (none, some (← variadic g))
  else
    let x ← type g
    return (none, some (← if isTypeParam then constraint g (some x) else pure x))

/-- Names without a type of their own have that of the next name that has one. -/
def distribute : List Name → List (Option Name × Option Node) → Option (List Field)
  | [], [] => some []
  | _, [] => none
  | ns, (some n, none) :: ps => distribute (n :: ns) ps
  | ns, (some n, some t) :: ps => do
    return .mk (n :: ns).reverse t none none :: (← distribute [] ps)
  | _, (none, _) :: _ => none

def fieldsOf (isTypeParam : Bool) (ps : List (Option Name × Option Node)) : Option (List Field) :=
  if ps.any fun (n, t) => n.isSome && t.isSome then distribute [] ps
  else if isTypeParam && !ps.isEmpty then none
  else ps.mapM fun
    | (some n, _) => some (.mk [] (.name n) none none)
    | (none, some t) => some (.mk [] t none none)
    | (none, none) => none

def params (g : Grammar) (closing : String) (first : Option (Name × Option Node)) :
    Reader (List Field) := do
  let isTypeParam : Bool := closing == "]"
  let ps ← match first with
    | none => itemsTo closing (param g isTypeParam none) g.fuel #[]
    | some (n, t) => do
      let p ← match t with
        | some t => do pure (some n, some (← constraint g (some t)))
        | none => param g isTypeParam (some n)
      if ← goesOn closing then itemsTo closing (param g isTypeParam none) g.fuel #[p]
      else pure [p]
  match fieldsOf isTypeParam ps with
  | some fs => return fs
  | none => failure

def paramList (g : Grammar) : Reader FieldList := do
  let o ← demand "("
  let fs ← params g ")" none
  return .mk o fs (← demand ")")

def typeParamList (g : Grammar) : Reader FieldList := do
  let o ← demand "["
  let fs ← params g "]" none
  let c ← demand "]"
  if fs.isEmpty then failure
  return .mk o fs c

def results (g : Grammar) : Reader (Option FieldList) := do
  if ← sees "(" then return some (← paramList g)
  match ← g.type? with
  | some t => return some (.mk 0 [.mk [] t none none] 0)
  | none => return none

def functionType (g : Grammar) : Reader Node := do
  let p ← demand "func"
  let ps ← paramList g
  return .function p ps (← results g)

def fieldHead (g : Grammar) : Reader (List Name × Node) := do
  let t ← peek
  if t.is "*" then
    let _ ← take
    return ([], .deref t.place (← qualified g none))
  let x ← name
  let t ← peek
  if t.is "." then return ([], ← qualified g (some x))
  if t.kind = .text || t.isSeparator || t.is "\x7d" then return ([], .name x)
  if t.is "," then
    let _ ← take
    let xs ← names g
    return (x :: xs, ← type g)
  if t.is "[" then
    let (n, y) ← arrayOrInstance g x
    return (n.toList, y)
  return ([x], ← type g)

def field (g : Grammar) : Reader Field := do
  let (ns, x) ← fieldHead g
  let t ← peek
  let tag ← if t.kind = .text then some <$> Token.literal <$> take else pure none
  return .mk ns x tag (← finish)

def structType (g : Grammar) : Reader Node := do
  let p ← demand "struct"
  let o ← demand "\x7b"
  let fs ← itemsWhile (fun t => t.kind = .name || t.is "*") (field g) g.fuel #[]
  return .struct p (.mk o fs (← demand "\x7d"))

def method (g : Grammar) : Reader (List Name × Node) := do
  match ← typeName none with
  | .name n =>
    let t ← peek
    if t.is "[" then
      let o := (← take).place
      let x ← inner g
      let more ← if ← goesOn "]" then itemsTo "]" (type g) g.fuel #[] else pure []
      return ([], .index (.name n) o (x :: more) (← demand "]"))
    else if t.is "(" then
      let ps ← paramList g
      return ([n], .function 0 ps (← results g))
    else return ([], .name n)
  | x => return ([], ← if ← sees "[" then instantiated g x else pure x)

def elements (g : Grammar) : Nat → Array Field → Reader (List Field)
  | 0, _ => failure
  | n + 1, fs => do
    let t ← peek
    if t.kind = .name then
      let (ns, x) ← method g
      let x ← if ns.isEmpty then constraint g (some x) else pure x
      elements g n (fs.push (.mk ns x none (← finish)))
    else if t.is "~" then
      let x ← constraint g none
      elements g n (fs.push (.mk [] x none (← finish)))
    else
      match ← g.type? with
      | some x =>
        let x ← constraint g (some x)
        elements g n (fs.push (.mk [] x none (← finish)))
      | none => return fs.toList

def interfaceType (g : Grammar) : Reader Node := do
  let p ← demand "interface"
  let o ← demand "\x7b"
  let fs ← elements g g.fuel #[]
  return .interface p (.mk o fs (← demand "\x7d"))

def readType? (g : Grammar) : Reader (Option Node) := do
  let t ← peek
  if t.kind = .name then return some (← qualified g none)
  if t.is "[" then
    let o ← demand "["
    return some (← array g o none)
  if t.is "struct" then return some (← structType g)
  if t.is "*" then
    let p ← demand "*"
    return some (.deref p (← type g))
  if t.is "func" then return some (← functionType g)
  if t.is "interface" then return some (← interfaceType g)
  if t.is "map" then
    let p ← demand "map"
    let _ ← demand "["
    let k ← type g
    let _ ← demand "]"
    return some (.map p k (← type g))
  if t.is "chan" then
    let p ← demand "chan"
    let a ← peek
    if a.is "<-" then
      let _ ← take
      return some (.channel p .send a.place (← type g))
    else return some (.channel p .both 0 (← type g))
  if t.is "<-" then
    let p ← demand "<-"
    let _ ← demand "chan"
    return some (.channel p .receive p (← type g))
  if t.is "(" then
    let o ← demand "("
    let x ← type g
    return some (.group o x (← demand ")"))
  return none

end TiledAutomata.Emit.Host.Reader
