import TiledAutomata.Word

/-!
# Code of a target language

Terms and functions as a reader of a target leaves them, and their values on a machine
that knows the literals, operators and built-in functions of the target. Where the target
gives no value, or would not accept the code, there is none here.
-/

namespace TiledAutomata.Target

mutual

/-- An expression, with its brackets. A call may name types before its arguments. -/
inductive Term where
  | name (x : String)
  | literal (text : String)
  | group (x : Term)
  | select (x : Term) (field : String)
  | index (x i : Term)
  | call (f : String) (types : List String) (args : Terms)
  | unary (op : String) (x : Term)
  | binary (op : String) (x y : Term)
  deriving DecidableEq

inductive Terms where
  | nil
  | cons (x : Term) (xs : Terms)
  deriving DecidableEq

end

def Terms.ofList : List Term → Terms
  | [] => .nil
  | x :: xs => .cons x (ofList xs)

/-- The statements of a function, each with those behind it. -/
inductive Body where
  | done
  | leave (x : Term)
  | define (name : String) (x : Term) (rest : Body)
  | assign (name : String) (x : Term) (rest : Body)
  | choose (test : Term) (yes rest : Body)
  deriving DecidableEq

structure Function where
  name : String
  params : List (String × String)
  result : String
  body : Body
  deriving DecidableEq

abbrev Scope (V : Type) := List (String × V)

abbrev Calls (V : Type) := String → List String → List V → Option V

/-- What the parts of a target's terms mean. -/
structure Machine (V : Type) where
  literal : String → Option V
  unary : String → V → Option V
  binary : String → V → V → Option V
  select : V → String → Option V
  index : V → V → Option V
  builtin : Calls V
  bool : Bool → V
  truth : V → Option Bool
  /-- The type of a variable that is made for a value. -/
  typeOf : V → String
  /-- A value where one of a type is wanted. -/
  convert : String → V → Option V

/-- The left operand that settles an operator which need not look at the right one. -/
def settling? (op : String) : Option Bool :=
  if op = "&&" then some false else if op = "||" then some true else none

namespace Machine

variable {V : Type} (m : Machine V)

mutual

def eval (calls : Calls V) (scope : Scope V) : Term → Option V
  | .name x => scope.lookup x
  | .literal s => m.literal s
  | .group x => eval calls scope x
  | .select x f => do m.select (← eval calls scope x) f
  | .index x i => do m.index (← eval calls scope x) (← eval calls scope i)
  | .call f types args => do calls f types (← evalAll calls scope args)
  | .unary op x => do m.unary op (← eval calls scope x)
  | .binary op x y =>
    match settling? op with
    | none => do m.binary op (← eval calls scope x) (← eval calls scope y)
    | some b => do
      if (← m.truth (← eval calls scope x)) = b then return m.bool b
      else return m.bool (← m.truth (← eval calls scope y))

def evalAll (calls : Calls V) (scope : Scope V) : Terms → Option (List V)
  | .nil => some []
  | .cons x xs => do return (← eval calls scope x) :: (← evalAll calls scope xs)

end

def update (name : String) (v : V) : Scope V → Option (Scope V)
  | [] => none
  | (n, old) :: scope =>
    if n = name then do return (n, ← m.convert (m.typeOf old) v) :: scope
    else do return (n, old) :: (← update name v scope)

def exec (calls : Calls V) : Scope V → Body → Option (V ⊕ Scope V)
  | scope, .done => some (.inr scope)
  | scope, .leave x => do return .inl (← m.eval calls scope x)
  | scope, .define n x rest => do
    let v ← m.eval calls scope x
    exec calls ((n, ← m.convert (m.typeOf v) v) :: scope) rest
  | scope, .assign n x rest => do
    exec calls (← m.update n (← m.eval calls scope x) scope) rest
  | scope, .choose c yes rest => do
    if ← m.truth (← m.eval calls scope c) then
      match ← exec calls scope yes with
      | .inl v => return .inl v
      | .inr inner => exec calls (inner.drop (inner.length - scope.length)) rest
    else exec calls scope rest

def passed : List (String × String) → List V → Option (Scope V)
  | [], [] => some []
  | (n, t) :: ps, v :: vs => do return (n, ← m.convert t v) :: (← passed ps vs)
  | _, _ => none

def apply (calls : Calls V) (globals : Scope V) (f : Function) (args : List V) : Option V := do
  match ← m.exec calls ((← m.passed f.params args) ++ globals) f.body with
  | .inl v => m.convert f.result v
  | .inr _ => none

/-- Calls of functions, which may call each other to a depth, and of what is built in. -/
def calls (globals : Scope V) (fs : List Function) : Nat → Calls V
  | 0 => m.builtin
  | depth + 1 => fun f types args =>
    match fs.find? fun g => g.name = f with
    | some g => if types = [] then m.apply (calls globals fs depth) globals g args else none
    | none => m.builtin f types args

/-! ### Operators that look at one operand first -/

section Logical

variable {m} {calls : Calls V} {scope : Scope V} {x y : Term} {p q : Bool}

section

variable (hm : ∀ b, m.truth (m.bool b) = some b)
  (hx : m.eval calls scope x = some (m.bool p)) (hy : m.eval calls scope y = some (m.bool q))

include hm hx hy

theorem eval_and : m.eval calls scope (.binary "&&" x y) = some (m.bool (p && q)) := by
  cases p <;> simp [eval, settling?, hx, hy, hm]

theorem eval_or : m.eval calls scope (.binary "||" x y) = some (m.bool (p || q)) := by
  cases p <;> simp [eval, settling?, hx, hy, hm]

end

end Logical

/-! ### Statements one by one -/

section Statements

variable {m} {calls : Calls V} {scope inner : Scope V} {x : Term} {v w : V} {n : String}
  {yes rest : Body}

section

variable (h : m.eval calls scope x = some v)

include h

theorem exec_leave : m.exec calls scope (.leave x) = some (.inl v) := by
  simp [exec, h]

theorem exec_define (hv : m.convert (m.typeOf v) v = some w) :
    m.exec calls scope (.define n x rest) = m.exec calls ((n, w) :: scope) rest := by
  simp [exec, h, hv]

theorem exec_choose_no (hv : m.truth v = some false) :
    m.exec calls scope (.choose x yes rest) = m.exec calls scope rest := by
  simp [exec, h, hv]

theorem exec_choose_leaves (hv : m.truth v = some true)
    (hy : m.exec calls scope yes = some (.inl w)) :
    m.exec calls scope (.choose x yes rest) = some (.inl w) := by
  simp [exec, h, hv, hy]

theorem exec_choose_goes (hv : m.truth v = some true)
    (hy : m.exec calls scope yes = some (.inr inner)) : m.exec calls scope (.choose x yes rest) =
      m.exec calls (inner.drop (inner.length - scope.length)) rest := by
  simp [exec, h, hv, hy]

end

theorem apply_leaves {globals : Scope V} {f : Function} {args : List V}
    (hp : m.passed f.params args = some scope)
    (hb : m.exec calls (scope ++ globals) f.body = some (.inl v))
    (hv : m.convert f.result v = some w) : m.apply calls globals f args = some w := by
  simp [apply, hp, hb, hv]

end Statements

end Machine

end TiledAutomata.Target
