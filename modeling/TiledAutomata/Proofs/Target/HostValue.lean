import TiledAutomata.Proofs.Target.Numbers
import TiledAutomata.Proofs.Target.Term

/-!
# Values of the host language

Numbers of fixed width, whose arithmetic wraps, and constants, which are exact until they
meet a number with a type.
-/

namespace TiledAutomata.Emit.Host

open Target

/-- A value of the host language. A constant has no type until it meets one. -/
inductive Value where
  | constant (n : Int)
  | int32 (v : Int32)
  | uint32 (v : UInt32)
  | int64 (v : Int64)
  | int (v : Int64)
  | bool (b : Bool)
  | words (ws : Words)
  | unit (vars : Vars)

namespace Value

def type : Value → String
  | .constant _ => "int"
  | .int32 _ => "int32"
  | .uint32 _ => "uint32"
  | .int64 _ => "int64"
  | .int _ => "int"
  | .bool _ => "bool"
  | .words _ => "[]int32"
  | .unit _ => "unit"

def number? : Value → Option Int
  | .constant n => some n
  | .int32 v => some v.toInt
  | .uint32 v => some v.toNat
  | .int64 v => some v.toInt
  | .int v => some v.toInt
  | _ => none

/-- The number of a type that agrees with an integer in as many bits as the type has. -/
def wrapped? (type : String) (n : Int) : Option Value :=
  match type with
  | "int32" => some (.int32 (Int32.ofInt n))
  | "uint32" => some (.uint32 (UInt32.ofInt n))
  | "int64" => some (.int64 (Int64.ofInt n))
  | "int" => some (.int (Int64.ofInt n))
  | _ => none

def represented? (type : String) (n : Int) : Option Value := do
  let v ← wrapped? type n
  if v.number? = some n then return v else none

def typed? (op : String) : Value → Value → Option Value
  | .int32 x, .int32 y => operate? .bool .int32 (y ≠ 0) op x y
  | .uint32 x, .uint32 y => operate? .bool .uint32 (y ≠ 0) op x y
  | .int64 x, .int64 y => operate? .bool .int64 (y ≠ 0) op x y
  | .int x, .int y => operate? .bool .int (y ≠ 0) op x y
  | _, _ => none

def shifted? (op : String) : Value → Value → Option Value
  | .constant _, _ => none
  | x, y => do
    let n ← y.number?
    if n < 0 then none else wrapped? x.type (← shift? op (← x.number?) n.toNat)

def binary? (op : String) (x y : Value) : Option Value :=
  if op = "<<" ∨ op = ">>" then shifted? op x y
  else
    match x, y with
    | .constant a, .constant b => (compare? op a b).map .bool
    | .constant a, y => do typed? op (← represented? y.type a) y
    | x, .constant b => do typed? op x (← represented? x.type b)
    | x, y => typed? op x y

def unary? : String → Value → Option Value
  | "-", .constant n => some (.constant (-n))
  | "-", .int32 v => some (.int32 (-v))
  | "^", .int32 v => some (.int32 (~~~v))
  | _, _ => none

def literal? (s : String) : Option Value := do
  return .constant (← decimal? s)

def select? : Value → String → Option Value
  | .unit vars, f => some (.int32 (vars f))
  | _, _ => none

def index? : Value → Value → Option Value
  | .words ws, i => do
    let n ← i.number?
    if 0 ≤ n ∧ n < ws.size then return .int32 (ws.getD n.toNat 0) else none
  | _, _ => none

def builtin? : Calls Value
  | "len", [], [.words ws] => some (.int (Int64.ofNat ws.size))
  | type, [], [.constant n] => represented? type n
  | type, [], [v] => do wrapped? type (← v.number?)
  | _, _, _ => none

/-- A value where one of a type is wanted: only a constant has no type of its own. -/
def assigned? (type : String) : Value → Option Value
  | .constant n => represented? type n
  | v => if v.type = type then some v else none

def truth? : Value → Option Bool
  | .bool b => some b
  | _ => none

end Value

@[simps]
def machine : Machine Value where
  literal := Value.literal?
  unary := Value.unary?
  binary := Value.binary?
  select := Value.select?
  index := Value.index?
  builtin := Value.builtin?
  bool := .bool
  truth := Value.truth?
  typeOf := Value.type
  convert := Value.assigned?

namespace Value

@[simp] theorem assigned?_int32 (a : Word) : assigned? "int32" (.int32 a) = some (.int32 a) := rfl

@[simp] theorem assigned?_int64 (a : Int64) : assigned? "int64" (.int64 a) = some (.int64 a) := rfl

@[simp] theorem assigned?_bool (b : Bool) : assigned? "bool" (.bool b) = some (.bool b) := rfl

@[simp] theorem assigned?_words (ws : Words) :
    assigned? "[]int32" (.words ws) = some (.words ws) := rfl

@[simp] theorem represented?_toInt (a : Word) :
    represented? "int32" a.toInt = some (.int32 a) := by
  simp [represented?, wrapped?, number?]

@[simp] theorem assigned?_constant (a : Word) :
    assigned? "int32" (.constant a.toInt) = some (.int32 a) :=
  represented?_toInt a

theorem literal?_toString (n : Nat) : literal? (toString n) = some (.constant n) := by
  rw [literal?, decimal?_toString]
  rfl

theorem shifted?_int32 (op : String) (a : Word) (k : UInt32) :
    shifted? op (.int32 a) (.uint32 k) =
      (shift? op a.toInt k.toNat).map fun n => .int32 (Int32.ofInt n) := by
  have hk : ¬(k.toNat : Int) < 0 := by omega
  simp [shifted?, number?, type, wrapped?, hk, Option.map_eq_bind]

theorem shifted?_uint32 (op : String) (a k : UInt32) :
    shifted? op (.uint32 a) (.uint32 k) =
      (shift? op a.toNat k.toNat).map fun n => .uint32 (UInt32.ofInt n) := by
  have hk : ¬(k.toNat : Int) < 0 := by omega
  simp [shifted?, number?, type, wrapped?, hk, Option.map_eq_bind]

theorem literals : literal? "0" = some (.constant 0) ∧ literal? "1" = some (.constant 1) ∧
    literal? "31" = some (.constant 31) :=
  ⟨literal?_toString 0, literal?_toString 1, literal?_toString 31⟩

@[simp] theorem represented?_zero : represented? "int32" 0 = some (.int32 0) :=
  represented?_toInt 0

@[simp] theorem assigned?_zero : assigned? "int32" (.constant 0) = some (.int32 0) :=
  assigned?_constant 0

@[simp] theorem assigned?_one : assigned? "int32" (.constant 1) = some (.int32 1) :=
  assigned?_constant 1

end Value

end TiledAutomata.Emit.Host
