import TiledAutomata.Proofs.Target.Numbers
import TiledAutomata.Proofs.Target.Term

/-!
# Values of the shader language

Signed and unsigned words, whose arithmetic wraps, and what the memory of a kernel holds.
Every literal has a type, and none is ever changed into another but by a call.
-/

namespace TiledAutomata.Emit.Shader

open Target

inductive Value where
  | i32 (v : Int32)
  | u32 (v : UInt32)
  | bool (b : Bool)
  | words (ws : Words)
  | units (us : Array Vars)
  | unit (vars : Vars)
  /-- The parameters of a launch, of which the size of the input is read. -/
  | params (inputSize : UInt32)

namespace Value

def type : Value → String
  | .i32 _ => "i32"
  | .u32 _ => "u32"
  | .bool _ => "bool"
  | .words _ => "array<i32>"
  | .units _ => "array<Unit>"
  | .unit _ => "Unit"
  | .params _ => "Params"

def lettered? (n : Nat) : Char → Option Value
  | 'i' => if n < 2 ^ 31 then some (.i32 (Int32.ofNat n)) else none
  | 'u' => if n < 2 ^ 32 then some (.u32 (UInt32.ofNat n)) else none
  | _ => none

def literal? (s : String) : Option Value := do
  let n ← decimal? (String.ofList s.toList.dropLast)
  lettered? n (← s.toList.getLast?)

def unary? : String → Value → Option Value
  | "-", .i32 v => some (.i32 (-v))
  | "~", .i32 v => some (.i32 (~~~v))
  | _, _ => none

def shifted? (op : String) : Value → Value → Option Value
  | .i32 x, .u32 n =>
    if n < 32 then (shift? op x.toInt n.toNat).map fun z => .i32 (Int32.ofInt z) else none
  | .u32 x, .u32 n =>
    if n < 32 then (shift? op x.toNat n.toNat).map fun z => .u32 (UInt32.ofInt z) else none
  | _, _ => none

/-- A division has no result by zero, and none that a word cannot hold. -/
def binary? (op : String) (x y : Value) : Option Value :=
  if op = "<<" ∨ op = ">>" then shifted? op x y
  else
    match x, y with
    | .i32 x, .i32 y => operate? .bool .i32 (y ≠ 0 ∧ ¬(x = Int32.minValue ∧ y = -1)) op x y
    | .u32 x, .u32 y => operate? .bool .u32 (y ≠ 0) op x y
    | _, _ => none

def select? : Value → String → Option Value
  | .unit vars, f => some (.i32 (vars f))
  | .params n, "input_size" => some (.u32 n)
  | _, _ => none

def index? : Value → Value → Option Value
  | .words ws, .u32 i => ws[i.toNat]?.map .i32
  | .units us, .u32 i => us[i.toNat]?.map .unit
  | _, _ => none

def builtin? : Calls Value
  | "select", [], [x, y, .bool c] => if x.type = y.type then some (if c then y else x) else none
  | "i32", [], [.u32 v] => some (.i32 v.toInt32)
  | "u32", [], [.i32 v] => some (.u32 v.toUInt32)
  | "bitcast", ["i32"], [.u32 v] => some (.i32 v.toInt32)
  | "bitcast", ["u32"], [.i32 v] => some (.u32 v.toUInt32)
  | _, _, _ => none

def assigned? (type : String) (v : Value) : Option Value := if v.type = type then some v else none

def truth? : Value → Option Bool
  | .bool b => some b
  | _ => none

end Value

@[simps]
def machine : Machine Value where
  literal := Value.literal?
  unary := Value.unary?
  binary := Value.binary?
  select := Value.select?
  index := Value.index?
  builtin := Value.builtin?
  bool := .bool
  truth := Value.truth?
  typeOf := Value.type
  convert := Value.assigned?

namespace Value

@[simp] theorem assigned?_type (v : Value) : assigned? v.type v = some v := by
  simp [assigned?]

@[simp] theorem assigned?_i32 (a : Word) : assigned? "i32" (.i32 a) = some (.i32 a) := rfl

@[simp] theorem assigned?_bool (b : Bool) : assigned? "bool" (.bool b) = some (.bool b) := rfl

theorem literal?_append (n : Nat) {c : Char} {t : String} (ht : t.toList = [c]) :
    literal? (toString n ++ t) = lettered? n c := by
  have hlist : (toString n ++ t).toList = (toString n).toList ++ [c] := by
    rw [String.toList_append, ht]
  rw [literal?, hlist, List.dropLast_concat, String.ofList_toList, decimal?_toString,
    List.getLast?_concat]
  rfl

theorem literals : literal? "0i" = some (.i32 0) ∧ literal? "1i" = some (.i32 1) ∧
    literal? "2147483647i" = some (.i32 2147483647) ∧ literal? "31u" = some (.u32 31) := by
  have hzero : "0i" = toString 0 ++ "i" := by decide
  have hone : "1i" = toString 1 ++ "i" := by decide
  have hmax : "2147483647i" = toString 2147483647 ++ "i" := by decide
  have hmask : "31u" = toString 31 ++ "u" := by decide
  rw [hzero, hone, hmax, hmask]
  simp only [literal?_append _ (show "i".toList = ['i'] by decide),
    literal?_append _ (show "u".toList = ['u'] by decide)]
  exact ⟨rfl, rfl, rfl, rfl⟩

end Value

end TiledAutomata.Emit.Shader
