import TiledAutomata.Emit.Block
import TiledAutomata.Emit.Host.Format
import TiledAutomata.Expr.Dialect
import TiledAutomata.Program

/-!
# The host package of a program

A package with one exported function that advances one instance, in the standard layout
of the host language. Names of variables are put into it as they are, and may be more
than names there.
-/

namespace TiledAutomata.Emit.Package

open Block

def call (name : String) (args : List String) : String :=
  name ++ "(" ++ ", ".intercalate args ++ ")"

def field (name : String) : String := "u." ++ name

/-- Variables are fields of a unit. -/
def env : Dialect.Env where
  ident := field
  input i := call "caInput" ["input", i]
  inputLength := "int32(len(input))"

def value (a : Assign) : String :=
  let v := a.value.print Dialect.host env
  match a.op with
  | some o => Dialect.host.binary o (field a.target) v
  | none => v

def assignment (a : Assign) : String := field a.target ++ " = " ++ value a

def slot (k : Nat) (unit : String) : String := "[" ++ toString k ++ "*UnitCount+" ++ unit ++ "]"

def eachUnit (calls : List String) : Block :=
  braces "for lu := range units" (calls.map fun c => .line ("units[lu]." ++ c))

def update : List Block :=
  [.line "// Update advances one automaton instance. Map entries must lie in [0, StateSize).",
    braces "func Update(state, input, inputMap, outputMap, output []int32)" [
      braces "for i := range input" [.line "state[inputMap[i]] = input[i]"],
      .line "scratch := make([]int32, ExternalCount*UnitCount)",
      .line "var units [UnitCount]unit",
      eachUnit ["load(state, lu)", "publish(scratch, lu)"],
      eachUnit ["constants(input)"],
      braces "for it := 0; it < IterationsPerUpdate; it++" [
        eachUnit ["snapshot(scratch, lu)"],
        eachUnit ["update(input)"],
        eachUnit ["publish(scratch, lu)"]],
      eachUnit ["store(state, lu)"],
      braces "for i := range output" [.line "output[i] = state[outputMap[i]]"]],
    blank]

def phases (p : Program) : List Block :=
  let phase (head : String) (body : List String) : Block :=
    braces ("func (u *unit) " ++ head) (body.map .line)
  [braces "type unit struct" (p.vars.map fun v => .line (v ++ " int32")),
    phase "load(state []int32, lu int)" (p.layout.names.zipIdx.map fun (n, s) =>
      field n ++ " = state" ++ slot s "lu"),
    phase "publish(scratch []int32, lu int)" (p.readings.zipIdx.map fun (r, i) =>
      "scratch" ++ slot i "lu" ++ " = " ++ field r.source),
    phase "snapshot(scratch []int32, lu int)" (p.readings.zipIdx.map fun (r, i) =>
      field r.name ++ " = scratch" ++
        slot i (call "neighbor" ["lu", toString r.relRow, toString r.relCol])),
    phase "constants(input []int32)" (p.constant.map assignment),
    phase "update(input []int32)" (p.dynamic.map assignment),
    phase "store(state []int32, lu int)" (p.stored.map fun s =>
      "state" ++ slot s "lu" ++ " = " ++ field (p.layout.names.getD s ""))]

def neighbor (p : Program) : Block :=
  braces "func neighbor(lu, relRow, relCol int) int" (
    .line ("const width, height = " ++ toString p.width.toInt ++ ", " ++ toString p.height.toInt) ::
    match p.addressing with
    | .toroidal => [
      .line "row, col := lu/width, lu%width",
      .line "return ((row+relRow+height)%height)*width + (col+relCol+width)%width"]
    | .flat => [
      .line "const total = width * height",
      .line "return ((lu+relRow*width+relCol)%total + total) % total"])

def helpers : List Block :=
  spaced [
    braces "func caBool(b bool) int32" [braces "if b" [.line "return 1"], .line "return 0"],
    braces "func caSelect(c bool, a, b int32) int32" [
      braces "if c" [.line "return a"], .line "return b"],
    braces "func caDiv(a, b int32) int32" [
      braces "if b == 0" [.line "return 0"], .line "return a / b"],
    braces "func caMod(a, b int32) int32" [
      braces "if b == 0" [.line "return 0"], .line "return a % b"]] ++
  [.line "func caShl(a, b int32) int32  \x7b return a << (uint32(b) & 31) \x7d",
    .line "func caShr(a, b int32) int32  \x7b return a >> (uint32(b) & 31) \x7d",
    .line "func caUshr(a, b int32) int32 \x7b return int32(uint32(a) >> (uint32(b) & 31)) \x7d",
    blank,
    braces "func caInput(in []int32, i int32) int32" [
      .line "n := int64(len(in))",
      braces "if n == 0" [.line "return 0"],
      .line "j := int64(i) % n",
      braces "if j < 0" [.line "j += n"],
      .line "return in[j]"]]

def draft (p : Program) (name : String) : String :=
  Block.source "\t" (
    [.line "// Code generated by cagen. DO NOT EDIT.", blank, .line ("package " ++ name), blank,
      .nested "const (" ([("UnitCount", toString p.units.toInt),
        ("UnitStateSize", toString p.unitStateSize.toInt),
        ("StateSize", "UnitCount * UnitStateSize"),
        ("ExternalCount", toString p.readings.length),
        ("IterationsPerUpdate", toString p.iterations.toInt)].map fun (n, v) =>
          .line (n ++ " = " ++ v)) ")",
      blank] ++
    update ++ spaced (phases p ++ [neighbor p]) ++ helpers)

def source (p : Program) (name : String) : Except Error String :=
  match Host.format (draft p name) with
  | some s => .ok s
  | none => .error .unformattable

end TiledAutomata.Emit.Package
