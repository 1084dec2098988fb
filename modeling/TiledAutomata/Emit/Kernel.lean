import TiledAutomata.Emit.Block
import TiledAutomata.Expr.Dialect
import TiledAutomata.Program

/-!
# The compute kernel of a program

One work group advances one instance. Its invocations share the units in strides and
meet at barriers between the phases of an update.
-/

namespace TiledAutomata.Emit.Kernel

open Block

def env : Dialect.Env where
  ident x := "units[k]." ++ x
  input i := "ca_input(" ++ i ++ ")"
  inputLength := "i32(params.input_size)"

def bindings : List (String × String) :=
  [("var<storage, read_write>", "state: array<i32>"),
    ("var<storage, read>", "input: array<i32>"),
    ("var<storage, read>", "input_map: array<i32>"),
    ("var<storage, read>", "output_map: array<i32>"),
    ("var<storage, read_write>", "output: array<i32>"),
    ("var<storage, read_write>", "scratch: array<i32>"),
    ("var<uniform>", "params: Params")]

def constants (p : Program) (perInvocation : Int64) : List Block :=
  [("UNITS", p.units), ("UNIT_STATE", p.unitStateSize), ("STATE_SIZE", p.stateSize),
    ("EXTERNALS", Int64.ofNat p.readings.length), ("ITERATIONS", p.iterations),
    ("WORKGROUP", p.workgroup), ("PER_INVOCATION", perInvocation)].map
      (fun (n, v) => .line ("const " ++ n ++ ": u32 = " ++ toString v.toInt ++ "u;")) ++
  [("GRID_WIDTH", p.width), ("GRID_HEIGHT", p.height)].map
      (fun (n, v) => .line ("const " ++ n ++ ": i32 = " ++ toString v.toInt ++ "i;"))

def helpers : List Block :=
  spaced [
    braces "fn ca_bool(b: bool) -> i32" [.line "return select(0i, 1i, b);"],
    braces "fn ca_div(a: i32, b: i32) -> i32" [
      braces "if (b == 0i)" [.line "return 0i;"],
      braces "if (a == -2147483647i - 1i && b == -1i)" [.line "return a;"],
      .line "return a / b;"],
    braces "fn ca_mod(a: i32, b: i32) -> i32" [
      braces "if (b == 0i || b == -1i)" [.line "return 0i;"],
      .line "return a % b;"],
    braces "fn ca_shl(a: i32, b: i32) -> i32" [.line "return a << (bitcast<u32>(b) & 31u);"],
    braces "fn ca_shr(a: i32, b: i32) -> i32" [.line "return a >> (bitcast<u32>(b) & 31u);"],
    braces "fn ca_ushr(a: i32, b: i32) -> i32" [
      .line "return bitcast<i32>(bitcast<u32>(a) >> (bitcast<u32>(b) & 31u));"],
    braces "fn ca_input(i: i32) -> i32" [
      .line "let n = i32(params.input_size);",
      braces "if (n == 0i)" [.line "return 0i;"],
      .line "var j = i % n;",
      braces "if (j < 0i)" [.line "j = j + n;"],
      .line "return input[input_base + u32(j)];"]]

def neighbor (a : Addressing) : Block :=
  braces "fn neighbor(lu: u32, rel_row: i32, rel_col: i32) -> u32" (.line "let unit = i32(lu);" ::
    match a with
    | .toroidal => [
      .line "let row = unit / GRID_WIDTH;",
      .line "let col = unit % GRID_WIDTH;",
      .line ("return u32(((row + rel_row + GRID_HEIGHT) % GRID_HEIGHT) * GRID_WIDTH + " ++
        "(col + rel_col + GRID_WIDTH) % GRID_WIDTH);")]
    | .flat => [
      .line "let total = GRID_WIDTH * GRID_HEIGHT;",
      .line "return u32(((unit + rel_row * GRID_WIDTH + rel_col) % total + total) % total);"])

def strided (base : String) (slot : Nat) (unit : String) : String :=
  base ++ " + " ++ toString slot ++ "u * UNITS + " ++ unit

def assignment (a : Assign) : Block :=
  let value := a.value.print .shader env
  let value := match a.op with
    | some o => Dialect.shader.binary o (env.ident a.target) value
    | none => value
  .line (env.ident a.target ++ " = " ++ value ++ ";")

def phases (p : Program) : List Block :=
  [braces "fn load_unit(k: u32, lu: u32)" (p.layout.names.zipIdx.map fun (n, s) =>
      .line (env.ident n ++ " = state[" ++ strided "state_base" s "lu" ++ "];")),
    braces "fn publish(k: u32, lu: u32)" (p.readings.zipIdx.map fun (r, i) =>
      .line ("scratch[" ++ strided "scratch_base" i "lu" ++ "] = " ++ env.ident r.source ++ ";")),
    braces "fn snapshot(k: u32, lu: u32)" (p.readings.zipIdx.map fun (r, i) =>
      .line (env.ident r.name ++ " = scratch[" ++ strided "scratch_base" i
        ("neighbor(lu, " ++ toString r.relRow ++ "i, " ++ toString r.relCol ++ "i)") ++ "];")),
    braces "fn constants(k: u32)" (p.constant.map assignment),
    braces "fn advance(k: u32)" (p.dynamic.map assignment),
    braces "fn store_unit(k: u32, lu: u32)" (p.stored.map fun s =>
      .line ("state[" ++ strided "state_base" s "lu" ++ "] = " ++
        env.ident (p.layout.names.getD s "") ++ ";"))]

def forUnits (calls : List String) : Block :=
  braces "for (var k = 0u; k < PER_INVOCATION; k = k + 1u)" [
    .line "let lu = lid + k * WORKGROUP;",
    braces "if (lu < UNITS)" (calls.map .line)]

def barrier : List Block := [.line "storageBarrier();", .line "workgroupBarrier();"]

def copy (size statement : String) : Block :=
  braces "if (lid == 0u)" [
    braces ("for (var i = 0u; i < params." ++ size ++ "; i = i + 1u)") [.line statement]]

def entry (workgroup : Int64) : List Block :=
  [.line ("@compute @workgroup_size(" ++ toString workgroup.toInt ++ ")"),
    braces ("fn main(@builtin(workgroup_id) wid: vec3<u32>, " ++
      "@builtin(local_invocation_index) lid: u32)") (
      [.line "let inst = wid.x;",
        .line "state_base = inst * STATE_SIZE;",
        .line "input_base = inst * params.input_size;",
        .line "scratch_base = inst * EXTERNALS * UNITS;",
        .line "let output_base = inst * params.output_size;",
        copy "input_size"
          "state[state_base + u32(input_map[input_base + i])] = input[input_base + i];"] ++
      barrier ++
      [forUnits ["load_unit(k, lu);", "publish(k, lu);", "constants(k);"],
        braces "for (var it = 0u; it < ITERATIONS; it = it + 1u)" (
          barrier ++ [forUnits ["snapshot(k, lu);"]] ++
          barrier ++ [forUnits ["advance(k);"]] ++
          barrier ++ [forUnits ["publish(k, lu);"]]),
        forUnits ["store_unit(k, lu);"]] ++
      barrier ++
      [copy "output_size"
        "output[output_base + i] = state[state_base + u32(output_map[output_base + i])];"])]

def blocks (p : Program) (perInvocation : Int64) : List Block :=
  [.line "// Code generated by cagen. DO NOT EDIT.", blank] ++
  constants p perInvocation ++ [blank] ++
  spaced [
    braces "struct Params" (["instances", "input_size", "output_size", "_pad"].map
      fun n => .line (n ++ ": u32,")),
    braces "struct Unit" (p.vars.map fun n => .line (n ++ ": i32,"))] ++
  bindings.zipIdx.map (fun ((kind, what), i) =>
    .line ("@group(0) @binding(" ++ toString i ++ ") " ++ kind ++ " " ++ what ++ ";")) ++
  [blank, .line "var<private> units: array<Unit, PER_INVOCATION>;",
    .line "var<private> state_base: u32;",
    .line "var<private> input_base: u32;",
    .line "var<private> scratch_base: u32;", blank] ++
  helpers ++ spaced (neighbor p.addressing :: phases p) ++ entry p.workgroup

/-- The source of the kernel. Without units there is no work group to share them. -/
def source (p : Program) : Except Error String :=
  if p.workgroup = 0 then .error (.abort none)
  else .ok (Block.source "    " (blocks p ((p.units + p.workgroup - 1) / p.workgroup)))

end TiledAutomata.Emit.Kernel
