import TiledAutomata.Expr.Fold
import TiledAutomata.Text.Quoted

/-!
# Expressions as functions of a frame

A resolver gives each variable its index in the frame. Compilation fails at the first
variable, from left to right in the folded tree, that has none.
-/

namespace TiledAutomata

structure Frame where
  vars : Words
  input : Words

structure UnknownIdent where
  name : String
  deriving DecidableEq, Repr

def UnknownIdent.message (e : UnknownIdent) : String :=
  "expr: unknown identifier " ++ Text.quote e.name

abbrev Resolver := String → Option Nat

def Resolver.index (r : Resolver) (x : String) : Except UnknownIdent Nat :=
  match r x with
  | some i => .ok i
  | none => .error ⟨x⟩

abbrev Code := Frame → Word

/-- The code of a binary operator. The operators met most have code of their own. -/
def BinaryOp.code (o : BinaryOp) (x y : Code) : Code :=
  match o with
  | .and => fun f => x f &&& y f
  | .or => fun f => x f ||| y f
  | .xor => fun f => x f ^^^ y f
  | .add => fun f => x f + y f
  | .sub => fun f => x f - y f
  | .andAlso => fun f => Word.ofBool (x f != 0 && y f != 0)
  | .orElse => fun f => Word.ofBool (x f != 0 || y f != 0)
  | o => fun f => o.apply (x f) (y f)

namespace Expr

theorem nodes_fold_le (e : Expr) : e.fold.nodes.length ≤ e.nodes.length := by
  induction e with
  | number v => exact Nat.le_refl _
  | ident x => exact Nat.le_refl _
  | inputLength => exact Nat.le_refl _
  | input i ih => exact Nat.succ_le_succ ih
  | unary o x ih =>
    simp only [fold]
    split <;> simp only [nodes, List.length_cons, List.length_nil] <;> omega
  | binary o x y ihx ihy =>
    simp only [fold]
    split <;> simp only [nodes, List.length_cons, List.length_nil, List.length_append] <;> omega
  | cond c t e ihc iht ihe =>
    simp only [fold]
    split
    · split <;> simp only [nodes, List.length_cons, List.length_append] <;> omega
    · simp only [nodes, List.length_cons, List.length_append]
      omega

theorem nodes_le_of_fold {e e' : Expr} (h : e.fold = e') : e'.nodes.length ≤ e.nodes.length :=
  h ▸ e.nodes_fold_le

/-- Every level folds its tree again before it looks at it. -/
def compile (r : Resolver) (e : Expr) : Except UnknownIdent Code :=
  match _he : e.fold with
  | .number v => .ok fun _ => v
  | .ident x => do
    let i ← r.index x
    return fun f => f.vars.getD i 0
  | .inputLength => .ok fun f => Int32.ofNat f.input.size
  | .input i => do
    let i ← i.compile r
    return fun f => f.input.cyclic (i f)
  | .unary o x => do
    let x ← x.compile r
    return fun f => o.apply (x f)
  | .binary o x y => do
    let x ← x.compile r
    let y ← y.compile r
    return o.code x y
  | .cond c t e => do
    let c ← c.compile r
    let t ← t.compile r
    let e ← e.compile r
    return fun f => if c f != 0 then t f else e f
termination_by e.nodes.length
decreasing_by
  all_goals
    have hle := nodes_le_of_fold _he
    simp only [nodes, List.length_cons, List.length_append] at hle
    omega

end Expr

namespace Assign

/-- The target is looked up before the value is compiled. -/
def compile (r : Resolver) (a : Assign) : Except UnknownIdent (Frame → Frame) := do
  let i ← r.index a.target
  let v ← a.value.compile r
  return fun f =>
    let w := match a.op with
      | some o => o.apply (f.vars.getD i 0) (v f)
      | none => v f
    { f with vars := f.vars.setIfInBounds i w }

end Assign

end TiledAutomata
