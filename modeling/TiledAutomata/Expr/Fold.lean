import TiledAutomata.Expr.Basic

/-!
# Meaning and constant folding
-/

namespace TiledAutomata.Expr

def eval (vars : String → Word) (input : Words) : Expr → Word
  | .number v => v
  | .ident x => vars x
  | .input i => input.cyclic (i.eval vars input)
  | .inputLength => Int32.ofNat input.size
  | .unary o x => o.apply (x.eval vars input)
  | .binary o x y => o.apply (x.eval vars input) (y.eval vars input)
  | .cond c t e => if c.eval vars input != 0 then t.eval vars input else e.eval vars input

/-- Replaces what reads neither a variable nor the input by its value. -/
def fold : Expr → Expr
  | .unary o x =>
    match x.fold with
    | .number v => .number (o.apply v)
    | x' => .unary o x'
  | .binary o x y =>
    match x.fold, y.fold with
    | .number a, .number b => .number (o.apply a b)
    | x', y' => .binary o x' y'
  | .cond c t e =>
    match c.fold with
    | .number v => if v != 0 then t.fold else e.fold
    | c' => .cond c' t.fold e.fold
  | .input i => .input i.fold
  | e => e

end TiledAutomata.Expr
