import TiledAutomata.Expr.Fold

/-!
# Expressions in a target language

A dialect writes operators. Both dialects write division, remainder and shifts as calls
of helpers, because the operators of the target fail or differ at the limits.
-/

namespace TiledAutomata

structure Dialect where
  literal : Word → String
  unary : UnaryOp → String → String
  binary : BinaryOp → String → String → String
  cond : String → String → String → String

structure Dialect.Env where
  ident : String → String
  input : String → String
  inputLength : String

namespace Expr

def render (d : Dialect) (env : Dialect.Env) : Expr → String
  | .number v => d.literal v
  | .ident x => env.ident x
  | .inputLength => env.inputLength
  | .input i => env.input (i.render d env)
  | .unary o x => d.unary o (x.render d env)
  | .binary o x y => d.binary o (x.render d env) (y.render d env)
  | .cond c t e => d.cond (c.render d env) (t.render d env) (e.render d env)

/-- Constants are folded first, so that the target never meets one that overflows. -/
def print (d : Dialect) (env : Dialect.Env) (e : Expr) : String := e.fold.render d env

end Expr

namespace Dialect

def helper? : BinaryOp → Option String
  | .div => some "Div"
  | .mod => some "Mod"
  | .shl => some "Shl"
  | .shr => some "Shr"
  | .ushr => some "Ushr"
  | _ => none

def isComparison : BinaryOp → Bool
  | .lt | .le | .gt | .ge | .eq | .ne => true
  | _ => false

def isLogical : BinaryOp → Bool
  | .andAlso | .orElse => true
  | _ => false

def host : Dialect where
  literal v := if v < 0 then "(" ++ v.text ++ ")" else v.text
  unary
    | .neg, x => "(-" ++ x ++ ")"
    | .compl, x => "(^" ++ x ++ ")"
    | .not, x => "caBool(" ++ x ++ " == 0)"
    | .plus, x => x
  binary o x y :=
    match helper? o with
    | some h => "ca" ++ h ++ "(" ++ x ++ ", " ++ y ++ ")"
    | none =>
      if isComparison o then "caBool(" ++ x ++ " " ++ o.text ++ " " ++ y ++ ")"
      else if isLogical o then "caBool(" ++ x ++ " != 0 " ++ o.text ++ " " ++ y ++ " != 0)"
      else "(" ++ x ++ " " ++ o.text ++ " " ++ y ++ ")"
  cond c t e := "caSelect(" ++ c ++ " != 0, " ++ t ++ ", " ++ e ++ ")"

/-- The dialect of the shader. The least word has no literal. -/
def shader : Dialect where
  literal v :=
    if v == Int32.minValue then "(-2147483647i - 1i)"
    else if v < 0 then "(" ++ v.text ++ "i)" else v.text ++ "i"
  unary
    | .neg, x => "(-" ++ x ++ ")"
    | .compl, x => "(~" ++ x ++ ")"
    | .not, x => "ca_bool(" ++ x ++ " == 0i)"
    | .plus, x => x
  binary o x y :=
    match helper? o with
    | some h => "ca_" ++ h.map Char.toLower ++ "(" ++ x ++ ", " ++ y ++ ")"
    | none =>
      if isComparison o then "ca_bool(" ++ x ++ " " ++ o.text ++ " " ++ y ++ ")"
      else if isLogical o then "ca_bool(" ++ x ++ " != 0i " ++ o.text ++ " " ++ y ++ " != 0i)"
      else "(" ++ x ++ " " ++ o.text ++ " " ++ y ++ ")"
  cond c t e := "select(" ++ e ++ ", " ++ t ++ ", " ++ c ++ " != 0i)"

end Dialect

end TiledAutomata
