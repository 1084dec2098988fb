import TiledAutomata.Word

/-!
# Expressions and assignments

The trees of the expression language, their text, and the order in which their nodes
are visited.
-/

namespace TiledAutomata

inductive Expr where
  | number (value : Word)
  | ident (name : String)
  | input (index : Expr)
  | inputLength
  | unary (op : UnaryOp) (x : Expr)
  | binary (op : BinaryOp) (x y : Expr)
  | cond (test yes no : Expr)
  deriving DecidableEq, Repr

namespace Expr

def inputName : String := "automatonInput"

def inputLengthName : String := "automatonInputLength"

def text : Expr → String
  | .number v => v.text
  | .ident x => x
  | .input i => inputName ++ "[" ++ i.text ++ "]"
  | .inputLength => inputLengthName
  | .unary o x => "(" ++ o.text ++ x.text ++ ")"
  | .binary o x y => "(" ++ x.text ++ " " ++ o.text ++ " " ++ y.text ++ ")"
  | .cond c t e => "(" ++ c.text ++ " ? " ++ t.text ++ " : " ++ e.text ++ ")"

/-- The nodes, each before its children, children from left to right. -/
def nodes : Expr → List Expr
  | .number v => [.number v]
  | .ident x => [.ident x]
  | .inputLength => [.inputLength]
  | .input i => .input i :: i.nodes
  | .unary o x => .unary o x :: x.nodes
  | .binary o x y => .binary o x y :: (x.nodes ++ y.nodes)
  | .cond c t e => .cond c t e :: (c.nodes ++ t.nodes ++ e.nodes)

/-- The variables read, in the order of the nodes, with repetitions. -/
def reads (e : Expr) : List String :=
  e.nodes.filterMap fun
    | .ident x => some x
    | _ => none

def idents (e : Expr) : List String := e.reads.eraseDups

def readsInput (e : Expr) : Bool :=
  e.nodes.any fun
    | .input _ => true
    | .inputLength => true
    | _ => false

end Expr

/-- An assignment. `op` is the operator of a compound assignment; `declares` marks one that
opens with the word `int`. -/
structure Assign where
  declares : Bool
  target : String
  op : Option BinaryOp
  value : Expr
  deriving DecidableEq, Repr

namespace Assign

def opText (a : Assign) : String := (a.op.map BinaryOp.text).getD "" ++ "="

def text (a : Assign) : String :=
  (if a.declares then "int " else "") ++ a.target ++ " " ++ a.opText ++ " " ++ a.value.text ++ ";"

end Assign

end TiledAutomata
