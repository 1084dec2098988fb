/-!
# Machine words and the operators on them

A word has 32 bits, two's complement. Arithmetic wraps, division and remainder by
zero give zero, shift counts use their low five bits, comparisons and logical
operators give zero or one.
-/

namespace TiledAutomata

abbrev Word := Int32

/-- The words of a buffer, in order. -/
abbrev Words := Array Word

namespace Word

def ofBool (b : Bool) : Word := if b then 1 else 0

def text (w : Word) : String := toString w.toInt

end Word

inductive UnaryOp where
  | neg
  | compl
  | not
  | plus
  deriving DecidableEq, Repr

inductive BinaryOp where
  | mul | div | mod
  | add | sub
  | shl | shr | ushr
  | lt | le | gt | ge
  | eq | ne
  | and | xor | or
  | andAlso | orElse
  deriving DecidableEq, Repr

namespace UnaryOp

def all : List UnaryOp := [.neg, .compl, .not, .plus]

def text : UnaryOp → String
  | .neg => "-"
  | .compl => "~"
  | .not => "!"
  | .plus => "+"

def ofText? (s : String) : Option UnaryOp := all.find? (fun o => o.text == s)

def apply : UnaryOp → Word → Word
  | .neg, a => -a
  | .compl, a => ~~~a
  | .not, a => Word.ofBool (a == 0)
  | .plus, a => a

end UnaryOp

namespace BinaryOp

def all : List BinaryOp :=
  [.mul, .div, .mod, .add, .sub, .shl, .shr, .ushr, .lt, .le, .gt, .ge, .eq, .ne,
    .and, .xor, .or, .andAlso, .orElse]

def text : BinaryOp → String
  | .mul => "*"
  | .div => "/"
  | .mod => "%"
  | .add => "+"
  | .sub => "-"
  | .shl => "<<"
  | .shr => ">>"
  | .ushr => ">>>"
  | .lt => "<"
  | .le => "<="
  | .gt => ">"
  | .ge => ">="
  | .eq => "=="
  | .ne => "!="
  | .and => "&"
  | .xor => "^"
  | .or => "|"
  | .andAlso => "&&"
  | .orElse => "||"

def ofText? (s : String) : Option BinaryOp := all.find? (fun o => o.text == s)

def level : BinaryOp → Nat
  | .orElse => 1
  | .andAlso => 2
  | .or => 3
  | .xor => 4
  | .and => 5
  | .eq | .ne => 6
  | .lt | .le | .gt | .ge => 7
  | .shl | .shr | .ushr => 8
  | .add | .sub => 9
  | .mul | .div | .mod => 10

def apply : BinaryOp → Word → Word → Word
  | .mul, a, b => a * b
  | .div, a, b => if b == 0 then 0 else a / b
  | .mod, a, b => if b == 0 then 0 else a % b
  | .add, a, b => a + b
  | .sub, a, b => a - b
  | .shl, a, b => a <<< (b &&& 31)
  | .shr, a, b => a >>> (b &&& 31)
  | .ushr, a, b => (a.toUInt32 >>> (b.toUInt32 &&& 31)).toInt32
  | .lt, a, b => Word.ofBool (decide (a < b))
  | .le, a, b => Word.ofBool (decide (a ≤ b))
  | .gt, a, b => Word.ofBool (decide (b < a))
  | .ge, a, b => Word.ofBool (decide (b ≤ a))
  | .eq, a, b => Word.ofBool (a == b)
  | .ne, a, b => Word.ofBool (a != b)
  | .and, a, b => a &&& b
  | .xor, a, b => a ^^^ b
  | .or, a, b => a ||| b
  | .andAlso, a, b => Word.ofBool (a != 0 && b != 0)
  | .orElse, a, b => Word.ofBool (a != 0 || b != 0)

end BinaryOp

/-- Reads an input at an index taken modulo its length. An empty input reads as zero. -/
def Words.cyclic (input : Words) (i : Word) : Word :=
  input.getD (i.toInt % (input.size : Int)).toNat 0

end TiledAutomata
