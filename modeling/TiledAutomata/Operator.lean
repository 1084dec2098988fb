import TiledAutomata.Error

/-!
# Operators by their text

The words that operators give, by the text of the operator, for any text. The program
stops where there is no such operator.
-/

namespace TiledAutomata.Operator

def applyBinary (op : String) (a b : Word) : Except Error Word :=
  match op with
  | "+" => .ok (a + b)
  | "-" => .ok (a - b)
  | "*" => .ok (a * b)
  | "/" => .ok (if b == 0 then 0 else a / b)
  | "%" => .ok (if b == 0 then 0 else a % b)
  | "<<" => .ok (a <<< (b &&& 31))
  | ">>" => .ok (a >>> (b &&& 31))
  | ">>>" => .ok (a.toUInt32 >>> (b.toUInt32 &&& 31)).toInt32
  | "&" => .ok (a &&& b)
  | "|" => .ok (a ||| b)
  | "^" => .ok (a ^^^ b)
  | "<" => .ok (Word.ofBool (decide (a < b)))
  | "<=" => .ok (Word.ofBool (decide (a ≤ b)))
  | ">" => .ok (Word.ofBool (decide (b < a)))
  | ">=" => .ok (Word.ofBool (decide (b ≤ a)))
  | "==" => .ok (Word.ofBool (a == b))
  | "!=" => .ok (Word.ofBool (a != b))
  | "&&" => .ok (Word.ofBool (a != 0 && b != 0))
  | "||" => .ok (Word.ofBool (a != 0 || b != 0))
  | _ => .error (.abort (some ("expr: unknown binary operator " ++ Text.quote op)))

def applyUnary (op : String) (a : Word) : Except Error Word :=
  match op with
  | "-" => .ok (-a)
  | "~" => .ok (~~~a)
  | "!" => .ok (Word.ofBool (a == 0))
  | "+" => .ok a
  | _ => .error (.abort (some ("expr: unknown unary operator " ++ Text.quote op)))

end TiledAutomata.Operator
