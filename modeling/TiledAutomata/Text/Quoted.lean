import TiledAutomata.Text.Printable
import TiledAutomata.Text.Utf8

/-!
# Quoted texts in messages

A quoted text stands between double quotes, a quoted character between single quotes.
The quote in use and the backslash are escaped, seven control characters have a short
form, other characters that do not print are written in hexadecimal.
-/

namespace TiledAutomata.Text

def hexDigit (n : Nat) : Char := Nat.digitChar (n % 16)

def hex : Nat → Nat → List Char
  | 0, _ => []
  | k + 1, n => hex k (n / 16) ++ [hexDigit n]

def shortEscape? (c : Char) : Option Char :=
  [(7, 'a'), (8, 'b'), (12, 'f'), (10, 'n'), (13, 'r'), (9, 't'), (11, 'v')].lookup c.toNat

def escapeChar (quote c : Char) : List Char :=
  if c == quote || c == '\\' then ['\\', c]
  else if isPrintable c then [c]
  else match shortEscape? c with
    | some e => ['\\', e]
    | none =>
      if c.toNat < 0x20 || c.toNat == 0x7f then '\\' :: 'x' :: hex 2 c.toNat
      else if c.toNat < 0x10000 then '\\' :: 'u' :: hex 4 c.toNat
      else '\\' :: 'U' :: hex 8 c.toNat

def quote (s : String) : String :=
  String.ofList ('"' :: s.toList.flatMap (escapeChar '"') ++ ['"'])

def quoteBytes (bs : Bytes) : String :=
  String.ofList ('"' :: (decode bs).flatMap (fun
    | .ok c => escapeChar '"' c
    | .error b => '\\' :: 'x' :: hex 2 b.toNat) ++ ['"'])

def quoteByte (b : UInt8) : String :=
  String.ofList ('\'' :: escapeChar '\'' (Char.ofNat b.toNat) ++ ['\''])

end TiledAutomata.Text
