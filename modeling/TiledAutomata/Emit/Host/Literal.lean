import TiledAutomata.Emit.Host.Syntax

/-!
# Literals in quotes

Escapes in double quotes stand for bytes or for characters. In back quotes there are none.
-/

namespace TiledAutomata.Emit.Host

namespace Literal

def unescaped (cs : List Char) : List UInt8 × Nat :=
  let bytesOf (n : Nat) : List UInt8 := (String.singleton (Char.ofNat n)).toUTF8.toList
  match cs with
  | 'a' :: _ => ([7], 1)
  | 'b' :: _ => ([8], 1)
  | 'f' :: _ => ([12], 1)
  | 'n' :: _ => ([10], 1)
  | 'r' :: _ => ([13], 1)
  | 't' :: _ => ([9], 1)
  | 'v' :: _ => ([11], 1)
  | 'x' :: ds => ([(Lexeme.valueOf 16 (ds.take 2)).toUInt8], 3)
  | 'u' :: ds => (bytesOf (Lexeme.valueOf 16 (ds.take 4)), 5)
  | 'U' :: ds => (bytesOf (Lexeme.valueOf 16 (ds.take 8)), 9)
  | c :: ds =>
    if Lexeme.isOctal c then ([(Lexeme.valueOf 8 (c :: ds.take 2)).toUInt8], 3)
    else (bytesOf c.toNat, 1)
  | [] => ([], 0)

def bytes : Nat → List Char → List UInt8
  | _, [] => []
  | k + 1, _ :: cs => bytes k cs
  | 0, c :: cs =>
    if c = '\\' then
      let (bs, n) := unescaped cs
      bs ++ bytes n cs
    else (String.singleton c).toUTF8.toList ++ bytes 0 cs

def value? (l : Literal) : Option String :=
  let inner := (l.text.toList.drop 1).dropLast
  if l.text.startsWith "\"" then String.fromUTF8? (bytes 0 inner).toByteArray
  else some (String.ofList inner)

def isPathChar (c : Char) : Bool :=
  Text.isPrintable c && c != ' ' && c != '�' &&
    !"!\"#$%&'()*,:;<=>?[\\]^\x7b|\x7d\x60".toList.contains c

def asPath (l : Literal) : Literal :=
  match l.value? with
  | some s => if s != "" && s.toList.all isPathChar then { l with text := "\"" ++ s ++ "\"" } else l
  | none => l

end Literal

end TiledAutomata.Emit.Host
