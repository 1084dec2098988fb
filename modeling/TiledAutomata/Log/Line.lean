import TiledAutomata.Log
import TiledAutomata.Text.Blank

/-!
# Log records as lines

A record is written as its level, its message and its attributes, each a key and a
value. A key or value is quoted if it is empty or has a blank, an equals sign, a quote or
a character that does not print.
-/

namespace TiledAutomata.Log.Record

def isPlain (c : Char) : Bool :=
  if c.toNat < 0x80 then 0x20 < c.toNat && c != '=' && c != '"'
  else Text.isPrintable c && !Text.isWhite c && c != Text.replacement

def field (s : String) : String :=
  if s.isEmpty || !s.toList.all isPlain then Text.quote s else s

def line (r : Record) : String :=
  " ".intercalate ((("level", r.level.text) :: ("msg", r.message) :: r.attrs).map fun (k, v) =>
    field k ++ "=" ++ field v)

end TiledAutomata.Log.Record
