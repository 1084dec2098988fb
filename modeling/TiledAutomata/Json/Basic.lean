import TiledAutomata.Text.Quoted

/-!
# Documents

The values of a JSON text, members in their order, numbers as they are spelled, and the
two ways in which documents are written.
-/

namespace TiledAutomata

inductive Json where
  | null
  | bool (b : Bool)
  | num (literal : String)
  | str (s : String)
  | arr (items : List Json)
  | obj (members : List (String × Json))

namespace Json

def int (n : Int) : Json := .num (toString n)

/-- A character inside a written string. Angle brackets, the ampersand and the two line
separators are escaped, so that a document can stand inside markup and scripts. -/
def escape (c : Char) : List Char :=
  if c == '"' || c == '\\' then ['\\', c]
  else match [(8, 'b'), (12, 'f'), (10, 'n'), (13, 'r'), (9, 't')].lookup c.toNat with
    | some e => ['\\', e]
    | none =>
      if c.toNat < 0x20 || c == '<' || c == '>' || c == '&' || c.toNat == 0x2028 ||
          c.toNat == 0x2029 then
        '\\' :: 'u' :: Text.hex 4 c.toNat
      else [c]

def quoted (s : String) : String := String.ofList ('"' :: s.toList.flatMap escape ++ ['"'])

mutual

def compact : Json → String
  | .null => "null"
  | .bool b => if b then "true" else "false"
  | .num n => n
  | .str s => quoted s
  | .arr xs => "[" ++ ",".intercalate (compactItems xs) ++ "]"
  | .obj ms => "\x7b" ++ ",".intercalate (compactMembers ms) ++ "\x7d"

def compactItems : List Json → List String
  | [] => []
  | x :: xs => x.compact :: compactItems xs

def compactMembers : List (String × Json) → List String
  | [] => []
  | (k, v) :: ms => (quoted k ++ ":" ++ v.compact) :: compactMembers ms

end

def newline (depth : Nat) : String := "\n" ++ String.ofList (List.replicate (2 * depth) ' ')

def block (left right : String) (depth : Nat) (parts : List String) : String :=
  if parts.isEmpty then left ++ right
  else left ++ newline (depth + 1) ++ ("," ++ newline (depth + 1)).intercalate parts ++
    newline depth ++ right

mutual

def indented (depth : Nat) : Json → String
  | .null => "null"
  | .bool b => if b then "true" else "false"
  | .num n => n
  | .str s => quoted s
  | .arr xs => block "[" "]" depth (indentedItems (depth + 1) xs)
  | .obj ms => block "\x7b" "\x7d" depth (indentedMembers (depth + 1) ms)

def indentedItems (depth : Nat) : List Json → List String
  | [] => []
  | x :: xs => x.indented depth :: indentedItems depth xs

def indentedMembers (depth : Nat) : List (String × Json) → List String
  | [] => []
  | (k, v) :: ms => (quoted k ++ ": " ++ v.indented depth) :: indentedMembers depth ms

end

def pretty (j : Json) : String := j.indented 0 ++ "\n"

end Json

end TiledAutomata
