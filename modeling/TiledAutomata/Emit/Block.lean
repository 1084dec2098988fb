/-!
# Indented source text

A source text is a list of lines and blocks. The body of a block stands between a head
and a foot and one step further to the right.
-/

namespace TiledAutomata.Emit

inductive Block where
  | line (text : String)
  | nested (head : String) (body : List Block) (foot : String)

namespace Block

def blank : Block := .line ""

def braces (head : String) (body : List Block) : Block := .nested (head ++ " \x7b") body "\x7d"

def putLine (tab : String) (depth : Nat) (before text : String) : String :=
  if text = "" then before.push '\n'
  else (depth.repeat (· ++ tab) before ++ text).push '\n'

mutual

def put (tab : String) (depth : Nat) (before : String) : Block → String
  | .line t => putLine tab depth before t
  | .nested h bs f => putLine tab depth (putAll tab (depth + 1) (putLine tab depth before h) bs) f

def putAll (tab : String) (depth : Nat) (before : String) : List Block → String
  | [] => before
  | b :: bs => putAll tab depth (b.put tab depth before) bs

end

def source (tab : String) (bs : List Block) : String := putAll tab 0 "" bs

def spaced (bs : List Block) : List Block := bs.flatMap fun b => [b, blank]

end Block

end TiledAutomata.Emit
