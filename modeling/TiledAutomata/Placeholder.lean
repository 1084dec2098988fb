import TiledAutomata.Layout
import TiledAutomata.Text.Blank
import TiledAutomata.Text.Numeral

/-!
# Placeholders

A name in braces inside an expression stands for a variable of the layout. It is looked
up, in this order, among the parameters and variables of the cell, the parameters of
the output, the numbered inputs and the numbered outputs.
-/

namespace TiledAutomata.Placeholder

inductive Piece where
  | plain (c : Char)
  | token (name : String)
  deriving DecidableEq, Repr

def token? (cs : List Char) : Option (List Char) :=
  let t := cs.takeWhile (· ≠ '\x7d')
  if t.isEmpty || t.length == cs.length then none else some t

/-- Splits a text, after a number of characters that belong to the last token. -/
def pieces : Nat → List Char → List Piece
  | _, [] => []
  | k + 1, _ :: cs => pieces k cs
  | 0, c :: cs =>
    if c = '\x7b' then
      match token? cs with
      | some t => .token (String.ofList t) :: pieces (t.length + 1) cs
      | none => .plain c :: pieces 0 cs
    else .plain c :: pieces 0 cs

def tokens (text : String) : List String :=
  (pieces 0 text.toList).filterMap fun
    | .token t => some t
    | .plain _ => none

def ordinal? (word token : String) : Option Nat :=
  let cs := token.toList
  if (cs.take word.length).map Char.toLower == word.toList then
    match Text.Numeral.decimal64 (String.ofList (cs.drop word.length)) with
    | .ok n => if 1 ≤ n then some n.toNat else none
    | .error _ => none
  else none

/-- Where a placeholder of a cell's output is looked up. -/
structure Scope where
  layout : Layout
  site : Site
  inputs : List Binding
  output : String

def inputVar? (s : Scope) (token : String) : Option String := do
  let n ← ordinal? "input" token
  let b ← s.inputs[n - 1]?
  return s.layout.bindingVar b

def outputVar? (s : Scope) (token : String) : Option String := do
  let n ← ordinal? "output" token
  let o ← s.site.type.outputList[n - 1]?
  return Layout.outputVar s.site.id o.id

def resolve? (s : Scope) (token : String) : Option String :=
  s.site.paramVar? token <|> s.site.outputParamVar? s.output token <|> inputVar? s token <|>
    outputVar? s token

def expandPieces (s : Scope) : List Piece → Except Unresolved (List Char)
  | [] => .ok []
  | .plain c :: ps => do return c :: (← expandPieces s ps)
  | .token t :: ps =>
    match resolve? s t with
    | some v => do return v.toList ++ (← expandPieces s ps)
    | none => .error ⟨s.site.id, t⟩

def expand (s : Scope) (text : String) : Except Unresolved String := do
  return String.ofList (← expandPieces s (pieces 0 (Text.trim text).toList))

end TiledAutomata.Placeholder
