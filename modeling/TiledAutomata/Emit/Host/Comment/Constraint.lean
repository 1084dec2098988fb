import TiledAutomata.Text.Blank
import TiledAutomata.Text.Columns
import TiledAutomata.Text.Letter

/-!
# Build constraints

A comment may say when a file is part of a build: `//go:build` before an expression of
tags, or `// +build` before alternatives, each a list of tags with commas. Both say the
same in two notations, of which the first has one standard form.
-/

namespace TiledAutomata.Emit.Host

inductive Constraint where
  | tag (name : String)
  | not (x : Constraint)
  | and (x y : Constraint)
  | or (x y : Constraint)
  deriving DecidableEq, Repr

namespace Constraint

def trim (cs : List Char) : List Char :=
  ((cs.dropWhile Text.isWhite).reverse.dropWhile Text.isWhite).reverse

def behind? (keyword : String) (cs : List Char) : Option (List Char) :=
  if keyword.toList.isPrefixOf cs then
    let rest := (trim cs).drop keyword.length
    if !rest.isEmpty && (trim rest).length = rest.length then none else some (trim rest)
  else none

def expression? (comment : String) : Option (List Char) := behind? "//go:build" comment.toList

def alternatives? (comment : String) : Option (List Char) :=
  match comment.toList with
  | '/' :: '/' :: cs => behind? "+build" (trim cs)
  | _ => none

def isTagChar (c : Char) : Bool := Text.isLetter c || Text.isDecimalDigit c || c == '_' || c == '.'

inductive Sign where
  | tag (name : String)
  | opening
  | closing
  | not
  | and
  | or
  deriving DecidableEq, Repr

def signs : Nat → List Char → Option (List Sign)
  | 0, _ => none
  | _, [] => some []
  | n + 1, c :: cs =>
    match c, cs with
    | ' ', _ | '\t', _ => signs n cs
    | '(', _ => (signs n cs).map (.opening :: ·)
    | ')', _ => (signs n cs).map (.closing :: ·)
    | '!', _ => (signs n cs).map (.not :: ·)
    | '&', '&' :: cs => (signs n cs).map (.and :: ·)
    | '|', '|' :: cs => (signs n cs).map (.or :: ·)
    | c, cs =>
      let name := (c :: cs).takeWhile isTagChar
      if name.isEmpty then none
      else (signs n ((c :: cs).drop name.length)).map (.tag (String.ofList name) :: ·)

mutual

def readOr : Nat → List Sign → Option (Constraint × List Sign)
  | 0, _ => none
  | n + 1, ss => do
    let (x, ss) ← readAnd n ss
    moreOr n x ss

def moreOr : Nat → Constraint → List Sign → Option (Constraint × List Sign)
  | n + 1, x, .or :: ss => do
    let (y, ss) ← readAnd n ss
    moreOr n (.or x y) ss
  | _, x, ss => some (x, ss)

def readAnd : Nat → List Sign → Option (Constraint × List Sign)
  | 0, _ => none
  | n + 1, ss => do
    let (x, ss) ← readNot n ss
    moreAnd n x ss

def moreAnd : Nat → Constraint → List Sign → Option (Constraint × List Sign)
  | n + 1, x, .and :: ss => do
    let (y, ss) ← readNot n ss
    moreAnd n (.and x y) ss
  | _, x, ss => some (x, ss)

def readNot : Nat → List Sign → Option (Constraint × List Sign)
  | _, .not :: .not :: _ => none
  | n + 1, .not :: ss => do
    let (x, ss) ← readNot n ss
    return (.not x, ss)
  | n + 1, .opening :: ss => do
    match ← readOr n ss with
    | (x, .closing :: ss) => return (x, ss)
    | _ => none
  | _, .tag t :: ss => some (.tag t, ss)
  | _, _ => none

end

def read? (cs : List Char) : Option Constraint := do
  let ss ← signs (cs.length + 1) cs
  match ← readOr (4 * ss.length + 4) ss with
  | (x, []) => some x
  | _ => none

def ignored : Constraint := .tag "ignore"

def readTag (cs : List Char) : Constraint :=
  let plain (cs : List Char) : Constraint :=
    if !cs.isEmpty && cs.all isTagChar then .tag (String.ofList cs) else ignored
  match cs with
  | ['!'] | '!' :: '!' :: _ => ignored
  | '!' :: cs => .not (plain cs)
  | cs => plain cs

def joined (f : Constraint → Constraint → Constraint) : List Constraint → Constraint
  | [] => ignored
  | x :: xs => xs.foldl f x

def readOld (cs : List Char) : Constraint :=
  let words := (cs.splitBy fun a b => Text.isWhite a == Text.isWhite b).filter fun w =>
    !w.any Text.isWhite
  joined .or (words.map fun w => joined .and ((Text.Columns.split [','] w).map readTag))

def ofComment? (comment : String) : Option Constraint :=
  match expression? comment with
  | some cs => read? cs
  | none => (alternatives? comment).map readOld

def text : Constraint → String
  | .tag t => t
  | .not (.tag t) => "!" ++ t
  | .not (.not x) => "!" ++ text (.not x)
  | .not x => "!(" ++ text x ++ ")"
  | .and x y => part true x ++ " && " ++ part true y
  | .or x y => part false x ++ " || " ++ part false y
where
  /-- An operand in parentheses if it is of the other operator. -/
  part (inAnd : Bool) : Constraint → String
    | .and x y => if inAnd then text (.and x y) else "(" ++ text (.and x y) ++ ")"
    | .or x y => if inAnd then "(" ++ text (.or x y) ++ ")" else text (.or x y)
    | x => text x

def pushNot (negated : Bool) : Constraint → Constraint
  | .tag t => if negated then .not (.tag t) else .tag t
  | .not x => pushNot (!negated) x
  | .and x y =>
    let (x, y) := (pushNot negated x, pushNot negated y)
    if negated then .or x y else .and x y
  | .or x y =>
    let (x, y) := (pushNot negated x, pushNot negated y)
    if negated then .and x y else .or x y

def conjuncts : Constraint → List Constraint
  | .and x y => conjuncts x ++ conjuncts y
  | x => [x]

def disjuncts : Constraint → List Constraint
  | .or x y => disjuncts x ++ disjuncts y
  | x => [x]

def isTag : Constraint → Bool
  | .tag _ | .not _ => true
  | _ => false

def oldLines (x : Constraint) : List String :=
  let split := (conjuncts (pushNot false x)).map fun o => (disjuncts o).map conjuncts
  if split.any fun o => o.any fun a => a.any fun l => !isTag l then
    ["// +build error: expression too complex for // +build lines"]
  else
    let split := if split.all fun o => o.length = 1 then [[split.flatten.flatten]] else split
    split.map fun o => "// +build" ++ String.join (o.map fun a =>
      " " ++ ",".intercalate (a.map text))

end Constraint

end TiledAutomata.Emit.Host
