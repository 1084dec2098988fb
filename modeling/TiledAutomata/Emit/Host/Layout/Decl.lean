import TiledAutomata.Emit.Host.Layout.Expr
import TiledAutomata.Emit.Host.Literal

/-!
# The standard layout of host source: declarations
-/

namespace TiledAutomata.Emit.Host

namespace Layout

open Pen

/-- Which of values in a row have a column for types: those of a run that are all given, if one
before the end of the run has a type. -/
def typeColumns (specs : List Spec) : List Bool :=
  let given : Spec → Bool
    | .value _ _ vs _ => !vs.isEmpty
    | _ => false
  let typed : Spec → Bool
    | .value _ t _ _ => t.isSome
    | _ => false
  (specs.splitBy fun a b => given a == given b).flatMap fun run =>
    List.replicate run.length (run.any fun s => given s && typed s)

def valueLine (w : Writers) (keepsType : Bool) (ns : List Name) (t : Option Node) (vs : List Node)
    (isNoted : Bool) : Pen := do
  names w false ns
  let hasType := t.isSome || keepsType
  if hasType then space .cell
  match t with
  | some t => node w t
  | none => pure ()
  unless vs.isEmpty do
    space .cell
    mark "="
    space .blank
    list w {} 1 vs
  if isNoted then
    for _ in List.range (3 - (if hasType then 1 else 0) - (if vs.isEmpty then 0 else 1)) do
      space .cell

def spec (w : Writers) (isLone indents : Bool) : Spec → Pen
  | .imported _ n p stop _ => do
    match n with
    | some n =>
      name n
      space .blank
    | none => pure ()
    literal p.asPath
    goTo stop
  | .value ns t vs _ => do
    names w indents ns
    match t with
    | some t =>
      space .blank
      node w t
    | none => pure ()
    unless vs.isEmpty do
      space .blank
      mark "="
      space .blank
      list w {} 1 vs
  | .type n ps assign t _ => do
    name n
    match ps with
    | some ps => params w "[" "]" true ps
    | none => pure ()
    space (if isLone then .blank else .cell)
    if assign != 0 then
      mark "="
      space .blank
    node w t

def specLines (w : Writers) (isLone inColumns : Bool) : Bool → List (Spec × Bool) → Pen
  | _, [] => pure ()
  | isFirst, (s, keepsType) :: ss => do
    unless isFirst do
      let _ ← breakLine (← lineAt s.place) 1 .nothing (← isBelow)
    markLine
    match s with
    | .value ns t vs note =>
      if inColumns then valueLine w keepsType ns t vs note.isSome else spec w isLone false s
    | _ => spec w isLone false s
    specLines w isLone inColumns false ss

def decl (w : Writers) (d : Decl) : Pen := do
  markAt d.place d.keyword
  space .blank
  match d.opening, d.specs with
  | 0, [s] => spec w true true s
  | _, ss =>
    markAt d.opening "("
    unless ss.isEmpty do
      space .indent
      space .cut
      noting (specLines w (ss.length = 1)
        (1 < ss.length && (d.keyword = "const" || d.keyword = "var")) true
        (ss.zip (typeColumns ss)))
      space .unindent
      space .cut
    markAt d.closing ")"

def func (w : Writers) (f : Func) : Pen := do
  markAt f.place "func"
  space .blank
  let column : Int := (← get).column - 5
  match f.receiver with
  | some r =>
    params w "(" ")" false r
    space .blank
  | none => pure ()
  name f.name
  match f.typeParams with
  | some ps => params w "[" "]" false ps
  | none => pure ()
  signature w f.params f.results
  match f.body with
  | some b => body w (← distance? f.place column) .cell b
  | none => pure ()

end Layout

end TiledAutomata.Emit.Host
