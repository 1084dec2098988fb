import TiledAutomata.Emit.Host.Layout.Decl

/-!
# The standard layout of host source: statements
-/

namespace TiledAutomata.Emit.Host.Layout

open Pen

def isTypeName : Node → Bool
  | .name _ => true
  | .select x _ => isTypeName x
  | _ => false

mutual

def holdsBraces : Node → Bool
  | .name _ | .literal _ | .group _ _ _ => false
  | .select x _ | .deref _ x | .unary _ _ x => holdsBraces x
  | .index x _ is _ => holdsBraces x || anyHoldsBraces is
  | .slice x _ low high top _ =>
    holdsBraces x || optionHoldsBraces low || optionHoldsBraces high || optionHoldsBraces top
  | .assert x _ t _ => holdsBraces x || optionHoldsBraces t
  | .call f _ args _ _ => holdsBraces f || anyHoldsBraces args
  | .binary x _ _ y | .pair x _ y | .map _ x y => holdsBraces x || holdsBraces y
  | .composite t _ _ _ =>
    match t with
    | some t => isTypeName t
    | none => false
  | .closure _ b => blockHoldsBraces b
  | .dots _ t => optionHoldsBraces t
  | .array _ n x => optionHoldsBraces n || holdsBraces x
  | .channel _ _ _ x => holdsBraces x
  | .function _ _ _ | .struct _ _ | .interface _ _ => false

def optionHoldsBraces : Option Node → Bool
  | some x => holdsBraces x
  | none => false

def anyHoldsBraces : List Node → Bool
  | [] => false
  | x :: xs => holdsBraces x || anyHoldsBraces xs

def blockHoldsBraces : Block → Bool
  | .mk _ ss _ => stmtsHoldBraces ss

def stmtsHoldBraces : List Stmt → Bool
  | [] => false
  | s :: ss => stmtHoldsBraces s || stmtsHoldBraces ss

def optionStmtHoldsBraces : Option Stmt → Bool
  | some s => stmtHoldsBraces s
  | none => false

def stmtHoldsBraces : Stmt → Bool
  | .empty _ _ | .branch _ _ _ => false
  | .value x | .step x _ _ | .spawn _ _ x => holdsBraces x
  | .send x _ y => holdsBraces x || holdsBraces y
  | .assign xs _ _ ys => anyHoldsBraces xs || anyHoldsBraces ys
  | .leave _ xs => anyHoldsBraces xs
  | .block b | .select _ b => blockHoldsBraces b
  | .choose _ i c b e =>
    optionStmtHoldsBraces i || holdsBraces c || blockHoldsBraces b || optionStmtHoldsBraces e
  | .switch _ i t b => optionStmtHoldsBraces i || optionHoldsBraces t || blockHoldsBraces b
  | .typeSwitch _ i g b => optionStmtHoldsBraces i || stmtHoldsBraces g || blockHoldsBraces b
  | .case _ xs _ ss => anyHoldsBraces xs || stmtsHoldBraces ss
  | .comm _ c _ ss => optionStmtHoldsBraces c || stmtsHoldBraces ss
  | .loop _ i c p b =>
    optionStmtHoldsBraces i || optionHoldsBraces c || optionStmtHoldsBraces p || blockHoldsBraces b
  | .range _ k v _ _ _ x b =>
    optionHoldsBraces k || optionHoldsBraces v || holdsBraces x || blockHoldsBraces b
  | .labeled _ _ s => stmtHoldsBraces s
  | .declare d => declHoldsBraces d

def declHoldsBraces : Decl → Bool
  | .mk _ _ _ _ ss _ => specsHoldBraces ss

def specsHoldBraces : List Spec → Bool
  | [] => false
  | s :: ss => specHoldsBraces s || specsHoldBraces ss

def specHoldsBraces : Spec → Bool
  | .imported _ _ _ _ _ => false
  | .value _ t vs _ => optionHoldsBraces t || anyHoldsBraces vs
  | .type _ _ _ t _ => holdsBraces t

end

def unwrapped : Node → Node
  | .group o x c => if holdsBraces x then .group o x c else unwrapped x
  | x => x

def head (w : Writers) (isLoop : Bool) (init : Option Stmt) (cond : Option Node)
    (post : Option Stmt) : Pen := do
  space .blank
  let writeCond : Pen := match cond with
    | some x => node w (unwrapped x)
    | none => pure ()
  if init.isNone && post.isNone then
    writeCond
    if cond.isSome then space .blank
  else
    match init with
    | some s => w.stmt s false
    | none => pure ()
    mark ";"
    space .blank
    writeCond
    if isLoop then
      mark ";"
      space .blank
      match post with
      | some s =>
        w.stmt s false
        space .blank
      | none => pure ()
    else if cond.isSome then space .blank

/-- Whether values are better indented from the first on: one starts below the end of the one
before, or more than one has more than one line. -/
def indentsAll (t : LineTable) (xs : List Node) : Bool :=
  let ends := xs.map fun x => (t.line x.place, t.line x.stop)
  match ends, ends.getLast? with
  | (b, _) :: _ :: _, some (_, e) =>
    b < e && ((ends.zip (ends.drop 1)).any (fun ((_, x), (y, _)) => x < y) ||
      1 < (ends.filter fun (x, y) => x < y).length)
  | _, _ => false

def labeled (w : Writers) (n : Name) (colon : Place) (s : Stmt) (isLast : Bool) : Pen := do
  space .unindent
  name n
  markAt colon ":"
  space .indent
  match s with
  | .empty p _ =>
    unless isLast do
      space .newline
      markAt p ";"
  | _ =>
    let _ ← breakLine (← lineAt s.place) 1 .nothing true
    w.stmt s isLast

def rangeTargets (w : Writers) (key value : Option Node) (p : Place) (op : String) : Pen := do
  match key with
  | some k =>
    node w k
    match value with
    | some v =>
      markAt v.place ","
      space .blank
      node w v
    | none => pure ()
    space .blank
    markAt p op
    space .blank
  | none => pure ()

def writeStmt (w : Writers) (s : Stmt) (isLast : Bool) : Pen := do
  goTo s.place
  match s with
  | .empty _ _ => pure ()
  | .value x => node w x
  | .send x p y =>
    node w x
    space .blank
    markAt p "<-"
    space .blank
    node w y
  | .step x p op =>
    nodeAt w 2 x
    markAt p op
  | .assign xs p op ys =>
    let depth := if 1 < xs.length && 1 < ys.length then 2 else 1
    list w { start := s.place, stop := p } depth xs
    space .blank
    markAt p op
    space .blank
    list w { start := p } depth ys
  | .spawn _ k x =>
    mark k
    space .blank
    node w x
  | .leave _ xs =>
    mark "return"
    unless xs.isEmpty do
      space .blank
      if indentsAll (← get).lines xs then
        space .indent
        list w { indents := false } 1 xs
        space .unindent
      else list w {} 1 xs
  | .branch _ k l =>
    mark k
    match l with
    | some n =>
      space .blank
      name n
    | none => pure ()
  | .block b => block w true b
  | .choose _ init cond b other =>
    mark "if"
    head w false init (some cond) none
    block w true b
    match other with
    | some e =>
      space .blank
      mark "else"
      space .blank
      w.stmt e isLast
    | none => pure ()
  | .switch _ init tag b =>
    mark "switch"
    head w false init tag none
    block w false b
  | .typeSwitch _ init guard b =>
    mark "switch"
    match init with
    | some i =>
      space .blank
      w.stmt i false
      mark ";"
    | none => pure ()
    space .blank
    w.stmt guard false
    space .blank
    block w false b
  | .select _ b =>
    mark "select"
    space .blank
    let g ← get
    if b.stmts.isEmpty && !g.commentDue (g.lines.pos b.closing) then
      markAt b.opening "\x7b"
      markAt b.closing "\x7d"
    else block w false b
  | .case p xs colon ss =>
    if xs.isEmpty then mark "default"
    else
      mark "case"
      space .blank
      list w { start := p, stop := colon } 1 xs
    markAt colon ":"
    stmtList w true isLast ss
  | .comm _ c colon ss =>
    match c with
    | some c =>
      mark "case"
      space .blank
      w.stmt c false
    | none => mark "default"
    markAt colon ":"
    stmtList w true isLast ss
  | .loop _ init cond post b =>
    mark "for"
    head w true init cond post
    block w true b
  | .range _ k v p op _ x b =>
    mark "for"
    space .blank
    rangeTargets w k v p op
    mark "range"
    space .blank
    node w (unwrapped x)
    space .blank
    block w true b
  | .labeled n colon t => labeled w n colon t isLast
  | .declare d => decl w d

end TiledAutomata.Emit.Host.Layout
