import TiledAutomata.Emit.Host.Syntax

/-!
# References to other packages

What is selected from a name that nothing declares refers to another package. A name that is
declared in a block holds from there on to the end of the block, a member of the package
everywhere.
-/

namespace TiledAutomata.Emit.Host

structure Reference where
  package : String
  member : String
  deriving DecidableEq, Repr

/-- The names that hold at a point of a source, and the references before it. -/
structure Scope where
  /-- The names of each open block, the innermost first. The last are those of the package. -/
  blocks : List (List String) := [[]]
  /-- References that a member of the package would explain, and others that nothing does. -/
  found : List Reference := []
  sure : List Reference := []
  /-- Whether names are taken to be declared nowhere. -/
  isBlind : Bool := false
  deepest : Nat := 1

namespace Scope

abbrev Walk := StateM Scope Unit

def openBlock : Walk :=
  modify fun s => { s with
    blocks := [] :: s.blocks
    deepest := max s.deepest (s.blocks.length + 1) }

def inBlock (walk : Walk) : Walk := do
  openBlock
  walk
  modify fun s => { s with blocks := s.blocks.drop 1 }

/-- Declares a name in the innermost block. A lone underscore declares nothing. -/
def declare (n : Name) : Walk :=
  if n.text = "_" then pure ()
  else
    modify fun s => match s.blocks with
      | b :: bs => { s with blocks := (n.text :: b) :: bs }
      | [] => s

def declareAll : List Name → Walk
  | [] => pure ()
  | n :: ns => do
    declare n
    declareAll ns

def declareFields : List Field → Walk
  | [] => pure ()
  | f :: fs => do
    declareAll f.names
    declareFields fs

def declareSignature (ps : FieldList) (rs : Option FieldList) : Walk := do
  declareFields ps.fields
  match rs with
  | some l => declareFields l.fields
  | none => pure ()

def isExported (n : String) : Bool := n.toList.head?.any Char.isUpper

def refer (n member : Name) : Walk :=
  if isExported member.text then
    modify fun s =>
      let r : Reference := ⟨n.text, member.text⟩
      if s.isBlind || n.text = "_" then { s with sure := r :: s.sure }
      else if s.blocks.any (·.contains n.text) then s
      else { s with found := r :: s.found }
  else pure ()

def declareTargets : List Node → Walk
  | [] => pure ()
  | .name n :: xs => do
    declare n
    declareTargets xs
  | _ :: xs => declareTargets xs

def blindly (walk : Walk) : Walk := do
  let before := (← get).isBlind
  modify fun s => { s with isBlind := true }
  walk
  modify fun s => { s with isBlind := before }

mutual

def node : Node → Walk
  | .name _ | .literal _ => pure ()
  | .group _ x _ | .deref _ x | .unary _ _ x | .channel _ _ _ x => node x
  | .select x n =>
    match x with
    | .name m => refer m n
    | _ => node x
  | .index x _ is _ => do
    node x
    nodes is
  | .slice x _ low high top _ => do
    node x
    option low
    option high
    option top
  | .assert x _ t _ => do
    node x
    option t
  | .call f _ args _ _ => do
    node f
    nodes args
  | .binary x _ _ y | .pair x _ y | .map _ x y => do
    node x
    node y
  | .composite t _ xs _ => do
    option t
    nodes xs
  | .closure t b => inBlock do
      match t with
      | .function _ ps rs => do
        fieldList ps
        optionFields rs
        declareSignature ps rs
      | _ => pure ()
      block b
  | .dots _ t => option t
  | .array _ n x => do
    option n
    node x
  | .function _ ps rs => inBlock do
      fieldList ps
      optionFields rs
      declareSignature ps rs
  | .struct _ fs | .interface _ fs => inBlock (fieldList fs)

def option : Option Node → Walk
  | some x => node x
  | none => pure ()

def nodes : List Node → Walk
  | [] => pure ()
  | x :: xs => do
    node x
    nodes xs

def fieldList : FieldList → Walk
  | .mk _ fs _ => fields fs

def fields : List Field → Walk
  | [] => pure ()
  | .mk _ t _ _ :: fs => do
    node t
    fields fs

def optionFields : Option FieldList → Walk
  | some l => fieldList l
  | none => pure ()

def block : Block → Walk
  | .mk _ ss _ => stmts ss

def stmts : List Stmt → Walk
  | [] => pure ()
  | s :: ss => do
    stmt s
    stmts ss

def optionStmt : Option Stmt → Walk
  | some s => stmt s
  | none => pure ()

def stmt : Stmt → Walk
  | .empty _ _ | .branch _ _ _ => pure ()
  | .value x | .step x _ _ | .spawn _ _ x => node x
  | .send x _ y => do
    node x
    node y
  | .assign xs _ op ys => do
    nodes ys
    if op = ":=" then
      blindly (nodes xs)
      declareTargets xs
    else nodes xs
  | .leave _ xs => nodes xs
  | .block b => inBlock (block b)
  | .select _ b => block b
  | .choose _ i c b e => inBlock do
      optionStmt i
      node c
      inBlock (block b)
      optionStmt e
  | .switch _ i t b => inBlock do
      optionStmt i
      let rest : Walk := do
        option t
        block b
      if i.isSome && t.isSome then inBlock rest else rest
  | .typeSwitch _ i g b =>
    let rest : Walk := inBlock do
      stmt g
      block b
    match i with
    | some s => inBlock do
        stmt s
        rest
    | none => rest
  | .case _ xs _ ss => do
    nodes xs
    inBlock (stmts ss)
  | .comm _ c _ ss => inBlock do
      optionStmt c
      stmts ss
  | .loop _ i c p b => inBlock do
      optionStmt i
      option c
      optionStmt p
      inBlock (block b)
  | .range _ k v _ op _ x b => inBlock do
      node x
      option k
      option v
      if op = ":=" then declareTargets (k.toList ++ v.toList)
      inBlock (block b)
  | .labeled _ _ s => stmt s
  | .declare d => decl d

def decl : Decl → Walk
  | .mk _ _ _ _ ss _ => do
    let depth := (← get).blocks.length
    specs ss
    modify fun s => { s with blocks := s.blocks.drop (s.blocks.length - depth) }

def specs : List Spec → Walk
  | [] => pure ()
  | s :: ss => do
    spec s
    specs ss

/-- A type with parameters opens a block, which holds to the end of the declarations that it is one
of. -/
def spec : Spec → Walk
  | .imported _ _ _ _ _ => pure ()
  | .value ns t vs _ => do
    nodes vs
    option t
    declareAll ns
  | .type n ps _ t _ => do
    declare n
    match ps with
    | some l => do
      openBlock
      declareFields l.fields
    | none => pure ()
    optionFields ps
    node t

end

def receiver (l : FieldList) : Walk := do
  match l.fields with
  | [] => pure ()
  | f :: fs =>
    let t := match f.type with
      | .deref _ x => x
      | t => t
    match t with
    | .index x _ is _ =>
      declareTargets is
      node x
      nodes is
    | t => node t
    fields fs

def func (f : Func) : Walk := do
  inBlock do
    match f.receiver with
    | some r => receiver r
    | none => pure ()
    match f.typeParams with
    | some l =>
      declareFields l.fields
      fieldList l
    | none => pure ()
    fieldList f.params
    optionFields f.results
    match f.receiver with
    | some r => declareFields r.fields
    | none => pure ()
    declareSignature f.params f.results
    match f.body with
    | some b => block b
    | none => pure ()
  if f.receiver.isNone && f.name.text != "init" then declare f.name

def members : List Member → Walk
  | [] => pure ()
  | m :: ms => do
    match m with
    | .decl d => decl d
    | .func f => func f
    members ms

end Scope

def Scope.limit : Nat := 1000

def File.references? (f : File) : Option (List Reference) :=
  let s := ((Scope.members f.members).run {}).2
  let names := s.blocks.flatten
  if Scope.limit < s.deepest then none
  else some (s.sure ++ s.found.filter fun r => !names.contains r.package)

end TiledAutomata.Emit.Host
