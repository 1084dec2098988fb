import TiledAutomata.Emit.Host.Token

/-!
# Syntax of the host language

Types and expressions are one kind of node, since only what is declared tells them apart.
A node knows the places of its tokens, so that comments keep theirs.
-/

namespace TiledAutomata.Emit.Host

inductive Direction where
  | both
  | receive
  | send
  deriving DecidableEq, Repr

structure Name where
  place : Place
  text : String
  deriving DecidableEq, Repr

namespace Name

def stop (n : Name) : Place := n.place + n.text.utf8ByteSize

end Name

structure Literal where
  place : Place
  stop : Place
  kind : Kind
  text : String
  deriving DecidableEq, Repr

mutual

inductive Node where
  | name (n : Name)
  | literal (l : Literal)
  | group (opening : Place) (x : Node) (closing : Place)
  | select (x : Node) (n : Name)
  | index (x : Node) (opening : Place) (items : List Node) (closing : Place)
  | slice (x : Node) (opening : Place) (low high top : Option Node) (closing : Place)
  /-- Without a type, the one that a switch is about. -/
  | assert (x : Node) (opening : Place) (type : Option Node) (closing : Place)
  | call (f : Node) (opening : Place) (args : List Node) (spread : Place) (closing : Place)
  | deref (place : Place) (x : Node)
  | unary (place : Place) (op : String) (x : Node)
  | binary (x : Node) (place : Place) (op : String) (y : Node)
  | pair (key : Node) (colon : Place) (value : Node)
  | composite (type : Option Node) (opening : Place) (items : List Node) (closing : Place)
  | closure (type : Node) (body : Block)
  /-- Dots before the type of many arguments, or for the size of an array that its elements tell. -/
  | dots (place : Place) (of : Option Node)
  | array (place : Place) (size : Option Node) (of : Node)
  | map (place : Place) (key value : Node)
  | channel (place : Place) (d : Direction) (arrow : Place) (of : Node)
  /-- The type of a method has no place of its own. -/
  | function (place : Place) (params : FieldList) (results : Option FieldList)
  | struct (place : Place) (fields : FieldList)
  | interface (place : Place) (fields : FieldList)

/-- Names with their type. Without names, a type that is embedded or a parameter without a name. -/
inductive Field where
  | mk (names : List Name) (type : Node) (tag : Option Literal) (note : Option Nat)

/-- Fields in brackets, which a single result need not have. -/
inductive FieldList where
  | mk (opening : Place) (fields : List Field) (closing : Place)

inductive Block where
  | mk (opening : Place) (stmts : List Stmt) (closing : Place)

inductive Stmt where
  /-- A semicolon, which may stand for the end of a line or be left out. -/
  | empty (place : Place) (implicit : Bool)
  | value (x : Node)
  | send (x : Node) (arrow : Place) (y : Node)
  | step (x : Node) (place : Place) (op : String)
  | assign (targets : List Node) (place : Place) (op : String) (values : List Node)
  /-- A call that is put off or runs beside the others. -/
  | spawn (place : Place) (keyword : String) (call : Node)
  | leave (place : Place) (values : List Node)
  | branch (place : Place) (keyword : String) (label : Option Name)
  | block (b : Block)
  | choose (place : Place) (init : Option Stmt) (cond : Node) (body : Block) (other : Option Stmt)
  | switch (place : Place) (init : Option Stmt) (tag : Option Node) (body : Block)
  | typeSwitch (place : Place) (init : Option Stmt) (guard : Stmt) (body : Block)
  | select (place : Place) (body : Block)
  /-- A case of a switch; without values, what is left. -/
  | case (place : Place) (values : List Node) (colon : Place) (body : List Stmt)
  /-- A case of a selection; without a statement, what is left. -/
  | comm (place : Place) (comm : Option Stmt) (colon : Place) (body : List Stmt)
  | loop (place : Place) (init : Option Stmt) (cond : Option Node) (post : Option Stmt)
      (body : Block)
  | range (place : Place) (key value : Option Node) (at_ : Place) (op : String)
      (range : Place) (x : Node) (body : Block)
  | labeled (label : Name) (colon : Place) (stmt : Stmt)
  | declare (d : Decl)

inductive Decl where
  | mk (doc : Option Nat) (place : Place) (keyword : String) (opening : Place) (specs : List Spec)
      (closing : Place)

inductive Spec where
  | imported (doc : Option Nat) (name : Option Name) (path : Literal) (stop : Place)
      (note : Option Nat)
  | value (names : List Name) (type : Option Node) (values : List Node) (note : Option Nat)
  | type (name : Name) (params : Option FieldList) (assign : Place) (type : Node)
      (note : Option Nat)

end

structure Func where
  doc : Option Nat
  place : Place
  receiver : Option FieldList
  name : Name
  typeParams : Option FieldList
  params : FieldList
  results : Option FieldList
  body : Option Block

inductive Member where
  | decl (d : Decl)
  | func (f : Func)

structure File where
  place : Place
  name : Name
  members : List Member
  groups : List Group
  lines : LineTable

namespace FieldList

def opening : FieldList → Place
  | .mk o _ _ => o

def fields : FieldList → List Field
  | .mk _ fs _ => fs

def closing : FieldList → Place
  | .mk _ _ c => c

end FieldList

namespace Block

def opening : Block → Place
  | .mk o _ _ => o

def stmts : Block → List Stmt
  | .mk _ ss _ => ss

def closing : Block → Place
  | .mk _ _ c => c

end Block

namespace Field

def names : Field → List Name
  | .mk ns _ _ _ => ns

def type : Field → Node
  | .mk _ t _ _ => t

def tag : Field → Option Literal
  | .mk _ _ t _ => t

def note : Field → Option Nat
  | .mk _ _ _ n => n

end Field

mutual

def Node.place : Node → Place
  | .name n => n.place
  | .literal l => l.place
  | .group p _ _ | .deref p _ | .unary p _ _ | .dots p _ | .array p _ _ | .map p _ _
  | .channel p _ _ _ | .struct p _ | .interface p _ => p
  | .select x _ | .index x _ _ _ | .slice x _ _ _ _ _ | .assert x _ _ _ | .call x _ _ _ _
  | .binary x _ _ _ | .pair x _ _ | .closure x _ => x.place
  | .composite t o _ _ =>
    match t with
    | some x => x.place
    | none => o
  | .function p ps _ => if p = 0 then ps.place else p

def Field.place : Field → Place
  | .mk ns t _ _ =>
    match ns with
    | n :: _ => n.place
    | [] => t.place

def FieldList.place : FieldList → Place
  | .mk o fs _ =>
    if o = 0 then
      match fs with
      | f :: _ => f.place
      | [] => 0
    else o

end

mutual

def Node.stop : Node → Place
  | .name n | .select _ n => n.stop
  | .literal l => l.stop
  | .group _ _ c | .index _ _ _ c | .slice _ _ _ _ _ c | .assert _ _ _ c | .call _ _ _ _ c
  | .composite _ _ _ c => c + 1
  | .deref _ x | .unary _ _ x | .binary _ _ _ x | .pair _ _ x | .array _ _ x | .map _ _ x
  | .channel _ _ _ x => x.stop
  | .closure _ b => b.closing + 1
  | .dots p x =>
    match x with
    | some y => y.stop
    | none => p + 3
  | .function _ ps rs =>
    match rs with
    | some r => r.stop
    | none => ps.stop
  | .struct _ fs | .interface _ fs => fs.stop

def Field.stop : Field → Place
  | .mk _ t tag _ =>
    match tag with
    | some l => l.stop
    | none => t.stop

def FieldList.stop : FieldList → Place
  | .mk _ fs c => if c = 0 then fieldsStop fs else c + 1

def fieldsStop : List Field → Place
  | [] => 0
  | [f] => f.stop
  | _ :: fs => fieldsStop fs

end

namespace Spec

def place : Spec → Place
  | .imported _ n p _ _ => (n.map (·.place)).getD p.place
  | .value ns _ _ _ => (ns.head?.map (·.place)).getD 0
  | .type n _ _ _ _ => n.place

def stop : Spec → Place
  | .imported _ _ p s _ => if s = 0 then p.stop else s
  | .value ns t vs _ =>
    match vs.getLast?, t with
    | some v, _ => v.stop
    | none, some t => t.stop
    | none, none => (ns.getLast?.map (·.stop)).getD 0
  | .type _ _ _ t _ => t.stop

end Spec

namespace Decl

def doc : Decl → Option Nat
  | .mk d _ _ _ _ _ => d

def place : Decl → Place
  | .mk _ p _ _ _ _ => p

def keyword : Decl → String
  | .mk _ _ k _ _ _ => k

def opening : Decl → Place
  | .mk _ _ _ o _ _ => o

def specs : Decl → List Spec
  | .mk _ _ _ _ ss _ => ss

def closing : Decl → Place
  | .mk _ _ _ _ _ c => c

def stop : Decl → Place
  | .mk _ _ _ _ ss c => if c = 0 then (ss.head?.map Spec.stop).getD 0 else c + 1

end Decl

namespace Stmt

def place : Stmt → Place
  | .empty p _ | .spawn p _ _ | .leave p _ | .branch p _ _ | .choose p _ _ _ _ | .switch p _ _ _
  | .typeSwitch p _ _ _ | .select p _ | .case p _ _ _ | .comm p _ _ _ | .loop p _ _ _ _
  | .range p _ _ _ _ _ _ _ => p
  | .value x | .send x _ _ | .step x _ _ => x.place
  | .assign xs p _ _ => (xs.head?.map Node.place).getD p
  | .block b => b.opening
  | .labeled n _ _ => n.place
  | .declare d => d.place

def stop : Stmt → Place
  | .empty p implicit => if implicit then p else p + 1
  | .value x | .send _ _ x | .spawn _ _ x => x.stop
  | .step _ p _ => p + 2
  | .assign _ p _ ys => (ys.getLast?.map Node.stop).getD p
  | .leave p xs => (xs.getLast?.map Node.stop).getD (p + 6)
  | .branch p k l => (l.map Name.stop).getD (p + k.length)
  | .block b | .switch _ _ _ b | .typeSwitch _ _ _ b | .select _ b | .loop _ _ _ _ b
  | .range _ _ _ _ _ _ _ b => b.closing + 1
  | .choose _ _ _ b other =>
    match other with
    | some s => s.stop
    | none => b.closing + 1
  | .case _ _ c ss | .comm _ _ c ss => last (c + 1) ss
  | .labeled _ _ s => s.stop
  | .declare d => d.stop
where
  last (p : Place) : List Stmt → Place
    | [] => p
    | s :: ss => last s.stop ss

end Stmt

namespace Member

def doc : Member → Option Nat
  | .decl d => d.doc
  | .func f => f.doc

def place : Member → Place
  | .decl d => d.place
  | .func f => f.place

def keyword : Member → String
  | .decl d => d.keyword
  | .func _ => "func"

def stop : Member → Place
  | .decl d => d.stop
  | .func f =>
    match f.body, f.results with
    | some b, _ => b.closing + 1
    | none, some r => r.stop
    | none, none => f.params.stop

end Member

def level? (op : String) : Option Nat :=
  [("||", 1), ("&&", 2), ("==", 3), ("!=", 3), ("<", 3), ("<=", 3), (">", 3), (">=", 3),
    ("+", 4), ("-", 4), ("|", 4), ("^", 4), ("*", 5), ("/", 5), ("%", 5), ("<<", 5), (">>", 5),
    ("&", 5), ("&^", 5)].lookup op

end TiledAutomata.Emit.Host
