import TiledAutomata.Descriptor.Json
import TiledAutomata.Text.Blank
import TiledAutomata.Xml.Event

/-!
# Descriptors as XML documents

The root element is read and what follows it is not. Elements and attributes are known
by their local name; unknown ones are passed over with all they hold.
-/

namespace TiledAutomata

open Xml (Event Ending Name)

inductive Xml.Node where
  | element (name : String) (attrs : List (String × String)) (children : List Xml.Node)
  | text (s : String)

namespace Xml.Node

def attr (n : Node) (key : String) : String :=
  match n with
  | .element _ as _ =>
    (as.filterMap fun a => if a.1 == key then some a.2 else none).getLast?.getD ""
  | .text _ => ""

def children : Node → List Node
  | .element _ _ cs => cs
  | .text _ => []

def elements (n : Node) (key : String) : List Node :=
  n.children.filter fun
    | .element k _ _ => k == key
    | .text _ => false

def content (n : Node) : String :=
  String.join (n.children.map fun
    | .text s => s
    | .element .. => "")

end Xml.Node

namespace Descriptor.Xml

def rootName : String := "cellularAutomatonDescriptor"

/-- An empty text is zero, any other is a decimal numeral between blanks. -/
def int? (s : String) : Option Int64 :=
  if s = "" then some 0
  else (Text.Numeral.decimal64 (Text.trim s)).toOption.map Int64.ofInt

def flag? (s : String) : Option Bool :=
  if s = "" then some false
  else if ["1", "t", "T", "true", "TRUE", "True"].contains (Text.trim s) then some true
  else if ["0", "f", "F", "false", "FALSE", "False"].contains (Text.trim s) then some false
  else none

def readable (path : List String) (key value : String) : Bool :=
  if path == [rootName] && ["width", "height", "iterationsPerUpdate"].contains key then
    (int? value).isSome
  else if path == [rootName, "cellType", "output"] && key == "constant" then
    (flag? value).isSome
  else true

/-- The namespace of what is tagged as belonging to the language itself. -/
def ownSpace : String :=
  "/".intercalate ["http:", "", "www.w3.org", "XML", "1998", "namespace"]

/-- The namespaces that the attributes of an element declare, by tag. -/
def declaredSpaces (as : List (Name × String)) : List (String × String) :=
  as.filterMap fun a =>
    if a.1.tag = "xmlns" then some (a.1.part, a.2)
    else if a.1.tag = "" && a.1.part = "xmlns" then some ("", a.2)
    else none

/-- The namespace of a root element. A tag that is not declared stands for itself, and of several
declarations the last one counts. -/
def spaceOf (n : Name) (as : List (Name × String)) : String :=
  if n.tag = "xmlns" then n.tag
  else
    let tag := if n.tag = "xml" then ownSpace else n.tag
    ((declaredSpaces as).reverse.lookup tag).getD tag

def rootElement (es : List Event) : ElementName :=
  (es.findSome? fun
    | .start n as => some ⟨spaceOf n as, n.part⟩
    | _ => none).getD {}

structure Open where
  name : Name
  attrs : List (String × String)
  children : List Xml.Node

def Open.close (o : Open) : Xml.Node := .element o.name.part o.attrs o.children.reverse

def Open.add (o : Open) (n : Xml.Node) : Open := { o with children := n :: o.children }

def endFault (stack : List Open) : Ending → DocumentFault
  | .complete => if stack.isEmpty then .xmlEmpty else .xmlMalformed
  | .malformed => .xmlMalformed
  | .unsupported => .xmlValue

/-- The root element. Faults are reported in the order of the document. -/
def root (ending : Ending) : List Open → List Event → Except DocumentFault Xml.Node
  | stack, [] => .error (endFault stack ending)
  | stack, .text s :: es =>
    match stack with
    | [] => root ending [] es
    | o :: os => root ending (o.add (.text s) :: os) es
  | stack, .start n as :: es =>
    if stack.isEmpty && n.part ≠ rootName then .error .xmlRoot
    else
      let path := (stack.map fun o => o.name.part).reverse ++ [n.part]
      if as.all fun a => readable path a.1.part a.2 then
        root ending (⟨n, as.map fun a => (a.1.part, a.2), []⟩ :: stack) es
      else .error .xmlValue
  | stack, .stop n :: es =>
    match stack with
    | [] => .error .xmlMalformed
    | o :: os =>
      if o.name ≠ n then .error .xmlMalformed
      else match os with
        | [] => .ok o.close
        | p :: ps => root ending (p.add o.close :: ps) es

def names (n : Xml.Node) (key : String) : List String :=
  (n.elements key).map fun e => e.attr "id"

def lastContent (n : Xml.Node) (key : String) : String :=
  ((n.elements key).getLast?.map Xml.Node.content).getD ""

def output (n : Xml.Node) : Output where
  id := n.attr "id"
  update := lastContent n "updateExpression"
  before := lastContent n "beforeUpdate"
  constant := (flag? (n.attr "constant")).getD false
  params := names n "param"

def absent {α : Type} (xs : List α) : Option (List α) := if xs.isEmpty then none else some xs

def cellType (n : Xml.Node) : CellType where
  id := n.attr "id"
  outputs := absent ((n.elements "output").map output)
  params := names n "param"
  vars := names n "var"

def cell (n : Xml.Node) : Cell where
  id := n.attr "id"
  type := n.attr "type"
  keeps := n.attr "outputs"

def row (n : Xml.Node) : Row where
  cells := absent ((n.elements "cell").map cell)

def lastAttr (ns : List Xml.Node) (key : String) : String :=
  ((ns.flatMap fun
    | .element _ as _ => as.filterMap fun a => if a.1 == key then some a.2 else none
    | .text _ => []).getLast?).getD ""

/-- All units given count as one: their rows follow each other. -/
def unit (ns : List Xml.Node) : LogicalUnit where
  neighbors := lastAttr ns "neighborConnections"
  rows := absent (ns.flatMap fun n => (n.elements "row").map row)

def ofNode (element : ElementName) (n : Xml.Node) : Descriptor where
  element
  width := (int? (n.attr "width")).getD 0
  height := (int? (n.attr "height")).getD 0
  iterations := (int? (n.attr "iterationsPerUpdate")).getD 0
  addressing := n.attr "addressing"
  cellTypes := absent ((n.elements "cellType").map cellType)
  unit := unit (n.elements "logicalUnit")

end Descriptor.Xml

def Descriptor.readXml (bs : Text.Bytes) : Except Error Descriptor :=
  let (es, ending) := Xml.events bs
  match Descriptor.Xml.root ending [] es with
  | .error f => .error (.document f)
  | .ok n => (Descriptor.Xml.ofNode (Descriptor.Xml.rootElement es) n).checked

end TiledAutomata
