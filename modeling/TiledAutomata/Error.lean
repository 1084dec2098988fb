import TiledAutomata.Expr.Compile
import TiledAutomata.Expr.Token

/-!
# Errors

What can go wrong, by cause, with the text of each cause. An operation that is called
outside its domain stops; what it had changed so far stays changed.
-/

namespace TiledAutomata

/-- The causes that callers tell apart. -/
inductive Cause where
  | capacityExhausted
  | badIndex
  | shortBuffer
  | closed
  | backendMissing
  | backendFailure
  | laneWidth
  | noComponents
  | widthMismatch
  | outsideGrid
  | notPersisted
  | stateSize
  | format
  | version
  | mismatch
  | scale
  | canceled
  | noSuchFile
  deriving DecidableEq, Repr

def Cause.text : Cause → String
  | .capacityExhausted => "automata: allocator capacity exhausted"
  | .badIndex => "automata: instance index out of range"
  | .shortBuffer => "automata: buffer too small"
  | .closed => "automata: simulator closed"
  | .backendMissing => "automata: backend not available"
  | .backendFailure => "automata: backend failure"
  | .laneWidth => "bitwise: bits per entity must divide 32"
  | .noComponents => "composite: no components"
  | .widthMismatch => "composite: component widths differ"
  | .outsideGrid => "view: cell outside grid"
  | .notPersisted => "view: variable not persisted"
  | .stateSize => "view: state size mismatch"
  | .format => "snapshot: not a state snapshot"
  | .version => "snapshot: unsupported version"
  | .mismatch => "snapshot: shape mismatch"
  | .scale => "snapshot: scale must be positive"
  | .canceled => "context canceled"
  | .noSuchFile => "no such file or directory"

inductive Flaw where
  | bare
  | noDescriptor
  | noProgram
  | grid (width height : Int)
  | noRows
  | emptyUnit
  | neighbors (found : String)
  | addressing (found : String)
  | repeatedType (id : String)
  | emptyRow (row : Nat)
  | raggedRow (row have_ want : Nat)
  | unknownType (row col : Nat) (id : String)
  | noSuchType (id : String)
  | noOutputs (id : String)
  | repeatedCell (id : String)
  | keepsNoOutputs (id : String)
  deriving DecidableEq, Repr

def Flaw.detail? : Flaw → Option String
  | .bare => none
  | .noDescriptor => some "nil descriptor"
  | .noProgram => some "nil program"
  | .grid w h => some ("grid " ++ toString w ++ "x" ++ toString h)
  | .noRows => some "logical unit has no rows"
  | .emptyUnit => some "empty logical unit"
  | .neighbors s => some ("unsupported neighbor connections " ++ Text.quote s)
  | .addressing s => some ("unknown addressing " ++ Text.quote s)
  | .repeatedType t => some ("cell type " ++ Text.quote t ++ " declared twice")
  | .emptyRow r => some ("row " ++ toString r ++ " is empty")
  | .raggedRow r n k =>
    some ("row " ++ toString r ++ " has " ++ toString n ++ " cells, want " ++ toString k)
  | .unknownType r c t =>
    some ("cell (" ++ toString r ++ "," ++ toString c ++ ") has unknown type " ++ Text.quote t)
  | .noSuchType t => some ("unknown cell type " ++ Text.quote t)
  | .noOutputs t => some ("cell type " ++ Text.quote t ++ " has no outputs")
  | .repeatedCell c => some ("duplicate cell id " ++ Text.quote c)
  | .keepsNoOutputs c => some ("cell " ++ c ++ " keeps no outputs")

def Flaw.message (f : Flaw) : String :=
  match f.detail? with
  | some d => "model: invalid descriptor: " ++ d
  | none => "model: invalid descriptor"

/-- A variable that a cell defines more than once. -/
structure DuplicateParameter where
  cell : String
  param : String
  deriving DecidableEq, Repr

def DuplicateParameter.message (e : DuplicateParameter) : String :=
  "cell " ++ e.cell ++ ": parameter " ++ Text.quote e.param ++ " defined more than once"

/-- A placeholder that names nothing. -/
structure Unresolved where
  cell : String
  token : String
  deriving DecidableEq, Repr

def Unresolved.message (e : Unresolved) : String :=
  "cell " ++ e.cell ++ ": invalid parameter " ++ Text.quote e.token

inductive DocumentFault where
  | jsonEmpty
  | jsonMalformed
  | jsonType
  | jsonUnknownField (name : String)
  | xmlMalformed
  | xmlRoot
  | xmlEmpty
  | xmlValue
  deriving DecidableEq, Repr

def DocumentFault.message : DocumentFault → String
  | .jsonEmpty => "model: decode json: EOF"
  | .jsonMalformed => "model: decode json: malformed document"
  | .jsonType => "model: decode json: value of the wrong type"
  | .jsonUnknownField k => "model: decode json: json: unknown field " ++ Text.quote k
  | .xmlMalformed => "model: decode xml: malformed document"
  | .xmlRoot => "model: decode xml: wrong root element"
  | .xmlEmpty => "model: decode xml: EOF"
  | .xmlValue => "model: decode xml: value of the wrong type"

inductive Error where
  | cause (c : Cause)
  | noted (c : Cause) (note : String)
  | flaw (f : Flaw)
  | duplicate (e : DuplicateParameter)
  | unresolved (e : Unresolved)
  | source (e : SyntaxError)
  | unknownIdent (e : UnknownIdent)
  | document (f : DocumentFault)
  | unformattable
  | plain (text : String)
  | within (context : String) (e : Error)
  | backend (name op : String) (e : Error)
  | joined (es : List Error)
  | closing (es : List Error)
  /-- The program stops. -/
  | abort (text : Option String)
  /-- The world has no such device. -/
  | noDevice

namespace Error

mutual

def message : Error → String
  | .cause c => c.text
  | .noted c n => c.text ++ ": " ++ n
  | .flaw f => f.message
  | .duplicate e => e.message
  | .unresolved e => e.message
  | .source e => e.message
  | .unknownIdent e => e.message
  | .document f => f.message
  | .unformattable => "program: codegen: format go: malformed source"
  | .plain t => t
  | .within ctx e => ctx ++ ": " ++ e.message
  | .backend n o e => "automata: " ++ n ++ " backend: " ++ o ++ ": " ++ e.message
  | .joined es => "\n".intercalate (messages es)
  | .closing es =>
    "composite: closing " ++ toString es.length ++ " component(s) failed: " ++
      "; ".intercalate (messages es)
  | .abort t => t.getD ""
  | .noDevice => "no such device"

def messages : List Error → List String
  | [] => []
  | e :: es => e.message :: messages es

end

mutual

/-- An error and everything it wraps, outermost first. -/
def chain : Error → List Error
  | .within ctx e => .within ctx e :: e.chain
  | .backend n o e => .backend n o e :: e.chain
  | .joined es => .joined es :: chains es
  | .closing es => .closing es :: chains es
  | e => [e]

def chains : List Error → List Error
  | [] => []
  | e :: es => e.chain ++ chains es

end

def names (c : Cause) : Error → Bool
  | .cause d => c = d
  | .noted d _ => c = d
  | .backend .. => c = .backendFailure
  | _ => false

end Error

end TiledAutomata
