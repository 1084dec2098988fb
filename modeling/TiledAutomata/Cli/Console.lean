import TiledAutomata.Picture
import TiledAutomata.Rig

/-!
# The world of a command

A command works with the files of some folders and prints to an output. Simulators and
log records live in a rig.
-/

namespace TiledAutomata.Cli

open Text (Bytes)

inductive File where
  | bytes (content : Bytes)
  | picture (p : Picture)

/-- A text that is printed. The elapsed time goes before the end of a timed one. -/
structure Output where
  text : String
  timed : Bool := false

structure Console where
  rig : Rig := {}
  /-- The folders in which files can be created, besides the working folder. -/
  folders : List (List String) := []
  files : List (List String × File) := []
  out : List Output := []

namespace Console

def rigSlot : Slot Console Rig := ⟨(·.rig), fun c r => { c with rig := r }⟩

def filesSlot : Slot Console (List (List String × File)) :=
  ⟨(·.files), fun c fs => { c with files := fs }⟩

def journal : Slot Console Journal :=
  rigSlot.part (·.journal) fun r j => { r with journal := j }

def onRig {α : Type} (x : Act Rig α) : Act Console α := do
  let c ← MonadState.get
  let (r, rig) := x.run.run c.rig
  MonadState.set { c with rig }
  Act.ofExcept r

def print (o : Output) : Act Console Unit := modify fun c => { c with out := c.out ++ [o] }

inductive Entry where
  | file (f : File)
  | folder

inductive Fault where
  | missing
  | notFolder
  | folder
  | tooLong
  | invalid
  deriving DecidableEq, Repr

def Fault.error (path : String) (f : Fault) : Error :=
  .within ("open " ++ path) (match f with
    | .missing => .cause .noSuchFile
    | .notFolder => .plain "not a directory"
    | .folder => .plain "is a directory"
    | .tooLong => .plain "file name too long"
    | .invalid => .plain "invalid argument")

def maxName : Nat := 255

def maxPath : Nat := 4095

def names (path : String) : List String := (path.splitOn "/").filter (· ≠ "")

/-- Where a path starts: the place of the root has an empty name. -/
def start (path : String) : List String := if path.startsWith "/" then [""] else []

/-- The place of a name as seen from a place. Above the working folder there are only folders. -/
def step (place : List String) (name : String) : List String :=
  if name = "." then place
  else if name ≠ ".." then place ++ [name]
  else if place = [""] then place
  else if place.all (· = "..") then place ++ [".."]
  else place.dropLast

def place (path : String) : List String := (names path).foldl step (start path)

def isFolder (c : Console) (place : List String) : Bool :=
  place = [""] || place.all (· = "..") || c.folders.contains place

def isFile (c : Console) (place : List String) : Bool := (c.files.lookup place).isSome

def walk (c : Console) (at_ : List String) : List String → Except Fault (List String)
  | [] => .ok at_
  | n :: ns =>
    let next := step at_ n
    if maxName < n.utf8ByteSize then .error .tooLong
    else if c.isFolder next then c.walk next ns
    else if c.isFile next then .error .notFolder
    else .error .missing

/-- The place of a path. Nothing can be made under a name with a slash behind it, and nothing but
a folder be found. -/
def locate (c : Console) (path : String) (making : Bool) : Except Fault (List String) := do
  if path.toList.contains (Char.ofNat 0) then throw .invalid
  if path = "" then throw .missing
  if maxPath < path.utf8ByteSize then throw .tooLong
  let ns := names path
  let at_ ← c.walk (start path) ns.dropLast
  match ns.getLast? with
  | none => return at_
  | some n =>
    let p := step at_ n
    if n = "." || n = ".." then return p
    if making && path.endsWith "/" then throw .folder
    if maxName < n.utf8ByteSize then throw .tooLong
    if path.endsWith "/" && c.isFile p then throw .notFolder
    return p

def open? (c : Console) (path : String) : Except Error Entry :=
  match c.locate path false with
  | .error f => .error (f.error path)
  | .ok p =>
    match c.files.lookup p with
    | some f => .ok (.file f)
    | none => if c.isFolder p then .ok .folder else .error (Fault.missing.error path)

def write (path : String) (f : File) : Act Console Unit := do
  let c ← MonadState.get
  match c.locate path true with
  | .error e => throw (e.error path)
  | .ok p =>
    if c.isFolder p then throw (Fault.folder.error path)
    filesSlot.update fun fs => fs.filter (fun g => g.1 != p) ++ [(p, f)]

end Console

end TiledAutomata.Cli
