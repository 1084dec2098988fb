import TiledAutomata.Error
import TiledAutomata.Text.Numeral

/-!
# Flags

A flag is written `--name value` or `--name=value`, and `-n value`, `-nvalue` or
`-n=value` if it has a letter. A switch takes its value only after an equals sign, so
that several switches can share a dash. Flags and operands may be mixed, and `--` ends
the flags.
-/

namespace TiledAutomata.Cli

inductive Flag.Kind where
  | text
  | integer
  | natural
  | switch
  deriving DecidableEq, Repr

structure Flag where
  name : String
  letter : Option Char := none
  kind : Flag.Kind := .text
  preset : String := ""
  usage : String
  deriving Repr

/-- The flags that were set, the latest first. -/
abbrev Settings := List (String × String)

/-- What the arguments of a command hold: set flags, and operands in order. -/
structure Arguments where
  settings : Settings := []
  operands : List String := []
  deriving Repr

namespace Flag

def truth? (s : String) : Option Bool :=
  if ["1", "t", "T", "true", "TRUE", "True"].contains s then some true
  else if ["0", "f", "F", "false", "FALSE", "False"].contains s then some false
  else none

def faultText : Text.Numeral.Fault → String
  | .malformed => "invalid syntax"
  | .outOfRange => "value out of range"

def Kind.fault? (k : Kind) (value : String) : Option String :=
  let said (reader fault : String) : String :=
    "strconv." ++ reader ++ ": parsing " ++ Text.quote value ++ ": " ++ fault
  match k with
  | .text => none
  | .integer =>
    match Text.Numeral.int64 value with
    | .ok _ => none
    | .error f => some (said "ParseInt" (faultText f))
  | .natural =>
    match Text.Numeral.word64 value with
    | .ok _ => none
    | .error f => some (said "ParseUint" (faultText f))
  | .switch => if (truth? value).isSome then none else some (said "ParseBool" "invalid syntax")

def spelling (f : Flag) : String :=
  match f.letter with
  | some c => "-" ++ String.singleton c ++ ", --" ++ f.name
  | none => "--" ++ f.name

def assign (f : Flag) (value : String) (s : Settings) : Except Error Settings :=
  match f.kind.fault? value with
  | some t => .error (.plain ("invalid argument " ++ Text.quote value ++ " for " ++
      Text.quote f.spelling ++ " flag: " ++ t))
  | none => .ok ((f.name, value) :: s)

/-- A flag that still waits for its value, and the argument as far as an error shows it. -/
structure Pending where
  flag : Flag
  shown : String

def unset (p : Pending) : Error := .plain ("flag needs an argument: " ++ p.shown)

def readLong (flags : List Flag) (cs : List Char) (s : Settings) :
    Except Error (Option Pending × Settings) := do
  let name := String.ofList (cs.takeWhile (· != '='))
  let value? := match cs.dropWhile (· != '=') with
    | _ :: v => some (String.ofList v)
    | [] => none
  if name.isEmpty || cs.head? == some '-' then
    throw (.plain ("bad flag syntax: --" ++ String.ofList cs))
  match flags.find? fun f => f.name == name, value? with
  | none, _ => throw (.plain ("unknown flag: --" ++ name))
  | some f, some v => return (none, ← f.assign v s)
  | some f, none =>
    if f.kind = .switch then return (none, ← f.assign "true" s)
    else return (some ⟨f, "--" ++ name⟩, s)

/-- What an error shows of a letter: the first byte of its first byte, written as a character. -/
def shownLetter (c : Char) : String :=
  let first (c : Char) : UInt8 := (Text.bytes (String.singleton c)).headD 0
  Text.quoteByte (first (Char.ofNat (first c).toNat))

/-- The letters of an argument that starts with one dash. What starts with `test.` is passed
over. -/
def readLetters (flags : List Flag) :
    List Char → Settings → Except Error (Option Pending × Settings)
  | [], s => .ok (none, s)
  | c :: cs, s =>
    let shown := shownLetter c ++ " in -" ++ String.ofList (c :: cs)
    if "test.".toList.isPrefixOf (c :: cs) then .ok (none, s)
    else match flags.find? fun f => f.letter == some c with
    | none => .error (.plain ("unknown shorthand flag: " ++ shown))
    | some f =>
      match cs with
      | [] => if f.kind = .switch then do return (none, ← f.assign "true" s)
        else .ok (some ⟨f, shown⟩, s)
      | '=' :: d :: ds => do return (none, ← f.assign (String.ofList (d :: ds)) s)
      | _ =>
        if f.kind = .switch then do readLetters flags cs (← f.assign "true" s)
        else do return (none, ← f.assign (String.ofList cs) s)

def read (flags : List Flag) : Option Pending → List String → Arguments → Except Error Arguments
  | none, [], a => .ok a
  | some p, [], _ => .error (unset p)
  | some p, x :: xs, a => do
    read flags none xs { a with settings := ← p.flag.assign x a.settings }
  | none, x :: xs, a =>
    match x.toList with
    | ['-', '-'] => .ok { a with operands := a.operands ++ xs }
    | '-' :: '-' :: cs => do
      let (p, s) ← readLong flags cs a.settings
      read flags p xs { a with settings := s }
    | '-' :: c :: cs => do
      let (p, s) ← readLetters flags (c :: cs) a.settings
      read flags p xs { a with settings := s }
    | _ => read flags none xs { a with operands := a.operands ++ [x] }

end Flag

namespace Settings

def isSet (s : Settings) (name : String) : Bool := (s.lookup name).isSome

def text (s : Settings) (flags : List Flag) (name : String) : String :=
  (s.lookup name).getD (((flags.find? fun f => f.name == name).map (·.preset)).getD "")

def integer (s : Settings) (flags : List Flag) (name : String) : Int64 :=
  Int64.ofInt ((Text.Numeral.int64 (s.text flags name)).toOption.getD 0)

def natural (s : Settings) (flags : List Flag) (name : String) : UInt64 :=
  UInt64.ofNat ((Text.Numeral.word64 (s.text flags name)).toOption.getD 0)

def switch (s : Settings) (name : String) : Bool :=
  ((s.lookup name).bind Flag.truth?).getD false

end Settings

end TiledAutomata.Cli
