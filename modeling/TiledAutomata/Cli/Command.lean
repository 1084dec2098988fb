import TiledAutomata.Cli.Flag
import TiledAutomata.Text.Lower

/-!
# Commands

The first operand chooses a command. A name that is none of a command's is answered with
the names that are like it.
-/

namespace TiledAutomata.Cli

inductive Action where
  | generate
  | inspect
  | run
  | help
  /-- Teaches a shell the names of the commands. -/
  | teach
  /-- Shows what the command is for. -/
  | describe
  deriving DecidableEq, Repr

structure Command where
  path : String
  brief : String
  /-- What the help says first, if it is more than the brief text. -/
  about : String := ""
  operands : String := ""
  flags : List Flag := []
  action : Action
  /-- The names and brief texts of the commands below. -/
  below : List (String × String) := []

namespace Command

def logLevel : Flag where
  name := "log-level"
  preset := "warn"
  usage := "log level: debug, info, warn or error"

def input : Flag where
  name := "input"
  letter := 'i'
  usage := "descriptor file (.json or .xml)"

def generate : Command where
  path := "cagen generate"
  brief := "Emit the kernel source of a descriptor"
  action := .generate
  flags := [
    input,
    { name := "output", letter := 'o', usage := "output file, stdout when empty" },
    { name := "package", preset := "kernel", usage := "package name of generated Go" },
    { name := "target", letter := 't', preset := "wgsl", usage := "target language: wgsl or go" }]

def inspect : Command where
  path := "cagen inspect"
  brief := "Print the state layout of a descriptor"
  action := .inspect
  flags := [input]

def run : Command where
  path := "cagen run"
  brief := "Simulate a descriptor and optionally save or render the result"
  action := .run
  flags := [
    { name := "backend", usage := "backend name (cpu or gpu), best available when empty" },
    input,
    { name := "instances", kind := .integer, preset := "1",
      usage := "number of automaton instances" },
    { name := "load", usage := "restore the initial state from this snapshot file" },
    { name := "png", usage := "render instance 0 to this PNG file" },
    { name := "png-output", preset := "1", usage := "output id rendered in the PNG" },
    { name := "png-scale", kind := .integer, preset := "8", usage := "pixels per cell in the PNG" },
    { name := "save", usage := "write a state snapshot to this file" },
    { name := "schedule", preset := "instance", usage := "cpu schedule: instance or workgroup" },
    { name := "seed", kind := .natural, preset := "0",
      usage := "randomize the initial state with this seed; 0 starts from zero" },
    { name := "updates", letter := 'n', kind := .integer, preset := "1",
      usage := "number of updates" },
    { name := "workers", kind := .integer, preset := "0",
      usage := "cpu workers, one per processor when 0" }]

def help : Command where
  path := "cagen help"
  brief := "Help about any command"
  about := "Help provides help for any command in the application.\n" ++
    "Simply type cagen help [path to command] for full details."
  operands := " [command]"
  action := .help

def shell (name : String) : String × Command :=
  (name, {
    path := "cagen completion " ++ name
    brief := "Generate the autocompletion script for " ++ name
    action := .teach
    flags := [
      { name := "no-descriptions", kind := .switch, usage := "disable completion descriptions" }] })

def shells : List (String × Command) := ["bash", "fish", "powershell", "zsh"].map shell

def completion : Command where
  path := "cagen completion"
  brief := "Generate the autocompletion script for the specified shell"
  about := "Generate the autocompletion script for cagen for the specified shell.\n" ++
    "See each sub-command's help for details on how to use the generated script."
  action := .describe
  below := shells.map fun (n, c) => (n, c.brief)

def commands : List (String × Command) :=
  [("completion", completion), ("generate", generate), ("help", help), ("inspect", inspect),
    ("run", run)]

def root : Command where
  path := "cagen"
  brief := "Compile and run tiled cellular automata"
  action := .describe
  below := commands.map fun (n, c) => (n, c.brief)

def name (c : Command) : String :=
  String.ofList ((c.path.toList.reverse.takeWhile (· != ' ')).reverse)

def helpFlag (c : Command) : Flag where
  name := "help"
  letter := 'h'
  kind := .switch
  usage := "help for " ++ c.name

def allFlags (c : Command) : List Flag := c.helpFlag :: logLevel :: c.flags

/-- Whether an argument is a flag that takes the next argument as its value. Before the command
is known, every flag does so unless it comes with a value. -/
def takesNext (x : String) : Bool :=
  !x.toList.contains '=' && (x.startsWith "--" || x.startsWith "-" && x.utf8ByteSize == 2)

/-- The first operand with the arguments before and after it. The value of a flag is no
operand, and neither is what follows a flag when only one argument is left. -/
def firstOperand? (before : List String) :
    Bool → List String → Option (List String × String × List String)
  | _, [] => none
  | true, x :: xs => firstOperand? (before ++ [x]) false xs
  | false, x :: xs =>
    if x = "--" then none
    else if takesNext x then
      if xs.length ≤ 1 then none else firstOperand? (before ++ [x]) true xs
    else if x = "" || x.startsWith "-" then firstOperand? (before ++ [x]) false xs
    else some (before, x, xs)

def distance {α : Type} [DecidableEq α] (s t : List α) : Nat :=
  let row (prev : List Nat) (c : α) : List Nat :=
    let step : List Nat → (Nat × Nat) × α → List Nat := fun acc ((diagonal, above), d) =>
      acc ++ [if c = d then diagonal else min (min above (acc.getLastD 0)) diagonal + 1]
    ((prev.zip (prev.drop 1)).zip t).foldl step [prev.headD 0 + 1]
  (s.foldl row (List.range (t.length + 1))).getLastD 0

/-- The commands that a text may have meant: those that begin like it, and those that at most
two changed bytes make of it. Case does not matter. -/
def similar (typed : String) : List String :=
  let lower := Text.bytes (typed.map Text.lower)
  ["generate", "inspect", "run", "completion"].filter fun n =>
    distance lower (Text.bytes n) ≤ 2 || lower.isPrefixOf (Text.bytes n)

def unknown (c : Command) (typed : String) (hint : String) : Error :=
  .plain ("unknown command " ++ Text.quote typed ++ " for " ++ Text.quote c.path ++ hint)

def below? (cs : List (String × Command)) (args : List String) : Option (Command × List String) :=
  match firstOperand? [] false args with
  | none => none
  | some (before, x, after) => (cs.lookup x).map fun c => (c, before ++ after)

def find (args : List String) : Except Error (Command × List String) :=
  match firstOperand? [] false args, below? commands args with
  | none, _ => .ok (root, args)
  | some _, some (c, rest) =>
    .ok (if c.path = completion.path then (below? shells rest).getD (c, rest) else (c, rest))
  | some (_, x, _), none =>
    let hint := match similar x with
      | [] => ""
      | ns => "\n\nDid you mean this?\n" ++ "".intercalate (ns.map fun n => "\t" ++ n ++ "\n")
    .error (unknown root x hint)

def nameWidth : Nat := 11

def flagLines (flags : List Flag) : String :=
  let left (f : Flag) : String :=
    (match f.letter with
      | some c => "  -" ++ String.singleton c ++ ", --" ++ f.name
      | none => "      --" ++ f.name) ++
    match f.kind with
      | .text => " string"
      | .integer => " int"
      | .natural => " uint"
      | .switch => ""
  let width := (flags.map fun f => (left f).length).foldl max 0
  let preset (f : Flag) : String :=
    match f.kind with
    | .text => if f.preset = "" then "" else " (default " ++ Text.quote f.preset ++ ")"
    | .switch => ""
    | _ => if f.preset = "0" then "" else " (default " ++ f.preset ++ ")"
  let sorted := flags.mergeSort fun a b => decide (a.name ≤ b.name)
  "\n".intercalate (sorted.map fun f =>
    (left f).pushn ' ' (width - (left f).length + 3) ++ f.usage ++ preset f)

def usage (c : Command) (own : List Flag) : String :=
  "Usage:" ++
  (if c.action = .describe then "" else "\n  " ++ c.path ++ c.operands ++ " [flags]") ++
  (if c.below.isEmpty then "" else
    "\n  " ++ c.path ++ " [command]\n\nAvailable Commands:" ++
      "".intercalate (c.below.map fun (n, b) =>
        "\n  " ++ n.pushn ' ' (nameWidth - n.length) ++ " " ++ b)) ++
  "\n\nFlags:\n" ++ flagLines (if c.path = root.path then logLevel :: own else own) ++
  (if c.path = root.path then "" else "\n\nGlobal Flags:\n" ++ flagLines [logLevel]) ++
  (if c.below.isEmpty then "" else
    "\n\nUse \"" ++ c.path ++ " [command] --help\" for more information about a command.") ++
  "\n"

def page (c : Command) : String :=
  (if c.about = "" then c.brief else c.about) ++ "\n\n" ++ c.usage (c.helpFlag :: c.flags)

end Command

end TiledAutomata.Cli
