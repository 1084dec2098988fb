import TiledAutomata.Cli.Command
import TiledAutomata.Cli.Console
import TiledAutomata.Cli.Inspect
import TiledAutomata.Descriptor.Xml
import TiledAutomata.Emit.Kernel
import TiledAutomata.Emit.Package
import TiledAutomata.Png
import TiledAutomata.Snapshot

/-!
# Running commands

Arguments choose a command and set its flags. Then, in this order, an unknown operand,
a bad log level, a missing flag and two flags that exclude each other are errors.
-/

namespace TiledAutomata.Cli

open Text (Bytes)

def levelOf (s : String) : Except Error Log.Level :=
  let cs := s.toList
  let isSign (c : Char) : Bool := c == '+' || c == '-'
  let name := cs.takeWhile fun c => !isSign c
  let offset := String.ofList (cs.dropWhile fun c => !isSign c)
  let upper (c : Char) : Char := if c.toNat = 0x131 then 'I' else c.toUpper
  let refuse (why : String) : Except Error Log.Level :=
    .error (.plain ("--log-level: slog: level string " ++ Text.quote s ++ ": " ++ why))
  match if offset = "" then .ok 0 else Text.Numeral.decimal64 offset with
  | .error f =>
    refuse ("strconv.Atoi: parsing " ++ Text.quote offset ++ ": " ++ Flag.faultText f)
  | .ok n =>
    match [("DEBUG", Log.debug), ("INFO", Log.info), ("WARN", Log.warn),
        ("ERROR", Log.error)].lookup (String.ofList (name.map upper)) with
    | some l => .ok (Int64.ofInt (l + n)).toInt
    | none => refuse "unknown name"

namespace Console

def bytesOf : File → Bytes
  | .bytes bs => bs
  | .picture p => Png.encode p

def isXml (path : String) : Bool :=
  (path.toList.map Char.toLower).reverse.take 4 == ".xml".toList.reverse

def readDescriptor (path : String) : Act Console Descriptor :=
  Act.during ("read " ++ path) do
    match ← Act.during "model" (Act.ofExcept ((← MonadState.get).open? path)) with
    | .file f =>
      let bs := bytesOf f
      Act.ofExcept (if isXml path then Descriptor.readXml bs else Descriptor.readJson bs)
    | .folder => throw (.document (if isXml path then .xmlValue else .jsonMalformed))

def generate (text : String → String) (logger : Logger) : Act Console Unit := do
  let d ← readDescriptor (text "input")
  let a ← Act.ofExcept (Automaton.compile (some d))
  let source ← Act.ofExcept (match text "target" with
    | "wgsl" => Emit.Kernel.source a.program
    | "go" => Emit.Package.source a.program (text "package")
    | t => .error (.plain ("unknown target " ++ Text.quote t ++ ", want wgsl or go")))
  logger.log journal ⟨Log.info, "generated", [("target", text "target"),
    ("bytes", toString source.utf8ByteSize), ("fingerprint", a.fingerprint)]⟩
  let output := text "output"
  if output = "" || output = "-" then print ⟨source, false⟩
  else write output (.bytes (Text.bytes source))

def inspect (text : String → String) (logger : Logger) : Act Console Unit := do
  let d ← readDescriptor (text "input")
  let a ← Act.ofExcept (Automaton.compile (some d))
  logger.log journal ⟨Log.debug, "compiled", [("fingerprint", a.fingerprint)]⟩
  print ⟨Inspect.report a, false⟩

structure RunOptions where
  input : String
  updates : Int64
  instances : Int64
  seed : UInt64
  backend : String
  schedule : String
  workers : Int64
  picture : String
  scale : Int64
  output : String
  save : String
  load : String

def RunOptions.ofSettings (s : Settings) (flags : List Flag) : RunOptions where
  input := s.text flags "input"
  updates := s.integer flags "updates"
  instances := s.integer flags "instances"
  seed := s.natural flags "seed"
  backend := s.text flags "backend"
  schedule := s.text flags "schedule"
  workers := s.integer flags "workers"
  picture := s.text flags "png"
  scale := s.integer flags "png-scale"
  output := s.text flags "png-output"
  save := s.text flags "save"
  load := s.text flags "load"

def initial (sim : Simulator Rig) (o : RunOptions) : Act Console Unit := do
  if o.load ≠ "" then
    match ← Act.ofExcept ((← MonadState.get).open? o.load) with
    | .file f => onRig ((← Act.ofExcept (Snapshot.decode (bytesOf f))).restore sim)
    | .folder => throw (.noted .format ("header: read " ++ o.load ++ ": is a directory"))
  else if o.seed ≠ 0 then
    let zeros ← Act.orAbort (Words.zeros? (sim.size * sim.stateSize))
    let (ws, _) := (Pcg.ofSeeds o.seed o.seed).words zeros.size
    onRig (sim.setStates ws.toArray)

def updates (sim : Simulator Rig) (from_ : Nat) : Nat → Act Rig Unit
  | 0 => pure ()
  | n + 1 => do
    Act.during ("update " ++ toString from_) (sim.update false)
    updates sim (from_ + 1) n

def save (sim : Simulator Rig) (path : String) (logger : Logger) : Act Console Unit := do
  let s ← onRig (Snapshot.capture sim)
  write path (.bytes [])
  write path (.bytes (← Act.ofExcept s.encode))
  logger.log journal ⟨Log.info, "snapshot saved", [("path", path)]⟩

def draw (a : Automaton) (sim : Simulator Rig) (o : RunOptions) (logger : Logger) :
    Act Console Unit := do
  let v ← onRig (View.create (some a) (some sim) 0)
  write o.picture (.bytes [])
  write o.picture (.picture (← Act.ofExcept (Picture.renderScaled v o.scale o.output)))
  logger.log journal ⟨Log.info, "png written", [("path", o.picture)]⟩

def simulate (a : Automaton) (sim : Simulator Rig) (o : RunOptions) (logger : Logger) :
    Act Console Unit := do
  initial sim o
  onRig (updates sim 0 o.updates.toInt.toNat)
  print ⟨toString o.updates.toInt ++ " update(s) of " ++ toString sim.size.toInt ++
    " instance(s), " ++ toString sim.stateSize.toInt ++ " words each\n", true⟩
  if o.save ≠ "" then save sim o.save logger
  if o.picture ≠ "" then draw a sim o logger

def run (o : RunOptions) (logger : Logger) : Act Console Unit := do
  let d ← readDescriptor o.input
  let a ← Act.ofExcept (Automaton.compile (some d))
  let schedule ← Act.ofExcept (Schedule.ofText o.schedule)
  let h ← onRig (Rig.backends.create Rig.context (some d) ⟨o.instances, 0, 0⟩
    { workers := o.workers, schedule, backend := o.backend, logger })
  let done ← (simulate a h.sim o logger).attempt
  match ← (onRig h.sim.close).attempt with
  | .ok () => pure ()
  | .error e => logger.log journal ⟨Log.warn, "close simulator", [("err", e.message)]⟩
  Act.ofExcept done

def help (operands : List String) : Act Console Unit :=
  match Command.find operands with
  | .ok (c, _) => print ⟨c.page, false⟩
  | .error _ =>
    let shown (s : String) : String :=
      if s.toList.all fun c => c ≠ Char.ofNat 0x60 && (c = '\t' || 0x20 ≤ c.toNat && c.toNat ≠ 0x7f)
      then "\x60" ++ s ++ "\x60" else Text.quote s
    print ⟨"Unknown help topic [" ++ " ".intercalate (operands.map shown) ++ "]\n" ++
      Command.root.usage [], false⟩

/-- Flags that exclude each other. -/
def exclusive : List String := ["seed", "load"]

def checkSettings (c : Command) (s : Settings) : Except Error Unit := do
  if c.flags.any (fun f => f.name == "input") && !s.isSet "input" then
    throw (.plain "required flag(s) \"input\" not set")
  if exclusive.all s.isSet then
    throw (.plain ("if any flags in the group [seed load] are set none of the others can be; " ++
      "[load seed] were all set"))

def execute (args : List String) : Act Console Unit := do
  let (c, rest) ← Act.ofExcept (Command.find args)
  let a ← Act.ofExcept (Flag.read c.allFlags none rest {})
  let text := a.settings.text c.allFlags
  if a.settings.switch "help" then print ⟨c.page, false⟩
  else match c.action, a.operands with
    | .describe, _ => print ⟨c.page, false⟩
    | .help, operands => help operands
    | _, x :: _ => throw (c.unknown x "")
    | action, [] =>
      let logger : Logger := some (← Act.ofExcept (levelOf (text "log-level")))
      Act.ofExcept (checkSettings c a.settings)
      match action with
      | .generate => generate text logger
      | .inspect => inspect text logger
      | .teach => pure ()
      | _ => run (.ofSettings a.settings c.allFlags) logger

def paths (args : List String) : List String × List String :=
  match Command.find args with
  | .error _ => ([], [])
  | .ok (c, rest) =>
    match Flag.read c.allFlags none rest {} with
    | .error _ => ([], [])
    | .ok a =>
      let named (names : List String) : List String := names.filterMap fun n => a.settings.lookup n
      (named ["input", "load"], named ["output", "save", "png"])

end Console

end TiledAutomata.Cli
