import TiledAutomata.Cli.Execute
import TiledAutomata.Log.Line
import TiledAutomata.Text.Duration

/-!
# The command line

Reads the files that a command names, runs the command, and writes what it made.
-/

namespace TiledAutomata.Cli

def onTheWay (path : String) : List String :=
  let ns := Console.names path
  (List.range (ns.length + 1)).map fun n =>
    (if path.startsWith "/" then "/" else "./") ++ "/".intercalate (ns.take n)

def isFolder (path : String) : IO Bool := do
  try
    let _ ← IO.FS.Handle.mk (path ++ "/.") .read
    return true
  catch _ => return false

def loadConsole (args : List String) : IO Console := do
  let (reads, writes) := Console.paths args
  let files ← reads.filterMapM fun (path : String) => do
    try
      let content ← IO.FS.readBinFile path
      return some (Console.place path, File.bytes content.data.toList)
    catch _ => return none
  let folders ← ((reads ++ writes).flatMap onTheWay).filterM isFolder
  return { files, folders := folders.map Console.place }

def storeConsole (args : List String) (c : Console) : IO Unit := do
  for path in (Console.paths args).2 do
    match c.files.lookup (Console.place path) with
    | some f => IO.FS.writeBinFile path ⟨(Console.bytesOf f).toArray⟩
    | none => pure ()

def outputText (elapsed : Nat) (o : Output) : String :=
  if o.timed then
    String.ofList o.text.toList.dropLast ++ ", in " ++ Text.Duration.text elapsed ++ "\n"
  else o.text

end TiledAutomata.Cli

open TiledAutomata in
def main (args : List String) : IO UInt32 := do
  let start ← IO.monoNanosNow
  let (r, c) := (Cli.Console.execute args).run.run (← Cli.loadConsole args)
  Cli.storeConsole args c
  let elapsed := ((← IO.monoNanosNow) - start + 500) / 1000
  for r in c.rig.journal do
    IO.eprintln r.line
  for o in c.out do
    IO.print (Cli.outputText elapsed o)
  match r with
  | .ok () => return 0
  | .error e =>
    IO.eprintln ("cagen: " ++ e.message)
    return 1
