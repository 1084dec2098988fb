import TiledAutomata.Act

/-!
# Log records

A logger keeps the records from a level on in a journal, or nothing at all.
-/

namespace TiledAutomata

namespace Log

/-- Levels are numbers, so that there are some between the named ones. -/
abbrev Level := Int

def debug : Level := -4
def info : Level := 0
def warn : Level := 4
def error : Level := 8

def Level.text (l : Level) : String :=
  let named (name : String) (base : Level) :=
    if l = base then name
    else name ++ (if base < l then "+" else "") ++ toString (l - base)
  if l < info then named "DEBUG" debug
  else if l < warn then named "INFO" info
  else if l < error then named "WARN" warn
  else named "ERROR" error

structure Record where
  level : Level
  message : String
  attrs : List (String × String) := []
  deriving DecidableEq, Repr

def Record.text (r : Record) : String :=
  " ".intercalate (r.level.text :: r.message :: r.attrs.map fun (k, v) => k ++ "=" ++ v)

end Log

/-- The least level that is kept. -/
abbrev Logger := Option Log.Level

abbrev Journal := List Log.Record

def Logger.keeps (l : Logger) (level : Log.Level) : Bool :=
  match l with
  | some least => decide (least ≤ level)
  | none => false

def Logger.log {σ : Type} (l : Logger) (journal : Slot σ Journal) (r : Log.Record) : Act σ Unit :=
  if l.keeps r.level then journal.update (· ++ [r]) else pure ()

end TiledAutomata
