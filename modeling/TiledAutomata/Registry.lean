import TiledAutomata.Cpu

/-!
# Backends by name

A registry maps names to factories. Without a name, backends are tried in an order of
preference, and one that fails is passed over.
-/

namespace TiledAutomata

abbrev Factory (σ α : Type) := Automaton → Config → Options → Act σ α

structure Registry (σ α : Type) where
  entries : List (String × Factory σ α) := []

namespace Registry

variable {σ α : Type}

/-- The known backends, the preferred one first. -/
def preferred : List String := ["gpu", "cpu"]

def available (r : Registry σ α) : List String := r.entries.map (·.1)

def isRegistered (r : Registry σ α) (name : String) : Bool := r.available.contains name

def factory? (r : Registry σ α) (name : String) : Option (Factory σ α) := r.entries.lookup name

def insert (name : String) (f : Factory σ α) :
    List (String × Factory σ α) → List (String × Factory σ α)
  | [] => [(name, f)]
  | (n, g) :: rest =>
    if name < n then (name, f) :: (n, g) :: rest
    else if n = name then (name, f) :: rest
    else (n, g) :: insert name f rest

/-- Replaces any earlier factory of the name. -/
def register (r : Registry σ α) (name : String) (f : Factory σ α) : Registry σ α :=
  ⟨insert name f r.entries⟩

def unregister (r : Registry σ α) (name : String) : Registry σ α :=
  ⟨r.entries.filter fun e => e.1 ≠ name⟩

def order (r : Registry σ α) : List (String × Factory σ α) :=
  preferred.filterMap (fun n => (r.factory? n).map (n, ·)) ++
    r.entries.filter fun e => !preferred.contains e.1

/-- What a backend and its caller have in common: a journal and how to pass a logger on. -/
structure Context (σ α : Type) where
  journal : Slot σ Journal
  setLogger : α → Logger → Act σ Unit

def start (ctx : Context σ α) (name : String) (f : Factory σ α) (a : Automaton) (c : Config)
    (o : Options) : Act σ α := do
  let s ← f a c o
  ctx.setLogger s o.logger
  o.logger.log ctx.journal ⟨Log.info, "automata: backend selected",
    [("backend", name), ("instances", toString c.instances.toInt)]⟩
  return s

/-- Tries one backend after the other and returns the first failure if none works. -/
def startFirst (ctx : Context σ α) (a : Automaton) (c : Config) (o : Options) :
    Option Error → List (String × Factory σ α) → Act σ α
  | first, [] => throw (first.getD (.cause .backendMissing))
  | first, (name, f) :: rest => do
    match ← (start ctx name f a c o).attempt with
    | .ok s => return s
    | .error e =>
      o.logger.log ctx.journal ⟨Log.warn, "automata: backend unavailable, trying next",
        [("backend", name), ("err", e.message)]⟩
      startFirst ctx a c o (first.or (some e)) rest

def create (r : Registry σ α) (ctx : Context σ α) (d : Option Descriptor) (config : Config)
    (o : Options) : Act σ α := do
  let c := config.effective
  let a ← Act.during "automata" (Act.ofExcept (Automaton.compile d))
  o.logger.log ctx.journal ⟨Log.debug, "automata: program compiled",
    [("units", toString a.unitCount.toInt), ("stateSize", toString a.stateSize.toInt),
      ("iterations", toString a.program.iterations.toInt)]⟩
  if o.backend = "" then startFirst ctx a c o none r.order
  else
    match r.factory? o.backend with
    | none => throw (.noted .backendMissing (Text.quote o.backend))
    | some f => start ctx o.backend f a c o

end Registry

end TiledAutomata
