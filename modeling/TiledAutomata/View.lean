import TiledAutomata.Automaton
import TiledAutomata.Simulator

/-!
# The cells of an instance as one grid

A view holds a copy of the state of one instance and addresses it by the row and the
column of a cell in the whole grid.
-/

namespace TiledAutomata

structure View where
  automaton : Automaton
  index : Int64
  words : Words

namespace View

def rows (v : View) : Int64 :=
  v.automaton.program.height * Int64.ofNat v.automaton.layout.wiring.rows

def cols (v : View) : Int64 :=
  v.automaton.program.width * Int64.ofNat v.automaton.layout.wiring.cols

def cell (v : View) (row col : Int64) : Except Error (Int64 × Site) :=
  if row < 0 || v.rows ≤ row || col < 0 || v.cols ≤ col then
    .error (.noted .outsideGrid ("(" ++ toString row.toInt ++ ", " ++ toString col.toInt ++
      ") of " ++ toString v.rows.toInt ++ "x" ++ toString v.cols.toInt))
  else
    let w := v.automaton.layout.wiring
    let r := Int64.ofNat w.rows
    let c := Int64.ofNat w.cols
    let position := (row % r * c + col % c).toInt.toNat
    .ok (row / r * v.automaton.program.width + col / c, w.sites.getD position default)

/-- What a caller asks for at a cell. -/
inductive Variable where
  | output (id : String)
  | param (id : String)
  | outputParam (output id : String)

def Variable.name? (x : Variable) (s : Site) : Option String :=
  match x with
  | .output id => s.outputVar? id
  | .param id => s.paramVar? id
  | .outputParam o id => s.outputParamVar? o id

def stateIndex (v : View) (row col : Int64) (x : Variable) : Except Error Nat := do
  let (unit, site) ← v.cell row col
  match x.name? site with
  | none => throw (.noted .notPersisted ("cell " ++ site.id ++ " has no such variable"))
  | some n =>
    match v.automaton.stateIndex? unit n with
    | none => throw (.noted .notPersisted n)
    | some i => return i.toInt.toNat

def has (v : View) (row col : Int64) (x : Variable) : Bool :=
  match v.stateIndex row col x with
  | .ok _ => true
  | .error _ => false

def get (v : View) (row col : Int64) (x : Variable) : Except Error Word := do
  return v.words.getD (← v.stateIndex row col x) 0

def set (v : View) (row col : Int64) (x : Variable) (value : Word) : Except Error View := do
  return { v with words := v.words.setIfInBounds (← v.stateIndex row col x) value }

variable {σ : Type}

def load (v : View) (sim : Simulator σ) : Act σ View := do
  let words ← Act.during ("view: load instance " ++ toString v.index.toInt)
    (sim.state v.index v.words)
  return { v with words }

def store (v : View) (sim : Simulator σ) : Act σ Unit :=
  Act.during ("view: store instance " ++ toString v.index.toInt) (sim.setState v.index v.words)

def create (a : Option Automaton) (sim : Option (Simulator σ)) (index : Int64) : Act σ View := do
  match a, sim with
  | some a, some sim =>
    if sim.stateSize ≠ a.stateSize then
      throw (.noted .stateSize ("simulator has " ++ toString sim.stateSize.toInt ++
        " words, program " ++ toString a.stateSize.toInt))
    if index < 0 || sim.size ≤ index then throw (badInstance "view" index sim.size)
    let words ← Act.orAbort (Words.zeros? a.stateSize)
    load ⟨a, index, words⟩ sim
  | _, _ => throw (.within "view: nil program or simulator" (.flaw .bare))

end View

end TiledAutomata
