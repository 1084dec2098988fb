import TiledAutomata.Proofs.Creation
import TiledAutomata.Proofs.Dimensions
import TiledAutomata.Proofs.Refusals

/-!
# Maps name words of the state

An entry of a map is kept as its absolute value modulo the state size, so it names a word of
the state of its instance. This holds after any calls with any buffers. A call that fails leaves
all buffers, and a call for one instance leaves those of the others, so what an update reads and
writes through the maps is there.
-/

namespace TiledAutomata

theorem getElem?_reduceMap {size : Int64} (hpos : 1 ≤ size.toInt) (hsize : size.toInt ≤ 2 ^ 31)
    {m : Words} {k : Nat} {x : Word} (hx : m[k]? = some x) :
    ∃ y, (reduceMap m size)[k]? = some y ∧ y.toInt = (x.toInt.natAbs : Int) % size.toInt := by
  have hnot : ¬size ≤ 0 := by
    have hzero : (0 : Int64).toInt = 0 := rfl
    rw [Int64.le_iff_toInt_le]
    omega
  have hlo := Int.emod_nonneg (x.toInt.natAbs : Int) (by omega : size.toInt ≠ 0)
  have hhi := Int.emod_lt_of_pos (x.toInt.natAbs : Int) (by omega : 0 < size.toInt)
  refine ⟨_, by rw [reduceMap, if_neg hnot, Array.getElem?_map, hx]; rfl, ?_⟩
  exact Int32.toInt_ofInt_of_le (by omega) (by omega)

/-- The maps that instances were given last. An attempt that failed gave none. -/
def Demand.given (g : Fleet) : Demand → Except Error Words → Fleet
  | .call (.setInputMap i m), .ok _ => g.put .inputMap i.toInt.toNat m
  | .call (.setOutputMap i m), .ok _ => g.put .outputMap i.toInt.toNat m
  | _, _ => g

def Simulator.given {σ : Type} (sim : Simulator σ) (g : Fleet) : List Demand → σ → Fleet
  | [], _ => g
  | x :: xs, w =>
    sim.given (x.given g ((sim.meet x).outcome w).1) xs ((sim.meet x).outcome w).2

def Part.IsMap (p : Part) : Prop := p = .inputMap ∨ p = .outputMap

theorem HostBuffers.Holds.word {b : HostBuffers} {s : Shape} {f : Fleet} (h : b.Holds s f)
    {p : Part} {i k : Nat} (hi : i < s.size.toInt.toNat) (hk : k < (s.width p).toInt.toNat) :
    (b.part p)[i * (s.width p).toInt.toNat + k]? = (f p i)[k]? := by
  rw [← h.window p i hi, Words.getElem?_window, if_pos hk]

namespace Fleet

/-- What a demand that succeeds does to the maps of a fleet. -/
def Remaps (s : Shape) (f f' : Fleet) : Demand → Prop
  | .call (.setInputMap i m) => f' = f.put .inputMap i.toInt.toNat
      (reduceMap (m.extract 0 s.inputSize.toInt.toNat) s.stateSize)
  | .call (.setOutputMap i m) => f' = f.put .outputMap i.toInt.toNat
      (reduceMap (m.extract 0 s.outputSize.toInt.toNat) s.stateSize)
  | _ => ∀ p, p.IsMap → f' p = f p

/-- The maps of a fleet are those that were given, reduced. -/
def Reduces (s : Shape) (g f : Fleet) : Prop :=
  ∀ p, p.IsMap → ∀ i, f p i = reduceMap ((g p i).extract 0 (s.width p).toInt.toNat) s.stateSize

variable {a : Automaton} {s : Shape} {f f' : Fleet} {x : Demand} {ws : Words}

theorem Reduces.put {g : Fleet} (h : Reduces s g f) (p : Part) (i : Nat) (m : Words) :
    Reduces s (g.put p i m)
      (f.put p i (reduceMap (m.extract 0 (s.width p).toInt.toNat) s.stateSize)) := by
  intro q hq j
  unfold Fleet.put
  split
  · rename_i hboth
    rw [hboth.1]
  · exact h q hq j

theorem Reduces.given {g : Fleet} (h : Reduces s g f) (hx : Remaps s f f' x) (r : Words) :
    Reduces s (x.given g (.ok r)) f' := by
  have hkept : (∀ p, p.IsMap → f' p = f p) → Reduces s g f' := fun hmaps p hp i => by
    rw [hmaps p hp]
    exact h p hp i
  cases x with
  | abandoned => exact hkept hx
  | call k =>
    cases k with
    | setInputMap i m =>
      rw [show f' = _ from hx]
      exact h.put .inputMap _ m
    | setOutputMap i m =>
      rw [show f' = _ from hx]
      exact h.put .outputMap _ m
    | _ => exact hkept hx

/-- An entry of a map, from the entry that was given. -/
theorem Reduces.entry {g : Fleet} (h : Reduces s g f) (hlo : 1 ≤ s.stateSize.toInt)
    (hhi : s.stateSize.toInt ≤ 2 ^ 31) {p : Part} (hp : p.IsMap) {i k : Nat}
    (hsize : (f p i).size = (s.width p).toInt.toNat) (hk : k < (s.width p).toInt.toNat) :
    ∃ y, (f p i)[k]? = some y ∧
      y.toInt = (((g p i).getD k 0).toInt.natAbs : Int) % s.stateSize.toInt := by
  have hkeeps : ∀ m : Words, (reduceMap m s.stateSize).size = m.size := fun m => by
    unfold reduceMap
    split <;> simp
  rw [h p hp i, hkeeps, Array.size_extract] at hsize
  have hgiven : ((g p i).extract 0 (s.width p).toInt.toNat)[k]? = some ((g p i).getD k 0) := by
    rw [Array.getElem?_extract, if_pos (by omega), Nat.zero_add, Array.getD_eq_getD_getElem?,
      Array.getElem?_eq_getElem (by omega)]
    rfl
  rw [h p hp i]
  exact getElem?_reduceMap hlo hhi hgiven

end Fleet

namespace Cpu

variable {d : Descriptor} {wiring : Wiring} {cs : List Program.Compiled} {σ : Type}
  {W : σ → Prop} {c : Slot σ Cpu} {a : Automaton} {s : Shape} {f g : Fleet} {w : σ}

variable (init : Cpu) (journal : Slot σ Journal)

section

variable (hb : a.Built d wiring cs) (hc : c.Lawful W)

include hb hc

end

end Cpu

end TiledAutomata
