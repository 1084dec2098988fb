import TiledAutomata.Word

/-!
# Pseudo-random words

A permuted congruential generator with 128 bits of state. The upper half of the state,
mixed with the lower half, gives 64 bits, and their upper half a word.
-/

namespace TiledAutomata

structure Pcg where
  state : BitVec 128

namespace Pcg

def ofSeeds (hi lo : UInt64) : Pcg := ⟨hi.toBitVec ++ lo.toBitVec⟩

def next (g : Pcg) : UInt64 × Pcg :=
  let s := g.state * 0x2360ED051FC65DA44385DF649FCCF645#128 +
    0x5851F42D4C957F2D14057B7EF767814F#128
  let hi := UInt64.ofBitVec (s.extractLsb' 64 64)
  let lo := UInt64.ofBitVec (s.extractLsb' 0 64)
  let hi := (hi ^^^ (hi >>> 32)) * 0xda942042e4dd58b5
  let hi := (hi ^^^ (hi >>> 48)) * (lo ||| 1)
  (hi, ⟨s⟩)

def nextWord (g : Pcg) : Word × Pcg :=
  let (x, g) := g.next
  ((x >>> 32).toUInt32.toInt32, g)

def words : Nat → Pcg → List Word × Pcg
  | 0, g => ([], g)
  | n + 1, g =>
    let (w, g) := g.nextWord
    let (ws, g) := words n g
    (w :: ws, g)

end Pcg

end TiledAutomata
