import TiledAutomata.View

/-!
# Pictures of a view

One shade of gray for each cell: bright where a bit of an output is set, dark where it
is not, and in between where the cell has no such output.
-/

namespace TiledAutomata

structure Picture where
  width : Nat
  height : Nat
  rows : List (List UInt8)

namespace Picture

def bright : UInt8 := 0xff
def dark : UInt8 := 0x00
def missing : UInt8 := 0x40

def shade (v : View) (output : String) (lane : Nat) (row col : Nat) : UInt8 :=
  match v.get (Int64.ofNat row) (Int64.ofNat col) (.output output) with
  | .ok w => if (w.toUInt32 >>> (lane % 32).toUInt32) &&& 1 ≠ 0 then bright else dark
  | .error _ => missing

def render (v : View) (output : String) (lane : Nat) : Picture :=
  let width := v.cols.toInt.toNat
  let height := v.rows.toInt.toNat
  ⟨width, height, (List.range height).map fun r =>
    (List.range width).map fun c => shade v output lane r c⟩

def resize (p : Picture) (width height : Nat) : Picture :=
  let nearest (n size ofSize : Nat) : Nat := (2 * n + 1) * ofSize / (2 * size)
  let rows := p.rows.map Array.mk |>.toArray
  ⟨width, height, (List.range height).map fun y =>
    let row := rows.getD (nearest y height p.height) #[]
    (List.range width).map fun x => row.getD (nearest x width p.width) missing⟩

/-- The length of a side at a scale. A product that does not fit wraps around, and what it lacks
to zero counts as much as what it is above. -/
def side (n : Nat) (k : Int64) : Int64 :=
  let product := Int64.ofNat n * k
  if product < 0 then -product else product

/-- The sides of a picture can be negative only if they wrap around, and their product has to
fit; no file holds a picture without pixels or with a side of 2^32. -/
def checkSides (width height : Int64) : Except Error Unit :=
  let (w, h) := (width.toInt, height.toInt)
  if w < 0 || h < 0 || Int.pow 2 63 ≤ w * h then
    .error (.abort (some "image: NewGray Rectangle has huge or negative dimensions"))
  else if !Memory.admits (w * h) 1 then .error (.abort none)
  else if w = 0 || h = 0 || Int.pow 2 32 ≤ w || Int.pow 2 32 ≤ h then
    .error (.plain ("snapshot: encode png: png: invalid format: invalid image size: " ++
      toString w ++ "x" ++ toString h))
  else .ok ()

def renderScaled (v : View) (k : Int64) (output : String) : Except Error Picture :=
  if k < 1 then .error (.noted .scale (toString k.toInt))
  else do
    let p := render v output 0
    let (width, height) := (side p.width k, side p.height k)
    checkSides width height
    return p.resize width.toInt.toNat height.toInt.toNat

end Picture

end TiledAutomata
