import Mathlib.Tactic.Linarith
import Mathlib.Tactic.Ring
import TiledAutomata.Program

/-!
# Neighbors of a unit

Where the units of a grid can be counted with room to spare, the machine arithmetic of
a neighbor is the arithmetic of integers: rows and columns wrap by themselves, or the
count of all units wraps. The neighbor of a unit is then a unit.
-/

namespace TiledAutomata

open Int

variable {a b : Int64}

namespace Int64

theorem toInt_add_eq (hlo : -2 ^ 63 ≤ a.toInt + b.toInt) (hhi : a.toInt + b.toInt < 2 ^ 63) :
    (a + b).toInt = a.toInt + b.toInt := by
  rw [Int64.toInt_add, bmod_eq_of_le (by omega) (by omega)]

theorem ofNat_toNat (h : 0 ≤ a.toInt) : Int64.ofNat a.toInt.toNat = a := by
  have hlt := a.toInt_lt
  apply Int64.toInt_inj.mp
  rw [Int64.toInt_ofNat_of_lt (by omega), toNat_of_nonneg h]

theorem toInt_mul_eq (hlo : -2 ^ 63 ≤ a.toInt * b.toInt) (hhi : a.toInt * b.toInt < 2 ^ 63) :
    (a * b).toInt = a.toInt * b.toInt := by
  rw [Int64.toInt_mul, bmod_eq_of_le (by omega) (by omega)]

theorem toInt_mod_eq (ha : 0 ≤ a.toInt) : (a % b).toInt = a.toInt % b.toInt := by
  rw [Int64.toInt_mod, tmod_eq_emod_of_nonneg ha]

theorem toInt_div_eq (ha : 0 ≤ a.toInt) (hb : 0 < b.toInt) : (a / b).toInt = a.toInt / b.toInt := by
  have hne : b ≠ -1 := by
    rintro rfl
    exact absurd hb (by decide)
  rw [Int64.toInt_div_of_ne_right _ _ hne, tdiv_eq_ediv_of_nonneg ha]

end Int64

namespace Addressing

variable {width height unit relRow relCol : Int64}

/-- A place of a cycle, a step further. A cycle of length `2 ^ 62` has one sum that overflows, from
its last place to its first, and the remainder is right there too. -/
theorem cycle_step {x step n : Int64} (hx : 0 ≤ x.toInt) (hxn : x.toInt < n.toInt)
    (hn : n.toInt ≤ 2 ^ 62) (hlo : -1 ≤ step.toInt) (hhi : step.toInt ≤ 1) :
    ((x + step + n) % n).toInt = (x.toInt + step.toInt) % n.toInt := by
  have h1 : (x + step).toInt = x.toInt + step.toInt :=
    Int64.toInt_add_eq (by omega) (by omega)
  by_cases hover : x.toInt + step.toInt + n.toInt = 2 ^ 63
  · have hlen : n.toInt = 2 ^ 62 := by omega
    have h2 : (x + step + n).toInt = -2 ^ 63 := by
      rw [Int64.toInt_add, h1, hover]
      rfl
    have hsum : x.toInt + step.toInt = 2 ^ 62 := by omega
    rw [Int64.toInt_mod, h2, hsum, hlen]
    rfl
  · have h2 : (x + step + n).toInt = x.toInt + step.toInt + n.toInt := by
      rw [Int64.toInt_add_eq (by omega) (by omega), h1]
    rw [Int64.toInt_mod_eq (by omega), h2, Int.add_emod_right]

theorem neighbor?_toroidal (hw : 0 < width.toInt) (hh : 0 < height.toInt)
    (hwfit : width.toInt ≤ 2 ^ 62) (hhfit : height.toInt ≤ 2 ^ 62)
    (hfit : width.toInt * height.toInt < 2 ^ 63) (hu : 0 ≤ unit.toInt)
    (hunit : unit.toInt < width.toInt * height.toInt)
    (hr : -1 ≤ relRow.toInt ∧ relRow.toInt ≤ 1) (hc : -1 ≤ relCol.toInt ∧ relCol.toInt ≤ 1) :
    ∃ n, toroidal.neighbor? width height unit relRow relCol = some n ∧
      n.toInt = (unit.toInt / width.toInt + relRow.toInt) % height.toInt * width.toInt +
        (unit.toInt % width.toInt + relCol.toInt) % width.toInt := by
  have hw0 : width ≠ 0 := by
    rintro rfl
    exact absurd hw (by decide)
  have hh0 : height ≠ 0 := by
    rintro rfl
    exact absurd hh (by decide)
  refine ⟨(unit / width + relRow + height) % height * width +
      (unit % width + relCol + width) % width,
    by simp only [neighbor?, hw0, hh0, or_self, if_false], ?_⟩
  have hdiv := Int64.toInt_div_eq hu hw
  have hmod := Int64.toInt_mod_eq (b := width) hu
  have hrow0 : 0 ≤ unit.toInt / width.toInt := Int.ediv_nonneg hu hw.le
  have hrow1 : unit.toInt / width.toInt < height.toInt :=
    Int.ediv_lt_of_lt_mul hw (by rw [mul_comm]; exact hunit)
  have hcol0 := Int.emod_nonneg unit.toInt hw.ne'
  have hcol1 := Int.emod_lt_of_pos unit.toInt hw
  have hrow := cycle_step (x := unit / width) (n := height) (by omega) (by omega) hhfit hr.1 hr.2
  have hcol := cycle_step (x := unit % width) (n := width) (by omega) (by omega) hwfit hc.1 hc.2
  rw [hdiv] at hrow
  rw [hmod] at hcol
  have ha0 := Int.emod_nonneg (unit.toInt / width.toInt + relRow.toInt) hh.ne'
  have ha1 := Int.emod_lt_of_pos (unit.toInt / width.toInt + relRow.toInt) hh
  have hb0 := Int.emod_nonneg (unit.toInt % width.toInt + relCol.toInt) hw.ne'
  have hb1 := Int.emod_lt_of_pos (unit.toInt % width.toInt + relCol.toInt) hw
  generalize (unit.toInt / width.toInt + relRow.toInt) % height.toInt = a at *
  generalize (unit.toInt % width.toInt + relCol.toInt) % width.toInt = b at *
  have hprod : a * width.toInt + width.toInt ≤ width.toInt * height.toInt := by nlinarith
  have hpos : 0 ≤ a * width.toInt := mul_nonneg ha0 hw.le
  have hmul : ((unit / width + relRow + height) % height * width).toInt = a * width.toInt := by
    rw [Int64.toInt_mul_eq (by rw [hrow]; omega) (by rw [hrow]; omega), hrow]
  rw [Int64.toInt_add_eq (by rw [hmul, hcol]; omega) (by rw [hmul, hcol]; omega), hmul, hcol]

/-- Where `2 ^ 62` units stand in one row, the sum from the last of them can overflow, and the
remainder is right there too. -/
theorem neighbor?_flat (hw : 0 < width.toInt) (hh : 0 < height.toInt)
    (hfit : width.toInt * height.toInt ≤ 2 ^ 62) (hu : 0 ≤ unit.toInt)
    (hunit : unit.toInt < width.toInt * height.toInt)
    (hr : -1 ≤ relRow.toInt ∧ relRow.toInt ≤ 1) (hc : -1 ≤ relCol.toInt ∧ relCol.toInt ≤ 1) :
    ∃ n, flat.neighbor? width height unit relRow relCol = some n ∧
      n.toInt = (unit.toInt + relRow.toInt * width.toInt + relCol.toInt) %
        (width.toInt * height.toInt) := by
  have htotal : (width * height).toInt = width.toInt * height.toInt :=
    Int64.toInt_mul_eq (by nlinarith) (by omega)
  have hpos : 0 < width.toInt * height.toInt := mul_pos hw hh
  have hwle : width.toInt ≤ width.toInt * height.toInt := by nlinarith
  have ht0 : width * height ≠ 0 := by
    intro h
    rw [h] at htotal
    simp at htotal
    omega
  refine ⟨((unit + relRow * width + relCol) % (width * height) + width * height) % (width * height),
    by simp only [neighbor?, ht0, if_false], ?_⟩
  have hstep : relRow.toInt * width.toInt ≤ width.toInt ∧
      -width.toInt ≤ relRow.toInt * width.toInt := by
    constructor <;> nlinarith
  have h1 : (relRow * width).toInt = relRow.toInt * width.toInt :=
    Int64.toInt_mul_eq (by omega) (by omega)
  have h2 : (unit + relRow * width).toInt = unit.toInt + relRow.toInt * width.toInt := by
    rw [Int64.toInt_add_eq (by omega) (by omega), h1]
  have h4 : ((unit + relRow * width + relCol) % (width * height)).toInt =
      (unit.toInt + relRow.toInt * width.toInt + relCol.toInt).tmod
        (width.toInt * height.toInt) := by
    by_cases hover : unit.toInt + relRow.toInt * width.toInt + relCol.toInt = 2 ^ 63
    · have hfull : width.toInt * height.toInt = 2 ^ 62 := by omega
      have h3 : (unit + relRow * width + relCol).toInt = -2 ^ 63 := by
        rw [Int64.toInt_add, h2, hover]
        rfl
      rw [Int64.toInt_mod, h3, htotal, hover, hfull]
      rfl
    · have h3 : (unit + relRow * width + relCol).toInt =
          unit.toInt + relRow.toInt * width.toInt + relCol.toInt := by
        rw [Int64.toInt_add_eq (by omega) (by omega), h2]
      rw [Int64.toInt_mod, h3, htotal]
  generalize hx : unit.toInt + relRow.toInt * width.toInt + relCol.toInt = x at *
  have hlo := Int.lt_tmod_of_pos x hpos
  have hhi := Int.tmod_lt_of_pos x hpos
  have h5 : ((unit + relRow * width + relCol) % (width * height) + width * height).toInt =
      x.tmod (width.toInt * height.toInt) + width.toInt * height.toInt := by
    rw [Int64.toInt_add_eq (by omega) (by omega), h4, htotal]
  rw [Int64.toInt_mod_eq (by omega), h5, htotal, Int.add_emod_right]
  -- truncated and floored remainders differ by a multiple of the modulus
  rw [Int.tmod_def, Int.sub_mul_emod_self_left]

/-- Grids on which machine arithmetic gives neighbors exactly. -/
def Room (width height : Int64) : Addressing → Prop
  | .flat => width.toInt * height.toInt ≤ 2 ^ 62
  | .toroidal => width.toInt ≤ 2 ^ 62 ∧ height.toInt ≤ 2 ^ 62 ∧
      width.toInt * height.toInt < 2 ^ 63

def place (width height unit relRow relCol : Int) : Addressing → Int
  | .flat => (unit + relRow * width + relCol) % (width * height)
  | .toroidal => (unit / width + relRow) % height * width + (unit % width + relCol) % width

theorem neighbor?_place (a : Addressing) (hw : 0 < width.toInt) (hh : 0 < height.toInt)
    (hroom : a.Room width height) (hu : 0 ≤ unit.toInt)
    (hunit : unit.toInt < width.toInt * height.toInt)
    (hr : -1 ≤ relRow.toInt ∧ relRow.toInt ≤ 1) (hc : -1 ≤ relCol.toInt ∧ relCol.toInt ≤ 1) :
    ∃ n, a.neighbor? width height unit relRow relCol = some n ∧
      n.toInt = a.place width.toInt height.toInt unit.toInt relRow.toInt relCol.toInt := by
  cases a with
  | flat => exact neighbor?_flat hw hh hroom hu hunit hr hc
  | toroidal => exact neighbor?_toroidal hw hh hroom.1 hroom.2.1 hroom.2.2 hu hunit hr hc

section Place

variable {w h u : Int} (r c : Int)

theorem place_bounds (a : Addressing) (hw : 0 < w) (hh : 0 < h) (u : Int) :
    0 ≤ a.place w h u r c ∧ a.place w h u r c < w * h := by
  cases a with
  | flat =>
    have hpos : 0 < w * h := mul_pos hw hh
    exact ⟨emod_nonneg _ hpos.ne', emod_lt_of_pos _ hpos⟩
  | toroidal =>
    have ha0 := emod_nonneg (u / w + r) hh.ne'
    have ha1 := emod_lt_of_pos (u / w + r) hh
    have hb0 := emod_nonneg (u % w + c) hw.ne'
    have hb1 := emod_lt_of_pos (u % w + c) hw
    unfold place
    constructor <;> nlinarith

theorem cycle_back {n x : Int} (hx : 0 ≤ x) (hxn : x < n) (step : Int) :
    ((x + step) % n + -step) % n = x := by
  rw [emod_add_emod, add_neg_cancel_right, emod_eq_of_lt hx hxn]

theorem place_back (a : Addressing) (hw : 0 < w) (hu : 0 ≤ u) (hunit : u < w * h) :
    a.place w h (a.place w h u r c) (-r) (-c) = u := by
  cases a with
  | flat =>
    have hback := cycle_back hu hunit (r * w + c)
    simp only [place]
    rw [add_assoc u, add_assoc, show -r * w + -c = -(r * w + c) by ring]
    exact hback
  | toroidal =>
    have hrow : u / w < h := Int.ediv_lt_of_lt_mul hw (by rw [mul_comm]; exact hunit)
    have hcol0 := Int.emod_nonneg (u % w + c) hw.ne'
    have hcol1 := Int.emod_lt_of_pos (u % w + c) hw
    have hsplit : ((u / w + r) % h * w + (u % w + c) % w) / w = (u / w + r) % h ∧
        ((u / w + r) % h * w + (u % w + c) % w) % w = (u % w + c) % w :=
      (Int.ediv_emod_unique hw).mpr ⟨by ring, hcol0, hcol1⟩
    simp only [place]
    rw [hsplit.1, hsplit.2, cycle_back (Int.ediv_nonneg hu hw.le) hrow,
      cycle_back (Int.emod_nonneg u hw.ne') (Int.emod_lt_of_pos u hw), Int.ediv_mul_add_emod]

theorem place_self (a : Addressing) (hw : 0 < w) (hu : 0 ≤ u) (hunit : u < w * h) :
    a.place w h u 0 0 = u := by
  cases a with
  | flat =>
    rw [place, zero_mul, add_zero, add_zero, Int.emod_eq_of_lt hu hunit]
  | toroidal =>
    have hrow : u / w < h := Int.ediv_lt_of_lt_mul hw (by rw [mul_comm]; exact hunit)
    rw [place, add_zero, add_zero, Int.emod_emod, Int.emod_eq_of_lt (Int.ediv_nonneg hu hw.le) hrow,
      Int.ediv_mul_add_emod]

end Place

theorem neighbor?_unit (a : Addressing) (hw : 0 < width.toInt) (hh : 0 < height.toInt)
    (hfit : width.toInt * height.toInt < 2 ^ 62) (hu : 0 ≤ unit.toInt)
    (hunit : unit.toInt < width.toInt * height.toInt)
    (hr : -1 ≤ relRow.toInt ∧ relRow.toInt ≤ 1) (hc : -1 ≤ relCol.toInt ∧ relCol.toInt ≤ 1) :
    ∃ n, a.neighbor? width height unit relRow relCol = some n ∧ 0 ≤ n.toInt ∧
      n.toInt < width.toInt * height.toInt := by
  have hroom : a.Room width height := by
    cases a with
    | flat => exact hfit.le
    | toroidal => exact ⟨by nlinarith, by nlinarith, by omega⟩
  obtain ⟨n, hn, heq⟩ := neighbor?_place a hw hh hroom hu hunit hr hc
  exact ⟨n, hn, heq ▸ place_bounds _ _ a hw hh _⟩

end Addressing

end TiledAutomata
