import TiledAutomata.Buffer
import TiledAutomata.Proofs.Addressing

/-!
# Windows of a buffer

A buffer holds the windows of a number of items back to back, all of one width.
Replacing one window leaves the others, and a buffer is determined by its windows. Where
the words of all windows can be counted, machine arithmetic finds every window.
-/

open Array

namespace TiledAutomata.Words

open Nat

section

variable {ws vs src : Words} {i j k n width offset : Nat}

theorem getElem?_window :
    (ws.window i width)[k]? = if k < width then ws[i * width + k]? else none := by
  rw [window, Array.getElem?_extract, succ_mul]
  by_cases hk : k < width
  · by_cases hlt : i * width + k < ws.size
    · rw [if_pos (by omega), if_pos hk]
    · rw [if_neg (by omega), if_pos hk, Array.getElem?_eq_none (by omega)]
  · rw [if_neg (by omega), if_neg hk]

theorem size_window (h : (i + 1) * width ≤ ws.size) : (ws.window i width).size = width := by
  rw [succ_mul] at h
  rw [window, size_extract, succ_mul]
  omega

theorem size_overlay (h : offset + src.size ≤ ws.size) :
    (ws.overlay offset src).size = ws.size := by
  simp only [overlay, size_append, size_extract]
  omega

theorem getElem?_overlay (h : offset + src.size ≤ ws.size) :
    (ws.overlay offset src)[k]? =
      if k < offset then ws[k]?
      else if k < offset + src.size then src[k - offset]?
      else ws[k]? := by
  have hfront : (ws.extract 0 offset).size = offset := by
    rw [size_extract]
    omega
  unfold overlay
  by_cases hlo : k < offset
  · rw [if_pos hlo, append_assoc, Array.getElem?_append_left (by omega),
      Array.getElem?_extract, if_pos (by omega), zero_add]
  · rw [if_neg hlo]
    by_cases hhi : k < offset + src.size
    · rw [if_pos hhi, append_assoc, Array.getElem?_append_right (by omega), hfront,
        Array.getElem?_append_left (by omega)]
    · rw [if_neg hhi, Array.getElem?_append_right (by rw [size_append]; omega),
        Array.getElem?_extract, size_append, hfront]
      by_cases hk : k < ws.size
      · rw [if_pos (by omega)]
        congr 1
        omega
      · rw [if_neg (by omega), Array.getElem?_eq_none (by omega)]

theorem window_overlay_self (hsrc : src.size = width) (h : (i + 1) * width ≤ ws.size) :
    (ws.overlay (i * width) src).window i width = src := by
  rw [Nat.succ_mul] at h
  refine ext_getElem? fun k => ?_
  rw [getElem?_window, getElem?_overlay (by omega)]
  by_cases hk : k < width
  · rw [if_pos hk, if_neg (by omega), if_pos (by omega), Nat.add_sub_cancel_left]
  · rw [if_neg hk, Array.getElem?_eq_none (by omega)]

theorem window_overlay_other (hsrc : src.size = width) (h : (i + 1) * width ≤ ws.size)
    (hne : j ≠ i) : (ws.overlay (i * width) src).window j width = ws.window j width := by
  rw [succ_mul] at h
  refine ext_getElem? fun k => ?_
  rw [getElem?_window, getElem?_window, getElem?_overlay (by omega)]
  by_cases hk : k < width
  · rw [if_pos hk, if_pos hk]
    rcases lt_or_gt_of_ne hne with hlt | hgt
    · have : (j + 1) * width ≤ i * width := mul_le_mul_right _ hlt
      rw [succ_mul] at this
      rw [if_pos (by omega)]
    · have : (i + 1) * width ≤ j * width := mul_le_mul_right _ hgt
      rw [succ_mul] at this
      rw [if_neg (by omega), if_neg (by omega)]
  · rw [if_neg hk, if_neg hk]

theorem overlay_all (h : src.size = ws.size) : ws.overlay 0 src = src := by
  refine ext_getElem? fun k => ?_
  rw [getElem?_overlay (by omega), if_neg (Nat.not_lt_zero k)]
  by_cases hk : k < src.size
  · rw [if_pos (by omega), Nat.sub_zero]
  · rw [if_neg (by omega), Array.getElem?_eq_none (by omega), Array.getElem?_eq_none (by omega)]

theorem ext_windows (h : ∀ i < n, ws.window i width = vs.window i width)
    (hrest : ∀ k, n * width ≤ k → ws[k]? = vs[k]?) : ws = vs := by
  refine ext_getElem? fun k => ?_
  by_cases hk : k < n * width
  · have hpos : 0 < width := Nat.pos_of_mul_pos_left (Nat.zero_lt_of_lt hk)
    have hi : k / width < n := Nat.div_lt_of_lt_mul (by rwa [Nat.mul_comm])
    have hword := congrArg (fun v : Words => v[k % width]?) (h _ hi)
    simpa only [getElem?_window, if_pos (Nat.mod_lt k hpos), Nat.div_add_mod'] using hword
  · exact hrest k (Nat.le_of_not_lt hk)

def flat (n width : Nat) (g : Nat → Words) : Words :=
  (Array.range (n * width)).map fun k => (g (k / width)).getD (k % width) 0

theorem size_flat (g : Nat → Words) : (flat n width g).size = n * width := by
  simp [flat]

theorem eq_flat {g : Nat → Words} (hws : ws.size = n * width)
    (h : ∀ i < n, ws.window i width = g i) : ws = flat n width g := by
  refine ext_getElem? fun k => ?_
  by_cases hk : k < n * width
  · have hpos : 0 < width := Nat.pos_of_mul_pos_left (Nat.zero_lt_of_lt hk)
    have hmod : k % width < width := Nat.mod_lt k hpos
    have hi : k / width < n := Nat.div_lt_of_lt_mul (by rwa [Nat.mul_comm])
    have hword : (g (k / width))[k % width]? = ws[k]? := by
      rw [← h _ hi, getElem?_window, if_pos hmod, Nat.div_add_mod']
    have hget : ws[k]? = some ws[k] := Array.getElem?_eq_getElem (by omega)
    simp [flat, hk, getD_eq_getD_getElem?, hword, hget]
  · rw [Array.getElem?_eq_none (by omega), Array.getElem?_eq_none (by rw [size_flat]; omega)]

end

theorem slice?_some {ws src : Words} {lo hi : Int64} (h : ws.slice? lo hi = some src) :
    0 ≤ lo.toInt ∧ lo.toInt ≤ hi.toInt ∧ hi.toInt ≤ ws.size ∧
      src.size = hi.toInt.toNat - lo.toInt.toNat := by
  unfold slice? at h
  split at h
  · rename_i hcond
    have hle := Int64.le_iff_toInt_le.mp hcond.2.1
    refine ⟨Int64.le_iff_toInt_le.mp hcond.1, hle, hcond.2.2, ?_⟩
    rw [← Option.some.inj h, size_extract]
    omega
  · cases h

theorem slice?_congr {ws vs : Words} (h : ws.size = vs.size) (lo hi : Int64) :
    (∃ v, ws.slice? lo hi = some v) ↔ ∃ v, vs.slice? lo hi = some v := by
  unfold slice?
  rw [h]
  split <;> simp

/-- A buffer that holds a number of windows, and maybe more behind them. Machine arithmetic reaches
the end of the last window. -/
structure Reaches (n width : Int64) (ws : Words) : Prop where
  count_nonneg : 0 ≤ n.toInt
  width_nonneg : 0 ≤ width.toInt
  bound : n.toInt * width.toInt < 2 ^ 63
  size : n.toInt.toNat * width.toInt.toNat ≤ ws.size

namespace Reaches

variable {n width : Int64} {ws src : Words} {i : Nat}

theorem le (h : Reaches n width ws) (hi : i < n.toInt.toNat) :
    (i + 1) * width.toInt.toNat ≤ ws.size :=
  (mul_le_mul_right _ hi).trans h.size

theorem index (hi : i < n.toInt.toNat) : (Int64.ofNat i).toInt = i := by
  have hlt := n.toInt_lt
  exact Int64.toInt_ofNat_of_lt (by omega)

section

variable (h : Reaches n width ws)

include h

theorem offset_bound {m : Nat} (hm : m ≤ n.toInt.toNat) :
    (m : Int) * width.toInt < 2 ^ 63 ∧ 0 ≤ (m : Int) * width.toInt := by
  have hcount := h.count_nonneg
  constructor
  · calc (m : Int) * width.toInt ≤ n.toInt * width.toInt :=
          Int.mul_le_mul_of_nonneg_right (by omega) h.width_nonneg
      _ < 2 ^ 63 := h.bound
  · exact Int.mul_nonneg (by omega) h.width_nonneg

theorem offset (hi : i < n.toInt.toNat) : (Int64.ofNat i * width).toInt = i * width.toInt := by
  obtain ⟨hlt, hle⟩ := h.offset_bound (le_of_lt hi)
  rw [Int64.toInt_mul_eq (by rw [index hi]; omega) (by rw [index hi]; omega), index hi]

theorem offset_succ (hi : i < n.toInt.toNat) :
    ((Int64.ofNat i + 1) * width).toInt = (i + 1 : Nat) * width.toInt := by
  obtain ⟨hlt, hle⟩ := h.offset_bound (m := i + 1) hi
  have hn := n.toInt_lt
  have hone : (1 : Int64).toInt = 1 := rfl
  have hsucc : (Int64.ofNat i + 1).toInt = (i + 1 : Nat) := by
    rw [Int64.toInt_add_eq (by rw [index hi, hone]; omega) (by rw [index hi, hone]; omega),
      index hi, hone]
    rfl
  rw [Int64.toInt_mul_eq (by rw [hsucc]; omega) (by rw [hsucc]; omega), hsucc]

theorem toNat_mul (m : Nat) : ((m : Int) * width.toInt).toNat = m * width.toInt.toNat := by
  rw [Int.toNat_mul (by omega) h.width_nonneg, Int.toNat_natCast]

theorem slice (hi : i < n.toInt.toNat) :
    ws.slice? (Int64.ofNat i * width) ((Int64.ofNat i + 1) * width) =
      some (ws.window i width.toInt.toNat) := by
  have hlo := h.offset hi
  have hhi := h.offset_succ hi
  have hle := h.le hi
  have hcond : 0 ≤ Int64.ofNat i * width ∧
      Int64.ofNat i * width ≤ (Int64.ofNat i + 1) * width ∧
      ((Int64.ofNat i + 1) * width).toInt ≤ ws.size := by
    refine ⟨?_, ?_, ?_⟩
    · rw [Int64.le_iff_toInt_le, hlo]
      exact (h.offset_bound (Nat.le_of_lt hi)).2
    · rw [Int64.le_iff_toInt_le, hlo, hhi]
      exact Int.mul_le_mul_of_nonneg_right (by omega) h.width_nonneg
    · rw [hhi, ← Int.toNat_of_nonneg (h.offset_bound (m := i + 1) hi).2, h.toNat_mul]
      omega
  rw [slice?, if_pos hcond, hlo, hhi, h.toNat_mul, h.toNat_mul, window]

theorem overlay (hi : i < n.toInt.toNat) (hsrc : src.size = width.toInt.toNat) :
    Reaches n width (ws.overlay (i * width.toInt.toNat) src) := by
  have hle := h.le hi
  rw [succ_mul] at hle
  exact ⟨h.count_nonneg, h.width_nonneg, h.bound, by rw [size_overlay (by omega)]; exact h.size⟩

end

theorem of_slices (hn : 0 < n.toInt) (h : ∀ i < n.toInt.toNat,
    ∃ v, ws.slice? (Int64.ofNat i * width) ((Int64.ofNat i + 1) * width) = some v) :
    Reaches n width ws := by
  have hwidth : 0 ≤ width.toInt := by
    obtain ⟨v, hv⟩ := h 0 (by omega)
    obtain ⟨hlo, hle, -⟩ := slice?_some hv
    have hone : (Int64.ofNat 0 + 1) * width = width := by simp
    rw [hone] at hle
    exact hlo.trans hle
  have hreach : ∀ m : Nat, m ≤ n.toInt.toNat →
      (m : Int) * width.toInt < 2 ^ 63 ∧ (m : Int) * width.toInt ≤ ws.size := by
    intro m
    induction m with
    | zero => exact fun _ => ⟨by simp, by simp⟩
    | succ m ih =>
      intro hm
      obtain ⟨hlt, -⟩ := ih (by omega)
      obtain ⟨v, hv⟩ := h m (by omega)
      obtain ⟨hlo, hle, hsize, -⟩ := slice?_some hv
      have hnonneg : 0 ≤ (m : Int) * width.toInt := Int.mul_nonneg (by omega) hwidth
      have hindex := index (n := n) (i := m) (by omega)
      have hstart : (Int64.ofNat m * width).toInt = m * width.toInt := by
        rw [Int64.toInt_mul_eq (by rw [hindex]; omega) (by rw [hindex]; omega), hindex]
      have hwide := width.toInt_lt
      -- an end that leaves the range would come before the start
      have hstop : ((Int64.ofNat m + 1) * width).toInt = m * width.toInt + width.toInt := by
        have hsum : (Int64.ofNat m + 1) * width = Int64.ofNat m * width + width := by
          rw [Int64.add_mul, Int64.one_mul]
        rw [hsum, Int64.toInt_add, hstart] at hle
        rw [hsum, Int64.toInt_add, hstart, Int.bmod_eq_of_le]
        · omega
        · by_contra hover
          have hwrap : ((m : Int) * width.toInt + width.toInt).bmod (2 ^ 64) =
              m * width.toInt + width.toInt - 2 ^ 64 := by
            rw [← Int.sub_bmod_right, Int.bmod_eq_of_le (by omega) (by omega)]
            rfl
          omega
      have hnext : ((m + 1 : Nat) : Int) * width.toInt = m * width.toInt + width.toInt := by
        push_cast
        ring
      rw [hnext, ← hstop]
      exact ⟨Int64.toInt_lt _, hsize⟩
  obtain ⟨hlt, hsize⟩ := hreach n.toInt.toNat le_rfl
  rw [Int.toNat_of_nonneg hn.le] at hlt hsize
  refine ⟨hn.le, hwidth, hlt, ?_⟩
  rw [← Int.toNat_mul hn.le hwidth]
  omega

end Reaches

/-- A buffer of windows and nothing else, whose words machine arithmetic can count. -/
structure Spans (n width : Int64) (ws : Words) : Prop where
  count_nonneg : 0 ≤ n.toInt
  width_nonneg : 0 ≤ width.toInt
  bound : n.toInt * width.toInt < 2 ^ 62
  size : ws.size = n.toInt.toNat * width.toInt.toNat

namespace Spans

variable {n width : Int64} {ws src : Words} {i : Nat}

theorem reaches (h : Spans n width ws) : Reaches n width ws :=
  ⟨h.count_nonneg, h.width_nonneg, h.bound.trans (by norm_num), h.size.ge⟩

theorem le (h : Spans n width ws) (hi : i < n.toInt.toNat) :
    (i + 1) * width.toInt.toNat ≤ ws.size :=
  h.reaches.le hi

theorem overlay (h : Spans n width ws) (hi : i < n.toInt.toNat)
    (hsrc : src.size = width.toInt.toNat) :
    Spans n width (ws.overlay (i * width.toInt.toNat) src) := by
  have hle := h.le hi
  rw [succ_mul] at hle
  exact ⟨h.count_nonneg, h.width_nonneg, h.bound, by rw [size_overlay (by omega), h.size]⟩

end Spans

end TiledAutomata.Words
