import Mathlib.Tactic.Linarith
import TiledAutomata.Cpu

/-!
# Batches of a pool

The batches of a pool follow each other from the first item to the last, at most one for each
worker, as long as the items and the batches together do not leave the range of machine integers.
Otherwise the size of a batch is not positive: the first batch is empty, and the starts of the
batches may go round and round for ever.
-/

open List

namespace TiledAutomata.Pool

variable {lo hi n size start : Int64} {bs : List (Int64 × Int64)} {p : Pool}

/-- Batches of which each starts where the one before it ends, from one item up to another. -/
inductive Chain : Int64 → Int64 → List (Int64 × Int64) → Prop
  | nil (n : Int64) : Chain n n []
  | cons {lo mid hi : Int64} {bs : List (Int64 × Int64)} (hlt : lo < mid)
      (hrest : Chain mid hi bs) : Chain lo hi ((lo, mid) :: bs)

namespace Chain

theorem toInt_le (h : Chain lo hi bs) : lo.toInt ≤ hi.toInt := by
  induction h with
  | nil n => exact le_rfl
  | cons hlt hrest ih => exact (Int64.lt_iff_toInt_lt.mp hlt).le.trans ih

theorem bounds (h : Chain lo hi bs) {b : Int64 × Int64} (hb : b ∈ bs) : lo ≤ b.1 ∧ b.1 < b.2 := by
  induction h with
  | nil n => cases hb
  | cons hlt hrest ih =>
    rcases mem_cons.mp hb with rfl | hb
    · exact ⟨Int64.le_iff_toInt_le.mpr le_rfl, hlt⟩
    · obtain ⟨hle, hpos⟩ := ih hb
      rw [Int64.lt_iff_toInt_lt] at hlt
      rw [Int64.le_iff_toInt_le] at hle ⊢
      exact ⟨hlt.le.trans hle, hpos⟩

theorem disjoint (h : Chain lo hi bs) : bs.Pairwise fun b c => b.2 ≤ c.1 := by
  induction h with
  | nil n => exact .nil
  | cons hlt hrest ih => exact .cons (fun c hc => (hrest.bounds hc).1) ih

theorem covered (h : Chain lo hi bs) (k : Int64) :
    lo ≤ k ∧ k < hi ↔ ∃ b ∈ bs, b.1 ≤ k ∧ k < b.2 := by
  induction h with
  | nil n =>
    simp only [Int64.le_iff_toInt_le, Int64.lt_iff_toInt_lt, not_mem_nil, false_and, exists_false,
      iff_false]
    omega
  | @cons lo mid hi bs hlt hrest ih =>
    have hle := hrest.toInt_le
    simp only [mem_cons, exists_eq_or_imp, ← ih]
    simp only [Int64.le_iff_toInt_le, Int64.lt_iff_toInt_lt] at hlt ⊢
    omega

theorem ids (h : Chain lo hi bs) (hlo : 0 ≤ lo.toInt) :
    bs.flatMap Cpu.batchIds = range' lo.toInt.toNat (hi.toInt.toNat - lo.toInt.toNat) := by
  induction h with
  | nil n => simp
  | @cons lo mid hi bs hlt hrest ih =>
    rw [Int64.lt_iff_toInt_lt] at hlt
    have hle := hrest.toInt_le
    have hmid : mid.toInt.toNat = lo.toInt.toNat + (mid.toInt.toNat - lo.toInt.toNat) := by omega
    have hsum : hi.toInt.toNat - lo.toInt.toNat =
        (mid.toInt.toNat - lo.toInt.toNat) + (hi.toInt.toNat - mid.toInt.toNat) := by omega
    rw [flatMap_cons, ih (by omega), hsum, ← range'_append_1, ← hmid]
    rfl

end Chain

theorem toInt_min (a b : Int64) : (min a b).toInt = min a.toInt b.toInt := by
  show (if a ≤ b then a else b).toInt = _
  split
  · rename_i hle
    rw [Int64.le_iff_toInt_le] at hle
    omega
  · rename_i hlt
    rw [Int64.le_iff_toInt_le] at hlt
    omega

/-- The induction is on the fuel. The start is a multiple of the size, so the sum that leads to the
next one stays below the product of the size and the number of batches. -/
theorem ranges_chain {j k fuel : Nat} (hsize : 0 < size.toInt) (hn : n.toInt ≤ k * size.toInt)
    (hk : k * size.toInt < 2 ^ 63) (hstart : start.toInt = j * size.toInt) (hj : j ≤ k)
    (hfuel : k - j < fuel) :
    ∃ bs, ranges n size fuel start = some bs ∧ Chain (min start n) n bs ∧ bs.length ≤ k - j := by
  induction fuel generalizing j start with
  | zero => omega
  | succ fuel ih =>
    rw [ranges]
    by_cases hlt : start < n
    · rw [if_pos hlt]
      rw [Int64.lt_iff_toInt_lt] at hlt
      have hjk : j < k := by
        have hprod : (j : Int) * size.toInt < k * size.toInt := by omega
        exact Int.ofNat_lt.mp (lt_of_mul_lt_mul_right hprod hsize.le)
      have hprod : ((j + 1 : Nat) : Int) * size.toInt ≤ k * size.toInt :=
        mul_le_mul_of_nonneg_right (Int.ofNat_le.mpr hjk) hsize.le
      have hnonneg : 0 ≤ start.toInt := by
        rw [hstart]
        exact Int.mul_nonneg (Int.natCast_nonneg j) hsize.le
      have hsucc : ((j + 1 : Nat) : Int) * size.toInt = start.toInt + size.toInt := by
        rw [hstart, Int.natCast_succ, Int.add_mul, Int.one_mul]
      have hnext : (start + size).toInt = ((j + 1 : Nat) : Int) * size.toInt := by
        rw [Int64.toInt_add, Int.bmod_eq_of_le (by omega) (by omega), hsucc]
      obtain ⟨bs, hbs, hchain, hlen⟩ := ih hnext hjk (by omega)
      refine ⟨(start, min (start + size) n) :: bs, by rw [hbs]; rfl, ?_, ?_⟩
      · have hmin : min start n = start := if_pos (Int64.le_iff_toInt_le.mpr hlt.le)
        rw [hmin]
        refine .cons ?_ hchain
        rw [Int64.lt_iff_toInt_lt, toInt_min]
        omega
      · rw [length_cons]
        omega
    · have hmin : min start n = n := by
        rw [Int64.lt_iff_toInt_lt] at hlt
        by_cases hle : start ≤ n
        · have heq : start = n := by
            rw [Int64.le_iff_toInt_le] at hle
            exact Int64.toInt_inj.mp (by omega)
          rw [heq]
          exact ite_self _
        · exact if_neg hle
      rw [if_neg hlt, hmin]
      exact ⟨[], rfl, .nil n, Nat.zero_le _⟩

theorem mem_ranges {fuel : Nat} (hlt : start < n) (h : ranges n size fuel start = some bs) :
    (start, min (start + size) n) ∈ bs := by
  cases fuel with
  | zero => cases h
  | succ fuel =>
    rw [ranges, if_pos hlt] at h
    obtain ⟨rest, -, rfl⟩ := Option.map_eq_some_iff.mp h
    exact mem_cons_self

/-- Batches that hold each of the items below a number once, none of them empty, at most one for
each worker. -/
structure Cuts (p : Pool) (n : Int64) (bs : List (Int64 × Int64)) : Prop where
  nonempty : ∀ b ∈ bs, b.1 < b.2
  disjoint : bs.Pairwise fun b c => b.2 ≤ c.1
  few : bs.length ≤ p.workers.toInt
  covered : ∀ k, 0 ≤ k ∧ k < n ↔ ∃ b ∈ bs, b.1 ≤ k ∧ k < b.2

theorem Chain.cuts (h : Chain 0 n bs) (hfew : bs.length ≤ p.workers.toInt) : p.Cuts n bs :=
  ⟨fun _ hb => (h.bounds hb).2, h.disjoint, hfew, h.covered⟩

theorem size_nonpos {k : Int64} (hk : 0 < k.toInt) (hover : 2 ^ 63 < n.toInt + k.toInt) :
    ((n + k - 1) / k).toInt ≤ 0 := by
  have hone : (1 : Int64).toInt = 1 := rfl
  have hn := Int64.toInt_lt n
  have hk' := Int64.toInt_lt k
  have hsum : (n + k - 1).toInt = -(2 ^ 64 + 1 - n.toInt - k.toInt) := by
    rw [Int64.toInt_sub, Int64.toInt_add, Int.bmod_sub_bmod, hone, ← Int.sub_bmod_right,
      Int.bmod_eq_of_le (by omega) (by omega)]
    omega
  have hle := Int.ediv_le_self k.toInt (show 0 ≤ 2 ^ 64 + 1 - n.toInt - k.toInt by omega)
  have hnonneg := Int.ediv_nonneg (show 0 ≤ 2 ^ 64 + 1 - n.toInt - k.toInt by omega) hk.le
  rw [Int64.toInt_div, hsum, Int.neg_tdiv, Int.tdiv_eq_ediv_of_nonneg (by omega),
    Int.bmod_eq_of_le (by omega) (by omega)]
  omega

section Count

variable (hn : 0 < n.toInt)

include hn

theorem batches?_pos : p.batches? n =
    if min p.workers n = 1 then some [(0, n)]
    else if min p.workers n ≤ 0 then none
    else ranges n ((n + min p.workers n - 1) / min p.workers n) (Nat.pow 2 64) 0 := by
  have hnot : ¬n ≤ 0 := fun h => by
    have hle := Int64.le_iff_toInt_le.mp h
    have hzero : (0 : Int64).toInt = 0 := rfl
    omega
  rw [batches?, if_neg hnot]

theorem workers_pos (h : p.batches? n = some bs) : 0 < p.workers.toInt := by
  rw [batches?_pos hn] at h
  have hmin := toInt_min p.workers n
  generalize min p.workers n = k at *
  have hone : (1 : Int64).toInt = 1 := rfl
  have hzero : (0 : Int64).toInt = 0 := rfl
  split at h
  · rename_i hk
    rw [hk] at hmin
    omega
  · split at h
    · cases h
    · rename_i hpos
      rw [Int64.le_iff_toInt_le] at hpos
      omega

theorem batches?_chain (hworkers : 0 < p.workers.toInt)
    (hfits : n.toInt + min p.workers.toInt n.toInt ≤ 2 ^ 63) :
    ∃ bs, p.batches? n = some bs ∧ Chain 0 n bs ∧ bs.length ≤ p.workers.toInt := by
  rw [batches?_pos hn]
  have hmin := toInt_min p.workers n
  generalize min p.workers n = k at *
  have hone : (1 : Int64).toInt = 1 := rfl
  have hzero : (0 : Int64).toInt = 0 := rfl
  split
  · have hpos : (0 : Int64) < n := Int64.lt_iff_toInt_lt.mpr hn
    refine ⟨_, rfl, .cons hpos (.nil n), ?_⟩
    rw [length_singleton]
    omega
  · rename_i hsome
    have hne : k.toInt ≠ 1 := fun h => hsome (Int64.toInt_inj.mp (h.trans hone.symm))
    have hpos : ¬k ≤ 0 := by
      rw [Int64.le_iff_toInt_le]
      omega
    rw [if_neg hpos]
    have hsum : (n + k - 1).toInt = n.toInt + k.toInt - 1 := by
      rw [Int64.toInt_sub, Int64.toInt_add, Int.bmod_sub_bmod, hone,
        Int.bmod_eq_of_le (by omega) (by omega)]
    have hquot : ((n + k - 1) / k).toInt = (n.toInt + k.toInt - 1) / k.toInt := by
      have hle := Int.ediv_le_self k.toInt (show 0 ≤ n.toInt + k.toInt - 1 by omega)
      have hnonneg := Int.ediv_nonneg (show 0 ≤ n.toInt + k.toInt - 1 by omega)
        (show 0 ≤ k.toInt by omega)
      rw [Int64.toInt_div, hsum, Int.tdiv_eq_ediv_of_nonneg (by omega),
        Int.bmod_eq_of_le (by omega) (by omega)]
    have hdiv := Int.mul_ediv_add_emod (n.toInt + k.toInt - 1) k.toInt
    have hmod := Int.emod_lt_of_pos (n.toInt + k.toInt - 1) (show 0 < k.toInt by omega)
    have hmod' := Int.emod_nonneg (n.toInt + k.toInt - 1) (show k.toInt ≠ 0 by omega)
    have hsize : 0 < (n.toInt + k.toInt - 1) / k.toInt :=
      (Int.le_ediv_iff_mul_le (by omega)).mpr (by omega)
    rw [← hquot] at hdiv hsize
    have hcast : ((k.toInt.toNat : Nat) : Int) = k.toInt := Int.toNat_of_nonneg (by omega)
    have hbound := Int64.toInt_lt k
    have hstart : (0 : Int64).toInt = ((0 : Nat) : Int) * ((n + k - 1) / k).toInt := by simp
    have hfuel : k.toInt.toNat - 0 < Nat.pow 2 64 := by
      show k.toInt.toNat - 0 < 2 ^ 64
      omega
    obtain ⟨bs, hbs, hchain, hlen⟩ := ranges_chain (n := n) hsize (by rw [hcast]; omega)
      (by rw [hcast]; omega) hstart (Nat.zero_le _) hfuel
    have hfirst : (0 : Int64) ≤ n := Int64.le_iff_toInt_le.mpr hn.le
    rw [show min 0 n = 0 from if_pos hfirst] at hchain
    exact ⟨bs, hbs, hchain, by omega⟩

/-- Where a sum overflows, the size of a batch is not positive and the first batch is empty. -/
theorem not_cuts (hworkers : 0 < p.workers.toInt)
    (hover : 2 ^ 63 < n.toInt + min p.workers.toInt n.toInt) (h : p.batches? n = some bs) :
    ¬p.Cuts n bs := by
  rw [batches?_pos hn] at h
  have hmin := toInt_min p.workers n
  generalize min p.workers n = k at *
  have hsize : ((n + k - 1) / k).toInt ≤ 0 := size_nonpos (by omega) (by omega)
  have hone : (1 : Int64).toInt = 1 := rfl
  have hzero : (0 : Int64).toInt = 0 := rfl
  have hmax := Int64.toInt_lt n
  have hsome : k ≠ 1 := fun heq => by
    rw [heq] at hmin
    omega
  have hpos : ¬k ≤ 0 := by
    rw [Int64.le_iff_toInt_le]
    omega
  rw [if_neg hsome, if_neg hpos] at h
  have hstart : (0 : Int64) < n := Int64.lt_iff_toInt_lt.mpr hn
  have hmem := mem_ranges hstart h
  intro hcuts
  have hfirst := hcuts.nonempty _ hmem
  simp only [Int64.zero_add, Int64.lt_iff_toInt_lt, toInt_min] at hfirst
  omega

theorem cuts_iff : (∃ bs, p.batches? n = some bs ∧ p.Cuts n bs) ↔
    0 < p.workers.toInt ∧ n.toInt + min p.workers.toInt n.toInt ≤ 2 ^ 63 := by
  constructor
  · rintro ⟨bs, hbs, hcuts⟩
    have hworkers : 0 < p.workers.toInt := by
      obtain ⟨b, hb, -⟩ := (hcuts.covered 0).mp
        ⟨Int64.le_iff_toInt_le.mpr le_rfl, Int64.lt_iff_toInt_lt.mpr hn⟩
      have hsome := length_pos_of_mem hb
      have hfew := hcuts.few
      omega
    exact ⟨hworkers, Int.not_lt.mp fun hover => not_cuts hn hworkers hover hbs hcuts⟩
  · rintro ⟨hworkers, hfits⟩
    obtain ⟨bs, hbs, hchain, hfew⟩ := batches?_chain hn hworkers hfits
    exact ⟨bs, hbs, hchain.cuts hfew⟩

end Count

/-- With as many items as there are numbers for and two workers, the starts go round in a cycle of
four, none of which is the last item. -/
theorem ranges_cycle (fuel : Nat) :
    ∀ start ∈ [0, -4611686018427387904, -9223372036854775808, 4611686018427387904],
      ranges 9223372036854775807 (-4611686018427387904) fuel start = none := by
  induction fuel with
  | zero => exact fun start _ => rfl
  | succ fuel ih =>
    simp only [forall_mem_cons, not_mem_nil, IsEmpty.forall_iff, implies_true, and_true] at ih ⊢
    obtain ⟨h0, h1, h2, h3⟩ := ih
    refine ⟨?_, ?_, ?_, ?_⟩
    · rw [ranges, if_pos (by decide)]
      exact congrArg (Option.map _) h1
    · rw [ranges, if_pos (by decide)]
      exact congrArg (Option.map _) h2
    · rw [ranges, if_pos (by decide)]
      exact congrArg (Option.map _) h3
    · rw [ranges, if_pos (by decide)]
      exact congrArg (Option.map _) h0

/-- Two workers never come to an end with as many items as there are numbers for. A pool of `2 ^ 62`
workers cannot be made. -/
theorem batches_endless :
    (∀ fuel, ranges 9223372036854775807 ((9223372036854775807 + 2 - 1) / 2) fuel 0 = none) ∧
      batches? { workers := 2 } 9223372036854775807 = none ∧
      ∀ processors, create 4611686018427387904 processors = .error (.abort none) := by
  have hsize : ((9223372036854775807 : Int64) + 2 - 1) / 2 = -4611686018427387904 := by decide
  have hcycle : ∀ fuel,
      ranges 9223372036854775807 ((9223372036854775807 + 2 - 1) / 2) fuel 0 = none := by
    intro fuel
    rw [hsize]
    exact ranges_cycle fuel 0 mem_cons_self
  refine ⟨hcycle, ?_, fun processors => ?_⟩
  · rw [batches?_pos (by decide), show min 2 9223372036854775807 = (2 : Int64) by decide,
      if_neg (by decide), if_neg (by decide)]
    exact hcycle _
  · have hpos : ¬(4611686018427387904 : Int64) ≤ 0 := by decide
    simp only [create, if_neg hpos]
    exact if_neg (by decide)

end TiledAutomata.Pool
