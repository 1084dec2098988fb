import Mathlib
import TiledAutomata.Allocator

/-!
# Ids over the whole life of an allocator

An allocator keeps the free ids on a stack and marks those in use in a table. After any calls,
failed ones among them, both tell what the calls came to: on the stack lie the ids that were
released and not handed out again, the latest release on top, and below them those that were
never handed out, in their order.
-/

open List

namespace TiledAutomata.Allocator

inductive Call where
  | allocate
  | deallocate (id : Int64)

inductive Event where
  | granted (id : Nat)
  | released (id : Nat)
  | refused

open Event

def step (a : Allocator) : Call → Event × Allocator
  | .allocate =>
    match a.allocate with
    | .ok (id, b) => (granted id, b)
    | .error _ => (refused, a)
  | .deallocate id =>
    match a.deallocate id with
    | .ok b => (released id.toInt.toNat, b)
    | .error _ => (refused, a)

/-- The allocator after calls, and their events. In both lists the latest comes first. -/
def replay (a : Allocator) : List Call → List Event × Allocator
  | [] => ([], a)
  | c :: cs => (((replay a cs).2.step c).1 :: (replay a cs).1, ((replay a cs).2.step c).2)

def held : List Event → List Nat
  | [] => []
  | granted id :: h => id :: held h
  | released id :: h => (held h).erase id
  | refused :: h => held h

/-- The ids that were released and not handed out again, the latest release first. -/
def returned : List Event → List Nat
  | [] => []
  | granted id :: h => (returned h).erase id
  | released id :: h => id :: returned h
  | refused :: h => returned h

variable {a b : Allocator} {h : List Event} {n k : Nat} {id : Int64}

theorem allocate_eq_ok : a.allocate = .ok (k, b) ↔
    ∃ free, a.free = k :: free ∧ b = ⟨free, a.inUse.setIfInBounds k true⟩ := by
  unfold allocate
  split
  · simp_all
  · rename_i id free hfree
    rw [hfree, Except.ok.injEq, Prod.mk.injEq]
    constructor
    · rintro ⟨rfl, rfl⟩
      exact ⟨free, rfl, rfl⟩
    · rintro ⟨_, heq, rfl⟩
      obtain ⟨rfl, rfl⟩ := List.cons.inj heq
      exact ⟨rfl, rfl⟩

theorem allocate_eq_error : (∃ e, a.allocate = .error e) ↔ a.free = [] := by
  unfold allocate
  split <;> simp_all

theorem deallocate_eq (hsize : a.inUse.size < 2 ^ 63) (id : Int64) :
    if 0 ≤ id.toInt ∧ a.inUse[id.toInt.toNat]? = some true then
      a.deallocate id = .ok
        ⟨id.toInt.toNat :: a.free, a.inUse.setIfInBounds id.toInt.toNat false⟩
    else ∃ e, a.deallocate id = .error e := by
  have hzero : (0 : Int64).toInt = 0 := rfl
  unfold deallocate
  simp only [Bool.or_eq_true, decide_eq_true_eq, Int64.lt_iff_toInt_lt, Int64.le_iff_toInt_le,
    Int64.toInt_ofNat_of_lt hsize, hzero, Array.getD_eq_getD_getElem?]
  split
  · rename_i hused
    obtain ⟨hpos, hget⟩ := hused
    have hlt := (Array.getElem?_eq_some_iff.mp hget).1
    rw [if_neg (by omega), hget]
    rfl
  · rename_i hnot
    split
    · exact ⟨_, rfl⟩
    · rename_i hrange
      cases hget : a.inUse[id.toInt.toNat]? with
      | none => exact ⟨_, rfl⟩
      | some u =>
        cases u with
        | false => exact ⟨_, rfl⟩
        | true => exact absurd ⟨by omega, hget⟩ hnot

structure Agrees (n : Nat) (h : List Event) (a : Allocator) : Prop where
  size : a.inUse.size = n
  used : ∀ k, a.inUse[k]? = some true ↔ k ∈ held h
  held_nodup : (held h).Nodup
  free_nodup : a.free.Nodup
  free : ∀ k, k ∈ a.free ↔ k < n ∧ k ∉ held h
  stack : ∃ m ≤ n, a.free = returned h ++ List.range' m (n - m) ∧ ∀ k, granted k ∈ h ↔ k < m

namespace Agrees

theorem lt (hi : Agrees n h a) (hk : k ∈ held h) : k < n := by
  obtain ⟨hlt, -⟩ := Array.getElem?_eq_some_iff.mp ((hi.used k).mpr hk)
  exact hi.size ▸ hlt

theorem create {capacity : Int64} (hc : create capacity = .ok a) :
    Agrees capacity.toInt.toNat [] a := by
  unfold Allocator.create at hc
  split at hc
  · cases hc
    refine ⟨by simp, by simp [held, Array.getElem?_replicate], nodup_nil, nodup_range,
      by simp [held], 0, Nat.zero_le _, ?_, by simp⟩
    rw [range_eq_range']
    rfl
  · cases hc

section

variable (hi : Agrees n h a)

include hi

theorem refuse : Agrees n (refused :: h) a := by
  obtain ⟨m, hm, hfree, hgranted⟩ := hi.stack
  exact ⟨hi.size, hi.used, hi.held_nodup, hi.free_nodup, hi.free, m, hm, hfree, by simpa⟩

/-- What lies on top: the latest release, or else the least id that was never handed out. -/
theorem top {free : List Nat} (hfree : a.free = k :: free) :
    (∃ m ≤ n, (returned h).head? = some k ∧ k < m ∧
        free = (returned h).erase k ++ List.range' m (n - m) ∧ ∀ j, granted j ∈ h ↔ j < m) ∨
      returned h = [] ∧ k < n ∧ free = List.range' (k + 1) (n - (k + 1)) ∧
        ∀ j, granted j ∈ h ↔ j < k := by
  obtain ⟨m, hm, hstack, hgranted⟩ := hi.stack
  rw [hfree] at hstack
  cases hreturned : returned h with
  | nil =>
    right
    rw [hreturned, nil_append] at hstack
    obtain ⟨l, hl⟩ : ∃ l, n - m = l + 1 := by
      refine Nat.exists_eq_succ_of_ne_zero fun hzero => ?_
      simp [hzero] at hstack
    rw [hl, List.range'_succ] at hstack
    obtain ⟨rfl, rfl⟩ := List.cons.inj hstack
    exact ⟨rfl, by omega, by rw [show n - (k + 1) = l by omega], hgranted⟩
  | cons j js =>
    left
    rw [hreturned, cons_append] at hstack
    obtain ⟨rfl, rfl⟩ := List.cons.inj hstack
    refine ⟨m, hm, rfl, ?_, by simp, hgranted⟩
    -- an id from m on lies below and would lie on the stack twice
    have hk := ((hi.free k).mp (by simp [hfree])).1
    have hnodup := hi.free_nodup
    rw [hfree, nodup_cons, mem_append, mem_range'_1] at hnodup
    omega

theorem grant {free : List Nat} (hfree : a.free = k :: free) :
    Agrees n (granted k :: h) ⟨free, a.inUse.setIfInBounds k true⟩ := by
  have hnodup := hi.free_nodup
  have hmem := hi.free
  rw [hfree] at hnodup hmem
  obtain ⟨hfresh, hrest⟩ := nodup_cons.mp hnodup
  obtain ⟨hk, hout⟩ := (hmem k).mp (by simp)
  refine ⟨by simpa using hi.size, fun j => ?_, nodup_cons.mpr ⟨hout, hi.held_nodup⟩, hrest,
    fun j => ?_, ?_⟩
  · rw [Array.getElem?_setIfInBounds, held, mem_cons, ← hi.used j, hi.size]
    by_cases hj : k = j
    · simp [← hj, hk]
    · simp [hj, Ne.symm hj]
  · have hj := hmem j
    grind [held]
  · obtain ⟨m, hm, -, hkm, hstack, hgranted⟩ | ⟨hnone, hkn, hstack, hgranted⟩ := hi.top hfree
    · exact ⟨m, hm, hstack, fun j => by simp [hgranted]; omega⟩
    · exact ⟨k + 1, hkn, by simpa [returned, hnone] using hstack,
        fun j => by simp [hgranted]; omega⟩

theorem release (hk : a.inUse[k]? = some true) :
    Agrees n (released k :: h) ⟨k :: a.free, a.inUse.setIfInBounds k false⟩ := by
  have hheld := (hi.used k).mp hk
  have hlt := hi.lt hheld
  have herase : ∀ j, j ∈ held (released k :: h) ↔ j ≠ k ∧ j ∈ held h := fun j =>
    hi.held_nodup.mem_erase_iff
  obtain ⟨m, hm, hstack, hgranted⟩ := hi.stack
  refine ⟨by simpa using hi.size, fun j => ?_, hi.held_nodup.erase k, ?_, fun j => ?_,
    m, hm, by simp [returned, hstack], by simpa using hgranted⟩
  · rw [Array.getElem?_setIfInBounds, herase, ← hi.used j, hi.size]
    by_cases hj : k = j
    · simp [← hj, hlt]
    · simp [hj, Ne.symm hj]
  · exact nodup_cons.mpr ⟨fun hfree => ((hi.free k).mp hfree).2 hheld, hi.free_nodup⟩
  · have hj := hi.free j
    grind

theorem step (hn : n < 2 ^ 63) (c : Call) : Agrees n ((a.step c).1 :: h) (a.step c).2 := by
  cases c with
  | allocate =>
    rw [Allocator.step]
    split
    · rename_i k b hok
      obtain ⟨free, hfree, rfl⟩ := allocate_eq_ok.mp hok
      exact hi.grant hfree
    · exact hi.refuse
  | deallocate id =>
    have heq := deallocate_eq (hi.size ▸ hn) id
    rw [Allocator.step]
    split at heq
    · rename_i hused
      rw [heq]
      exact hi.release hused.2
    · obtain ⟨e, he⟩ := heq
      rw [he]
      exact hi.refuse

end

theorem replay (hi : Agrees n [] a) (hn : n < 2 ^ 63) (cs : List Call) :
    Agrees n (a.replay cs).1 (a.replay cs).2 := by
  induction cs with
  | nil => exact hi
  | cons c cs ih => exact ih.step hn c

theorem count (hi : Agrees n h a) : a.free.length + (held h).length = n := by
  have hperm : (a.free ++ held h).Perm (List.range n) := by
    refine (perm_ext_iff_of_nodup ?_ nodup_range).mpr fun k => ?_
    · refine nodup_append'.mpr ⟨hi.free_nodup, hi.held_nodup, fun k hk hheld => ?_⟩
      exact ((hi.free k).mp hk).2 hheld
    · have hk := hi.free k
      have hlt := hi.lt (k := k)
      grind
  simpa using hperm.length_eq

end Agrees

/-- What allocator and callers know of each other after any calls, in terms of what the calls came
to: which ids are out, which calls will fail, and which id comes next. -/
theorem history_safe {capacity : Int64} (hc : create capacity = .ok a) (cs : List Call) :
    let h := (a.replay cs).1
    let x := (a.replay cs).2
    (held h).Nodup ∧ (∀ k ∈ held h, (k : Int) < capacity.toInt) ∧
    x.free.Nodup ∧ (∀ k : Nat, k ∈ x.free ↔ (k : Int) < capacity.toInt ∧ k ∉ held h) ∧
    x.available + (held h).length = x.capacity ∧ x.capacity = capacity.toInt ∧
    ((∃ e, x.allocate = .error e) ↔ ∀ k : Nat, (k : Int) < capacity.toInt → k ∈ held h) ∧
    (∀ id : Int64, (∃ e, x.deallocate id = .error e) ↔
      id.toInt < 0 ∨ capacity.toInt ≤ id.toInt ∨ id.toInt.toNat ∉ held h) ∧
    (∀ c, (x.step c).1 = refused → (x.step c).2 = x) ∧
    ∀ k y, x.allocate = .ok (k, y) → (returned h).head? = some k ∨
      returned h = [] ∧ granted k ∉ h ∧ ∀ j < k, granted j ∈ h := by
  intro h x
  have hcap := capacity.toInt_lt
  have hstart := Agrees.create hc
  have hnonneg : 0 ≤ capacity.toInt := by
    by_contra hneg
    rw [Allocator.create, Memory.admits, decide_eq_false hneg] at hc
    cases hc
  have hi : Agrees capacity.toInt.toNat h x := hstart.replay (by omega) cs
  refine ⟨hi.held_nodup, fun k hk => ?_, hi.free_nodup, fun k => ?_, ?_, ?_, ?_, fun id => ?_, ?_,
    fun k y hok => ?_⟩
  · have := hi.lt hk
    omega
  · rw [hi.free k, ← Int.lt_toNat]
  · exact hi.count.trans hi.size.symm
  · rw [Allocator.capacity, hi.size, Int.toNat_of_nonneg hnonneg]
  · rw [allocate_eq_error, List.eq_nil_iff_forall_not_mem]
    simp only [hi.free, Int.lt_toNat, not_and, not_not]
  · have hsize : x.inUse.size < 2 ^ 63 := by
      rw [hi.size]
      omega
    have heq := deallocate_eq hsize id
    have hlt := hi.lt (k := id.toInt.toNat)
    have hused := hi.used id.toInt.toNat
    split at heq
    · rw [heq]
      simp only [reduceCtorEq, exists_false, false_iff]
      grind
    · simp only [heq, true_iff]
      grind
  · intro c hrefused
    cases c <;> rw [Allocator.step] at hrefused ⊢ <;> split <;> simp_all
  · obtain ⟨free, hfree, -⟩ := allocate_eq_ok.mp hok
    obtain ⟨-, -, hhead, -⟩ | ⟨hnone, -, -, hgranted⟩ := hi.top hfree
    · exact .inl hhead
    · exact .inr ⟨hnone, by simp [hgranted], fun j hj => (hgranted j).mpr hj⟩

theorem history_safe_reuse : ∃ a x, create 3 = .ok a ∧
    a.replay [.deallocate 2, .deallocate 2, .deallocate 0, .allocate, .allocate, .allocate] =
      ([refused, released 2, released 0, granted 2, granted 1, granted 0], x) ∧
    held (a.replay [.deallocate 2, .deallocate 2, .deallocate 0, .allocate, .allocate,
      .allocate]).1 = [1] ∧ x.available = 2 ∧ ∃ y, x.allocate = .ok (2, y) := by
  have hc : create 3 = .ok ⟨[0, 1, 2], #[false, false, false]⟩ := by
    rw [create, if_pos (by decide)]
    rfl
  obtain ⟨-, -, -, -, hcount, -⟩ := history_safe hc
    [.deallocate 2, .deallocate 2, .deallocate 0, .allocate, .allocate, .allocate]
  exact ⟨_, ⟨[2, 0], #[false, true, false]⟩, hc, rfl, rfl, Nat.add_right_cancel hcount, _, rfl⟩

end TiledAutomata.Allocator
