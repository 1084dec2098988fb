import TiledAutomata.Cache
import Mathlib.Tactic

/-!
# What a cache keeps

The links between entries come and go, but a value is found under the key that it was stored
under and under no other.
-/

namespace TiledAutomata

open Std.HashMap

namespace Cache

variable {κ ν : Type} [BEq κ] [Hashable κ] [LawfulBEq κ] {c : Cache κ ν} {k l : κ}
  {v w : ν} {e : Entry κ ν}

def value? (c : Cache κ ν) (k : κ) : Option ν := c.entries[k]?.map (·.value)

theorem value?_modify (c : Cache κ ν) (k : κ) (f : Entry κ ν → Entry κ ν) (l : κ) :
    ({ c with entries := c.entries.modify k f } : Cache κ ν).value? l =
      if k == l then c.entries[l]?.map fun e => (f e).value else c.value? l := by
  simp only [value?, getElem?_modify]
  split
  · rename_i h
    rw [eq_of_beq h, Option.map_map]
    rfl
  · rfl

theorem value?_setOlder (c : Cache κ ν) (k : κ) (o : Option κ) :
    (c.setOlder k o).value? = c.value? :=
  funext fun l => (value?_modify c k _ l).trans (ite_self _)

theorem value?_setNewer (c : Cache κ ν) (k : κ) (n : Option κ) :
    (c.setNewer k n).value? = c.value? :=
  funext fun l => (value?_modify c k _ l).trans (ite_self _)

theorem value?_unlink (c : Cache κ ν) (e : Entry κ ν) : (c.unlink e).value? = c.value? := by
  obtain ⟨v, newer, older⟩ := e
  cases newer with
  | none =>
    cases older with
    | none => rfl
    | some o => exact value?_setNewer _ o none
  | some n =>
    cases older with
    | none => exact value?_setOlder c n none
    | some o => exact (value?_setNewer _ o (some n)).trans (value?_setOlder c n (some o))

theorem value?_pushFront (c : Cache κ ν) (k : κ) (v : ν) (l : κ) :
    (c.pushFront k v).value? l = if k == l then some v else c.value? l := by
  have hinsert : ∀ o : Option κ, ({ c with entries := c.entries.insert k ⟨v, none, o⟩ } :
      Cache κ ν).value? l = if k == l then some v else c.value? l := fun o => by
    simp only [value?, getElem?_insert]
    split <;> rfl
  rw [← hinsert c.newest]
  unfold pushFront
  cases h : c.newest with
  | none => rfl
  | some n => exact congrFun (value?_setNewer _ n (some k)) l

theorem value?_touch (h : c.entries[k]? = some e) : (c.touch k e).value? = c.value? := by
  unfold touch
  split
  · rfl
  · funext l
    rw [value?_pushFront, value?_unlink]
    split
    · rename_i hk
      obtain rfl := eq_of_beq hk
      rw [value?, h]
      rfl
    · rfl

theorem value?_remove (h : ({ c.unlink e with entries := (c.unlink e).entries.erase k } :
    Cache κ ν).value? l = some w) : c.value? l = some w := by
  rw [← value?_unlink c e]
  simp only [value?, getElem?_erase] at h ⊢
  split at h
  · cases h
  · exact h

theorem value?_evict (h : c.evict.value? l = some w) : c.value? l = some w := by
  unfold evict at h
  split at h
  · exact h
  · split at h
    · exact h
    · exact value?_remove h

theorem value?_evictWhile {n : Nat} (h : (evictWhile n c).value? l = some w) :
    c.value? l = some w := by
  induction n generalizing c with
  | zero => exact h
  | succ n ih =>
    unfold evictWhile at h
    split at h
    · exact value?_evict (ih h)
    · exact h

theorem value?_set (h : (c.set k v).value? l = some w) :
    (if k == l then some v else c.value? l) = some w := by
  unfold set at h
  split at h
  · rename_i e he
    rw [value?_modify, value?_touch he] at h
    split
    · rename_i hkl
      rw [if_pos hkl] at h
      obtain ⟨_, -, rfl⟩ := Option.map_eq_some_iff.mp h
      rfl
    · rename_i hkl
      rwa [if_neg hkl] at h
  · rw [← value?_pushFront]
    exact value?_evictWhile h

theorem value?_clear (c : Cache κ ν) (l : κ) : c.clear.value? l = none := by
  simp [value?, clear]

theorem getOrCreate_cases {ε σ : Type} (c : Cache κ ν) (k : κ) (create : σ → Except ε ν × σ)
    (s : σ) :
    (∃ v c', c.value? k = some v ∧ c.getOrCreate k create s = (.ok v, c', s) ∧
      c'.value? = c.value?) ∨
    (∃ e c' s', create s = (.error e, s') ∧ c.getOrCreate k create s = (.error e, c', s') ∧
      c'.value? = c.value?) ∨
    ∃ v c' s', create s = (.ok v, s') ∧ c.getOrCreate k create s = (.ok v, c', s') ∧
      ∀ l w, c'.value? l = some w → l = k ∧ w = v ∨ c.value? l = some w := by
  unfold getOrCreate
  cases hk : c.entries[k]? with
  | some e =>
    refine .inl ⟨e.value, _, by rw [value?, hk]; rfl, rfl, ?_⟩
    exact value?_touch hk
  | none =>
    right
    rcases hcreate : create s with ⟨_ | _, s'⟩
    · exact .inl ⟨_, _, s', rfl, rfl, rfl⟩
    · refine .inr ⟨_, _, s', rfl, rfl, fun l w hl => ?_⟩
      have hset := value?_set (c := { c with misses := c.misses + 1 }) hl
      split at hset
      · rename_i hkl
        exact .inl ⟨(eq_of_beq hkl).symm, (Option.some.inj hset).symm⟩
      · exact .inr hset

end Cache

end TiledAutomata
