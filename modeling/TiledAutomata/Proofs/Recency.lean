import TiledAutomata.Proofs.CacheValues

/-!
# What a cache forgets

The entries of a cache form a chain from the key used last to the key used longest ago, and
the links backwards show the same chain. This holds after any calls, and so does what follows
from it: a cache that is full forgets the key whose last use is oldest, and the counts of a
cache tell how its entries came and went.
-/

open List Option

namespace TiledAutomata.Cache

/-! ## The chain of entries -/

section Passes

variable {κ : Type}

/-- Following links from a key, or from none, passes the keys of a list and ends there. -/
def Passes (next : κ → Option κ) : Option κ → List κ → Prop
  | s, [] => s = none
  | s, k :: ks => s = some k ∧ Passes next (next k) ks

/-- The link to a key, if there is one before it, or else the start, leads elsewhere. -/
def Rerouted (before target : Option κ) (s s' : Option κ) (next next' : κ → Option κ) : Prop :=
  match before with
  | some n => s' = s ∧ next' n = target ∧ ∀ l, l ≠ n → next' l = next l
  | none => s' = target ∧ next' = next

variable {next next' : κ → Option κ} {s s' t : Option κ} {k n : κ} {as bs cs ks : List κ}

theorem Passes.start (h : Passes next s ks) : s = ks.head? := by
  cases ks with
  | nil => exact h
  | cons k ks => exact h.1

theorem Passes.rest (h : Passes next s (as ++ k :: bs)) : Passes next (next k) bs := by
  induction as generalizing s with
  | nil => exact h.2
  | cons a as ih => exact ih h.2

theorem Passes.congr (h : Passes next s ks) (hnext : ∀ k ∈ ks, next' k = next k) :
    Passes next' s ks := by
  induction ks generalizing s with
  | nil => exact h
  | cons k ks ih =>
    refine ⟨h.1, ?_⟩
    rw [hnext k mem_cons_self]
    exact ih h.2 fun l hl => hnext l (mem_cons_of_mem k hl)

/-- A chain goes on with other keys behind one of its own. -/
theorem Passes.graft (h : Passes next s (as ++ n :: cs)) (hbs : Passes next t bs)
    (hn : next' n = t) (hother : ∀ l, l ≠ n → next' l = next l) (has : n ∉ as) (hnbs : n ∉ bs) :
    Passes next' s (as ++ n :: bs) := by
  induction as generalizing s with
  | nil => exact ⟨h.1, hn ▸ hbs.congr fun l hl => hother l (ne_of_mem_of_not_mem hl hnbs)⟩
  | cons a as ih =>
    refine ⟨h.1, ?_⟩
    rw [hother a (ne_of_not_mem_cons has).symm]
    exact ih h.2 (not_mem_of_not_mem_cons has)

theorem Passes.bypass (h : Passes next s (as ++ k :: bs)) (hnodup : (as ++ k :: bs).Nodup)
    (hroute : Rerouted as.getLast? (next k) s s' next next') : Passes next' s' (as ++ bs) := by
  rcases eq_nil_or_concat' as with rfl | ⟨as, n, rfl⟩
  · obtain ⟨rfl, rfl⟩ := hroute
    exact h.rest
  · rw [List.getLast?_concat] at hroute
    obtain ⟨rfl, hn, hother⟩ := hroute
    have hrest := h.rest
    rw [append_assoc, singleton_append] at h hnodup ⊢
    exact h.graft hrest hn hother (by grind) (by grind)

end Passes

variable {κ ν : Type} [BEq κ] [Hashable κ]

def older? (c : Cache κ ν) (k : κ) : Option κ := c.entries[k]?.bind (·.older)

def newer? (c : Cache κ ν) (k : κ) : Option κ := c.entries[k]?.bind (·.newer)

def has (c : Cache κ ν) (k : κ) : Bool := c.entries.contains k

/-- A chain of keys in a cache, from the one used last to the one used longest ago. -/
structure Linked (c : Cache κ ν) (ks : List κ) : Prop where
  forwards : Passes c.older? c.newest ks
  backwards : Passes c.newer? c.oldest ks.reverse
  nodup : ks.Nodup
  held : ∀ k ∈ ks, c.has k = true

section Linked

variable [LawfulBEq κ] {c : Cache κ ν} {ks as bs : List κ} {k n : κ} {e : Entry κ ν}

theorem has_eq (c : Cache κ ν) (k : κ) : c.has k = (c.value? k).isSome := by
  simp [has, value?]

theorem has_unlink (c : Cache κ ν) (e : Entry κ ν) : (c.unlink e).has = c.has := by
  funext k
  rw [has_eq, has_eq, value?_unlink]

theorem has_iff : c.has k = true ↔ ∃ e, c.entries[k]? = some e := by
  rw [has_eq, value?, isSome_map, isSome_iff_exists]

section Modify

variable {m : Std.HashMap κ (Entry κ ν)} {f : Entry κ ν → Entry κ ν} {g : Entry κ ν → Option κ}
  {q : Option κ}

theorem bind_modify_same (hg : ∀ e, g (f e) = g e) (l : κ) :
    (m.modify n f)[l]?.bind g = m[l]?.bind g := by
  rw [Std.HashMap.getElem?_modify]
  split
  · rename_i h
    rw [eq_of_beq h, bind_map]
    exact congrArg _ (funext hg)
  · rfl

theorem bind_modify_new (he : m[n]? = some e) (hg : ∀ e, g (f e) = q) (l : κ) :
    (m.modify n f)[l]?.bind g = if n == l then q else m[l]?.bind g := by
  rw [Std.HashMap.getElem?_modify]
  split
  · rw [he]
    exact hg e
  · rfl

end Modify

theorem older?_setNewer (c : Cache κ ν) (n : κ) (p : Option κ) :
    (c.setNewer n p).older? = c.older? :=
  funext (bind_modify_same fun _ => rfl)

theorem newer?_setOlder (c : Cache κ ν) (n : κ) (q : Option κ) :
    (c.setOlder n q).newer? = c.newer? :=
  funext (bind_modify_same fun _ => rfl)

theorem setOlder_forwards (hn : c.has n = true) (q : Option κ) :
    Rerouted (some n) q c.newest (c.setOlder n q).newest c.older? (c.setOlder n q).older? := by
  obtain ⟨e, he⟩ := has_iff.mp hn
  have hset : ∀ l, (c.setOlder n q).older? l = if n == l then q else c.older? l :=
    bind_modify_new he fun _ => rfl
  exact ⟨rfl, by simp [hset], fun l hl => by simp [hset, Ne.symm hl]⟩

theorem setNewer_backwards (hn : c.has n = true) (p : Option κ) :
    Rerouted (some n) p c.oldest (c.setNewer n p).oldest c.newer? (c.setNewer n p).newer? := by
  obtain ⟨e, he⟩ := has_iff.mp hn
  have hset : ∀ l, (c.setNewer n p).newer? l = if n == l then p else c.newer? l :=
    bind_modify_new he fun _ => rfl
  exact ⟨rfl, by simp [hset], fun l hl => by simp [hset, Ne.symm hl]⟩

theorem unlink_rerouted (hnewer : ∀ n ∈ e.newer, c.has n = true)
    (holder : ∀ o ∈ e.older, c.has o = true) :
    Rerouted e.newer e.older c.newest (c.unlink e).newest c.older? (c.unlink e).older? ∧
      Rerouted e.older e.newer c.oldest (c.unlink e).oldest c.newer? (c.unlink e).newer? := by
  obtain ⟨v, newer, older⟩ := e
  cases newer with
  | none =>
    cases older with
    | none => exact ⟨⟨rfl, rfl⟩, rfl, rfl⟩
    | some o =>
      exact ⟨⟨rfl, older?_setNewer _ o none⟩, setNewer_backwards (c := { c with newest := some o })
        (holder o rfl) none⟩
  | some n =>
    have hfront := setOlder_forwards (hnewer n rfl) older
    cases older with
    | none => exact ⟨hfront, rfl, newer?_setOlder c n none⟩
    | some o =>
      have hback := setNewer_backwards (c := c.setOlder n (some o)) (n := o)
        (by simpa [has, setOlder] using holder o rfl) (some n)
      rw [newer?_setOlder] at hback
      exact ⟨(older?_setNewer (c.setOlder n (some o)) o (some n)).symm ▸ hfront, hback⟩

theorem Linked.unlink (h : c.Linked (as ++ k :: bs)) (he : c.entries[k]? = some e) :
    (c.unlink e).Linked (as ++ bs) := by
  have hforwards := h.forwards
  have hbackwards := h.backwards
  rw [reverse_append, reverse_cons, append_assoc, singleton_append] at hbackwards
  have holder : c.older? k = e.older := by simp [older?, he]
  have hnewer : c.newer? k = e.newer := by simp [newer?, he]
  have hbs : e.older = bs.reverse.getLast? := by
    rw [getLast?_reverse, ← holder, hforwards.rest.start]
  have has : e.newer = as.getLast? := by
    rw [← head?_reverse, ← hnewer, hbackwards.rest.start]
  obtain ⟨hfront, hback⟩ := unlink_rerouted (c := c) (e := e)
    (fun n hn => h.held n (mem_append_left _ (mem_of_getLast? (has ▸ hn))))
    fun o ho => h.held o (by
      rw [hbs, getLast?_reverse] at ho
      simp [mem_of_mem_head? ho])
  refine ⟨hforwards.bypass h.nodup (has ▸ holder ▸ hfront), ?_, h.nodup.sublist (by simp),
    fun l hl => ?_⟩
  · rw [reverse_append]
    exact hbackwards.bypass (by simpa using nodup_reverse.mpr h.nodup) (hbs ▸ hnewer ▸ hback)
  · rw [has_unlink]
    exact h.held l (by grind)

theorem Linked.congr {c' : Cache κ ν} (h : c.Linked ks)
    (hsame : ∀ l ∈ ks, c'.entries[l]? = c.entries[l]?)
    (hends : c'.newest = c.newest ∧ c'.oldest = c.oldest) : c'.Linked ks := by
  refine ⟨hends.1 ▸ h.forwards.congr fun l hl => ?_, hends.2 ▸ h.backwards.congr fun l hl => ?_,
    h.nodup, fun l hl => ?_⟩
  · rw [older?, hsame l hl, older?]
  · rw [newer?, hsame l (mem_reverse.mp hl), newer?]
  · rw [has_iff, hsame l hl, ← has_iff]
    exact h.held l hl

theorem Linked.pushFront (h : c.Linked ks) (hk : k ∉ ks) (v : ν) :
    (c.pushFront k v).Linked (k :: ks) := by
  let c₁ : Cache κ ν := { c with entries := c.entries.insert k ⟨v, none, ks.head?⟩ }
  have hown : c₁.entries[k]? = some ⟨v, none, ks.head?⟩ := Std.HashMap.getElem?_insert_self
  have h₁ : c₁.Linked ks := h.congr (fun l hl => by
    rw [Std.HashMap.getElem?_insert, if_neg (by grind)]) ⟨rfl, rfl⟩
  have hforwards : Passes c₁.older? (some k) (k :: ks) := by
    refine ⟨rfl, ?_⟩
    rw [older?, hown]
    exact h.forwards.start ▸ h₁.forwards
  have hend : Passes c₁.newer? (some k) [k] := ⟨rfl, by rw [newer?, hown]; rfl⟩
  have hnodup := nodup_cons.mpr ⟨hk, h.nodup⟩
  have hheld : ∀ l ∈ k :: ks, c₁.has l = true :=
    forall_mem_cons.mpr ⟨has_iff.mpr ⟨_, hown⟩, h₁.held⟩
  unfold Cache.pushFront
  rw [h.forwards.start]
  cases ks with
  | nil =>
    have holdest : c.oldest = none := h.backwards
    exact ⟨hforwards, by rw [holdest]; exact hend, hnodup, hheld⟩
  | cons n t =>
    obtain ⟨-, hn, hother⟩ := setNewer_backwards (h₁.held n mem_cons_self) (some k)
    have holdest : c.oldest.or (some k) = c.oldest := by
      rw [h.backwards.start, head?_reverse, List.getLast?_cons]
      rfl
    have hback : Passes c₁.newer? (c.oldest.or (some k)) (t.reverse ++ [n]) :=
      holdest.symm ▸ reverse_cons ▸ h₁.backwards
    refine ⟨?_, ?_, hnodup, fun l hl => ?_⟩
    · exact (older?_setNewer c₁ n (some k)).symm ▸ hforwards
    · rw [reverse_cons, reverse_cons, append_assoc, singleton_append]
      exact hback.graft hend hn hother (by grind) (by grind)
    · simpa [has, setNewer, c₁] using hheld l hl

theorem Linked.takeOut (h : c.Linked ks) (hk : k ∈ ks) (he : c.entries[k]? = some e) :
    (c.unlink e).Linked (ks.erase k) := by
  obtain ⟨as, bs, -, rfl, herase⟩ := exists_erase_eq hk
  rw [herase]
  exact h.unlink he

theorem Linked.forget (h : c.Linked ks) (hk : k ∉ ks) :
    Linked { c with entries := c.entries.erase k } ks :=
  h.congr (fun l hl => by rw [Std.HashMap.getElem?_erase, if_neg (by grind)]) ⟨rfl, rfl⟩

theorem Linked.revalue (h : c.Linked ks) (k : κ) (v : ν) :
    Linked { c with entries := c.entries.modify k fun e => { e with value := v } } ks :=
  ⟨h.forwards.congr fun l _ => bind_modify_same (by intro; rfl) l,
    h.backwards.congr fun l _ => bind_modify_same (by intro; rfl) l, h.nodup,
    fun l hl => by simpa [has] using h.held l hl⟩

end Linked

/-! ## Calls and what they leave -/

inductive Call (ε κ ν : Type) where
  | get (k : κ)
  | set (k : κ) (v : ν)
  | create (k : κ) (made : Except ε ν)
  | delete (k : κ)
  | clear

namespace Call

variable {ε : Type}

def perform (c : Cache κ ν) : Call ε κ ν → Cache κ ν
  | .get k => (c.get k).2
  | .set k v => c.set k v
  | .create k made => (c.getOrCreate k (fun s => (made, s)) ()).2.1
  | .delete k => (c.delete k).2
  | .clear => c.clear

def stores? (c : Cache κ ν) : Call ε κ ν → Option (κ × ν)
  | .set k v => some (k, v)
  | .create k (.ok v) => if c.has k then none else some (k, v)
  | _ => none

/-- The key that a call uses: one that it stores a value for, or one that it looks up and finds. -/
def uses? (c : Cache κ ν) : Call ε κ ν → Option κ
  | .set k _ => some k
  | .get k => if c.has k then some k else none
  | .create k made => if c.has k || made.isOk then some k else none
  | _ => none

def isLookup : Call ε κ ν → Bool
  | .get _ | .create _ _ => true
  | _ => false

end Call

/-- What calls up to now tell about keys, and how many of them did what. -/
structure History (κ ν : Type) where
  clock : Nat := 0
  lastUse : κ → Nat := fun _ => 0
  stored : κ → Option ν := fun _ => none
  lookups : Nat := 0
  insertions : Nat := 0
  deletions : Nat := 0
  dropped : Nat := 0

def recorded (s : Option (κ × ν)) (f : κ → Option ν) (l : κ) : Option ν :=
  match s with
  | some (k, v) => if k == l then some v else f l
  | none => f l

def History.after {ε : Type} (h : History κ ν) (c : Cache κ ν) (x : Call ε κ ν) : History κ ν where
  clock := h.clock + 1
  lastUse l := if x.uses? c == some l then h.clock + 1 else h.lastUse l
  stored := recorded (x.stores? c) h.stored
  lookups := h.lookups + if x.isLookup then 1 else 0
  insertions := h.insertions + if (x.stores? c).any fun s => !c.has s.1 then 1 else 0
  deletions := h.deletions + match x with
    | .delete k => if c.has k then 1 else 0
    | _ => 0
  dropped := h.dropped + match x with
    | .clear => c.size
    | _ => 0

def session {ε : Type} (capacity : Int) (calls : List (Call ε κ ν)) : History κ ν × Cache κ ν :=
  calls.foldl (fun s x => (s.1.after s.2 x, x.perform s.2)) ({}, { capacity })

structure Chained (c : Cache κ ν) (ks : List κ) : Prop extends c.Linked ks where
  complete : ∀ k, c.has k = true → k ∈ ks

/-- What a history says of a cache with a chain of keys. -/
structure Recalls (h : History κ ν) (c : Cache κ ν) (ks : List κ) : Prop where
  chained : c.Chained ks
  recent : ks.Pairwise fun a b => h.lastUse b < h.lastUse a
  past : ∀ k, h.lastUse k ≤ h.clock
  values : ∀ k v, c.value? k = some v → h.stored k = some v
  account : ∃ n, c.evictions = UInt64.ofNat n ∧
    ks.length + n + h.deletions + h.dropped = h.insertions

def tally (c : Cache κ ν) : Int × UInt64 × UInt64 × UInt64 :=
  (c.capacity, c.hits, c.misses, c.evictions)

section Tally

variable {c : Cache κ ν} {k : κ} {e : Entry κ ν}

theorem tally_uncounted (c : Cache κ ν) :
    c.tally = (c.capacity, c.hits + UInt64.ofNat 0, c.misses + UInt64.ofNat 0, c.evictions) := by
  simp [tally]

theorem tally_unlink (c : Cache κ ν) (e : Entry κ ν) : (c.unlink e).tally = c.tally := by
  obtain ⟨v, newer, older⟩ := e
  cases newer <;> cases older <;> rfl

theorem tally_pushFront (c : Cache κ ν) (k : κ) (v : ν) : (c.pushFront k v).tally = c.tally := by
  unfold pushFront
  cases c.newest <;> rfl

theorem tally_touch (c : Cache κ ν) (k : κ) (e : Entry κ ν) : (c.touch k e).tally = c.tally := by
  unfold touch
  split
  · rfl
  · rw [tally_pushFront, tally_unlink]

theorem tally_set (he : c.entries[k]? = some e) (v : ν) : (c.set k v).tally = c.tally := by
  simp only [set, he]
  exact tally_touch c k e

end Tally

section Steps

variable {ε : Type} {c : Cache κ ν} {ks : List κ} {k : κ} {v w : ν} {e : Entry κ ν}
  {x : Call ε κ ν}

section Chained

variable (h : c.Chained ks)

include h

theorem Chained.keys (k : κ) : c.has k = true ↔ k ∈ ks := ⟨h.complete k, h.held k⟩

theorem Chained.recount (hits misses evictions : UInt64) :
    Chained { c with hits, misses, evictions } ks :=
  ⟨⟨h.forwards, h.backwards, h.nodup, h.held⟩, h.complete⟩

variable [LawfulBEq κ]

theorem Chained.mem (he : c.entries[k]? = some e) : k ∈ ks := h.complete k (has_iff.mpr ⟨e, he⟩)

theorem Chained.size : c.size = ks.length := by
  have hnodup : c.entries.keys.Nodup := c.entries.distinct_keys.imp (by simp)
  have hperm : c.entries.keys.Perm ks := by
    refine (perm_ext_iff_of_nodup hnodup h.nodup).mpr fun k => ?_
    rw [Std.HashMap.mem_keys, ← h.keys]
    exact Std.HashMap.contains_iff_mem.symm
  rw [Cache.size, ← Std.HashMap.length_keys, hperm.length_eq]

theorem Chained.touch (he : c.entries[k]? = some e) :
    (c.touch k e).Chained (k :: ks.erase k) := by
  have hk := h.mem he
  refine ⟨?_, fun l hl => (perm_cons_erase hk).mem_iff.mp (h.complete l ?_)⟩
  · unfold Cache.touch
    split
    · rename_i hnewest
      rw [h.forwards.start, beq_iff_eq] at hnewest
      obtain ⟨t, rfl⟩ := List.head?_eq_some_iff.mp hnewest
      rw [erase_cons_head]
      exact h.toLinked
    · exact (h.takeOut hk he).pushFront h.nodup.not_mem_erase e.value
  · rwa [has_eq, value?_touch he, ← has_eq] at hl

theorem Chained.revalue (k : κ) (v : ν) :
    Chained { c with entries := c.entries.modify k fun e => { e with value := v } } ks :=
  ⟨h.toLinked.revalue k v, fun l hl => h.complete l (by simpa [has] using hl)⟩

theorem Chained.pushFront (hk : k ∉ ks) (v : ν) : (c.pushFront k v).Chained (k :: ks) := by
  refine ⟨h.toLinked.pushFront hk v, fun l hl => ?_⟩
  rw [has_eq, value?_pushFront] at hl
  split at hl
  · rename_i hkl
    exact eq_of_beq hkl ▸ mem_cons_self
  · exact mem_cons_of_mem k (h.complete l (by rwa [has_eq]))

theorem Chained.remove (he : c.entries[k]? = some e) :
    Chained { c.unlink e with entries := (c.unlink e).entries.erase k } (ks.erase k) := by
  refine ⟨(h.takeOut (h.mem he) he).forget h.nodup.not_mem_erase, fun l hl => ?_⟩
  rw [has, Std.HashMap.contains_erase, Bool.and_eq_true] at hl
  refine h.nodup.mem_erase_iff.mpr ⟨?_, h.complete l ?_⟩
  · rintro rfl
    simp at hl
  · rw [← has_unlink c e]
    exact hl.2

theorem Chained.evict {z : κ} (hz : ks.getLast? = some z) :
    c.evict.Chained (ks.erase z) ∧
      c.evict.tally = (c.capacity, c.hits, c.misses, c.evictions + 1) := by
  obtain ⟨e, he⟩ := has_iff.mp (h.held z (mem_of_getLast? hz))
  have htally := tally_unlink c e
  simp only [tally, Prod.mk.injEq] at htally
  unfold Cache.evict
  rw [h.backwards.start, head?_reverse, hz]
  simp only [he]
  exact ⟨(h.remove he).recount _ _ _, by simp [tally, htally]⟩

theorem Chained.overfull_iff :
    c.overfull = true ↔ 0 < c.capacity ∧ c.capacity < ks.length := by
  rw [Cache.overfull, h.size, Bool.and_eq_true, decide_eq_true_eq, decide_eq_true_eq]

/-- A cache that is over its bound by one entry at most drops that entry and no other. -/
theorem Chained.shrink (hone : 0 < c.capacity → (ks.length : Int) ≤ c.capacity + 1) :
    (c.shrink = c ∧ (0 < c.capacity → (ks.length : Int) ≤ c.capacity)) ∨
      ∃ z, ks.getLast? = some z ∧ (0 < c.capacity ∧ c.capacity < ks.length) ∧
        c.shrink.Chained (ks.erase z) ∧
        c.shrink.tally = (c.capacity, c.hits, c.misses, c.evictions + 1) := by
  unfold Cache.shrink
  rw [h.size]
  by_cases hfull : c.overfull = true
  case neg =>
    refine .inl ⟨?_, fun hpos => Int.not_lt.mp fun hlt => hfull (h.overfull_iff.mpr ⟨hpos, hlt⟩)⟩
    cases ks.length with
    | zero => rfl
    | succ n => rw [evictWhile, if_neg hfull]
  case pos =>
    obtain ⟨hpos, hlt⟩ := h.overfull_iff.mp hfull
    have hlen : ks.length ≠ 0 := by omega
    obtain ⟨z, hz⟩ : ∃ z, ks.getLast? = some z :=
      ⟨_, List.getLast?_eq_some_getLast fun hnil : ks = [] => hlen (by rw [hnil]; rfl)⟩
    obtain ⟨hrest, htally⟩ := h.evict hz
    have hless := length_erase_of_mem (mem_of_getLast? hz)
    -- the second turn finds the cache within its bound
    have hcapacity : c.evict.capacity = c.capacity := congrArg (·.1) htally
    have hdone : ¬c.evict.overfull = true := by
      rw [hrest.overfull_iff, hless, hcapacity]
      have := hone hpos
      omega
    obtain ⟨n, hn⟩ : ∃ n, ks.length = n + 2 := ⟨ks.length - 2, by omega⟩
    rw [hn, evictWhile, if_pos hfull, evictWhile, if_neg hdone]
    exact .inr ⟨z, hz, ⟨hpos, hn ▸ hlt⟩, hrest, htally⟩

end Chained

variable [LawfulBEq κ]

theorem value?_perform {l : κ} (h : (x.perform c).value? l = some w) :
    recorded (x.stores? c) c.value? l = some w := by
  cases x with
  | get k =>
    simp only [Call.perform, Cache.get] at h
    split at h
    · exact h
    · rename_i he
      rw [← value?_touch he]
      exact h
  | set k v => exact value?_set h
  | create k made =>
    simp only [Call.perform, Cache.getOrCreate] at h
    split at h
    · rename_i e he
      have hhas := has_iff.mpr ⟨e, he⟩
      have hstores : (Call.create k made).stores? c = none := by
        cases made <;> simp [Call.stores?, hhas]
      rw [hstores, ← value?_touch he]
      exact h
    · rename_i he
      have hhas : c.has k = false := by simp [has_eq, value?, he]
      cases made with
      | error err => exact h
      | ok v =>
        simp only [Call.stores?, hhas]
        exact value?_set (c := { c with misses := c.misses + 1 }) h
  | delete k =>
    simp only [Call.perform, Cache.delete] at h
    split at h
    · exact h
    · exact value?_remove h
  | clear =>
    rw [Call.perform, value?_clear] at h
    cases h

end Steps

/-! ## Whole runs -/

/-- A call that evicts nothing: only what it takes out itself goes. -/
def Keeps {ε : Type} (c : Cache κ ν) (ks : List κ) (x : Call ε κ ν) : Prop :=
  (x.perform c).evictions = c.evictions ∧
    ∀ k ∈ ks, (x.perform c).has k = true ∨ x = .delete k ∨ x = .clear

/-- A call that stores a value for a new key and evicts the one key whose last use is oldest. -/
def EvictsOldest {ε : Type} (h : History κ ν) (c : Cache κ ν) (ks : List κ) (x : Call ε κ ν) :
    Prop :=
  ∃ z ∈ ks, (∀ l ∈ ks, l ≠ z → h.lastUse z < h.lastUse l) ∧
    (x.perform c).evictions = c.evictions + 1 ∧ ∃ k v, x.stores? c = some (k, v) ∧ k ≠ z ∧
      c.has k = false ∧ ∀ l, (x.perform c).has l = true ↔ l = k ∨ l ∈ ks ∧ l ≠ z

/-- What one call does to a cache with a history and a chain of keys. -/
structure Advance {ε : Type} (h : History κ ν) (c : Cache κ ν) (ks : List κ) (x : Call ε κ ν)
    (ks' : List κ) : Prop where
  recalls : Recalls (h.after c x) (x.perform c) ks'
  capacity : (x.perform c).capacity = c.capacity
  bound : 0 < c.capacity → (ks'.length : Int) ≤ c.capacity
  lookups : ∃ i j, (x.perform c).hits = c.hits + UInt64.ofNat i ∧
    (x.perform c).misses = c.misses + UInt64.ofNat j ∧ i + j = if x.isLookup then 1 else 0
  loss : Keeps c ks x ∨ EvictsOldest h c ks x

def reordered (use : Option κ) (ks : List κ) : List κ :=
  match use with
  | some k => k :: ks.erase k
  | none => ks

section Runs

variable {ε : Type} {h : History κ ν} {c c' : Cache κ ν} {ks ks' : List κ} {k : κ} {v : ν}
  {e : Entry κ ν} {x : Call ε κ ν} {i j : Nat}

theorem getOrCreate_eq_perform {σ : Type} (make : σ → Except ε ν × σ) (s : σ) (k : κ) :
    (c.getOrCreate k make s).2.1 = (Call.create k (make s).1).perform c := by
  simp only [Call.perform, Cache.getOrCreate]
  cases c.entries[k]? with
  | some e => rfl
  | none =>
    obtain ⟨made, s'⟩ := make s
    cases made <;> rfl

/-- The last key of the chain is the one whose use is oldest. -/
theorem Recalls.oldest {z : κ} (hr : Recalls h c ks) (hz : ks.getLast? = some z) :
    ∀ l ∈ ks, l ≠ z → h.lastUse z < h.lastUse l := by
  obtain ⟨init, rfl⟩ := List.getLast?_eq_some_iff.mp hz
  obtain ⟨-, -, hlast⟩ := pairwise_append.mp hr.recent
  intro l hl hne
  obtain hl | hl := mem_append.mp hl
  · exact hlast l hl z (by simp)
  · exact absurd (mem_singleton.mp hl) hne

theorem History.after_of_uses (huses : x.uses? c = some k) :
    (h.after c x).deletions = h.deletions ∧ (h.after c x).dropped = h.dropped ∧
      (h.after c x).insertions = h.insertions + if c.has k then 0 else 1 := by
  rcases x with l | ⟨l, v⟩ | ⟨l, _ | v⟩ | l | _ <;> cases hk : c.has k <;>
    grind [History.after, Call.uses?, Call.stores?, Except.toBool]

variable [LawfulBEq κ]

section

variable (hr : Recalls h c ks)

include hr

theorem Recalls.next (hchained : (x.perform c).Chained ks')
    (hsub : ks' <+ reordered (x.uses? c) ks)
    (haccount : ∃ n, (x.perform c).evictions = UInt64.ofNat n ∧
      ks'.length + n + (h.after c x).deletions + (h.after c x).dropped =
        (h.after c x).insertions) :
    Recalls (h.after c x) (x.perform c) ks' := by
  refine ⟨hchained, .sublist hsub ?_, fun k => ?_, fun k v hv => ?_, haccount⟩
  · cases huses : x.uses? c with
    | none => simpa [reordered, History.after, huses] using hr.recent
    | some k =>
      have hmem : ∀ l ∈ ks.erase k, l ≠ k := fun l hl => (hr.chained.nodup.mem_erase_iff.mp hl).1
      have hnow : (h.after c x).lastUse k = h.clock + 1 := by simp [History.after, huses]
      have hother : ∀ l ∈ ks.erase k, (h.after c x).lastUse l = h.lastUse l := fun l hl => by
        simp [History.after, huses, (hmem l hl).symm]
      refine pairwise_cons.mpr ⟨fun l hl => ?_, ?_⟩
      · rw [hother l hl, hnow]
        exact Nat.lt_succ_of_le (hr.past l)
      · refine (hr.recent.sublist erase_sublist).imp_of_mem fun {a b} ha hb hab => ?_
        rwa [hother a ha, hother b hb]
  · have := hr.past k
    simp only [History.after]
    split <;> omega
  · have hfound := value?_perform hv
    simp only [History.after, recorded] at hfound ⊢
    grind [hr.values]

variable (hroom : 0 < c.capacity → (ks.length : Int) ≤ c.capacity)

include hroom

theorem Recalls.kept (us : List κ) (hchained : (x.perform c).Chained us)
    (hsub : us <+ reordered (x.uses? c) ks) (hlen : us.length ≤ ks.length)
    (htally : (x.perform c).tally =
      (c.capacity, c.hits + UInt64.ofNat i, c.misses + UInt64.ofNat j, c.evictions))
    (hlookups : i + j = if x.isLookup then 1 else 0)
    (haccount : us.length + (h.after c x).deletions + (h.after c x).dropped + h.insertions =
      ks.length + h.deletions + h.dropped + (h.after c x).insertions)
    (hkeep : ∀ l ∈ ks, l ∈ us ∨ x = .delete l ∨ x = .clear) : ∃ ks', Advance h c ks x ks' := by
  simp only [tally, Prod.mk.injEq] at htally
  obtain ⟨hcapacity, hhits, hmisses, hevictions⟩ := htally
  obtain ⟨n, hn, hold⟩ := hr.account
  refine ⟨us, hr.next hchained hsub ⟨n, hevictions.trans hn, by omega⟩, hcapacity,
    fun hpos => ?_, ⟨i, j, hhits, hmisses, hlookups⟩, .inl ⟨hevictions, fun l hl => ?_⟩⟩
  · exact (Int.ofNat_le.mpr hlen).trans (hroom hpos)
  · exact (hkeep l hl).imp_left (hchained.held l)

theorem Recalls.hit (he : c.entries[k]? = some e) (huses : x.uses? c = some k)
    (hchained : (x.perform c).Chained (k :: ks.erase k))
    (htally : (x.perform c).tally =
      (c.capacity, c.hits + UInt64.ofNat i, c.misses + UInt64.ofNat j, c.evictions))
    (hlookups : i + j = if x.isLookup then 1 else 0) :
    ∃ ks', Advance h c ks x ks' := by
  have hperm := perm_cons_erase (hr.chained.mem he)
  obtain ⟨hdeletions, hdropped, hinsertions⟩ := History.after_of_uses (h := h) huses
  rw [if_pos (has_iff.mpr ⟨e, he⟩)] at hinsertions
  refine hr.kept hroom _ hchained (by rw [huses]; exact .refl _) hperm.length_eq.ge htally
    hlookups ?_ fun l hl => .inl (hperm.mem_iff.mp hl)
  rw [hdeletions, hdropped, hinsertions, hperm.length_eq]
  rfl

theorem Recalls.found (he : c.entries[k]? = some e) (hlookup : x.isLookup = true)
    (huses : x.uses? c = some k)
    (hperform : x.perform c = { c.touch k e with hits := c.hits + 1 }) :
    ∃ ks', Advance h c ks x ks' := by
  have htouch := tally_touch c k e
  simp only [tally, Prod.mk.injEq] at htouch
  have htally : (x.perform c).tally =
      (c.capacity, c.hits + UInt64.ofNat 1, c.misses + UInt64.ofNat 0, c.evictions) := by
    simp [hperform, tally, htouch]
  refine hr.hit hroom he huses ?_ htally (by rw [hlookup, if_pos rfl])
  rw [hperform]
  exact (hr.chained.touch he).recount (c.hits + 1) (c.touch k e).misses (c.touch k e).evictions

theorem Recalls.missed (hlookup : x.isLookup = true) (huses : x.uses? c = none)
    (hstores : x.stores? c = none) (hperform : x.perform c = { c with misses := c.misses + 1 }) :
    ∃ ks', Advance h c ks x ks' := by
  have htally : (x.perform c).tally =
      (c.capacity, c.hits + UInt64.ofNat 0, c.misses + UInt64.ofNat 1, c.evictions) := by
    simp [hperform, tally]
  refine hr.kept hroom ks ?_ (by rw [huses]; exact .refl _) le_rfl htally
    (by rw [hlookup, if_pos rfl]) ?_ fun l hl => .inl hl
  · rw [hperform]
    exact hr.chained.recount c.hits (c.misses + 1) c.evictions
  · cases x <;> simp_all [Call.isLookup, History.after]

theorem Recalls.inserted (he : c.entries[k]? = none) {misses : UInt64}
    (hcounted : misses = c.misses + UInt64.ofNat j)
    (hstores : x.stores? c = some (k, v)) (huses : x.uses? c = some k)
    (hperform : x.perform c = (({ c with misses } : Cache κ ν).pushFront k v).shrink)
    (hlookups : j = if x.isLookup then 1 else 0) : ∃ ks', Advance h c ks x ks' := by
  have hhas : c.has k = false := by simp [has_eq, value?, he]
  have hk : k ∉ ks := fun hk => by simp [hr.chained.held k hk] at hhas
  have hpush := (hr.chained.recount c.hits misses c.evictions).pushFront hk v
  have htally := tally_pushFront ({ c with misses } : Cache κ ν) k v
  simp only [tally, Prod.mk.injEq] at htally
  obtain ⟨hcapacity, hhits, hmisses, hevictions⟩ := htally
  obtain ⟨hdeletions, hdropped, hinsertions⟩ := History.after_of_uses (h := h) huses
  rw [hhas] at hinsertions
  have hfront : reordered (x.uses? c) ks = k :: ks := by
    rw [huses, reordered, erase_of_not_mem hk]
  obtain ⟨n, hn, hold⟩ := hr.account
  simp only [Bool.false_eq_true, if_false] at hinsertions
  have hone : 0 < c.capacity → ((k :: ks).length : Int) ≤ c.capacity + 1 := fun hpos => by
    simpa using hroom hpos
  obtain ⟨hshrink, hfits⟩ | ⟨z, hz, hfull, hrest, htally⟩ :=
    hpush.shrink (by rw [hcapacity]; exact hone)
  · rw [hshrink] at hperform
    refine ⟨k :: ks, hr.next ?_ ?_ ⟨n, ?_, ?_⟩, by rw [hperform, hcapacity], by rwa [← hcapacity],
      ⟨0, j, ?_, ?_, ?_⟩, .inl ⟨by rw [hperform, hevictions], ?_⟩⟩
    · rwa [hperform]
    · rw [hfront]
    · rw [hperform, hevictions, hn]
    · rw [length_cons]
      omega
    · rw [hperform, hhits]
      simp
    · rw [hperform, hmisses, hcounted]
    · rw [Nat.zero_add, hlookups]
    · intro l hl
      rw [hperform]
      exact .inl (hpush.held l (mem_cons_of_mem k hl))
  · simp only [tally, Prod.mk.injEq] at htally
    have hne : ks ≠ [] := by
      rintro rfl
      simp at hfull
      omega
    rw [getLast?_cons_of_ne_nil hne] at hz
    have hz' := mem_of_getLast? hz
    have hzk : z ≠ k := ne_of_mem_of_not_mem hz' hk
    have hlen : ((k :: ks).erase z).length = ks.length := by
      rw [length_erase_of_mem (mem_cons_of_mem k hz'), length_cons, Nat.add_sub_cancel]
    refine ⟨(k :: ks).erase z, hr.next (by rwa [hperform]) (by rw [hfront]; exact erase_sublist)
        ⟨n + 1, ?_, ?_⟩,
      by rw [hperform, htally.1, hcapacity], fun hpos => by rw [hlen]; exact hroom hpos,
      ⟨0, j, ?_, ?_, ?_⟩,
      .inr ⟨z, hz', hr.oldest hz, by rw [hperform, htally.2.2.2, hevictions], k, v, hstores,
        hzk.symm, hhas, fun l => ?_⟩⟩
    · rw [hperform, htally.2.2.2, hevictions, hn]
      simp
    · rw [hlen]
      omega
    · rw [hperform, htally.2.1, hhits]
      simp
    · rw [hperform, htally.2.2.1, hmisses, hcounted]
    · rw [Nat.zero_add, hlookups]
    · rw [hperform, hrest.keys, hpush.nodup.mem_erase_iff, mem_cons]
      grind

theorem Recalls.step (x : Call ε κ ν) : ∃ ks', Advance h c ks x ks' := by
  cases x with
  | get k =>
    cases he : c.entries[k]? with
    | none =>
      have hhas : c.has k = false := by simp [has_eq, value?, he]
      refine hr.missed hroom rfl ?_ rfl ?_
      · simp [Call.uses?, hhas]
      · simp [Call.perform, Cache.get, he]
    | some e =>
      refine hr.found hroom he rfl ?_ ?_
      · simp [Call.uses?, has_iff.mpr ⟨e, he⟩]
      · simp [Call.perform, Cache.get, he]
  | set k v =>
    cases he : c.entries[k]? with
    | none =>
      refine hr.inserted hroom he (j := 0) (UInt64.add_zero c.misses).symm rfl rfl ?_ rfl
      simp [Call.perform, Cache.set, he]
    | some e =>
      refine hr.hit hroom he rfl ?_ ((tally_set he v).trans (tally_uncounted c)) rfl
      simp only [Call.perform, Cache.set, he]
      exact (hr.chained.touch he).revalue k v
  | create k made =>
    cases he : c.entries[k]? with
    | some e =>
      refine hr.found hroom he rfl ?_ ?_
      · simp [Call.uses?, has_iff.mpr ⟨e, he⟩]
      · simp [Call.perform, Cache.getOrCreate, he]
    | none =>
      have hhas : c.has k = false := by simp [has_eq, value?, he]
      cases made with
      | error err =>
        refine hr.missed hroom rfl ?_ rfl ?_
        · simp [Call.uses?, hhas, Except.isOk, Except.toBool]
        · simp [Call.perform, Cache.getOrCreate, he]
      | ok v =>
        refine hr.inserted (v := v) hroom he (j := 1) rfl ?_ ?_ ?_ rfl
        · simp [Call.stores?, hhas]
        · simp [Call.uses?, Except.isOk, Except.toBool]
        · simp [Call.perform, Cache.getOrCreate, Cache.set, he]
  | delete k =>
    cases he : c.entries[k]? with
    | none =>
      have hhas : c.has k = false := by simp [has_eq, value?, he]
      have hperform : (Call.delete k : Call ε κ ν).perform c = c := by
        simp [Call.perform, Cache.delete, he]
      refine hr.kept hroom ks (by rw [hperform]; exact hr.chained) (.refl _) le_rfl
        ((congrArg tally hperform).trans (tally_uncounted c)) rfl ?_ fun l hl => .inl hl
      simp [History.after, Call.stores?, hhas]
    | some e =>
      have hk := hr.chained.mem he
      have hperform : (Call.delete k : Call ε κ ν).perform c =
          { c.unlink e with entries := (c.unlink e).entries.erase k } := by
        simp [Call.perform, Cache.delete, he]
      refine hr.kept hroom (ks.erase k) (by rw [hperform]; exact hr.chained.remove he)
        erase_sublist length_erase_le
        (((congrArg tally hperform).trans (tally_unlink c e)).trans (tally_uncounted c)) rfl ?_
        fun l hl => ?_
      · have hpos := length_pos_of_mem hk
        rw [length_erase_of_mem hk]
        simp [History.after, Call.stores?, has_iff.mpr ⟨e, he⟩]
        omega
      · by_cases hlk : l = k
        · exact .inr (.inl (by rw [hlk]))
        · exact .inl (hr.chained.nodup.mem_erase_iff.mpr ⟨hlk, hl⟩)
  | clear =>
    refine hr.kept hroom [] ⟨⟨rfl, rfl, .nil, by simp⟩, fun k hk => ?_⟩ (nil_sublist _)
      (Nat.zero_le _) (tally_uncounted c) rfl ?_ fun l _ => .inr (.inr rfl)
    · simp [Call.perform, Cache.clear, has] at hk
    · simp [History.after, Call.stores?, hr.chained.size]
      omega

end

theorem session_recalls (capacity : Int) (calls : List (Call ε κ ν)) :
    ∃ ks, Recalls (session capacity calls).1 (session capacity calls).2 ks ∧
      (session capacity calls).2.capacity = capacity ∧
      (0 < capacity → (ks.length : Int) ≤ capacity) ∧
      ∃ hits misses, (session capacity calls).2.hits = UInt64.ofNat hits ∧
        (session capacity calls).2.misses = UInt64.ofNat misses ∧
        hits + misses = (session capacity calls).1.lookups := by
  induction calls using List.reverseRecOn with
  | nil =>
    refine ⟨[], ⟨⟨⟨rfl, rfl, .nil, by simp⟩, fun k hk => ?_⟩, .nil, fun k => le_rfl,
      fun k v hv => ?_, 0, rfl, rfl⟩, rfl, fun hpos => hpos.le, 0, 0, rfl, rfl, rfl⟩
    · simp [session, has] at hk
    · simp [session, value?] at hv
  | append_singleton calls x ih =>
    obtain ⟨ks, hr, hcapacity, hroom, hits, misses, hhits, hmisses, hlookups⟩ := ih
    obtain ⟨ks', hstep⟩ := hr.step (by rwa [hcapacity]) x
    have hsession : session capacity (calls ++ [x]) =
        ((session capacity calls).1.after (session capacity calls).2 x,
          x.perform (session capacity calls).2) := by
      simp [session, foldl_append]
    rw [hsession]
    obtain ⟨i, j, hi, hj, hcount⟩ := hstep.lookups
    refine ⟨ks', hstep.recalls, hstep.capacity.trans hcapacity, ?_, hits + i, misses + j, ?_, ?_,
      ?_⟩
    · rw [← hcapacity]
      exact hstep.bound
    · rw [hi, hhits, UInt64.ofNat_add]
    · rw [hj, hmisses, UInt64.ofNat_add]
    · simp only [History.after, ← hlookups, ← hcount]
      omega

end Runs

/-- After any calls on a new cache, the links lead from the key used last to the one used longest
ago and back, through every key once and with the value last stored for it. The bound holds, one
more call evicts only the key whose last use is oldest, or none, and the counters are counts that
add up, modulo their range. -/
theorem session_recency [LawfulBEq κ] {ε : Type} (capacity : Int) (calls : List (Call ε κ ν)) :
    let h := (session capacity calls).1
    let c := (session capacity calls).2
    ∃ ks : List κ, Passes c.older? c.newest ks ∧ Passes c.newer? c.oldest ks.reverse ∧
      ks.Nodup ∧ (∀ k, c.has k = true ↔ k ∈ ks) ∧
      ks.Pairwise (fun a b => h.lastUse b < h.lastUse a) ∧
      (∀ k ∈ ks, c.value? k = h.stored k) ∧
      (0 < capacity → (c.size : Int) ≤ capacity) ∧
      (∀ x : Call ε κ ν, Keeps c ks x ∨ EvictsOldest h c ks x) ∧
      (∀ (σ : Type) (make : σ → Except ε ν × σ) (s : σ) (k : κ) (err : ε), c.has k = false →
        (make s).1 = .error err →
          (c.getOrCreate k make s).2.1 = { c with misses := c.misses + 1 }) ∧
      (∃ hits misses, c.hits = UInt64.ofNat hits ∧ c.misses = UInt64.ofNat misses ∧
        hits + misses = h.lookups) ∧
      ∃ evictions, c.evictions = UInt64.ofNat evictions ∧
        c.size + evictions + h.deletions + h.dropped = h.insertions := by
  intro h c
  obtain ⟨ks, hr, hcapacity, hroom, hlookups⟩ := session_recalls capacity calls
  refine ⟨ks, hr.chained.forwards, hr.chained.backwards, hr.chained.nodup, hr.chained.keys,
    hr.recent, fun k hk => ?_, ?_, fun x => ?_, ?_, hlookups, ?_⟩
  · have hsome := hr.chained.held k hk
    rw [has_eq] at hsome
    obtain ⟨v, hv⟩ := isSome_iff_exists.mp hsome
    rw [hv, hr.values k v hv]
  · rw [hr.chained.size]
    exact hroom
  · obtain ⟨ks', hstep⟩ := hr.step (by rwa [hcapacity]) x
    exact hstep.loss
  · intro σ make s k err hk herr
    have he : c.entries[k]? = none := by
      rw [has_eq, value?, isSome_map] at hk
      simpa using hk
    rw [getOrCreate_eq_perform, herr]
    simp [Call.perform, getOrCreate, he]
  · rw [hr.chained.size]
    exact hr.account

theorem session_recency_single :
    let c := (session 1 ([.set 1 10, .get 1, .set 2 20] : List (Call Unit Nat Nat))).2
    (c.size : Int) ≤ 1 ∧ c.has 1 = false := by
  obtain ⟨ks, -, -, -, -, -, -, hbound, -⟩ :=
    session_recency 1 ([.set 1 10, .get 1, .set 2 20] : List (Call Unit Nat Nat))
  refine ⟨hbound (by decide), ?_⟩
  simp [session, Call.perform, set, get, touch, unlink, pushFront,
    setNewer, setOlder, shrink, evictWhile, overfull, evict, size, has, Std.HashMap.size_insert,
    Std.HashMap.getElem_insert, Std.HashMap.size_erase]

end TiledAutomata.Cache
