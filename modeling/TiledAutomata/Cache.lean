import Std.Data.HashMap

/-!
# Caches that forget what was used longest ago

Entries form a chain by their last use: each knows the key used just after it and the
key used just before it, so a use, an insertion and a removal touch only neighbors in
the chain. A capacity of zero or less means no bound.
-/

namespace TiledAutomata

structure Cache.Entry (κ ν : Type) where
  value : ν
  newer : Option κ
  older : Option κ

structure Cache (κ ν : Type) [BEq κ] [Hashable κ] where
  capacity : Int
  entries : Std.HashMap κ (Cache.Entry κ ν) := {}
  newest : Option κ := none
  oldest : Option κ := none
  hits : UInt64 := 0
  misses : UInt64 := 0
  evictions : UInt64 := 0

namespace Cache

variable {κ ν : Type} [BEq κ] [Hashable κ]

def size (c : Cache κ ν) : Nat := c.entries.size

def setOlder (c : Cache κ ν) (k : κ) (o : Option κ) : Cache κ ν :=
  { c with entries := c.entries.modify k fun e => { e with older := o } }

def setNewer (c : Cache κ ν) (k : κ) (n : Option κ) : Cache κ ν :=
  { c with entries := c.entries.modify k fun e => { e with newer := n } }

def unlink (c : Cache κ ν) (e : Entry κ ν) : Cache κ ν :=
  let c := match e.newer with
    | some n => c.setOlder n e.older
    | none => { c with newest := e.older }
  match e.older with
  | some o => c.setNewer o e.newer
  | none => { c with oldest := e.newer }

def pushFront (c : Cache κ ν) (k : κ) (v : ν) : Cache κ ν :=
  let old := c.newest
  let c := { c with entries := c.entries.insert k ⟨v, none, old⟩ }
  let c := match old with
    | some n => c.setNewer n (some k)
    | none => c
  { c with newest := some k, oldest := c.oldest.or (some k) }

def touch (c : Cache κ ν) (k : κ) (e : Entry κ ν) : Cache κ ν :=
  if c.newest == some k then c else (c.unlink e).pushFront k e.value

def get (c : Cache κ ν) (k : κ) : Option ν × Cache κ ν :=
  match c.entries[k]? with
  | none => (none, { c with misses := c.misses + 1 })
  | some e => (some e.value, { c.touch k e with hits := c.hits + 1 })

/-- Drops what was used longest ago. -/
def evict (c : Cache κ ν) : Cache κ ν :=
  match c.oldest with
  | none => c
  | some k =>
    match c.entries[k]? with
    | none => c
    | some e =>
      let c := c.unlink e
      { c with entries := c.entries.erase k, evictions := c.evictions + 1 }

def overfull (c : Cache κ ν) : Bool := 0 < c.capacity && c.capacity < c.size

/-- Drops entries while the cache is over its bound, a number of times at most. -/
def evictWhile : Nat → Cache κ ν → Cache κ ν
  | 0, c => c
  | n + 1, c => if c.overfull then evictWhile n c.evict else c

/-- Drops entries until the cache is within its bound. There are no more turns than entries. -/
def shrink (c : Cache κ ν) : Cache κ ν := evictWhile c.size c

def set (c : Cache κ ν) (k : κ) (v : ν) : Cache κ ν :=
  match c.entries[k]? with
  | some e =>
    let c := c.touch k e
    { c with entries := c.entries.modify k fun e => { e with value := v } }
  | none => (c.pushFront k v).shrink

/-- The cached value, or one that is made and kept. A failure is not kept. What makes a value may
change a state, whether it fails or not. -/
def getOrCreate {ε σ : Type} (c : Cache κ ν) (k : κ) (create : σ → Except ε ν × σ) (s : σ) :
    Except ε ν × Cache κ ν × σ :=
  match c.entries[k]? with
  | some e => (.ok e.value, { c.touch k e with hits := c.hits + 1 }, s)
  | none =>
    let c := { c with misses := c.misses + 1 }
    match create s with
    | (.ok v, s) => (.ok v, c.set k v, s)
    | (.error err, s) => (.error err, c, s)

def delete (c : Cache κ ν) (k : κ) : Bool × Cache κ ν :=
  match c.entries[k]? with
  | none => (false, c)
  | some e =>
    let c := c.unlink e
    (true, { c with entries := c.entries.erase k })

/-- Drops every entry and keeps the counts. -/
def clear (c : Cache κ ν) : Cache κ ν :=
  { c with entries := {}, newest := none, oldest := none }

/-- A ratio at most one, as the nearest number of 53 bits: a numerator and a power of two. -/
def nearest (num den : Nat) : Nat × Nat :=
  let s := 53 + den.log2 - num.log2
  let s := if Nat.pow 2 53 ≤ num * Nat.pow 2 s / den then s - 1 else s
  (roundDiv (num * Nat.pow 2 s) den, s)
where
  /-- Rounds a quotient to the nearest integer, a half to the even one. -/
  roundDiv (a b : Nat) : Nat :=
    let q := a / b
    let r := 2 * (a % b)
    if b < r || (r == b && q % 2 == 1) then q + 1 else q

/-- The share of hits among all look-ups in millionths. -/
def hitRate (c : Cache κ ν) : Nat :=
  let total := c.hits + c.misses
  if total = 0 || c.hits = 0 then 0
  else
    let (m, s) := nearest c.hits.toNat total.toNat
    nearest.roundDiv (m * 1000000) (Nat.pow 2 s)

def hitRateText (c : Cache κ ν) : String :=
  let places := toString (c.hitRate % 1000000)
  toString (c.hitRate / 1000000) ++ "." ++ "".pushn '0' (6 - places.length) ++ places

end Cache

end TiledAutomata
