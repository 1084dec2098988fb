import TiledAutomata.Proofs.Packing
import TiledAutomata.Rig

/-!
# Simulators when they are created

A new simulator holds zeros, and so do the caches of a new packed simulator. What memory
admits for the caches bounds the number of logical instances and of their words. A rig
keeps each simulator that is added to it at an index of its own.
-/

namespace TiledAutomata

open Array Int

open Outcome

variable {config : Config} {a : Option Automaton} {o : Options}

def Fleet.zeros (s : Shape) : Fleet := fun q _ => Array.replicate (s.width q).toInt.toNat 0

theorem Words.window_replicate {n width i : Nat} (hi : i < n) (x : Word) :
    (Words.window (Array.replicate (n * width) x) i width) = Array.replicate width x := by
  have hle : (i + 1) * width ≤ n * width := Nat.mul_le_mul_right width hi
  rw [Nat.succ_mul] at hle
  refine ext_getElem? fun k => ?_
  rw [getElem?_window]
  by_cases hk : k < width
  · rw [if_pos hk, getElem?_replicate, getElem?_replicate, if_pos (by omega),
      if_pos hk]
  · rw [if_neg hk, getElem?_eq_none (by rw [size_replicate]; omega)]

namespace HostBuffers

variable {b : HostBuffers} {s : Shape}

theorem create_ok (h : create s.size s.inputSize s.stateSize s.outputSize = .ok b) :
    b.shape = s ∧ Allocator.create s.size = .ok b.alloc ∧
      ∀ q, Words.zeros? (s.size * s.width q) = some (b.part q) := by
  unfold create at h
  obtain ⟨_, halloc, h⟩ := bind_ok.mp h
  extract_lets zeros at h
  have hzeros : ∀ {n : Int64} {ws : Words}, zeros n = .ok ws → Words.zeros? n = some ws := by
    intro n ws hws
    dsimp only [zeros] at hws
    split at hws
    · rename_i heq
      cases hws
      exact heq
    · cases hws
  obtain ⟨_, hstate, h⟩ := bind_ok.mp h
  obtain ⟨_, hinput, h⟩ := bind_ok.mp h
  obtain ⟨_, hinputMap, h⟩ := bind_ok.mp h
  obtain ⟨_, houtputMap, h⟩ := bind_ok.mp h
  obtain ⟨_, houtput, h⟩ := bind_ok.mp h
  cases h
  refine ⟨rfl, halloc, fun q => ?_⟩
  cases q with
  | state => exact hzeros hstate
  | input => exact hzeros hinput
  | inputMap => exact hzeros hinputMap
  | outputMap => exact hzeros houtputMap
  | output => exact hzeros houtput

theorem create_holds (h : create s.size s.inputSize s.stateSize s.outputSize = .ok b)
    (hs : s.Countable) : b.Holds s (Fleet.zeros s) := by
  obtain ⟨hshape, -, hpart⟩ := create_ok h
  have hzeros : ∀ q, b.part q =
      replicate (s.size.toInt.toNat * (s.width q).toInt.toNat) 0 := by
    intro q
    have hnonneg := mul_nonneg hs.count_nonneg (hs.width_nonneg q)
    have hbound := hs.bound q
    have hmul : (s.size * s.width q).toInt = s.size.toInt * (s.width q).toInt :=
      Int64.toInt_mul_eq (by omega) (by omega)
    have hq := hpart q
    unfold Words.zeros? at hq
    split at hq
    · rw [← Option.some.inj hq, hmul, toNat_mul hs.count_nonneg (hs.width_nonneg q)]
    · cases hq
  refine ⟨hshape, fun q => ?_, fun q i hi => ?_⟩
  · exact ⟨hs.count_nonneg, hs.width_nonneg q, hs.bound q,
      by rw [hzeros q, size_replicate]⟩
  · rw [hzeros q, Words.window_replicate hi]
    rfl

end HostBuffers

theorem Pool.create_workers {workers processors : Int64} {pool : Pool}
    (h : create workers processors = .ok pool) (hp : 0 < processors) :
    0 < pool.workers.toInt := by
  have hpos : 0 < if workers ≤ 0 then processors else workers := by
    split
    · exact hp
    · rename_i hworkers
      exact Int64.not_le.mp hworkers
  unfold create at h
  generalize (if workers ≤ 0 then processors else workers) = n at h hpos
  dsimp only at h
  split at h
  · cases h
    exact Int64.lt_iff_toInt_lt.mp hpos
  · cases h

theorem Config.effective_pos (c : Config) : 0 < c.effective.instances.toInt ∧
    0 < c.effective.inputSize.toInt ∧ 0 < c.effective.outputSize.toInt := by
  have hmax : ∀ n : Int64, 0 < (max n 1).toInt := by
    intro n
    show 0 < (if n ≤ 1 then 1 else n).toInt
    split
    · decide
    · rename_i hlt
      have hone : (1 : Int64).toInt = 1 := rfl
      have := Int64.lt_iff_toInt_lt.mp (Int64.not_le.mp hlt)
      omega
  exact ⟨hmax _, hmax _, hmax _⟩

namespace Cpu

def shapeFor (a : Automaton) (config : Config) : Shape :=
  ⟨config.effective.instances, config.effective.inputSize, a.stateSize,
    config.effective.outputSize⟩

variable {a : Automaton} {config : Config} {o : Options} {x : Cpu}

theorem create_shape (h : create (some a) config o = .ok x) :
    x.buffers.shape = shapeFor a config := by
  obtain ⟨b, hb, h⟩ := bind_ok.mp h
  obtain ⟨pool, -, h⟩ := bind_ok.mp h
  cases h
  exact (HostBuffers.create_ok (s := shapeFor a config) hb).1

theorem create_holds (h : create (some a) config o = .ok x) (ho : 0 < o.processors)
    (hs : (shapeFor a config).Countable) :
    x.Holds a (shapeFor a config) (Fleet.zeros (shapeFor a config)) := by
  obtain ⟨b, hb, h⟩ := bind_ok.mp h
  obtain ⟨pool, hpool, h⟩ := bind_ok.mp h
  cases h
  exact ⟨rfl, rfl, Pool.create_workers hpool ho,
    HostBuffers.create_holds (s := shapeFor a config) hb hs⟩

end Cpu

namespace LaneCache

variable {n width : Int64} {loads : Bool} {x : LaneCache}

theorem create_ok (h : create n width loads = .ok x) :
    (0 ≤ n.toInt ∧ n.toInt * 24 ≤ 2 ^ 48 ∧ 0 ≤ n.toInt * width.toInt ∧
      n.toInt * width.toInt * 4 ≤ 2 ^ 48) ∧
    x.width = width ∧ x.words.size = n.toInt.toNat ∧ x.valid = !loads ∧ x.dirty = false ∧
    ∀ j < n.toInt.toNat, x.words.getD j #[] = Array.replicate width.toInt.toNat 0 := by
  unfold create at h
  split at h
  · rename_i hadmits
    simp only [Memory.admits, Bool.and_eq_true, decide_eq_true_eq] at hadmits
    obtain ⟨⟨hcount, hslots⟩, hnonneg, hwords⟩ := hadmits
    cases h
    refine ⟨⟨hcount, hslots, hnonneg, hwords⟩, rfl, by simp, rfl, rfl, fun j hj => ?_⟩
    rw [getD_eq_getD_getElem?, getElem?_map, getElem?_range, if_pos hj]
    rfl
  · cases h

theorem fits_create (h : create n width loads = .ok x) : x.Fits n.toInt.toNat width := by
  obtain ⟨-, hwidth, hsize, -, hdirty, hzeros⟩ := create_ok h
  refine ⟨hwidth, hsize, fun j hj => ?_, fun hd => ?_⟩
  · rw [hzeros j hj, Array.size_replicate]
  · rw [hdirty] at hd
    cases hd

end LaneCache

namespace Packed

variable {σ : Type} {sim : Simulator σ} {bits : Int64} {y : Packed} {s : Shape}

theorem width_cases : ∀ b < 33, 0 < b → 32 % Int64.ofNat b = 0 →
    b * (32 / b) = 32 ∧ 32 / Int64.ofNat b = lanes b := by
  decide

theorem create_ok (h : create sim bits = .ok y) :
    ∃ v : Split, bits.toInt.toNat = v.bits ∧ y.bits = v.bits ∧ 32 / bits = lanes v.bits ∧
      ∀ k : Cached, LaneCache.create sim.shape.size (sim.shape.width k.part) (k ≠ .input) =
        .ok (y.cache k) := by
  unfold create at h
  obtain ⟨hbits, h⟩ := guard_ok.mp h
  obtain ⟨_, -, h⟩ := bind_ok.mp h
  obtain ⟨state, hstate, h⟩ := bind_ok.mp h
  obtain ⟨input, hinput, h⟩ := bind_ok.mp h
  obtain ⟨output, houtput, h⟩ := bind_ok.mp h
  cases h
  simp only [Bool.or_eq_true, decide_eq_true_eq, not_or, ne_eq, not_not, Int64.lt_iff_toInt_lt,
    Int64.le_iff_toInt_le] at hbits
  obtain ⟨⟨hpos, hle⟩, hmod⟩ := hbits
  have hzero : (0 : Int64).toInt = 0 := rfl
  have hword : (32 : Int64).toInt = 32 := rfl
  have hnat : Int64.ofNat bits.toInt.toNat = bits := Int64.ofNat_toNat (by omega)
  obtain ⟨hwhole, hlanes⟩ := width_cases bits.toInt.toNat (by omega) (by omega) (by rw [hnat, hmod])
  rw [hnat] at hlanes
  refine ⟨⟨bits.toInt.toNat, _, hwhole⟩, rfl, rfl, hlanes, fun k => ?_⟩
  cases k with
  | state => exact hstate
  | input => exact hinput
  | output => exact houtput

variable {v : Split}

theorem toInt_logical {width : Int64} {x : LaneCache} {loads : Bool}
    (h : LaneCache.create s.size width loads = .ok x) :
    (logical s v.bits).size.toInt = s.size.toInt * v.lanes ∧ 0 ≤ s.size.toInt * v.lanes ∧
      s.size.toInt * v.lanes ≤ s.size.toInt * 32 := by
  obtain ⟨⟨hcount, hslots, -, -⟩, -⟩ := LaneCache.create_ok h
  have hlanes : v.lanes ≤ 32 := v.whole ▸ Nat.le_mul_of_pos_left v.lanes v.bits_pos
  have hlane := v.toInt_lanes
  have hle : s.size.toInt * v.lanes ≤ s.size.toInt * 32 :=
    mul_le_mul_of_nonneg_left (by omega) hcount
  have hnonneg : 0 ≤ s.size.toInt * v.lanes := mul_nonneg hcount (by omega)
  refine ⟨?_, hnonneg, hle⟩
  rw [logical, Int64.toInt_mul_eq (by rw [hlane]; omega) (by rw [hlane]; omega), hlane]

theorem countable_of_caches (hsize : 0 < s.size.toInt)
    (hcaches : ∀ k : Cached, ∃ x loads, LaneCache.create s.size (s.width k.part) loads = .ok x) :
    s.Countable ∧ (logical s v.bits).Countable ∧
      (logical s v.bits).size.toInt = s.size.toInt * v.lanes := by
  have hwidth : ∀ q, 0 ≤ (s.width q).toInt ∧ s.size.toInt * (s.width q).toInt * 4 ≤ 2 ^ 48 := by
    intro q
    obtain ⟨k, hk⟩ : ∃ k : Cached, s.width q = s.width k.part := by
      cases q with
      | state => exact ⟨.state, rfl⟩
      | input | inputMap => exact ⟨.input, rfl⟩
      | output | outputMap => exact ⟨.output, rfl⟩
    obtain ⟨x, loads, hx⟩ := hcaches k
    obtain ⟨⟨-, -, hnonneg, hwords⟩, -⟩ := LaneCache.create_ok hx
    rw [hk]
    refine ⟨?_, hwords⟩
    -- there is an instance, so with a negative width the number of words would be negative
    by_contra hneg
    have := mul_neg_of_pos_of_neg hsize (not_le.mp hneg)
    omega
  obtain ⟨x, loads, hx⟩ := hcaches .state
  obtain ⟨hlogical, hnonneg, hle⟩ := toInt_logical (v := v) hx
  refine ⟨⟨by omega, fun q => (hwidth q).1, fun q => ?_⟩,
    ⟨by omega, fun q => (hwidth q).1, fun q => ?_⟩, hlogical⟩
  · have := (hwidth q).2
    omega
  · have hq : (logical s v.bits).width q = s.width q := by cases q <;> rfl
    obtain ⟨hw, hwords⟩ := hwidth q
    have hmul := mul_le_mul_of_nonneg_right hle hw
    rw [mul_right_comm _ 32] at hmul
    rw [hlogical, hq]
    omega

theorem shows_zeros {W : σ → Prop} {c : Slot σ Cpu} {p : Slot σ Packed} {a : Automaton} {w : σ}
    (hw : W w) (hc : (c.get w).Holds a s (Fleet.zeros s)) (hp : p.get w = y)
    (hcaches : ∀ k : Cached,
      LaneCache.create s.size (s.width k.part) (k ≠ .input) = .ok (y.cache k)) :
    Shows W c p a s v (Fleet.zeros (logical s v.bits)) w := by
  refine ⟨Fleet.zeros s, Fleet.zeros s, ⟨hw, hc, fun k => ?_, fun _ _ => rfl, fun _ _ => rfl⟩,
    fun q i _ => ?_⟩
  · obtain ⟨-, -, -, hvalid, hdirty, hwords⟩ := LaneCache.create_ok (hcaches k)
    rw [hp]
    refine ⟨LaneCache.fits_create (hcaches k), fun _ j hj => hwords j hj, fun _ _ _ => rfl,
      fun hk => ?_, fun _ => hdirty⟩
    rw [hvalid]
    simp [hk]
  · have hzeros : ∀ n : Nat, (v.lane i).CarriesAll (replicate n 0) (replicate n 0) := by
      intro n
      refine Lane.CarriesAll.of_getElem? rfl fun j hj => ?_
      rw [size_replicate] at hj
      exact ⟨0, 0, by simp [hj], by simp [hj], Lane.Carries.zero⟩
    cases q with
    | state | input | output => exact hzeros _
    | inputMap | outputMap => rfl

end Packed

namespace Rig

variable {r r1 : Rig} {handle : Handle}

def cpuSlot (n : Nat) (x : Cpu) : Slot Rig Cpu :=
  entry (·.cpus) (fun r xs => { r with cpus := xs }) n x

def packSlot (n : Nat) (y : Packed) : Slot Rig Packed :=
  entry (·.packs) (fun r xs => { r with packs := xs }) n y

def HasCpu (n : Nat) (r : Rig) : Prop := n < r.cpus.size

/-- The rigs in which two indices stand for a simulator and a packed one. -/
def HasPacked (n m : Nat) (r : Rig) : Prop := n < r.cpus.size ∧ m < r.packs.size

theorem cpuSlot_lawful (n : Nat) (x : Cpu) : (cpuSlot n x).Lawful (HasCpu n) := by
  intro r y hr
  have hn : n < r.cpus.size := hr
  refine ⟨by simpa [HasCpu, cpuSlot, entry] using hn, ?_⟩
  simp [cpuSlot, entry, getD_eq_getD_getElem?, hn]

theorem cpuSlot_get_eq {r1 r2 : Rig} (h : r2.cpus = r1.cpus) (n : Nat) (x : Cpu) :
    (cpuSlot n x).get r2 = (cpuSlot n x).get r1 := by
  simp only [cpuSlot, entry, h]

theorem packSlot_lawful (m : Nat) (y : Packed) :
    (packSlot m y).Lawful fun r => m < r.packs.size := by
  intro r z hr
  refine ⟨by simpa [packSlot, entry] using hr, ?_⟩
  simp [packSlot, entry, getD_eq_getD_getElem?, hr]

theorem cpuSlot_apart (n m : Nat) (x : Cpu) (y : Packed) :
    (cpuSlot n x).Apart (HasPacked n m) (packSlot m y) := by
  refine ⟨fun r z hr => ?_, fun r z hr => ?_, fun _ _ _ => rfl, fun _ _ _ => rfl⟩
  · obtain ⟨hcpu, hget⟩ := cpuSlot_lawful n x r z hr.1
    exact ⟨⟨hcpu, hr.2⟩, hget⟩
  · obtain ⟨hpack, hget⟩ := packSlot_lawful m y r z hr.2
    exact ⟨⟨hr.1, hpack⟩, hget⟩

theorem gives_add {α : Type} (get : Rig → Array α) (set : Rig → Array α → Rig) (x : α) (r : Rig) :
    (add get set x).Gives r (entry get set (get r).size x) (set r ((get r).push x)) := rfl

theorem gives_log (l : Logger) (record : Log.Record) (r : Rig) :
    ∃ r1, (l.log journalSlot record).Gives r () r1 ∧ r1.cpus = r.cpus :=
  l.gives_log journalSlot record r rfl fun _ => rfl

theorem gives_newCpu {x : Cpu} (hx : Cpu.create a config o = .ok x) (r : Rig) :
    ∃ r1, (newCpu a config o).Gives r
        ⟨x.simulator (cpuSlot r.cpus.size x) journalSlot, .cpu (cpuSlot r.cpus.size x)⟩ r1 ∧
      r1.cpus = r.cpus.push x := by
  obtain ⟨r1, hlog, hcpus⟩ := gives_log o.logger x.ready { r with cpus := r.cpus.push x }
  have hadd := gives_add (·.cpus) (fun r xs => { r with cpus := xs }) x r
  exact ⟨r1, (Act.gives_ofExcept hx r).bind (hadd.bind (hlog.bind (Act.gives_pure _ _))), hcpus⟩

theorem newCpu_pushes (h : (newCpu a config o).Gives r handle r1) :
    ∃ x, Cpu.create a config o = .ok x ∧
      handle.sim = x.simulator (cpuSlot r.cpus.size x) journalSlot ∧ r1.cpus = r.cpus.push x := by
  obtain ⟨x, _, hcreate, -⟩ := h.of_bind
  obtain ⟨hx, -⟩ := hcreate.of_ofExcept
  obtain ⟨r2, hnew, hcpus⟩ := gives_newCpu hx r
  obtain ⟨rfl, rfl⟩ := h.unique hnew
  exact ⟨x, hx, rfl, hcpus⟩

theorem newCpu_gives (h : (newCpu a config o).Gives r handle r1) :
    ∃ x, Cpu.create a config o = .ok x ∧
      handle.sim = x.simulator (cpuSlot r.cpus.size x) journalSlot ∧
      r.cpus.size < r1.cpus.size ∧ (cpuSlot r.cpus.size x).get r1 = x := by
  obtain ⟨x, hx, hsim, hcpus⟩ := newCpu_pushes h
  refine ⟨x, hx, hsim, by simp [hcpus], ?_⟩
  simp [cpuSlot, entry, hcpus, getD_eq_getD_getElem?]

theorem newPacked_gives {sim : Simulator Rig} {bits : Int64}
    (h : (newPacked sim bits).Gives r handle r1) :
    ∃ y, Packed.create sim bits = .ok y ∧
      handle.sim = Packed.simulator sim y.bits (packSlot r.packs.size y) ∧
      r1.cpus = r.cpus ∧ r.packs.size < r1.packs.size ∧ (packSlot r.packs.size y).get r1 = y := by
  obtain ⟨y, _, hcreate, hadded⟩ := h.of_bind
  obtain ⟨hy, rfl⟩ := hcreate.of_ofExcept
  obtain ⟨s, r2, hadd, hreturn⟩ := hadded.of_bind
  obtain ⟨rfl, rfl⟩ := hadd.unique (gives_add _ _ y r)
  obtain ⟨rfl, rfl⟩ := hreturn.unique (Act.gives_pure _ _)
  refine ⟨y, hy, rfl, rfl, by simp, ?_⟩
  simp [packSlot, entry, getD_eq_getD_getElem?]

end Rig

end TiledAutomata
