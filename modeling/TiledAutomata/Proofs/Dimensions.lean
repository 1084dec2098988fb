import TiledAutomata.Emit.Kernel
import TiledAutomata.Proofs.Addressing
import TiledAutomata.Proofs.Program

/-!
# The sizes of a compiled automaton

A grid is bounded from below alone, and its units and their words are counted in machine
integers. The counts are those of the grid where all words of the state can be counted. Beyond
that they wrap, and where the units wrap to none there is no work group to share them.
-/

namespace TiledAutomata

def Descriptor.area (d : Descriptor) : Int := d.width.toInt * d.height.toInt

namespace Automaton

variable {d : Descriptor} {a : Automaton} {w : Wiring} {cs : List Program.Compiled}

section

variable (hb : a.Built d w cs)

include hb

theorem Built.layout_pos : 0 < a.layout.size := by
  obtain ⟨links, hw⟩ := Wiring.resolve_ok hb.wired
  have hsites : 0 < w.sites.length := by
    rw [hw.tiled.length]
    exact Nat.mul_pos hw.rows hw.cols
  have hs := List.getElem_mem hsites
  obtain ⟨o, ho⟩ := List.exists_mem_of_ne_nil _ (hw.tiled.outputs _ hs)
  have hwiring : a.program.layout.wiring = w := Layout.wiring_of_build hb.laidOut
  have hvar : Layout.outputVar w.sites[0].id o.id ∈ Program.outputVars a.program.layout := by
    rw [Program.outputVars, hwiring]
    exact List.mem_flatMap.mpr ⟨_, hs, List.mem_map.mpr ⟨o, ho, rfl⟩⟩
  exact List.length_pos_of_mem (Layout.outputVars_sub hb.laidOut hvar)

theorem Built.area_pos : 0 < d.area :=
  Int.mul_pos hb.grid_pos.1 hb.grid_pos.2

theorem Built.toInt_unitCount : a.unitCount.toInt = d.area.bmod (2 ^ 64) := by
  rw [unitCount, Program.units, hb.program.width, hb.program.height, Int64.toInt_mul]
  rfl

theorem Built.unitCount_exact (h : d.area < 2 ^ 63) : a.unitCount.toInt = d.area := by
  have hpos := hb.area_pos
  rw [hb.toInt_unitCount, Int.bmod_eq_of_le] <;> omega

theorem Built.sizes_exact (h : a.layout.size * d.area < 2 ^ 63) :
    a.unitCount.toInt = d.area ∧ a.unitStateSize.toInt = a.layout.size ∧
      a.stateSize.toInt = a.layout.size * d.area := by
  have harea := hb.area_pos
  have hslots : (0 : Int) < a.layout.size := by exact_mod_cast hb.layout_pos
  have hunits := hb.unitCount_exact (by nlinarith)
  have hfew : (a.layout.size : Int) < 2 ^ 63 := by nlinarith
  have hslot : a.unitStateSize.toInt = a.layout.size :=
    Int64.toInt_ofNat_of_lt (show a.layout.size < 2 ^ 63 by omega)
  have hwords : (0 : Int) < a.layout.size * d.area := Int.mul_pos hslots harea
  refine ⟨hunits, hslot, ?_⟩
  rw [← hunits, ← hslot] at hwords h ⊢
  have hlow : -2 ^ 63 ≤ a.unitStateSize.toInt * a.unitCount.toInt := by omega
  exact Int64.toInt_mul_eq hlow h

theorem Built.stateSize_words (h : a.layout.size * d.area < 2 ^ 63) :
    a.stateSize.toInt = (a.plan.slots * a.plan.units : Nat) := by
  obtain ⟨hunits, -, hstate⟩ := hb.sizes_exact h
  have hslots : a.plan.slots = a.layout.size := hb.plan.slots
  have hcount : a.plan.units = a.unitCount.toInt.toNat := hb.plan.units
  rw [hstate, hslots, hcount, hunits, Nat.cast_mul, Int.toNat_of_nonneg hb.area_pos.le]

end

theorem toInt_workgroup (p : Program) : p.workgroup.toInt = min p.units.toInt 64 := by
  have hsixty : (64 : Int64).toInt = 64 := rfl
  rw [Program.workgroup, Std.min_eq_if]
  split <;> rename_i hle <;> rw [Int64.le_iff_toInt_le] at hle <;> omega

/-- A kernel cannot be written where the units wrap to none. -/
theorem Built.source_ok (hb : a.Built d w cs) :
    (∃ text, Emit.Kernel.source a.program = .ok text) ↔ ¬(2 ^ 64 : Int) ∣ d.area := by
  have hgroup : a.program.workgroup = 0 ↔ (2 ^ 64 : Int) ∣ d.area := by
    have hunits : a.program.units.toInt = d.area.bmod (2 ^ 64) := hb.toInt_unitCount
    have hdvd : (2 ^ 64 : Int) ∣ d.area ↔ d.area.bmod (2 ^ 64) = 0 := Int.dvd_iff_bmod_eq_zero
    have hzero : (0 : Int64).toInt = 0 := rfl
    rw [hdvd, ← Int64.toInt_inj, toInt_workgroup, hunits, hzero]
    omega
  rw [← hgroup, Emit.Kernel.source]
  split <;> simp_all

/-- What a grid of any size compiles to. The sizes are those of the grid exactly where the words of
its state can be counted. They are positive then, a work group has one to sixty-four invocations,
and the kernel can be written. It cannot be written where the count of units wraps to zero. -/
theorem compiled_sizes (h : compile (some d) = .ok a) :
    0 < d.area ∧ 0 < a.layout.size ∧
    ((a.unitCount.toInt = d.area ∧ a.unitStateSize.toInt = a.layout.size ∧
      a.stateSize.toInt = a.layout.size * d.area) ↔ a.layout.size * d.area < 2 ^ 63) ∧
    (a.layout.size * d.area < 2 ^ 63 → 0 < a.unitCount.toInt ∧ 0 < a.stateSize.toInt ∧
      1 ≤ a.program.workgroup.toInt ∧ a.program.workgroup.toInt ≤ 64 ∧
      ∃ text, Emit.Kernel.source a.program = .ok text) ∧
    a.unitCount.toInt = d.area.bmod (2 ^ 64) ∧
    ((∃ text, Emit.Kernel.source a.program = .ok text) ↔ ¬(2 ^ 64 : Int) ∣ d.area) := by
  obtain ⟨w, cs, hb⟩ := compile_ok h
  have harea := hb.area_pos
  have hslots : (0 : Int) < a.layout.size := by exact_mod_cast hb.layout_pos
  refine ⟨harea, hb.layout_pos, ⟨fun ⟨_, _, hstate⟩ => ?_, hb.sizes_exact⟩, fun hfew => ?_,
    hb.toInt_unitCount, hb.source_ok⟩
  · exact hstate ▸ a.stateSize.toInt_lt
  · obtain ⟨hunits, -, hstate⟩ := hb.sizes_exact hfew
    have hlt : d.area < 2 ^ 63 := by nlinarith
    have hgroup := toInt_workgroup a.program
    have hunits' : a.program.units.toInt = d.area := hunits
    rw [hunits'] at hgroup
    refine ⟨hunits ▸ harea, hstate ▸ Int.mul_pos hslots harea, by omega, by omega,
      hb.source_ok.mpr fun hdvd => ?_⟩
    have hle := Int.le_of_dvd harea hdvd
    omega

end Automaton

def Descriptor.boundless : Descriptor :=
  { Descriptor.relay with width := 4294967296, height := 4294967296 }

/-- The units of a grid that is too large are counted as none, and it has no kernel. -/
theorem Automaton.compiled_sizes_boundless :
    ∃ a, compile (some .boundless) = .ok a ∧ a.unitCount = 0 ∧ a.stateSize = 0 ∧
      a.program.workgroup = 0 ∧ ¬∃ text, Emit.Kernel.source a.program = .ok text := by
  obtain ⟨a, ha, heval⟩ := Outcome.exists_ok (compile (some .boundless))
    (fun a => decide (a.unitCount = 0 ∧ a.stateSize = 0 ∧ a.program.workgroup = 0))
    (by decide +kernel)
  obtain ⟨hunits, hstate, hgroup⟩ := of_decide_eq_true heval
  obtain ⟨-, -, -, -, -, hsource⟩ := compiled_sizes ha
  exact ⟨a, ha, hunits, hstate, hgroup, fun htext => hsource.mp htext (by decide)⟩

end TiledAutomata
