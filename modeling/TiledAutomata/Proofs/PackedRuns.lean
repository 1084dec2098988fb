import TiledAutomata.Proofs.Creation
import TiledAutomata.Proofs.Refusals

/-!
# Packing is faithful

A packed simulator over a processor simulator and a second processor simulator, which has
the logical instances for its own, are created and then called in the same way. Every call
is refused by both or answered by both, and the words read from the packed simulator are
the low bits of the words read from the other one.
-/

namespace TiledAutomata

/-- Both calls failed, or what one returned is narrower than what the other did. -/
def Agrees (bits reads : Nat) : Except Error Words → Except Error Words → Prop
  | .ok r, .ok r' => Narrows bits reads r r'
  | .error _, .error _ => True
  | _, _ => False

namespace Simulator

variable {σ τ : Type} {perform : Call → Act σ Words} {perform' : Call → Act τ Words} {w u : σ}
  {w' u' : τ} {k : Call} {ks : List Call}

theorem trace_gives {r : Words} (h : (perform k).Gives w r u) :
    trace perform (k :: ks) w = .ok r :: trace perform ks u := by
  unfold Act.Gives at h
  rw [trace, h]

theorem trace_stops (h : (perform k).Stops w u) (ks : List Call) :
    ∃ e, trace perform (k :: ks) w = .error e :: trace perform ks u := by
  obtain ⟨e, he⟩ := h
  exact ⟨e, by rw [trace, he]⟩

theorem trace_agrees {R : σ → τ → Prop} {bits : Nat} {reads : Call → Nat} {P : Call → Prop}
    (hstep : ∀ w w' k, R w w' → P k →
      (∃ r r' u u', (perform k).Gives w r u ∧ (perform' k).Gives w' r' u' ∧
        Narrows bits (reads k) r r' ∧ R u u') ∨
      ∃ u u', (perform k).Stops w u ∧ (perform' k).Stops w' u' ∧ R u u')
    (h : R w w') (hks : ∀ k ∈ ks, P k) (n : Nat) (hn : ks[n]? = some k) :
    ∃ x y, (trace perform ks w)[n]? = some x ∧ (trace perform' ks w')[n]? = some y ∧
      Agrees bits (reads k) x y := by
  induction ks generalizing w w' n with
  | nil => simp at hn
  | cons k1 ks ih =>
    have hrest : ∀ k ∈ ks, P k := fun k hk => hks k (by simp [hk])
    rcases hstep w w' k1 h (hks k1 (by simp)) with ⟨r, r', u, u', hr, hr', hnarrow, hu⟩ |
      ⟨u, u', hstop, hstop', hu⟩
    · rw [trace_gives hr, trace_gives hr']
      cases n with
      | zero =>
        cases hn
        exact ⟨_, _, rfl, rfl, hnarrow⟩
      | succ n => exact ih hu hrest n hn
    · obtain ⟨e, he⟩ := trace_stops hstop ks
      obtain ⟨e', he'⟩ := trace_stops hstop' ks
      rw [he, he']
      cases n with
      | zero => exact ⟨_, _, rfl, rfl, trivial⟩
      | succ n => exact ih hu hrest n hn

end Simulator

theorem Config.one_le_max (n : Int64) : 1 ≤ max n 1 := by
  change 1 ≤ if n ≤ 1 then 1 else n
  split
  · exact Int64.le_refl 1
  · rename_i hn
    exact Int64.le_of_lt (Int64.not_le.mp hn)

theorem Config.max_of_one_le {n : Int64} (h : 1 ≤ n) : max n 1 = n := by
  change (if n ≤ 1 then 1 else n) = n
  split
  · rename_i hn
    exact Int64.le_antisymm h hn
  · rfl

namespace Packed

variable {σ τ : Type} {W : σ → Prop} {W' : τ → Prop} {c : Slot σ Cpu} {p : Slot σ Packed}
  {c' : Slot τ Cpu} {a : Automaton} {s : Shape} {v : Split} {init init' : Cpu}
  {journal : Slot σ Journal} {journal' : Slot τ Journal} {w : σ} {w' : τ} {k : Call}

theorem perform_step {d : Descriptor} {wiring : Wiring} {cs : List Program.Compiled}
    (hb : a.Built d wiring cs) (hbits : a.program.bitwise = true) (hcp : c.Apart W p)
    (hc' : c'.Lawful W') (hinit : init.buffers.shape = s)
    (hcount : (logical s v.bits).size.toInt.toNat = s.size.toInt.toNat * v.lanes)
    (h : ∃ f, Shows W c p a s v f w ∧ Cpu.Seen W' c' a (logical s v.bits) f w')
    (hk : k.Exact (logical s v.bits)) :
    (∃ r r' u u', ((simulator (Cpu.simulator init c journal) v.bits p).perform k).Gives w r u ∧
      ((Cpu.simulator init' c' journal').performShared v.lanes k).Gives w' r' u' ∧
      Narrows v.bits (k.reads (logical s v.bits)) r r' ∧
      ∃ f, Shows W c p a s v f u ∧ Cpu.Seen W' c' a (logical s v.bits) f u') ∨
    ∃ u u', ((simulator (Cpu.simulator init c journal) v.bits p).perform k).Stops w u ∧
      ((Cpu.simulator init' c' journal').performShared v.lanes k).Stops w' u' ∧
      ∃ f, Shows W c p a s v f u ∧ Cpu.Seen W' c' a (logical s v.bits) f u' := by
  obtain ⟨f, hshows, hseen⟩ := h
  have hpacked := perform_answers init journal hb hbits hcp hinit hcount
    hseen.holds.buffers.countable hshows hk
  have hdirect := Cpu.performShared_follows init' journal' hb hc' v.lanes_pos
    (hcount ▸ Nat.dvd_mul_left _ _) hseen hk
  rcases hreply : f.reply a (logical s v.bits) v.lanes k with _ | ⟨f', r'⟩
  · rw [hreply] at hpacked hdirect
    obtain ⟨u, hstops, hu⟩ := hpacked
    obtain ⟨e, hrefused, -⟩ := hdirect
    exact Or.inr ⟨u, w', hstops, ⟨e, hrefused⟩, f, hu, hseen⟩
  · rw [hreply] at hpacked hdirect
    obtain ⟨r, u, hgives, hnarrow, hu⟩ := hpacked
    obtain ⟨u', hgives', hu'⟩ := hdirect
    exact Or.inl ⟨r, r', u, u', hgives, hgives', hnarrow, f', hu, hu'⟩

end Packed

theorem Cpu.shapeFor_logical (a : Automaton) (config : Config) {bits : Nat}
    (h : 0 < (Packed.logical (shapeFor a config) bits).size.toInt) :
    shapeFor a { config with instances := (shapeFor a config).size * Packed.lanes bits } =
      Packed.logical (shapeFor a config) bits := by
  have hone : 1 ≤ (shapeFor a config).size * Packed.lanes bits := Int64.le_iff_toInt_le.mpr h
  simp only [shapeFor, Config.effective, Packed.logical] at hone ⊢
  rw [Config.max_of_one_le hone]

theorem Rig.created_packed {a : Automaton} {config : Config} {bits : Int64} {o o' : Options}
    (ho : 0 < o.processors) (ho' : 0 < o'.processors) {r r1 r2 r' r3 : Rig}
    {wrapped packed direct : Handle}
    (hwrapped : (newCpu (some a) config o).Gives r wrapped r1)
    (hpacked : (newPacked wrapped.sim bits).Gives r1 packed r2)
    (hdirect : (newCpu (some a)
      { config with instances := wrapped.sim.size * (32 / bits) } o').Gives r' direct r3) :
    ∃ (v : Split) (s : Shape) (n m n' : Nat) (x x' : Cpu) (y : Packed),
      (bits.toInt.toNat = v.bits ∧ (32 / bits).toInt.toNat = v.lanes) ∧
      packed.sim =
        Packed.simulator (x.simulator (cpuSlot n x) journalSlot) v.bits (packSlot m y) ∧
      direct.sim = x'.simulator (cpuSlot n' x') journalSlot ∧
      x.buffers.shape = s ∧ x'.buffers.shape = Packed.logical s v.bits ∧
      (Packed.logical s v.bits).size.toInt.toNat = s.size.toInt.toNat * v.lanes ∧
      ∃ f, Packed.Shows (HasPacked n m) (cpuSlot n x) (packSlot m y) a s v f r2 ∧
        Cpu.Seen (HasCpu n') (cpuSlot n' x') a (Packed.logical s v.bits) f r3 := by
  obtain ⟨x, hx, hsim, hn, hget⟩ := newCpu_gives hwrapped
  obtain ⟨y, hy, hsimy, hcpus, hm, hgety⟩ := newPacked_gives hpacked
  obtain ⟨x', hx', hsim', hn', hget'⟩ := newCpu_gives hdirect
  obtain ⟨v, hbits, hbitsy, hlanes, hcaches⟩ := Packed.create_ok hy
  have hshape : wrapped.sim.shape = Cpu.shapeFor a config := by
    rw [hsim]
    exact Cpu.create_shape hx
  rw [hshape] at hcaches
  have hpos : 0 < (Cpu.shapeFor a config).size.toInt :=
    Int64.le_iff_toInt_le.mp (Config.one_le_max config.instances)
  obtain ⟨hcountable, hcountable', hsize⟩ :=
    Packed.countable_of_caches (v := v) hpos fun k => ⟨_, _, hcaches k⟩
  have hpos' : 0 < (Packed.logical (Cpu.shapeFor a config) v.bits).size.toInt := by
    rw [hsize]
    exact Int.mul_pos hpos (Int.natCast_pos.mpr v.lanes_pos)
  have hwrappedSize : wrapped.sim.size = (Cpu.shapeFor a config).size :=
    congrArg Shape.size hshape
  rw [hwrappedSize, hlanes] at hx'
  have hdirectShape := Cpu.shapeFor_logical a config hpos'
  have hholds := Cpu.create_holds hx ho hcountable
  have hholds' := Cpu.create_holds hx' ho' (hdirectShape.symm ▸ hcountable')
  rw [hdirectShape] at hholds'
  refine ⟨v, Cpu.shapeFor a config, r.cpus.size, r1.packs.size, r'.cpus.size, x, x', y,
    ⟨hbits, ?_⟩, ?_, hsim', Cpu.create_shape hx, hholds'.buffers.shape, ?_, Fleet.zeros _,
    Packed.shows_zeros ⟨?_, hm⟩ ?_ hgety hcaches, hn', ?_⟩
  · rw [hlanes, v.toInt_lanes, Int.toNat_natCast]
  · rw [hsimy, hbitsy, hsim]
  · rw [hsize, Int.toNat_mul (by omega) (by omega), Int.toNat_natCast]
  · rw [hcpus]
    exact hn
  · rw [cpuSlot_get_eq hcpus, hget]
    exact hholds
  · rw [hget']
    exact hholds'

/-- Bit packing is faithful for bitwise programs: a packed simulator behaves as a simulator of all
logical instances in which a map that is set reaches the instances of its slot, and shows the low
bits of their words. Both run on machines with a processor at least. -/
theorem packing_faithful {d : Descriptor} {a : Automaton}
    (ha : Automaton.compile (some d) = .ok a) (hbitwise : a.program.bitwise = true)
    {config : Config} {bits : Int64} {o o' : Options} (ho : 0 < o.processors)
    (ho' : 0 < o'.processors) {r r₁ r₂ r' r₃ : Rig} {wrapped packed direct : Rig.Handle}
    (hwrapped : (Rig.newCpu (some a) config o).Gives r wrapped r₁)
    (hpacked : (Rig.newPacked wrapped.sim bits).Gives r₁ packed r₂)
    (hdirect : (Rig.newCpu (some a)
      { config with instances := wrapped.sim.size * (32 / bits) } o').Gives r' direct r₃) :
    packed.sim.shape = direct.sim.shape ∧
    ∀ calls : List Call, (∀ k ∈ calls, k.Exact packed.sim.shape) →
      ∀ (n : Nat) (k : Call), calls[n]? = some k →
        ∃ x y, (Simulator.trace packed.sim.perform calls r₂)[n]? = some x ∧
          (Simulator.trace (direct.sim.performShared (32 / bits).toInt.toNat) calls r₃)[n]? =
            some y ∧
          Agrees bits.toInt.toNat (k.reads packed.sim.shape) x y := by
  obtain ⟨w, cs, hb⟩ := Automaton.compile_ok ha
  obtain ⟨v, s, n, m, n', x, x', y, ⟨hbits, hlanes⟩, hsim, hsim', hshape, hshape', hcount,
    hstart⟩ := Rig.created_packed ho ho' hwrapped hpacked hdirect
  have hpackedShape : packed.sim.shape = Packed.logical s v.bits := by
    rw [hsim, ← hshape]
    rfl
  have hdirectShape : direct.sim.shape = Packed.logical s v.bits := by
    rw [hsim', ← hshape']
    rfl
  refine ⟨hpackedShape.trans hdirectShape.symm, fun calls hcalls i k hi => ?_⟩
  rw [hpackedShape] at hcalls ⊢
  rw [hsim, hsim', hbits, hlanes]
  exact Simulator.trace_agrees (fun _ _ _ hrel hk => Packed.perform_step hb hbitwise
    (Rig.cpuSlot_apart n m x y) (Rig.cpuSlot_lawful n' x') hshape hcount hrel hk) hstart hcalls i hi

def Call.sample : List Call :=
  [.setStates ((Array.range 24).map fun j => Int32.ofNat (1000 * j)), .setInput 1 #[-1],
    .setInputMap 1 #[5], .setOutputMap 3 #[4], .update, .outputs (Array.replicate 4 0),
    .states (Array.replicate 24 0)]

/-- Four instances in the bytes of one, which are all reached by a map that is set for one. -/
theorem packing_faithful_relay : ∃ (a : Automaton) (wrapped packed direct : Rig.Handle)
    (r₁ r₂ r₃ : Rig) (ws vs : Words),
    Automaton.compile (some Descriptor.relay) = .ok a ∧ a.program.bitwise = true ∧
    (Rig.newCpu (some a) {} {}).Gives {} wrapped r₁ ∧
    (Rig.newPacked wrapped.sim 8).Gives r₁ packed r₂ ∧
    (Rig.newCpu (some a) { instances := wrapped.sim.size * (32 / 8) } {}).Gives {} direct r₃ ∧
    (∀ k ∈ Call.sample, k.Exact packed.sim.shape) ∧
    (Simulator.trace packed.sim.perform Call.sample r₂)[6]? = some (.ok ws) ∧
    (Simulator.trace (direct.sim.performShared 4) Call.sample r₃)[6]? = some (.ok vs) ∧
    Narrows 8 ((Call.states (Array.replicate 24 0)).reads packed.sim.shape) ws vs := by
  obtain ⟨a, ha, heval⟩ := Outcome.exists_ok (Automaton.compile (some Descriptor.relay))
    (fun a => a.program.bitwise &&
      (Rig.newCpu (some a) {} {}).givesSuch {} fun wrapped r₁ =>
        (Rig.newPacked wrapped.sim 8).givesSuch r₁ fun packed r₂ =>
          (Rig.newCpu (some a) { instances := wrapped.sim.size * (32 / 8) } {}).givesSuch {}
            fun _ _ => (Call.sample.all fun k => decide (k.Exact packed.sim.shape)) &&
              (Simulator.trace packed.sim.perform Call.sample r₂)[6]?.any
                fun x => x.toOption.isSome)
    (by decide +kernel)
  obtain ⟨hbitwise, hmade⟩ := Bool.and_eq_true_iff.mp heval
  obtain ⟨wrapped, r₁, hwrapped, hmade₁⟩ := Act.exists_gives hmade
  obtain ⟨packed, r₂, hpacked, hmade₂⟩ := Act.exists_gives hmade₁
  obtain ⟨direct, r₃, hdirect, hmade₃⟩ := Act.exists_gives hmade₂
  obtain ⟨hexact, hread⟩ := Bool.and_eq_true_iff.mp hmade₃
  have hcalls : ∀ k ∈ Call.sample, k.Exact packed.sim.shape := by simpa using hexact
  obtain ⟨-, htraces⟩ :=
    packing_faithful ha hbitwise (by decide) (by decide) hwrapped hpacked hdirect
  obtain ⟨x, y, hx, hy, hagrees⟩ := htraces Call.sample hcalls 6 _ rfl
  rw [hx] at hread
  cases x with
  | error e => cases hread
  | ok ws =>
    cases y with
    | error e => exact absurd hagrees id
    | ok vs =>
      exact ⟨a, wrapped, packed, direct, r₁, r₂, r₃, ws, vs, ha, hbitwise, hwrapped, hpacked,
        hdirect, hcalls, hx, hy, hagrees⟩

end TiledAutomata
