import Mathlib.Logic.Equiv.Basic
import TiledAutomata.Proofs.Torus

/-!
# Connections lead both ways

The slots and the outputs of cells are the ends of connections. Where cells have an output
for every slot, the slot with the number of the output that is read reads back, across
the edges of units and of the grid too, under both ways of addressing.

Three tables have to be inverse to themselves for this: the links of a strategy, the step
over an edge of a unit and the step between units. A link up or down by parity needs an
even number of rows. How large a grid is, is an input; where machine arithmetic of
neighbors overflows, connections lead one way.
-/

open List

namespace TiledAutomata

variable {l : Link}

/-- The slot that answers a link stands at the number of the link's output. Links by parity are
opposite where the parity differs. -/
theorem Link.opposite {strategy : String} {links : List Link}
    (h : ofStrategy? strategy = some links) {i : Nat} (hl : links[i]? = some l) :
    ∃ m, links[l.output]? = some m ∧ m.output = i ∧ ∀ r c r' c',
      (strategy = "3" → (l.step r c).2 = 0 → (r' + c') % 2 ≠ (r + c) % 2) →
      m.step r' c' = (-(l.step r c).1, -(l.step r c).2) := by
  unfold ofStrategy? at h
  split at h <;> cases h
  · rcases i with _ | _ | _ | i <;> cases hl
    · exact ⟨_, rfl, rfl, fun _ _ _ _ _ => rfl⟩
    · refine ⟨_, rfl, rfl, fun r c r' c' hparity => ?_⟩
      have hodd := hparity rfl (by simp only [alternating]; split <;> rfl)
      simp only [alternating]
      by_cases hup : c % 2 = r % 2
      · rw [if_pos hup, if_neg (by omega)]
        rfl
      · rw [if_neg hup, if_pos (by omega)]
        rfl
    · exact ⟨_, rfl, rfl, fun _ _ _ _ _ => rfl⟩
  · rcases i with _ | _ | _ | _ | i <;> cases hl <;> exact ⟨_, rfl, rfl, fun _ _ _ _ _ => rfl⟩
  · rcases i with _ | _ | _ | _ | _ | _ | _ | _ | i <;> cases hl <;>
      exact ⟨_, rfl, rfl, fun _ _ _ _ _ => rfl⟩

namespace Wiring

theorem wrap_back {x n : Nat} {step : Int} (hx : x < n) (hlo : -1 ≤ step) (hhi : step ≤ 1) :
    wrap ((wrap (x + step) n).2 + -step) n = (-(wrap (x + step) n).1, x) := by
  obtain ⟨hdiv, hmod⟩ := wrap_eq (i := x + step) (n := n) (by omega) (by omega) (by omega)
  have hplace := Int.mul_ediv_add_emod (x + step) n
  rw [hdiv, hmod] at hplace
  have hlt := wrap_lt (i := x + step) (n := n) (by omega) (by omega) (by omega)
  have hstep := wrap_step (x + step) n
  generalize wrap (x + step) n = y at *
  unfold wrap
  rcases hstep with h | h | h <;> rw [h] at hplace ⊢
  · rw [if_neg (by omega), if_pos (by omega)]
    simp only [Prod.mk.injEq]
    omega
  · rw [if_neg (by omega), if_neg (by omega)]
    simp only [Prod.mk.injEq]
    omega
  · rw [if_pos (by omega)]
    simp only [Prod.mk.injEq, true_and]
    omega

/-- A step on a side of even length changes the parity, at an edge too. -/
theorem wrap_odd {x n : Nat} {step : Int} (hx : x < n) (hn : n % 2 = 0)
    (hstep : step = -1 ∨ step = 1) : (wrap (x + step) n).2 % 2 ≠ x % 2 := by
  obtain ⟨hdiv, hmod⟩ := wrap_eq (i := x + step) (n := n) (by omega) (by omega) (by omega)
  have hplace := Int.mul_ediv_add_emod (x + step) n
  rw [hdiv, hmod] at hplace
  rcases wrap_step (x + step) n with h | h | h <;> rw [h] at hplace <;> omega

theorem alternating_step {strategy : String} {links : List Link}
    (h : Link.ofStrategy? strategy = some links) (hl : l ∈ links) (hthree : strategy = "3")
    {r c : Nat} (hc : (l.step r c).2 = 0) : (l.step r c).1 = -1 ∨ (l.step r c).1 = 1 := by
  subst hthree
  cases h
  simp only [mem_cons, not_mem_nil, or_false] at hl
  rcases hl with rfl | rfl | rfl
  · cases hc
  · simp only [Link.alternating]
    split <;> simp
  · cases hc

section Aim

variable {rows cols : Nat} {sites : List Site} {strategy : String} {links : List Link}

theorem aim_back (ht : Tiled rows cols sites) (hs : Link.ofStrategy? strategy = some links)
    (heven : strategy = "3" → rows % 2 = 0) {k : Nat} {s : Site} (hk : sites[k]? = some s)
    {i : Nat} (hl : links[i]? = some l) :
    let e := aim rows cols sites s l
    ∃ t m, sites[e.source]? = some t ∧ links[l.output]? = some m ∧ m.output = i ∧
      aim rows cols sites t m = ⟨-e.relRow, -e.relCol, k, designated s i⟩ := by
  intro e
  have hmem : l ∈ links := mem_of_getElem? hl
  have hsource : e.source < sites.length := aim_lt ht hs hmem (mem_of_getElem? hk)
  obtain ⟨t, hget⟩ : ∃ t, sites[e.source]? = some t := ⟨_, List.getElem?_eq_getElem hsource⟩
  obtain ⟨m, hm, hmi, hstep⟩ := Link.opposite hs hl
  obtain ⟨hr, hc, hplace⟩ := ht.place_lt hk
  obtain ⟨⟨hr0, hr1⟩, hc0, hc1⟩ := step_bounds hs hmem s.row s.col
  have hrow := wrap_back hr hr0 hr1
  have hcol := wrap_back hc hc0 hc1
  have hcolLt := wrap_lt (i := s.col + (l.step s.row s.col).2) (n := cols) (by omega) (by omega)
    (by omega)
  -- the place of the other cell is its number in rows of the unit
  obtain ⟨htrow, htcol⟩ := ht.place e.source t hget
  have hsplit : e.source / cols = (wrap (s.row + (l.step s.row s.col).1) rows).2 ∧
      e.source % cols = (wrap (s.col + (l.step s.row s.col).2) cols).2 :=
    (Nat.div_mod_unique (by omega)).mpr ⟨by rw [mul_comm, add_comm]; rfl, hcolLt⟩
  rw [hsplit.1] at htrow
  rw [hsplit.2] at htcol
  have hback : m.step t.row t.col = (-(l.step s.row s.col).1, -(l.step s.row s.col).2) := by
    apply hstep
    intro hthree hzero
    have hodd := wrap_odd hr (heven hthree) (alternating_step hs hmem hthree hzero)
    have hsame : t.col = s.col := by
      rw [htcol, hzero, add_zero, wrap, if_neg (by omega), if_neg (by omega)]
      rfl
    omega
  refine ⟨t, m, hget, hm, hmi, ?_⟩
  unfold aim
  rw [hback, htrow, htcol, hrow, hcol]
  simp only [← hplace, hmi, getD_eq_getElem?_getD, hk, Option.getD_some]
  rfl

end Aim

end Wiring

namespace Program

structure Tiles (p : Program) (d : Descriptor) (w : Wiring) : Prop where
  wiring : p.layout.wiring = w
  width : p.width = d.width
  height : p.height = d.height

/-- An end of a connection: a cell of a unit and, up to the number of its slots, the index of a
slot or of an output there. -/
@[ext] structure Port (p : Program) where
  unit : p.Unit
  cell : Fin p.layout.wiring.sites.length
  index : Fin p.layout.wiring.degree

/-- The slot at one end reads the output at the other, which its link designates. -/
def Reads (p : Program) (a b : p.Port) : Prop :=
  ∃ links l bs x t o, Link.ofStrategy? p.layout.wiring.strategy = some links ∧
    links[a.index.val]? = some l ∧ p.layout.wiring.inputs[a.cell.val]? = some bs ∧
    bs[a.index.val]? = some x ∧ p.read? a.unit.val x = some (b.unit.val, t, o) ∧
    p.layout.wiring.sites[b.cell.val]? = some t ∧
    l.output % t.type.outputList.length = b.index.val ∧
    (t.type.outputList[b.index.val]?).map Output.id = some o

variable {p : Program} {d : Descriptor}

section Neighbors

variable (hw : 0 < p.width.toInt) (hh : 0 < p.height.toInt)
  (hroom : p.addressing.Room p.width p.height)

include hw hh hroom

theorem neighbor?_perm {r c : Int} (hr : -1 ≤ r ∧ r ≤ 1) (hc : -1 ≤ c ∧ c ≤ 1) :
    ∃ σ : Equiv.Perm p.Unit, ∀ u, p.neighbor? u.val r c = some (σ u).val := by
  choose ahead hahead hplace using fun u => neighbor?_unit_place hw hh hroom u hr hc
  choose back hback hplace' using
    fun u => neighbor?_unit_place hw hh hroom u (r := -r) (c := -c) (by omega) (by omega)
  have hleft : ∀ u, back (ahead u) = u := by
    intro u
    apply Subtype.ext
    apply Int64.toInt_inj.mp
    rw [hplace', hplace, Addressing.place_back r c _ hw u.property.1 u.property.2]
  have hright : ∀ u, ahead (back u) = u := by
    intro u
    apply Subtype.ext
    apply Int64.toInt_inj.mp
    have hundo := Addressing.place_back (-r) (-c) p.addressing hw u.property.1 u.property.2
    rw [neg_neg, neg_neg] at hundo
    rw [hplace, hplace', hundo]
  exact ⟨⟨ahead, back, hleft, hright⟩, hahead⟩

end Neighbors

section Ports

variable (hw : 0 < p.width.toInt) (hh : 0 < p.height.toInt)
  (hroom : p.addressing.Room p.width p.height) {links : List Link}
  (hc : Wiring.Wired d p.layout.wiring links)

include hc

theorem slot_of_port (a : p.Port) : ∃ s l bs x, p.layout.wiring.sites[a.cell.val]? = some s ∧
    links[a.index.val]? = some l ∧ p.layout.wiring.inputs[a.cell.val]? = some bs ∧
    bs[a.index.val]? = some x ∧
    Wiring.Binds p.layout.wiring.externals
      (Wiring.aim p.layout.wiring.rows p.layout.wiring.cols p.layout.wiring.sites s l) x := by
  have hs := List.getElem?_eq_getElem a.cell.isLt
  have hcell : a.cell.val < p.layout.wiring.inputs.length := by
    rw [← hc.slots.length_eq]
    exact a.cell.isLt
  have hbs := List.getElem?_eq_getElem hcell
  have hindex : a.index.val < links.length := by
    rw [← hc.degree]
    exact a.index.isLt
  have hl := List.getElem?_eq_getElem hindex
  have hx := List.getElem?_eq_getElem (hc.length (getElem_mem hcell) ▸ hindex)
  exact ⟨_, _, _, _, hs, hl, hbs, hx, hc.binds hs hbs hl hx⟩

include hw hh hroom

theorem reads_iff {a b : p.Port} {s t : Site} {e : External}
    (hs : p.layout.wiring.sites[a.cell.val]? = some s) (hl : links[a.index.val]? = some l)
    (he : Wiring.aim p.layout.wiring.rows p.layout.wiring.cols p.layout.wiring.sites s l = e)
    (hsource : p.layout.wiring.sites[e.source]? = some t) :
    p.Reads a b ↔ b.cell.val = e.source ∧
      b.index.val = l.output % t.type.outputList.length ∧
      b.unit.val.toInt =
        p.addressing.place p.width.toInt p.height.toInt a.unit.val.toInt e.relRow e.relCol := by
  have ht := hc.tiled
  obtain ⟨s', l', bs, x, hs', hl', hbs, hx, hbinds⟩ := slot_of_port hc a
  obtain rfl : s = s' := Option.some.inj (hs.symm.trans hs')
  obtain rfl : l = l' := Option.some.inj (hl.symm.trans hl')
  obtain ⟨hrow, hcol⟩ := (Wiring.aim_real ht hc.strategy (mem_of_getElem? hl)
    (mem_of_getElem? hs)).step
  rw [he] at hrow hcol hbinds
  obtain ⟨v, hread, hplace⟩ := read?_binds hw hh hroom hrow hcol hsource hbinds a.unit
  constructor
  · rintro ⟨links', l', bs', x', t', o, hlinks', hl', hbs', hx', hread', ht', hindex, -⟩
    obtain rfl : links = links' := Option.some.inj (hc.strategy.symm.trans hlinks')
    obtain rfl : l = l' := Option.some.inj (hl.symm.trans hl')
    obtain rfl : bs = bs' := Option.some.inj (hbs.symm.trans hbs')
    obtain rfl : x = x' := Option.some.inj (hx.symm.trans hx')
    obtain ⟨hunit, rfl, rfl⟩ : v.val = b.unit.val ∧ t = t' ∧ e.output = o := by
      simpa using hread.symm.trans hread'
    refine ⟨?_, hindex.symm, hunit ▸ hplace⟩
    rw [(ht.place_lt ht').2.2, ← (ht.place_lt hsource).2.2]
  · rintro ⟨hcell, hindex, hunit⟩
    have hv : v.val = b.unit.val := Int64.toInt_inj.mp (hplace.trans hunit.symm)
    have hout : t.type.outputList ≠ [] := ht.outputs t (mem_of_getElem? hsource)
    have hdesignated : e.output = Wiring.designated t l.output := by
      have hget : p.layout.wiring.sites.getD e.source default = t := by
        rw [getD_eq_getElem?_getD, hsource, Option.getD_some]
      rw [← hget, ← he]
      rfl
    refine ⟨links, l, bs, x, t, e.output, hc.strategy, hl, hbs, hx, hv ▸ hread, hcell ▸ hsource,
      hindex.symm, ?_⟩
    rw [hindex, hdesignated, Wiring.designated_eq hout]

end Ports

end Program

/-- Where cells have an output for every slot, and rows come in pairs if links go up or down by
parity, every slot reads one output, and the slot with the number of that output reads back. An
external cell reads each unit from one other. -/
theorem wiring_duplex {d : Descriptor} {w : Wiring} (hvalid : d.validate = .ok ())
    (h : Wiring.resolve d = .ok w) {p : Program} (hp : p.Tiles d w)
    (hroom : p.addressing.Room d.width d.height)
    (houtputs : ∀ s ∈ w.sites, w.degree ≤ s.type.outputList.length)
    (heven : w.strategy = "3" → w.rows % 2 = 0) :
    (∀ a : p.Port, ∃! b : p.Port, p.Reads a b) ∧
      (∀ a b : p.Port, p.Reads a b → p.Reads b a) ∧
      ∀ e ∈ w.externals, ∃ σ : Equiv.Perm p.Unit,
        ∀ u, p.neighbor? u.val e.relRow e.relCol = some (σ u).val := by
  obtain ⟨rfl, hwidth, hheight⟩ := hp
  obtain ⟨hw, hh⟩ := Descriptor.grid_pos_of_validate hvalid
  rw [← hwidth] at hw hroom
  rw [← hheight] at hh hroom
  obtain ⟨links, hc⟩ := Wiring.resolve_ok h
  have ht := hc.tiled
  -- every link has a slot that answers, so its output is among those of every cell
  have hdesignated : ∀ {i : Nat} {l : Link} {t : Site}, links[i]? = some l →
      t ∈ p.layout.wiring.sites → l.output < p.layout.wiring.degree ∧
        l.output % t.type.outputList.length = l.output := by
    intro i l t hl hmem
    obtain ⟨m, hm, -⟩ := Link.opposite hc.strategy hl
    have hlt : l.output < p.layout.wiring.degree :=
      hc.degree ▸ (List.getElem?_eq_some_iff.mp hm).1
    exact ⟨hlt, Nat.mod_eq_of_lt (hlt.trans_le (houtputs t hmem))⟩
  refine ⟨fun a => ?_, fun a b hab => ?_, fun e he => ?_⟩
  · obtain ⟨s, l, -, -, hs, hl, -⟩ := Program.slot_of_port hc a
    obtain ⟨t, -, hsource, -⟩ := Wiring.aim_back ht hc.strategy heven hs hl
    obtain ⟨hlt, houtput⟩ := hdesignated hl (List.mem_of_getElem? hsource)
    have hiff := fun b => Program.reads_iff hw hh hroom hc (b := b) hs hl rfl hsource
    obtain ⟨hrow, hcol⟩ := (Wiring.aim_real ht hc.strategy (List.mem_of_getElem? hl)
      (List.mem_of_getElem? hs)).step
    obtain ⟨v, -, hplace⟩ := Program.neighbor?_unit_place hw hh hroom a.unit hrow hcol
    refine ⟨⟨v, ⟨_, (List.getElem?_eq_some_iff.mp hsource).1⟩, ⟨l.output, hlt⟩⟩,
      (hiff _).mpr ⟨rfl, houtput.symm, hplace⟩, ?_⟩
    intro b hb
    obtain ⟨hcell, hindex, hunit⟩ := (hiff b).mp hb
    ext1
    · exact Subtype.ext (Int64.toInt_inj.mp (hunit.trans hplace.symm))
    · exact Fin.ext hcell
    · exact Fin.ext (hindex.trans houtput)
  · obtain ⟨s, l, -, -, hs, hl, -⟩ := Program.slot_of_port hc a
    obtain ⟨t, m, hsource, hm, hmi, hback⟩ := Wiring.aim_back ht hc.strategy heven hs hl
    obtain ⟨hcell, hindex, hunit⟩ :=
      (Program.reads_iff hw hh hroom hc (b := b) hs hl rfl hsource).mp hab
    rw [(hdesignated hl (List.mem_of_getElem? hsource)).2] at hindex
    apply (Program.reads_iff hw hh hroom hc (hcell ▸ hsource) (hindex ▸ hm) hback hs).mpr
    refine ⟨rfl, ?_, ?_⟩
    · rw [(hdesignated hm (List.mem_of_getElem? hs)).2, hmi]
    · rw [hunit, Addressing.place_back _ _ _ hw a.unit.property.1 a.unit.property.2]
  · obtain ⟨hrow, hcol⟩ := (Wiring.externals_real h e he).step
    exact Program.neighbor?_perm hw hh hroom hrow hcol

def Descriptor.ladder : Descriptor where
  width := 2
  height := 2
  cellTypes := some [{ id := "t", outputs := some [{ id := "1,2,3", update := "\x7binput2\x7d" }] }]
  unit := {
    neighbors := "3"
    rows := some [{ cells := some [{ type := "t" }] }, { cells := some [{ type := "t" }] }] }

theorem wiring_duplex_ladder : ∃ a w, Automaton.compile (some Descriptor.ladder) = .ok a ∧
    Wiring.resolve Descriptor.ladder = .ok w ∧ a.program.addressing = .flat ∧
    (∀ s ∈ w.sites, w.degree ≤ s.type.outputList.length) ∧
    (w.strategy = "3" ∧ w.rows % 2 = 0) ∧
    ((∀ x : a.program.Port, ∃! y : a.program.Port, a.program.Reads x y) ∧
      (∀ x y : a.program.Port, a.program.Reads x y → a.program.Reads y x) ∧
      ∀ e ∈ w.externals, ∃ σ : Equiv.Perm a.program.Unit,
        ∀ u, a.program.neighbor? u.val e.relRow e.relCol = some (σ u).val) ∧
    w.inputs = [[.outside 0, .outside 1, .outside 2], [.outside 3, .outside 4, .outside 5]] ∧
    (a.program.read? 0 (.outside 1)).map (fun x => (x.1, x.2.1.id, x.2.2)) = some (2, "2", "2") ∧
    (a.program.read? 2 (.outside 4)).map (fun x => (x.1, x.2.1.id, x.2.2)) =
      some (0, "1", "2") := by
  obtain ⟨a, ha, heval⟩ := Outcome.exists_ok (Automaton.compile (some Descriptor.ladder))
    (fun a => a.program.addressing == .flat &&
      (a.layout.wiring.sites.all fun s =>
        decide (a.layout.wiring.degree ≤ s.type.outputList.length)) &&
      a.layout.wiring.strategy == "3" && a.layout.wiring.rows == 2 &&
      a.layout.wiring.inputs ==
        [[.outside 0, .outside 1, .outside 2], [.outside 3, .outside 4, .outside 5]] &&
      (a.program.read? 0 (.outside 1)).map (fun x => (x.1, x.2.1.id, x.2.2)) ==
        some (2, "2", "2") &&
      (a.program.read? 2 (.outside 4)).map (fun x => (x.1, x.2.1.id, x.2.2)) ==
        some (0, "1", "2")) (by decide +kernel)
  simp only [Bool.and_eq_true, beq_iff_eq, List.all_eq_true, decide_eq_true_eq] at heval
  obtain ⟨⟨⟨⟨⟨⟨hflat, houtputs⟩, hstrategy⟩, hrows⟩, hinputs⟩, hup⟩, hdown⟩ := heval
  obtain ⟨w, cs, hb⟩ := Automaton.compile_ok ha
  have hwiring : a.layout.wiring = w := Layout.wiring_of_build hb.laidOut
  rw [hwiring] at houtputs hstrategy hrows hinputs
  have hroom : a.program.addressing.Room Descriptor.ladder.width Descriptor.ladder.height := by
    rw [hflat]
    show (4 : Int) ≤ 2 ^ 62
    decide
  refine ⟨a, w, ha, hb.wired, hflat, houtputs, ⟨hstrategy, by rw [hrows]⟩, ?_, hinputs, hup, hdown⟩
  exact wiring_duplex hb.valid hb.wired ⟨hwiring, hb.program.width, hb.program.height⟩ hroom
    houtputs fun _ => by rw [hrows]

/-- A valid grid of cells with an output for every slot, whose units can be counted. From one of
them an external cell reads a unit that is none, and the opposite step does not lead back. -/
def Descriptor.OneWay (d : Descriptor) : Prop :=
  d.validate = .ok () ∧ d.width.toInt * d.height.toInt < 2 ^ 63 ∧
    ∃ w, Wiring.resolve d = .ok w ∧ w.strategy = "4" ∧
      (∀ s ∈ w.sites, w.degree ≤ s.type.outputList.length) ∧
      ∃ e ∈ w.externals, ∀ p : Program, p.Tiles d w →
        p.addressing = .ofText d.effectiveAddressing →
        (¬∃ σ : Equiv.Perm p.Unit, ∀ u, p.neighbor? u.val e.relRow e.relCol = some (σ u).val) ∧
        ∃ (u : p.Unit) (v : Int64), p.neighbor? u.val e.relRow e.relCol = some v ∧
          p.neighbor? v (-e.relRow) (-e.relCol) ≠ some u.val

def Descriptor.tower (addressing : String) : Descriptor where
  width := 1
  height := .ofNat (2 ^ 62 + 1)
  addressing
  cellTypes := some [{ id := "t", outputs := some [{ id := "1,2,3,4" }] }]
  unit := { neighbors := "4", rows := some [{ cells := some [{ type := "t" }] }] }

theorem oneWay_of_neighbor {addressing : String} {k : Nat} {r c : Int} {v : Int64}
    (hvalid : (Descriptor.tower addressing).validate = .ok ())
    (hwired : (Wiring.resolve (Descriptor.tower addressing)).toOption.any (fun w =>
      w.strategy == "4" && (w.sites.all fun s => decide (w.degree ≤ s.type.outputList.length)) &&
        (w.externals[k]?.map fun e => (e.relRow, e.relCol)) == some (r, c)) = true)
    (hv : (Addressing.ofText (Descriptor.tower addressing).effectiveAddressing).neighbor? 1
      (.ofNat (2 ^ 62 + 1)) (.ofNat (2 ^ 62)) (.ofInt r) (.ofInt c) = some v)
    (hneg : v.toInt < 0)
    (hback : (Addressing.ofText (Descriptor.tower addressing).effectiveAddressing).neighbor? 1
      (.ofNat (2 ^ 62 + 1)) v (.ofInt (-r)) (.ofInt (-c)) ≠ some (.ofNat (2 ^ 62))) :
    (Descriptor.tower addressing).OneWay := by
  obtain ⟨w, hw, heval⟩ := Outcome.exists_ok _ _ hwired
  simp only [Bool.and_eq_true, beq_iff_eq, all_eq_true, decide_eq_true_eq] at heval
  obtain ⟨⟨hstrategy, houtputs⟩, hext⟩ := heval
  obtain ⟨e, he, hstep⟩ := Option.map_eq_some_iff.mp hext
  obtain ⟨rfl, rfl⟩ := Prod.mk.inj hstep
  have hcount : (Descriptor.tower addressing).width.toInt *
      (Descriptor.tower addressing).height.toInt = 2 ^ 62 + 1 := by
    show (1 : Int64).toInt * (Int64.ofNat (2 ^ 62 + 1)).toInt = 2 ^ 62 + 1
    decide
  refine ⟨hvalid, by omega, w, hw, hstrategy, houtputs, e, mem_of_getElem? he, ?_⟩
  intro p hp haddr
  have hread : ∀ (u : Int64) (r c : Int), p.neighbor? u r c =
      (Addressing.ofText (Descriptor.tower addressing).effectiveAddressing).neighbor? 1
        (.ofNat (2 ^ 62 + 1)) u (.ofInt r) (.ofInt c) := by
    intro u r c
    rw [Program.neighbor?, haddr, hp.width, hp.height]
    rfl
  have hunit : 0 ≤ (Int64.ofNat (2 ^ 62)).toInt ∧
      (Int64.ofNat (2 ^ 62)).toInt < p.width.toInt * p.height.toInt := by
    rw [hp.width, hp.height, hcount]
    decide
  refine ⟨?_, ⟨_, hunit⟩, v, (hread _ _ _).trans hv, ?_⟩
  · rintro ⟨σ, hσ⟩
    have hsome := (hread _ _ _).symm.trans (hσ ⟨_, hunit⟩)
    rw [hv] at hsome
    have := (σ ⟨_, hunit⟩).property.1
    rw [← Option.some.inj hsome] at this
    omega
  · rw [hread]
    exact hback

/-- It is not enough that the units of a grid can be counted. -/
theorem wiring_one_way :
    (Descriptor.tower "flat").OneWay ∧ (Descriptor.tower "toroidal").OneWay := by
  constructor
  · exact oneWay_of_neighbor (k := 1) (r := -1) (c := 0) (v := -4611686018427387903)
      (by decide +kernel) (by decide +kernel) (by decide) (by decide) (by decide)
  · exact oneWay_of_neighbor (k := 3) (r := 1) (c := 0) (v := -4611686018427387901)
      (by decide +kernel) (by decide +kernel) (by decide) (by decide) (by decide)

end TiledAutomata
