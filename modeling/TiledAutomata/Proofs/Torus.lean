import TiledAutomata.Proofs.Addressing
import TiledAutomata.Proofs.Program
import TiledAutomata.View

/-!
# Units tile a torus

Under toroidal addressing the copies of a unit make one seamless grid. What an input slot
reads, in its own unit or through an external cell in an adjacent one, is the cell that a
view shows one step of the link away, where rows and columns of the whole grid wrap.

Three computations meet here: the step out of a unit, the step between units and the
division of a place of the grid into unit and cell. Each is reduced to one identity on
quotients and remainders. Sizes of the grid are inputs; where a side has more than
`2 ^ 62` units, the machine arithmetic of neighbors overflows and the tiling is torn.
-/

namespace TiledAutomata

open Wiring

namespace Wiring

theorem wrap_eq {i : Int} {n : Nat} (hn : 0 < n) (hlo : -1 ≤ i) (hhi : i ≤ n) :
    i / n = (wrap i n).1 ∧ i % n = (wrap i n).2 := by
  have hpos : 0 < (n : Int) := by omega
  apply (Int.ediv_emod_unique hpos).mpr
  unfold wrap
  split
  · simp only
    omega
  · split
    · simp only
      omega
    · simp only
      omega

end Wiring

theorem cycle_of_blocks {m n : Int} (hm : 0 < m) (hn : 0 < n) (q x : Int) :
    (q * n + x) % (m * n) = (q + x / n) % m * n + x % n := by
  have hx0 := Int.emod_nonneg x hn.ne'
  have hx1 := Int.emod_lt_of_pos x hn
  have hb0 := Int.emod_nonneg (q + x / n) hm.ne'
  have hb1 := Int.emod_lt_of_pos (q + x / n) hm
  have hlt : (q + x / n) % m * n + x % n < m * n := by nlinarith
  have hsplit : q * n + x = (q + x / n) % m * n + x % n + (q + x / n) / m * (m * n) := by
    have h1 := Int.mul_ediv_add_emod x n
    have h2 := Int.mul_ediv_add_emod (q + x / n) m
    calc q * n + x = (q + x / n) * n + x % n := by linarith [h1]
      _ = (m * ((q + x / n) / m) + (q + x / n) % m) * n + x % n := by rw [h2]
      _ = _ := by ring
  rw [hsplit, Int.add_mul_emod_self_right, Int.emod_eq_of_lt (by positivity) hlt]

/-- A grid whose units, cells of a unit, rows and columns have numbers of 64 bits, with at most
`2 ^ 62` units on a side. -/
structure Descriptor.Counted (d : Descriptor) (w : Wiring) : Prop where
  width : d.width.toInt ≤ 2 ^ 62
  height : d.height.toInt ≤ 2 ^ 62
  units : d.width.toInt * d.height.toInt < 2 ^ 63
  rows : d.height.toInt * w.rows < 2 ^ 63
  cols : d.width.toInt * w.cols < 2 ^ 63
  cells : (w.rows : Int) * w.cols < 2 ^ 63

namespace View

structure Shows (v : View) (d : Descriptor) (w : Wiring) : Prop where
  wiring : v.automaton.layout.wiring = w
  width : v.automaton.program.width = d.width
  height : v.automaton.program.height = d.height

theorem block_of_place {i n : Int} {r : Nat} (hr : r < n) :
    (i * n + r) / n = i ∧ (i * n + r) % n = r := by
  apply (Int.ediv_emod_unique (by omega)).mpr
  refine ⟨by ring, by omega, hr⟩

theorem place_on_side {i : Int} {m : Int64} {n r : Nat} (hi : 0 ≤ i) (him : i < m.toInt)
    (hr : r < n) (hfit : m.toInt * n < 2 ^ 63) :
    0 ≤ Int64.ofInt (i * n + r) ∧ Int64.ofInt (i * n + r) < m * Int64.ofNat n ∧
      (Int64.ofInt (i * n + r) / Int64.ofNat n).toInt = i ∧
      (Int64.ofInt (i * n + r) % Int64.ofNat n).toInt = r := by
  have hlt : i * n + r < m.toInt * n := by nlinarith
  have hnonneg : 0 ≤ i * n := by positivity
  have hn : (Int64.ofNat n).toInt = n := Int64.toInt_ofNat_of_lt (by nlinarith)
  have hplace : (Int64.ofInt (i * n + r)).toInt = i * n + r :=
    Int64.toInt_ofInt_of_le (by omega) (by omega)
  obtain ⟨hdiv, hmod⟩ := block_of_place (i := i) (n := n) (r := r) (by omega)
  refine ⟨?_, ?_, ?_, ?_⟩
  · rw [Int64.le_iff_toInt_le, hplace]
    simp only [Int64.toInt_zero]
    omega
  · rw [Int64.lt_iff_toInt_lt, hplace,
      Int64.toInt_mul_eq (by rw [hn]; omega) (by rw [hn]; omega), hn]
    exact hlt
  · rw [Int64.toInt_div_eq (by omega) (by omega), hplace, hn, hdiv]
  · rw [Int64.toInt_mod_eq (by omega), hplace, hn, hmod]

variable {v : View} {d : Descriptor} {w : Wiring}

theorem cell_at (hv : v.Shows d w) (hd : d.Counted w) {i j : Int} {r c : Nat} (hi : 0 ≤ i)
    (hi' : i < d.height.toInt) (hj : 0 ≤ j) (hj' : j < d.width.toInt) (hr : r < w.rows)
    (hc : c < w.cols) :
    v.cell (.ofInt (i * w.rows + r)) (.ofInt (j * w.cols + c)) =
      .ok (.ofInt (i * d.width.toInt + j), w.sites.getD (r * w.cols + c) default) := by
  obtain ⟨hrow0, hrow1, hrowdiv, hrowmod⟩ := place_on_side hi hi' hr hd.rows
  obtain ⟨hcol0, hcol1, hcoldiv, hcolmod⟩ := place_on_side hj hj' hc hd.cols
  have hcolsNat : (Int64.ofNat w.cols).toInt = w.cols :=
    Int64.toInt_ofNat_of_lt (by nlinarith [hd.cols])
  have hbelow : i * d.width.toInt + j < d.width.toInt * d.height.toInt := by nlinarith
  have hbefore : (r : Int) * w.cols + c < w.rows * w.cols := by nlinarith
  have hi0 : 0 ≤ i * d.width.toInt := mul_nonneg hi (by omega)
  have hr0 : 0 ≤ (r : Int) * w.cols := by positivity
  have hu := hd.units
  have hs := hd.cells
  unfold cell rows cols
  simp only [hv.wiring, hv.width, hv.height]
  generalize Int64.ofInt (i * w.rows + r) = row at *
  generalize Int64.ofInt (j * w.cols + c) = col at *
  have hunit : row / Int64.ofNat w.rows * d.width + col / Int64.ofNat w.cols =
      Int64.ofInt (i * d.width.toInt + j) := by
    have hmul : (row / Int64.ofNat w.rows * d.width).toInt = i * d.width.toInt := by
      rw [Int64.toInt_mul_eq (by rw [hrowdiv]; omega) (by rw [hrowdiv]; omega), hrowdiv]
    apply Int64.toInt_inj.mp
    rw [Int64.toInt_add_eq (by omega) (by omega), hmul, hcoldiv,
      Int64.toInt_ofInt_of_le (by omega) (by omega)]
  have hposition : (row % Int64.ofNat w.rows * Int64.ofNat w.cols +
      col % Int64.ofNat w.cols).toInt.toNat = r * w.cols + c := by
    have hmul : (row % Int64.ofNat w.rows * Int64.ofNat w.cols).toInt = r * w.cols := by
      rw [Int64.toInt_mul_eq (by rw [hrowmod, hcolsNat]; omega) (by rw [hrowmod, hcolsNat]; omega),
        hrowmod, hcolsNat]
    rw [Int64.toInt_add_eq (by omega) (by omega), hmul, hcolmod]
    omega
  rw [if_neg, hunit, hposition]
  simp only [Bool.or_eq_true, decide_eq_true_eq, not_or, Int64.not_lt, Int64.not_le]
  exact ⟨⟨⟨hrow0, hrow1⟩, hcol0⟩, hcol1⟩

end View

namespace Wiring

theorem wrap_zero_iff (i : Int) (n : Nat) : (wrap i n).1 = 0 ↔ 0 ≤ i ∧ i < n := by
  unfold wrap
  by_cases h0 : i < 0
  · simp only [h0, if_true]
    omega
  · by_cases h1 : (n : Int) ≤ i
    · simp only [h0, h1, if_true, if_false]
      omega
    · simp only [h0, h1, if_false, true_iff]
      omega

theorem Binds.external_iff {exs : List External} {rows cols : Nat} {sites : List Site} {s : Site}
    {l : Link} {b : Binding} (h : Binds exs (aim rows cols sites s l) b) :
    b.external? = none ↔
      (0 ≤ s.row + (l.step s.row s.col).1 ∧ s.row + (l.step s.row s.col).1 < rows) ∧
      (0 ≤ s.col + (l.step s.row s.col).2 ∧ s.col + (l.step s.row s.col).2 < cols) := by
  rw [← wrap_zero_iff, ← wrap_zero_iff]
  cases b with
  | inside i o =>
    constructor
    · intro _
      exact h.1
    · intro _
      rfl
  | outside k =>
    constructor
    · intro hnone
      cases hnone
    · intro hnear
      exact absurd hnear h.1

end Wiring

/-- What a slot of a cell of a unit reads: the unit, the cell in it and the output. -/
def Program.read? (p : Program) (unit : Int64) : Binding → Option (Int64 × Site × String)
  | .inside i o => (p.layout.wiring.sites[i]?).map fun s => (unit, s, o)
  | .outside k => do
    let e ← p.layout.wiring.externals[k]?
    let n ← p.neighbor? unit e.relRow e.relCol
    let s ← p.layout.wiring.sites[e.source]?
    return (n, s, e.output)

namespace Program

def Unit (p : Program) : Type :=
  { u : Int64 // 0 ≤ u.toInt ∧ u.toInt < p.width.toInt * p.height.toInt }

section Neighbors

variable {p : Program} (hw : 0 < p.width.toInt) (hh : 0 < p.height.toInt)
  (hroom : p.addressing.Room p.width p.height)

include hw hh hroom

theorem neighbor?_unit_place (u : p.Unit) {r c : Int} (hr : -1 ≤ r ∧ r ≤ 1)
    (hc : -1 ≤ c ∧ c ≤ 1) :
    ∃ v : p.Unit, p.neighbor? u.val r c = some v.val ∧
      v.val.toInt = p.addressing.place p.width.toInt p.height.toInt u.val.toInt r c := by
  have hr' : (Int64.ofInt r).toInt = r := Int64.toInt_ofInt_of_le (by omega) (by omega)
  have hc' : (Int64.ofInt c).toInt = c := Int64.toInt_ofInt_of_le (by omega) (by omega)
  obtain ⟨n, hn, heq⟩ := Addressing.neighbor?_place p.addressing hw hh hroom u.property.1
    u.property.2 (hr'.symm ▸ hr) (hc'.symm ▸ hc)
  rw [hr', hc'] at heq
  exact ⟨⟨n, heq ▸ Addressing.place_bounds r c p.addressing hw hh _⟩, hn, heq⟩

theorem read?_binds {e : External} (hrow : -1 ≤ e.relRow ∧ e.relRow ≤ 1)
    (hcol : -1 ≤ e.relCol ∧ e.relCol ≤ 1) {t : Site}
    (ht : p.layout.wiring.sites[e.source]? = some t) {x : Binding}
    (hx : Wiring.Binds p.layout.wiring.externals e x) (u : p.Unit) :
    ∃ v : p.Unit, p.read? u.val x = some (v.val, t, e.output) ∧
      v.val.toInt =
        p.addressing.place p.width.toInt p.height.toInt u.val.toInt e.relRow e.relCol := by
  cases x with
  | inside i o =>
    obtain ⟨⟨hr, hc⟩, rfl, rfl⟩ := hx
    refine ⟨u, by simp [read?, ht], ?_⟩
    rw [hr, hc, Addressing.place_self p.addressing hw u.property.1 u.property.2]
  | outside k =>
    obtain ⟨v, hv, hplace⟩ := neighbor?_unit_place hw hh hroom u hrow hcol
    exact ⟨v, by simp [read?, hx.2, hv, ht], hplace⟩

end Neighbors

end Program

/-- A view of a torus of cells: it shows every cell of every unit at its place, and one step of a
link away from there it shows what the slot of that link reads. -/
def View.Seamless (v : View) (d : Descriptor) (w : Wiring) (links : List Link) : Prop :=
  ∀ unit : Int64, 0 ≤ unit.toInt → unit.toInt < d.width.toInt * d.height.toInt →
    ∀ (k : Nat) (s : Site) (bs : List Binding), w.sites[k]? = some s → w.inputs[k]? = some bs →
      let row := unit.toInt / d.width.toInt * w.rows + s.row
      let col := unit.toInt % d.width.toInt * w.cols + s.col
      v.cell (.ofInt row) (.ofInt col) = .ok (unit, s) ∧
      ∀ (slot : Nat) (l : Link) (b : Binding), links[slot]? = some l → bs[slot]? = some b →
        ∃ n t o, v.automaton.program.read? unit b = some (n, t, o) ∧
          v.cell (.ofInt ((row + (l.step s.row s.col).1) % (d.height.toInt * w.rows)))
            (.ofInt ((col + (l.step s.row s.col).2) % (d.width.toInt * w.cols))) = .ok (n, t) ∧
          (t.type.outputList[l.output % t.type.outputList.length]?).map Output.id = some o

namespace View

variable {v : View} {d : Descriptor} {w : Wiring} {links : List Link}

theorem cell_aim (hv : v.Shows d w) (hd : d.Counted w) (ht : Wiring.Tiled w.rows w.cols w.sites)
    (hw : 0 < d.width.toInt) (hh : 0 < d.height.toInt)
    (hlinks : Link.ofStrategy? w.strategy = some links) {l : Link} (hl : l ∈ links) {k : Nat}
    {s : Site} (hk : w.sites[k]? = some s) (i j : Int) :
    let e := aim w.rows w.cols w.sites s l
    v.cell
        (.ofInt ((i * w.rows + s.row + (l.step s.row s.col).1) % (d.height.toInt * w.rows)))
        (.ofInt ((j * w.cols + s.col + (l.step s.row s.col).2) % (d.width.toInt * w.cols))) =
      .ok (.ofInt ((i + e.relRow) % d.height.toInt * d.width.toInt +
        (j + e.relCol) % d.width.toInt), w.sites.getD e.source default) := by
  intro e
  obtain ⟨hr, hc, -⟩ := ht.place_lt hk
  obtain ⟨⟨hr0, hr1⟩, hc0, hc1⟩ := step_bounds hlinks hl s.row s.col
  have hrows : 0 < w.rows := by omega
  have hcols : 0 < w.cols := by omega
  obtain ⟨hrow, hrow'⟩ := wrap_eq (i := s.row + (l.step s.row s.col).1) hrows (by omega)
    (by omega)
  obtain ⟨hcol, hcol'⟩ := wrap_eq (i := s.col + (l.step s.row s.col).2) hcols (by omega)
    (by omega)
  rw [add_assoc, add_assoc, cycle_of_blocks hh (by omega), cycle_of_blocks hw (by omega), hrow,
    hrow', hcol, hcol']
  apply cell_at hv hd
  · exact Int.emod_nonneg _ hh.ne'
  · exact Int.emod_lt_of_pos _ hh
  · exact Int.emod_nonneg _ hw.ne'
  · exact Int.emod_lt_of_pos _ hw
  · exact wrap_lt hrows (by omega) (by omega)
  · exact wrap_lt hcols (by omega) (by omega)

theorem seamless (hv : v.Shows d w) (hd : d.Counted w)
    (htorus : v.automaton.program.addressing = .toroidal) (hvalid : d.validate = .ok ())
    (hc : Wiring.Wired d w links) : v.Seamless d w links := by
  obtain ⟨hw, hh⟩ := Descriptor.grid_pos_of_validate hvalid
  have ht := hc.tiled
  intro unit hu hunit k s bs hk hbs row col
  constructor
  · obtain ⟨hrow, hcol, hplace⟩ := ht.place_lt hk
    have hq : unit.toInt / d.width.toInt < d.height.toInt :=
      Int.ediv_lt_of_lt_mul hw (by rw [mul_comm]; exact hunit)
    have hcell := cell_at hv hd (Int.ediv_nonneg hu hw.le) hq (Int.emod_nonneg unit.toInt hw.ne')
      (Int.emod_lt_of_pos unit.toInt hw) hrow hcol
    rw [Int.ediv_mul_add_emod, Int64.ofInt_toInt, ← hplace, List.getD_eq_getElem?_getD, hk] at hcell
    exact hcell
  · intro slot l b hl hb
    have hmem : l ∈ links := List.mem_of_getElem? hl
    have hreal := Wiring.aim_real ht hc.strategy hmem (List.mem_of_getElem? hk)
    obtain ⟨t, hget, -⟩ := hreal.source
    have hcell := cell_aim hv hd ht hw hh hc.strategy hmem hk (unit.toInt / d.width.toInt)
      (unit.toInt % d.width.toInt)
    have hbinds := hc.binds hk hbs hl hb
    have hdefault : w.sites.getD (Wiring.aim w.rows w.cols w.sites s l).source default = t := by
      rw [List.getD_eq_getElem?_getD, hget, Option.getD_some]
    obtain ⟨rfl, hwidth, hheight⟩ := hv
    have hroom : v.automaton.program.addressing.Room v.automaton.program.width
        v.automaton.program.height := by
      rw [htorus, hwidth, hheight]
      exact ⟨hd.width, hd.height, hd.units⟩
    rw [← hwidth, ← hheight] at hunit
    obtain ⟨n, hread, hplace⟩ := Program.read?_binds (hwidth ▸ hw) (hheight ▸ hh) hroom
      hreal.step.1 hreal.step.2 hget hbinds ⟨unit, hu, hunit⟩
    simp only [htorus, hwidth, hheight] at hplace
    refine ⟨n.val, t, _, hread, ?_, ?_⟩
    · rw [hcell, hdefault, ← Int64.ofInt_toInt n.val, hplace]
      rfl
    · rw [← hdefault]
      exact Wiring.designated_eq (hdefault ▸ ht.outputs t (List.mem_of_getElem? hget)) l.output

end View

/-- Every cell has one input for each link of the strategy. A link that leaves the matrix of cells
gets an external cell of its own, and these are numbered row by row and slot by slot. Where the
grid can be counted, a view shows the cell that a slot reads at the place where the link leads on
the torus of all cells, and the output that is read is the designated one among those it has. -/
theorem tiling_seamless {d : Descriptor} {w : Wiring} (hvalid : d.validate = .ok ())
    (h : Wiring.resolve d = .ok w) :
    ∃ links, Link.ofStrategy? w.strategy = some links ∧ w.degree = links.length ∧
      w.inputs.length = w.sites.length ∧ (∀ bs ∈ w.inputs, bs.length = w.degree) ∧
      w.inputs.flatten.filterMap Binding.external? = List.range w.externals.length ∧
      (∀ j, (w.target (.outside j)).1 = "in" ++ toString (j + 1)) ∧
      (∀ (k slot : Nat) (s : Site) (bs : List Binding) (l : Link) (b : Binding),
        w.sites[k]? = some s → w.inputs[k]? = some bs → links[slot]? = some l →
        bs[slot]? = some b →
        (b.external? = none ↔
          (0 ≤ s.row + (l.step s.row s.col).1 ∧ s.row + (l.step s.row s.col).1 < w.rows) ∧
          (0 ≤ s.col + (l.step s.row s.col).2 ∧ s.col + (l.step s.row s.col).2 < w.cols))) ∧
      (d.Counted w → ∀ v : View, v.Shows d w → v.automaton.program.addressing = .toroidal →
        v.Seamless d w links) := by
  obtain ⟨links, hc⟩ := resolve_ok h
  have hdegree := hc.degree
  refine ⟨links, hc.strategy, hdegree, hc.slots.length_eq.symm, ?_, ?_, ?_, ?_, ?_⟩
  · intro bs hbs
    rw [hc.length hbs, hdegree]
  · simpa using hc.numbered.numbers
  · intro j
    rfl
  · intro k slot s bs l b hs hbs hl hb
    exact (hc.binds hs hbs hl hb).external_iff
  · intro hd v hv htorus
    exact View.seamless hv hd htorus hvalid hc

def View.ofShape (d : Descriptor) (w : Wiring) : View where
  automaton := {
    descriptor := d
    fingerprint := ""
    program := {
      width := d.width
      height := d.height
      iterations := 1
      addressing := .toroidal
      layout := ⟨w, []⟩
      readings := []
      vars := []
      locals := []
      constant := []
      dynamic := []
      stored := [] }
    plan := ⟨0, 0, 0, 0, [], [], [], []⟩ }
  index := 0
  words := #[]

/-- A valid grid on the torus, with units that can be counted, whose tiling is not seamless. -/
def Descriptor.Torn (d : Descriptor) : Prop :=
  d.validate = .ok () ∧ d.width.toInt * d.height.toInt < 2 ^ 63 ∧
    d.effectiveAddressing = "toroidal" ∧ ∃ w links, Wiring.resolve d = .ok w ∧
      Link.ofStrategy? w.strategy = some links ∧
      ∃ v : View, v.Shows d w ∧ v.automaton.program.addressing = .toroidal ∧
        ¬v.Seamless d w links

def Descriptor.column (height : Int64) (rows : Nat) : Descriptor :=
  { Descriptor.relay with
    width := 1
    height := height
    unit := {
      neighbors := "4"
      rows := some (List.replicate rows { cells := some [{ type := "t" }] }) } }

/-- Below the last unit of a column of `2 ^ 62 + 1` stands the first, but the sum in its neighbor's
row overflows and a slot reads a unit that is none. -/
theorem torn_of_long_column : (Descriptor.column (.ofNat (2 ^ 62 + 1)) 1).Torn := by
  set d := Descriptor.column (.ofNat (2 ^ 62 + 1)) 1
  obtain ⟨w, hw, heval⟩ := Outcome.exists_ok (Wiring.resolve d)
    (fun w => w.strategy == "4" && w.rows == 1 && w.cols == 1 &&
      (w.sites.map fun s => (s.row, s.col)) == [(0, 0)] &&
      w.inputs == [[.outside 0, .outside 1, .outside 2, .outside 3]] &&
      ((View.ofShape d w).automaton.program.read? (.ofNat (2 ^ 62)) (.outside 3)).map (·.1) ==
        some (-4611686018427387901) &&
      ((View.ofShape d w).cell 0 0).toOption.map (·.1) == some 0) (by decide +kernel)
  simp only [Bool.and_eq_true, beq_iff_eq] at heval
  obtain ⟨⟨⟨⟨⟨⟨hstrategy, hrows⟩, hcols⟩, hsites⟩, hinputs⟩, hread⟩, hcell⟩ := heval
  obtain ⟨s, hs⟩ : ∃ s, w.sites = [s] := by
    apply List.length_eq_one_iff.mp
    simpa using congrArg List.length hsites
  obtain ⟨hrow, hcol⟩ : s.row = 0 ∧ s.col = 0 := by simpa [hs] using hsites
  have hlinks : Link.ofStrategy? w.strategy =
      some [.fixed 0 (-1) 2, .fixed (-1) 0 3, .fixed 0 1 0, .fixed 1 0 1] := by
    rw [hstrategy]
    rfl
  refine ⟨by decide +kernel, by decide, by decide, w, _, hw, hlinks, View.ofShape d w,
    ⟨rfl, rfl, rfl⟩, rfl, ?_⟩
  intro hseamless
  obtain ⟨-, hslots⟩ := hseamless (.ofNat (2 ^ 62)) (by decide) (by decide) 0 s
    [.outside 0, .outside 1, .outside 2, .outside 3] (by simp [hs]) (by simp [hinputs])
  obtain ⟨n, t, o, hn, hshown, -⟩ := hslots 3 (.fixed 1 0 1) (.outside 3) rfl rfl
  have hfirst : n = -4611686018427387901 := by
    rw [hn] at hread
    exact Option.some.inj hread
  have hrowOf : Int64.ofInt (((Int64.ofNat (2 ^ 62)).toInt / d.width.toInt * (1 : Nat) + (0 : Nat) +
      1) % (d.height.toInt * (1 : Nat))) = 0 := by decide
  have hcolOf : Int64.ofInt (((Int64.ofNat (2 ^ 62)).toInt % d.width.toInt * (1 : Nat) + (0 : Nat) +
      0) % (d.width.toInt * (1 : Nat))) = 0 := by decide
  have hsecond : n = 0 := by
    rw [hrow, hcol, hrows, hcols] at hshown
    simp only [Link.fixed, hrowOf, hcolOf] at hshown
    rw [hshown] at hcell
    exact Option.some.inj hcell
  rw [hfirst] at hsecond
  exact absurd hsecond (by decide)

/-- Two rows of cells in each of `2 ^ 62` units are more rows than there are numbers for, and a view
of them shows no cell at all. -/
theorem torn_of_many_rows : (Descriptor.column (.ofNat (2 ^ 62)) 2).Torn := by
  set d := Descriptor.column (.ofNat (2 ^ 62)) 2
  obtain ⟨w, hw, heval⟩ := Outcome.exists_ok (Wiring.resolve d)
    (fun w => w.strategy == "4" && (w.sites.map fun s => (s.row, s.col)) == [(0, 0), (1, 0)] &&
      w.inputs.length == 2 && ((View.ofShape d w).cell 0 0).toOption.isNone) (by decide +kernel)
  simp only [Bool.and_eq_true, beq_iff_eq] at heval
  obtain ⟨⟨⟨hstrategy, hsites⟩, hinputs⟩, hcell⟩ := heval
  obtain ⟨s, hs⟩ : ∃ s, w.sites[0]? = some s := by
    have hlen : w.sites.length = 2 := by simpa using congrArg List.length hsites
    exact ⟨w.sites[0], List.getElem?_eq_getElem (by omega)⟩
  obtain ⟨bs, hbs⟩ : ∃ bs, w.inputs[0]? = some bs :=
    ⟨w.inputs[0], List.getElem?_eq_getElem (by omega)⟩
  obtain ⟨hrow, hcol⟩ : s.row = 0 ∧ s.col = 0 := by
    have h0 := congrArg (·[0]?) hsites
    simpa [hs] using h0
  have hlinks : Link.ofStrategy? w.strategy =
      some [.fixed 0 (-1) 2, .fixed (-1) 0 3, .fixed 0 1 0, .fixed 1 0 1] := by
    rw [hstrategy]
    rfl
  refine ⟨by decide +kernel, by decide, by decide, w, _, hw, hlinks, View.ofShape d w,
    ⟨rfl, rfl, rfl⟩, rfl, ?_⟩
  intro hseamless
  obtain ⟨hshown, -⟩ := hseamless 0 (by decide) (by decide) 0 s bs hs hbs
  have hplace : Int64.ofInt ((0 : Int64).toInt / d.width.toInt * w.rows + (0 : Nat)) = 0 ∧
      Int64.ofInt ((0 : Int64).toInt % d.width.toInt * w.cols + (0 : Nat)) = 0 := by
    simp
  rw [hrow, hcol, hplace.1, hplace.2] at hshown
  simp [hshown, Except.toOption] at hcell

/-- It is not enough that the units of a grid can be counted. -/
theorem tiling_torn : (Descriptor.column (.ofNat (2 ^ 62 + 1)) 1).Torn ∧
    (Descriptor.column (.ofNat (2 ^ 62)) 2).Torn :=
  ⟨torn_of_long_column, torn_of_many_rows⟩

def Descriptor.quilt : Descriptor :=
  { Descriptor.relay with
    height := 2
    unit := {
      neighbors := "8"
      rows := some [{ cells := some [{ type := "t" }, { type := "t", keeps := "2" }] }] } }

theorem tiling_seamless_quilt : ∃ a w links, Automaton.compile (some Descriptor.quilt) = .ok a ∧
    Wiring.resolve Descriptor.quilt = .ok w ∧ Link.ofStrategy? w.strategy = some links ∧
    Descriptor.quilt.Counted w ∧ (⟨a, 0, #[]⟩ : View).Seamless Descriptor.quilt w links ∧
    (a.program.read? 0 (.outside 1)).map (fun x => (x.1, x.2.1.id, x.2.2)) =
      some (3, "2", "2") := by
  obtain ⟨a, ha, heval⟩ := Outcome.exists_ok (Automaton.compile (some Descriptor.quilt))
    (fun a => a.layout.wiring.rows == 1 && a.layout.wiring.cols == 2 &&
      (a.program.read? 0 (.outside 1)).map (fun x => (x.1, x.2.1.id, x.2.2)) ==
        some (3, "2", "2")) (by decide +kernel)
  simp only [Bool.and_eq_true, beq_iff_eq] at heval
  obtain ⟨⟨hrows, hcols⟩, hread⟩ := heval
  obtain ⟨w, cs, hb⟩ := Automaton.compile_ok ha
  have hwiring : a.layout.wiring = w := Layout.wiring_of_build hb.laidOut
  rw [hwiring] at hrows hcols
  have hcounted : Descriptor.quilt.Counted w := by
    constructor
    · decide
    · decide
    · decide
    · rw [hrows]
      decide
    · rw [hcols]
      decide
    · rw [hrows, hcols]
      decide
  obtain ⟨links, hlinks, -, -, -, -, -, -, hseamless⟩ := tiling_seamless hb.valid hb.wired
  refine ⟨a, w, links, ha, hb.wired, hlinks, hcounted, ?_, hread⟩
  apply hseamless hcounted
  · exact ⟨hwiring, hb.program.width, hb.program.height⟩
  · exact hb.program.addressing

end TiledAutomata
