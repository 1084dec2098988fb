import Mathlib.Data.List.Forall2
import Mathlib.Data.List.Nodup
import TiledAutomata.Proofs.Outcome
import TiledAutomata.Wiring

/-!
# Shape of a wired unit

Cells stand in row-major order, one for each place of the matrix, and keep at least one
output. Every external cell reads an output that its source cell has, at most one unit
away in each direction.
-/

open List

namespace TiledAutomata

open CellType Link Option

variable {b : Binding} {t : CellType} {d : Descriptor} {e : External} {bs : List Binding}
  {links : List Link} {o : Output} {p p' : Placing} {s : Site}

def Binding.external? : Binding → Option Nat
  | .inside _ _ => none
  | .outside k => some k

def External.Near (e : External) : Prop := e.relRow = 0 ∧ e.relCol = 0

namespace Wiring

open Outcome

/-- A cell that keeps at least one output. Each is an output of the descriptor, maybe under another
id. -/
structure Drawn (d : Descriptor) (s : Site) : Prop where
  outputs : s.type.outputList ≠ []
  output : ∀ o ∈ s.type.outputList,
    ∃ t ∈ d.typeList, ∃ o' ∈ t.outputList, o = { o' with id := o.id }

theorem mem_expand (h : o ∈ t.expand.outputList) :
    ∃ o' ∈ t.outputList, o = { o' with id := o.id } := by
  simp only [expand, outputList, getD_some] at h
  obtain ⟨o', ho', ho⟩ := mem_flatMap.mp h
  refine ⟨o', ho', ?_⟩
  split at ho
  · obtain rfl := mem_singleton.mp ho
    rfl
  · obtain ⟨i, -, rfl⟩ := mem_map.mp ho
    rfl

theorem mem_restrict {id spec : String} (h : o ∈ (t.restrict id spec).outputList) :
    o ∈ t.outputList := by
  simp only [restrict, outputList, getD_some] at h
  obtain ⟨i, -, ho⟩ := mem_filterMap.mp h
  exact mem_of_find?_eq_some ho

theorem type?_output {id : String} (h : type? d id = some t) (ho : o ∈ t.outputList) :
    ∃ t ∈ d.typeList, ∃ o' ∈ t.outputList, o = { o' with id := o.id } := by
  obtain ⟨t', ht', rfl⟩ := map_eq_some_iff.mp h
  exact ⟨t', mem_reverse.mp (mem_of_find?_eq_some ht'), mem_expand ho⟩

theorem place_ok {row col : Nat} {c : Cell} (h : place d row col p c = .ok p') :
    ∃ s : Site, p'.sites = p.sites ++ [s] ∧ s.row = row ∧ s.col = col ∧ Drawn d s ∧
      s.id ∉ p.sites.map (·.id) := by
  unfold place at h
  dsimp only at h
  split at h
  · rename_i t htype
    obtain ⟨_, ht, h⟩ := bind_ok.mp h
    cases ht
    obtain ⟨hnew, h⟩ := guard_ok.mp h
    obtain ⟨hout, h⟩ := guard_ok.mp h
    cases h
    refine ⟨_, rfl, rfl, rfl, ⟨by simpa using hout, fun o ho => type?_output htype ?_⟩,
      by simpa using hnew⟩
    dsimp only at ho
    split at ho
    · exact ho
    · exact mem_restrict ho
  · cases h

theorem placeCells_ok {row col : Nat} {cs : List Cell} (h : placeCells d row col p cs = .ok p') :
    ∃ ss, p'.sites = p.sites ++ ss ∧ ss.length = cs.length ∧
      ((p.sites.map (·.id)).Nodup → (p'.sites.map (·.id)).Nodup) ∧
      ∀ j s, ss[j]? = some s → s.row = row ∧ s.col = col + j ∧ Drawn d s := by
  induction cs generalizing col p with
  | nil =>
    cases h
    exact ⟨[], by simp⟩
  | cons c cs ih =>
    obtain ⟨q, hq, h⟩ := bind_ok.mp h
    obtain ⟨s, hs, hrow, hcol, hout, hnew⟩ := place_ok hq
    obtain ⟨ss, hss, hlen, hids, hplace⟩ := ih h
    refine ⟨s :: ss, by simp [hss, hs], by simp [hlen], fun hn => hids ?_, ?_⟩
    · rw [hs, map_append]
      exact hn.append (by simp) (by simpa using hnew)
    intro j t ht
    cases j with
    | zero =>
      cases ht
      exact ⟨hrow, hcol, hout⟩
    | succ j =>
      obtain ⟨h1, h2, h3⟩ := hplace j t (by simpa using ht)
      exact ⟨h1, by omega, h3⟩

theorem placeRows_ok {i : Nat} {rs : List Row} (hd : 0 < d.unit.cols)
    (h : placeRows d i p rs = .ok p') :
    ∃ ss, p'.sites = p.sites ++ ss ∧ ss.length = rs.length * d.unit.cols ∧
      ((p.sites.map (·.id)).Nodup → (p'.sites.map (·.id)).Nodup) ∧
      ∀ j s, ss[j]? = some s → s.row = i + j / d.unit.cols ∧ s.col = j % d.unit.cols ∧
        Drawn d s := by
  induction rs generalizing i p with
  | nil =>
    cases h
    exact ⟨[], by simp⟩
  | cons r rs ih =>
    rw [placeRows] at h
    obtain ⟨hr, h⟩ := guard_ok.mp h
    obtain ⟨q, hq, h⟩ := bind_ok.mp h
    obtain ⟨as, has, halen, haids, hafter⟩ := placeCells_ok hq
    obtain ⟨bs, hbs, hblen, hbids, hplace⟩ := ih h
    have hcols : as.length = d.unit.cols := by omega
    refine ⟨as ++ bs, by simp [hbs, has], by simp [hcols, hblen, Nat.add_mul]; omega,
      hbids ∘ haids, ?_⟩
    intro j s hs
    by_cases hj : j < d.unit.cols
    · rw [List.getElem?_append_left (by omega)] at hs
      obtain ⟨h1, h2, h3⟩ := hafter j s hs
      rw [Nat.div_eq_of_lt hj, Nat.mod_eq_of_lt hj]
      exact ⟨by omega, by omega, h3⟩
    · rw [List.getElem?_append_right (by omega), hcols] at hs
      obtain ⟨h1, h2, h3⟩ := hplace _ s hs
      have hdiv : j / d.unit.cols = (j - d.unit.cols) / d.unit.cols + 1 :=
        Nat.div_eq_sub_div hd (by omega)
      have hmod : j % d.unit.cols = (j - d.unit.cols) % d.unit.cols := Nat.mod_eq_sub_mod (by omega)
      exact ⟨by omega, by omega, h3⟩

structure Tiled (rows cols : Nat) (sites : List Site) : Prop where
  length : sites.length = rows * cols
  place : ∀ k s, sites[k]? = some s → s.row = k / cols ∧ s.col = k % cols
  outputs : ∀ s ∈ sites, s.type.outputList ≠ []

/-- An external cell that reads what there is, in the same or an adjacent unit. -/
structure External.Real (sites : List Site) (e : External) : Prop where
  source : ∃ s, sites[e.source]? = some s ∧ ∃ o ∈ s.type.outputList, o.id = e.output
  row : e.relRow = -1 ∨ e.relRow = 0 ∨ e.relRow = 1
  col : e.relCol = -1 ∨ e.relCol = 0 ∨ e.relCol = 1

theorem External.Real.step {sites : List Site} (h : External.Real sites e) :
    (-1 ≤ e.relRow ∧ e.relRow ≤ 1) ∧ (-1 ≤ e.relCol ∧ e.relCol ≤ 1) := by
  obtain ⟨-, hrow, hcol⟩ := h
  omega

theorem wrap_step (i : Int) (n : Nat) :
    (wrap i n).1 = -1 ∨ (wrap i n).1 = 0 ∨ (wrap i n).1 = 1 := by
  unfold wrap
  split
  · simp
  · split <;> simp

theorem wrap_lt {i : Int} {n : Nat} (hn : 0 < n) (hlo : -1 ≤ i) (hhi : i ≤ n) :
    (wrap i n).2 < n := by
  unfold wrap
  split
  · simp only; omega
  · split <;> simp only <;> omega

theorem step_bounds {strategy : String} (h : Link.ofStrategy? strategy = some links) {l : Link}
    (hl : l ∈ links) (r c : Nat) :
    (-1 ≤ (l.step r c).1 ∧ (l.step r c).1 ≤ 1) ∧ (-1 ≤ (l.step r c).2 ∧ (l.step r c).2 ≤ 1) := by
  unfold ofStrategy? at h
  split at h <;> cases h <;> simp only [mem_cons, not_mem_nil, or_false] at hl
  · rcases hl with rfl | rfl | rfl
    · simp [fixed]
    · simp only [alternating]
      split <;> simp
    · simp [fixed]
  · rcases hl with rfl | rfl | rfl | rfl <;> simp [fixed]
  · rcases hl with rfl | rfl | rfl | rfl | rfl | rfl | rfl | rfl <;> simp [fixed]

theorem designated_eq (h : s.type.outputList ≠ []) (index : Nat) :
    (s.type.outputList[index % s.type.outputList.length]?).map Output.id =
      some (designated s index) := by
  have hlt := Nat.mod_lt index (length_pos_iff.mpr h)
  simp [designated, getD_eq_getElem?_getD, List.getElem?_eq_getElem hlt]

theorem designated_mem (h : s.type.outputList ≠ []) (index : Nat) :
    ∃ o ∈ s.type.outputList, o.id = designated s index := by
  obtain ⟨o, ho, hid⟩ := map_eq_some_iff.mp (designated_eq h index)
  exact ⟨o, mem_of_getElem? ho, hid⟩

theorem Tiled.place_lt {rows cols k : Nat} {sites : List Site} (ht : Tiled rows cols sites)
    (hk : sites[k]? = some s) : s.row < rows ∧ s.col < cols ∧ k = s.row * cols + s.col := by
  have hlt : k < rows * cols := by
    rw [← ht.length]
    exact (List.getElem?_eq_some_iff.mp hk).1
  have hcols : 0 < cols := Nat.pos_of_ne_zero fun h => by simp [h] at hlt
  obtain ⟨hrow, hcol⟩ := ht.place k s hk
  rw [hrow, hcol]
  exact ⟨(Nat.div_lt_iff_lt_mul hcols).mpr hlt, Nat.mod_lt k hcols, (Nat.div_add_mod' k cols).symm⟩

/-- What a slot of a cell points at: the step to the unit, the cell in it and its output. -/
def aim (rows cols : Nat) (sites : List Site) (s : Site) (l : Link) : External :=
  let row := wrap (s.row + (l.step s.row s.col).1) rows
  let col := wrap (s.col + (l.step s.row s.col).2) cols
  let source := row.2 * cols + col.2
  ⟨row.1, col.1, source, designated (sites.getD source default) l.output⟩

/-- A slot reads what it points at, directly in its unit and otherwise through an external cell. -/
def Binds (exs : List External) (e : External) : Binding → Prop
  | .inside i o => e.Near ∧ i = e.source ∧ o = e.output
  | .outside k => ¬e.Near ∧ exs[k]? = some e

section Connecting

variable {rows cols : Nat} {sites : List Site} {s : Site} {l : Link} {exs exs' : List External}

section Aims

variable {strategy : String} {links : List Link} (ht : Tiled rows cols sites)
  (hs : Link.ofStrategy? strategy = some links) (hl : l ∈ links) (hmem : s ∈ sites)

include ht hs hl hmem

theorem aim_lt : (aim rows cols sites s l).source < sites.length := by
  obtain ⟨k, hk⟩ := mem_iff_getElem?.mp hmem
  obtain ⟨hr, hc, -⟩ := ht.place_lt hk
  obtain ⟨⟨h1, h2⟩, h3, h4⟩ := step_bounds hs hl s.row s.col
  have hwr := wrap_lt (i := s.row + (l.step s.row s.col).1) (n := rows) (by omega) (by omega)
    (by omega)
  have hwc := wrap_lt (i := s.col + (l.step s.row s.col).2) (n := cols) (by omega) (by omega)
    (by omega)
  have hle := Nat.mul_le_mul_right cols (Nat.succ_le_of_lt hwr)
  rw [Nat.succ_mul] at hle
  rw [ht.length]
  dsimp only [aim]
  omega

theorem aim_real : External.Real sites (aim rows cols sites s l) := by
  have hsource := aim_lt ht hs hl hmem
  refine ⟨⟨_, List.getElem?_eq_getElem hsource, ?_⟩, wrap_step _ _, wrap_step _ _⟩
  simp only [aim] at hsource ⊢
  simp only [getD_eq_getElem?_getD, List.getElem?_eq_getElem hsource, getD_some]
  exact designated_mem (ht.outputs _ (getElem_mem hsource)) _

end Aims

theorem Binds.mono (h : Binds exs e b) (hexs : exs <+: exs') : Binds exs' e b := by
  cases b with
  | inside i o => exact h
  | outside k =>
    obtain ⟨more, rfl⟩ := hexs
    refine ⟨h.1, ?_⟩
    rw [List.getElem?_append_left (List.getElem?_eq_some_iff.mp h.2).1]
    exact h.2

theorem connect_near (h : (aim rows cols sites s l).Near) :
    connect rows cols sites s l exs =
      (.inside (aim rows cols sites s l).source (aim rows cols sites s l).output, exs) :=
  if_pos h

theorem connect_far (h : ¬(aim rows cols sites s l).Near) :
    connect rows cols sites s l exs = (.outside exs.length, exs ++ [aim rows cols sites s l]) :=
  if_neg h

/-- The external cells after some slots are connected: those from before, then one for each slot
that leaves the unit, in order. -/
structure Numbered (before after : List External) (bs : List Binding) : Prop where
  grows : before <+: after
  numbers : List.range before.length ++ bs.filterMap Binding.external? = List.range after.length

theorem Numbered.append {a b c : List External} {cs : List Binding} (h : Numbered a b bs)
    (h' : Numbered b c cs) : Numbered a c (bs ++ cs) := by
  constructor
  · exact h.grows.trans h'.grows
  · rw [filterMap_append, ← append_assoc, h.numbers, h'.numbers]

theorem connect_numbered :
    Numbered exs (connect rows cols sites s l exs).2 [(connect rows cols sites s l exs).1] := by
  by_cases h : (aim rows cols sites s l).Near
  · rw [connect_near h]
    constructor <;> simp [Binding.external?]
  · rw [connect_far h]
    constructor <;> simp [Binding.external?, range_succ]

theorem connect_binds :
    Binds (connect rows cols sites s l exs).2 (aim rows cols sites s l)
      (connect rows cols sites s l exs).1 := by
  by_cases h : (aim rows cols sites s l).Near
  · rw [connect_near h]
    exact ⟨h, rfl, rfl⟩
  · rw [connect_far h]
    exact ⟨h, by simp⟩

theorem connectSlots_ok (ls : List Link) (exs : List External) :
    Numbered exs (connectSlots rows cols sites s ls exs).2
        (connectSlots rows cols sites s ls exs).1 ∧
      List.Forall₂ (fun l b => Binds (connectSlots rows cols sites s ls exs).2
        (aim rows cols sites s l) b) ls (connectSlots rows cols sites s ls exs).1 := by
  induction ls generalizing exs with
  | nil =>
    constructor
    · constructor <;> simp [connectSlots]
    · exact .nil
  | cons l ls ih =>
    obtain ⟨hn, hb⟩ := ih (connect rows cols sites s l exs).2
    constructor
    · exact connect_numbered.append hn
    · exact .cons (connect_binds.mono hn.grows) hb

theorem connectSites_ok (links : List Link) (ss : List Site) (exs : List External) :
    Numbered exs (connectSites rows cols sites links ss exs).2
        (connectSites rows cols sites links ss exs).1.flatten ∧
      List.Forall₂ (fun s bs => List.Forall₂ (fun l b =>
          Binds (connectSites rows cols sites links ss exs).2 (aim rows cols sites s l) b) links bs)
        ss (connectSites rows cols sites links ss exs).1 := by
  induction ss generalizing exs with
  | nil =>
    constructor
    · constructor <;> simp [connectSites]
    · exact .nil
  | cons s ss ih =>
    obtain ⟨hslots, hbinds⟩ := @connectSlots_ok rows cols sites s links exs
    obtain ⟨hn, hb⟩ := ih (connectSlots rows cols sites s links exs).2
    constructor
    · exact hslots.append hn
    · refine .cons (hbinds.imp ?_) hb
      intro l b h
      exact h.mono hn.grows

end Connecting

section Wired

variable {d : Descriptor} {w : Wiring}

/-- A unit in which every cell has a slot for each link of the strategy. -/
structure Connected (w : Wiring) (links : List Link) : Prop where
  strategy : Link.ofStrategy? w.strategy = some links
  numbered : Numbered [] w.externals w.inputs.flatten
  slots : List.Forall₂ (fun s bs => List.Forall₂ (fun l b =>
    Binds w.externals (aim w.rows w.cols w.sites s l) b) links bs) w.sites w.inputs

theorem forall₂_getElem? {α β : Type} {R : α → β → Prop} {xs : List α} {ys : List β}
    (h : List.Forall₂ R xs ys) {i : Nat} {x : α} {y : β} (hx : xs[i]? = some x)
    (hy : ys[i]? = some y) : R x y := by
  obtain ⟨hi, rfl⟩ := List.getElem?_eq_some_iff.mp hx
  obtain ⟨hi', rfl⟩ := List.getElem?_eq_some_iff.mp hy
  exact h.get hi hi'

section

variable (h : Connected w links)

include h

theorem Connected.degree : w.degree = links.length := by
  rw [Wiring.degree, h.strategy]
  rfl

theorem Connected.binds {k slot : Nat} {l : Link} (hs : w.sites[k]? = some s)
    (hbs : w.inputs[k]? = some bs) (hl : links[slot]? = some l) (hb : bs[slot]? = some b) :
    Binds w.externals (aim w.rows w.cols w.sites s l) b :=
  forall₂_getElem? (forall₂_getElem? h.slots hs hbs) hl hb

theorem Connected.length (hbs : bs ∈ w.inputs) : bs.length = links.length := by
  obtain ⟨k, hk⟩ := mem_iff_getElem?.mp hbs
  obtain ⟨hlt, rfl⟩ := List.getElem?_eq_some_iff.mp hk
  have hsite : k < w.sites.length := by
    rw [h.slots.length_eq]
    exact hlt
  exact (h.slots.get hsite hlt).length_eq.symm

theorem Connected.slot (hbs : bs ∈ w.inputs) (hb : b ∈ bs) :
    ∃ s ∈ w.sites, ∃ l ∈ links, Binds w.externals (aim w.rows w.cols w.sites s l) b := by
  obtain ⟨k, hk⟩ := mem_iff_getElem?.mp hbs
  obtain ⟨slot, hslot⟩ := mem_iff_getElem?.mp hb
  obtain ⟨s, hs⟩ : ∃ s, w.sites[k]? = some s := by
    refine ⟨_, List.getElem?_eq_getElem ?_⟩
    rw [h.slots.length_eq]
    exact (List.getElem?_eq_some_iff.mp hk).1
  obtain ⟨link, hlink⟩ : ∃ link, links[slot]? = some link := by
    refine ⟨_, List.getElem?_eq_getElem ?_⟩
    rw [← h.length hbs]
    exact (List.getElem?_eq_some_iff.mp hslot).1
  exact ⟨s, mem_of_getElem? hs, link, mem_of_getElem? hlink, h.binds hs hk hlink hslot⟩

theorem Connected.external (he : e ∈ w.externals) :
    ∃ s ∈ w.sites, ∃ l ∈ links, e = aim w.rows w.cols w.sites s l := by
  obtain ⟨k, hk⟩ := mem_iff_getElem?.mp he
  have hnumbers : w.inputs.flatten.filterMap Binding.external? =
      List.range w.externals.length := by simpa using h.numbered.numbers
  have hmem : k ∈ w.inputs.flatten.filterMap Binding.external? := by
    rw [hnumbers, mem_range]
    exact (List.getElem?_eq_some_iff.mp hk).1
  obtain ⟨b, hb, hbk⟩ := mem_filterMap.mp hmem
  obtain ⟨bs, hbs, hb⟩ := mem_flatten.mp hb
  obtain ⟨s, hs, l, hl, hbinds⟩ := h.slot hbs hb
  cases b with
  | inside => cases hbk
  | outside j =>
    cases hbk
    exact ⟨s, hs, l, hl, Option.some.inj (hk.symm.trans hbinds.2)⟩

end

structure Wired (d : Descriptor) (w : Wiring) (links : List Link) : Prop
    extends Connected w links where
  rows : 0 < w.rows
  cols : 0 < w.cols
  tiled : Tiled w.rows w.cols w.sites
  drawn : ∀ s ∈ w.sites, Drawn d s
  ids : (w.sites.map (·.id)).Nodup

theorem resolve_ok (h : resolve d = .ok w) : ∃ links, Wired d w links := by
  unfold resolve at h
  dsimp only at h
  obtain ⟨hcols, h⟩ := guard_ok.mp h
  have hpos : 0 < d.unit.cols := Nat.pos_of_ne_zero hcols
  have hrows : 0 < d.unit.rowList.length := by
    refine length_pos_iff.mpr fun hnil => hcols ?_
    rw [LogicalUnit.cols, hnil]
    rfl
  split at h
  case h_2 => cases h
  rename_i links hstrategy
  obtain ⟨_, hlinks, h⟩ := bind_ok.mp h
  cases hlinks
  obtain ⟨p, hp, h⟩ := bind_ok.mp h
  obtain ⟨ss, hss, hlen, hids, hplace⟩ := placeRows_ok hpos hp
  obtain rfl : p.sites = ss := by simpa using hss
  have hdrawn : ∀ s ∈ p.sites, Drawn d s := by
    intro s hs
    obtain ⟨k, hk⟩ := mem_iff_getElem?.mp hs
    exact (hplace k s hk).2.2
  cases h
  obtain ⟨hnumbered, hslots⟩ := connectSites_ok links p.sites []
  refine ⟨links, ⟨hstrategy, hnumbered, hslots⟩, hrows, hpos,
    ⟨hlen, fun k s hk => ?_, fun s hs => (hdrawn s hs).outputs⟩, hdrawn, hids .nil⟩
  obtain ⟨hrow, hcol, -⟩ := hplace k s hk
  exact ⟨hrow.trans (Nat.zero_add _), hcol⟩

theorem externals_real (h : resolve d = .ok w) : ∀ e ∈ w.externals, External.Real w.sites e := by
  obtain ⟨links, hw⟩ := resolve_ok h
  intro e he
  obtain ⟨s, hs, l, hl, rfl⟩ := hw.external he
  exact aim_real hw.tiled hw.strategy hl hs

end Wired

end Wiring

end TiledAutomata
