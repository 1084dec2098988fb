import TiledAutomata.Proofs.Naming
import TiledAutomata.Proofs.Torus

/-!
# Who owns a working variable

A variable of a cell is no variable of an external cell, and within its cell it has one key.
Two cells share a variable exactly where the id of one continues that of the other by an
underscore and the keys make up for it; then a statement of one cell sets what the other
reads. Elsewhere a statement on a cell's own variable leaves what other cells read.
-/

namespace TiledAutomata

open List

open Outcome Layout

namespace Wiring

variable {d : Descriptor}

theorem inside_output {w : Wiring} (h : resolve d = .ok w) {bs : List Binding} {i : Nat}
    {o : String} (hbs : bs ∈ w.inputs) (hb : .inside i o ∈ bs) :
    ∃ t, w.sites[i]? = some t ∧ ∃ o' ∈ t.type.outputList, o'.id = o := by
  obtain ⟨links, hc⟩ := resolve_ok h
  obtain ⟨s, hs, link, hlink, -, rfl, rfl⟩ := hc.slot hbs hb
  exact (aim_real hc.tiled hc.strategy hlink hs).source

end Wiring

theorem Placeholder.resolve?_owner {d : Descriptor} {l : Layout}
    (hw : Wiring.resolve d = .ok l.wiring) {t : Site} {bs : List Binding}
    (ht : (t, bs) ∈ l.wiring.sites.zip l.wiring.inputs) {output token x : String}
    (h : resolve? ⟨l, t, bs, output⟩ token = some x) :
    (∃ k, x = externalVar k) ∨ ∃ q ∈ l.wiring.sites, ∃ m, x = paramVar q.id m ∧
      (m ∈ persistedKeys q.type ∨ q = t ∧ m ∈ t.type.vars) := by
  obtain ⟨hsite, hbs⟩ := of_mem_zip ht
  obtain ⟨m, hm, rfl⟩ | ⟨b, hb, rfl⟩ := resolve?_cases h
  · exact .inr ⟨t, hsite, m, rfl, (mem_append.mp hm).imp_right fun hv => ⟨rfl, hv⟩⟩
  · cases b with
    | outside k => exact .inl ⟨k, rfl⟩
    | inside i o =>
      obtain ⟨q, hq, o', ho', rfl⟩ := Wiring.inside_output hw hbs hb
      refine .inr ⟨q, mem_of_getElem? hq, "out" ++ o'.id, ?_, .inl ?_⟩
      · rw [bindingVar, getD_eq_getElem?_getD, hq, outputVar_eq]
        rfl
      · simp only [persistedKeys, mem_append, mem_map]
        exact .inl (.inl ⟨o', ho', rfl⟩)

theorem Assign.compile_other {p : Program} {b : Assign} {x : Frame → Frame}
    (hx : b.compile p.varIndex? = .ok x) {y : String} {k : Nat} (hk : p.varIndex? y = some k)
    (hne : y ≠ b.target) (f : Frame) : (x f).vars.getD k 0 = f.vars.getD k 0 := by
  obtain ⟨i, hi, hset⟩ := compile_ok hx
  have hik : i ≠ k := by
    rintro rfl
    exact hne (Program.varIndex?_injective hk hi)
  have hholds : f.Holds p.varIndex? fun z => ((p.varIndex? z).map (f.vars.getD · 0)).getD 0 := by
    intro z j hj
    simp [hj]
  rw [hset f _ hholds]
  simp [Array.getD_eq_getD_getElem?, hik]

/-- The variable of a cell belongs to its cell alone, except where the id of another cell continues
that of the cell, or the other way round, and the keys make up for it. Except there, a statement
that assigns it leaves the word of every variable that another cell can name. -/
theorem var_owner {d : Descriptor} {a : Automaton} (h : Automaton.compile (some d) = .ok a)
    {s : Site} (hs : s ∈ a.layout.wiring.sites) {v : String} (hv : v ∈ s.type.vars) :
    (a.layout.wiring.sites.map (·.id)).Nodup ∧
    (∀ k, paramVar s.id v ≠ externalVar k) ∧ s.type.vars.Nodup ∧
    (∀ m ∈ persistedKeys s.type, paramVar s.id m ≠ paramVar s.id v) ∧
    (∀ t ∈ a.layout.wiring.sites, t.id ≠ s.id → ∀ m ∈ persistedKeys t.type ++ t.type.vars,
      (paramVar s.id v = paramVar t.id m ↔ Joined s.id v t.id m)) ∧
    ∀ (b : Assign) (x : Frame → Frame), b.target = paramVar s.id v →
      b.compile a.program.varIndex? = .ok x →
      ∀ t bs, (t, bs) ∈ a.layout.wiring.sites.zip a.layout.wiring.inputs → t.id ≠ s.id →
      ∀ output token y k, Placeholder.resolve? ⟨a.layout, t, bs, output⟩ token = some y →
        a.program.varIndex? y = some k → ∀ f : Frame,
        (x f).vars.getD k 0 = f.vars.getD k 0 ∨
          ∃ q ∈ a.layout.wiring.sites, q.id ≠ s.id ∧ ∃ m ∈ persistedKeys q.type ++ q.type.vars,
            y = paramVar q.id m ∧ Joined s.id v q.id m := by
  obtain ⟨w, cs, hb⟩ := Automaton.compile_ok h
  obtain ⟨hcheck, -, hl⟩ := build_eq_ok_iff.mp hb.laidOut
  rw [checkSites_ok] at hcheck
  have hwiring : a.layout.wiring = w := wiring_of_build hb.laidOut
  have hids : (a.layout.wiring.sites.map (·.id)).Nodup := by
    obtain ⟨links, hw⟩ := Wiring.resolve_ok hb.wired
    rw [hwiring]
    exact hw.ids
  have hown := checkSite_ok.mp (hcheck s (hwiring ▸ hs))
  have hkeys : v ∉ persistedKeys s.type := not_mem_persistedKeys (hcheck s (hwiring ▸ hs)) hv
  refine ⟨hids, paramVar_ne_externalVar s.id v, ?_, ?_, ?_, ?_⟩
  · exact (nodup_append.mp (nodup_append.mp hown.1).1).2.1
  · intro m hm hname
    exact hkeys (paramVar_inj.mp hname ▸ hm)
  · intro t _ hne m _
    exact paramVar_eq_iff hne.symm v m
  · intro b x htarget hx t bs ht hne output token y k hy hk f
    by_cases heq : y = paramVar s.id v
    · right
      obtain ⟨j, hj⟩ | ⟨q, hq, m, hm, hmem⟩ :=
        Placeholder.resolve?_owner (hwiring ▸ hb.wired) ht hy
      · exact absurd (heq.symm.trans hj) (paramVar_ne_externalVar s.id v j)
      · have hqs : q.id ≠ s.id := by
          intro hid
          obtain rfl : q = s := inj_on_of_nodup_map hids hq hs hid
          obtain rfl : m = v := paramVar_inj.mp (hm.symm.trans heq)
          obtain hm | ⟨rfl, -⟩ := hmem
          · exact hkeys hm
          · exact hne rfl
        have hkey : m ∈ persistedKeys q.type ++ q.type.vars := by
          obtain hm | ⟨rfl, hm⟩ := hmem <;> simp [hm]
        exact ⟨q, hq, hqs, m, hkey, hm, (paramVar_eq_iff hqs.symm v m).mp (heq.symm.trans hm)⟩
    · exact .inl (Assign.compile_other hx hk (htarget ▸ heq) f)

/-- A cell that sets its variable, and with it the parameter that another cell reads. -/
theorem var_owner_overlap : ∃ a, Automaton.compile (some Descriptor.overlap) = .ok a ∧
    paramVar "a" "b_x" = paramVar "a_b" "x" ∧
    (a.plan.run a.plan.workspace #[1, 2, 3] #[]).2 = #[0, 7, 3] := by
  obtain ⟨a, ha, heval⟩ := exists_ok (Automaton.compile (some Descriptor.overlap))
    (fun a => (a.layout.wiring.sites.map fun s => (s.id, s.type.vars, s.type.params)) ==
        [("a", ["b_x"], []), ("a_b", [], ["x"])] &&
      (a.plan.run a.plan.workspace #[1, 2, 3] #[]).2 == #[0, 7, 3]) (by decide +kernel)
  simp only [Bool.and_eq_true, beq_iff_eq, map_eq_cons_iff, Prod.mk.injEq] at heval
  obtain ⟨⟨s, _, hsites, ⟨hs, hvars, -⟩, t, _, rfl, ⟨ht, -, hparams⟩, -⟩, hrun⟩ := heval
  have howner := var_owner ha (s := s) (by simp [hsites]) (v := "b_x") (by simp [hvars])
  have hjoined := howner.2.2.2.2.1 t (by simp [hsites]) (by simp [hs, ht]) "x"
    (by simp [persistedKeys, hparams])
  rw [hs, ht] at hjoined
  exact ⟨a, ha, hjoined.mpr ⟨"b", .inl ⟨rfl, rfl⟩⟩, hrun⟩

end TiledAutomata
