import TiledAutomata.Proofs.Layout

/-!
# Which variables a layout persists

A layout exists exactly where ids and names do not repeat. Its slots are then the names of
outputs and parameters, in an order that the wiring fixes. Every variable of a cell is named
by the id of the cell and a key, joined by an underscore. So the values of external cells have
no slot, but a variable of a cell has one where a cell with a longer id persists the same name.
-/

namespace TiledAutomata

open Option

open Outcome

namespace Layout

/-! ## Names of variables -/

theorem outputVar_eq (cell output : String) :
    outputVar cell output = paramVar cell ("out" ++ output) := by
  simp only [outputVar, paramVar, String.append_assoc]
  rfl

theorem outputParamVar_eq (cell output param : String) :
    outputParamVar cell output param = paramVar cell (outputParamId output param) := by
  simp only [outputParamVar, paramVar, outputParamId, String.append_assoc]
  rfl

theorem paramVar_inj {cell x y : String} : paramVar cell x = paramVar cell y ↔ x = y :=
  String.append_right_inj _

theorem paramVar_ne_externalVar (cell x : String) (k : Nat) : paramVar cell x ≠ externalVar k := by
  intro h
  have hhead := congrArg (fun s : String => s.toList.head?) h
  simp [paramVar, externalVar] at hhead

/-- Two cells give one name to two keys where the id of the one continues that of the other and
the key of the other continues that of the one. -/
def Joined (s v t m : String) : Prop :=
  ∃ r, t = s ++ "_" ++ r ∧ v = r ++ "_" ++ m ∨ s = t ++ "_" ++ r ∧ m = r ++ "_" ++ v

theorem split_underscore {s t v m : List Char} (hne : s ≠ t) (h : s ++ '_' :: v = t ++ '_' :: m) :
    ∃ r, t = s ++ '_' :: r ∧ v = r ++ '_' :: m ∨ s = t ++ '_' :: r ∧ m = r ++ '_' :: v := by
  obtain ⟨as, rfl, has⟩ | ⟨bs, rfl, hbs⟩ := List.append_eq_append_iff.mp h
  · cases as with
    | nil => simp at hne
    | cons c r =>
      obtain ⟨rfl, hv⟩ := List.cons.inj has
      exact ⟨r, .inl ⟨rfl, hv⟩⟩
  · cases bs with
    | nil => simp at hne
    | cons c r =>
      obtain ⟨rfl, hm⟩ := List.cons.inj hbs
      exact ⟨r, .inr ⟨rfl, hm⟩⟩

theorem paramVar_eq_iff {s t : String} (hne : s ≠ t) (v m : String) :
    paramVar s v = paramVar t m ↔ Joined s v t m := by
  have hlists : paramVar s v = paramVar t m ↔
      s.toList ++ '_' :: v.toList = t.toList ++ '_' :: m.toList := by
    rw [← String.toList_inj]
    simp [paramVar]
  rw [hlists]
  constructor
  · intro h
    obtain ⟨r, hr⟩ := split_underscore (mt String.toList_inj.mp hne) h
    refine ⟨String.ofList r, ?_⟩
    simpa [← String.toList_inj] using hr
  · rintro ⟨r, ⟨rfl, rfl⟩ | ⟨rfl, rfl⟩⟩ <;> simp

/-! ## Keys of a cell -/

def persistedKeys (t : CellType) : List String :=
  t.outputList.map (fun o => "out" ++ o.id) ++ t.params ++
    t.outputList.flatMap fun o => o.params.map (outputParamId o.id)

theorem mem_persisted {w : Wiring} {x : String} :
    x ∈ persisted w ↔ ∃ s ∈ w.sites, ∃ m ∈ persistedKeys s.type, paramVar s.id m = x := by
  simp only [(persisted_perm w).mem_iff, persistedKeys, outputVar_eq, outputParamVar_eq,
    List.mem_append, List.mem_map, List.mem_flatMap]
  constructor
  · rintro (⟨s, hs, o, ho, hx⟩ | ⟨s, hs, ⟨p, hp, hx⟩ | ⟨o, ho, p, hp, hx⟩⟩)
    · exact ⟨s, hs, _, .inl (.inl ⟨o, ho, rfl⟩), hx⟩
    · exact ⟨s, hs, p, .inl (.inr hp), hx⟩
    · exact ⟨s, hs, _, .inr ⟨o, ho, p, hp, rfl⟩, hx⟩
  · rintro ⟨s, hs, m, (⟨o, ho, rfl⟩ | hp) | ⟨o, ho, p, hp, rfl⟩, hx⟩
    · exact .inl ⟨s, hs, o, ho, hx⟩
    · exact .inr ⟨s, hs, .inl ⟨m, hp, hx⟩⟩
    · exact .inr ⟨s, hs, .inr ⟨o, ho, p, hp, hx⟩⟩

/-! ## When a layout exists -/

theorem firstRepeat_none {seen xs : List String} :
    firstRepeat seen xs = none ↔ xs.Nodup ∧ ∀ x ∈ xs, x ∉ seen := by
  induction xs generalizing seen with
  | nil => simp [firstRepeat]
  | cons x xs ih =>
    rw [firstRepeat]
    split
    · rename_i hx
      simp_all
    · rename_i hx
      rw [ih]
      simp only [List.nodup_cons, List.mem_cons, forall_eq_or_imp] at hx ⊢
      grind

theorem checkSite_ok {s : Site} : checkSite s = .ok () ↔ (declaredIds s.type).Nodup ∧
    ∀ v ∈ s.type.vars, ∀ o ∈ s.type.outputList, v ≠ "out" ++ o.id := by
  unfold checkSite
  cases hrepeat : firstRepeat [] (declaredIds s.type) with
  | some id =>
    have hne : ¬(declaredIds s.type).Nodup := by
      intro hnodup
      rw [firstRepeat_none.mpr ⟨hnodup, by simp⟩] at hrepeat
      cases hrepeat
    simp [hne]
  | none =>
    have hnodup := (firstRepeat_none.mp hrepeat).1
    have hfind : (s.type.vars.find? fun v =>
        s.type.outputList.any fun o => paramVar s.id v == outputVar s.id o.id) = none ↔
        ∀ v ∈ s.type.vars, ∀ o ∈ s.type.outputList, v ≠ "out" ++ o.id := by
      simp [outputVar_eq, paramVar_inj]
    simp only [hnodup, true_and, ← hfind]
    split <;> rename_i hv <;> simp [hv]

theorem checkSites_ok {ss : List Site} :
    checkSites ss = .ok () ↔ ∀ s ∈ ss, checkSite s = .ok () := by
  induction ss with
  | nil => simp [checkSites]
  | cons s ss ih =>
    rw [checkSites, bind_ok]
    simp only [ih, List.mem_cons, forall_eq_or_imp]
    exact ⟨fun ⟨_, hs, hss⟩ => ⟨hs, hss⟩, fun ⟨hs, hss⟩ => ⟨(), hs, hss⟩⟩

theorem idxOf?_of_nodup {xs : List String} (h : xs.Nodup) {i : Nat} {x : String} :
    xs.idxOf? x = some i ↔ xs[i]? = some x := by
  constructor
  · intro hi
    obtain ⟨hlt, hx, -⟩ := List.idxOf?_eq_some_iff.mp hi
    exact List.getElem?_eq_some_iff.mpr ⟨hlt, hx⟩
  · intro hi
    obtain ⟨hlt, rfl⟩ := List.getElem?_eq_some_iff.mp hi
    refine List.idxOf?_eq_some_iff.mpr ⟨hlt, rfl, fun j hj => ?_⟩
    simpa using fun heq => Nat.ne_of_lt hj (h.getElem_inj_iff.mp heq)

theorem not_mem_persistedKeys {s : Site} (h : checkSite s = .ok ()) {v : String}
    (hv : v ∈ s.type.vars) : v ∉ persistedKeys s.type := by
  obtain ⟨hnodup, houtput⟩ := checkSite_ok.mp h
  rw [declaredIds, List.append_assoc] at hnodup
  obtain ⟨-, hrest, hparams⟩ := List.nodup_append.mp hnodup
  have hoparams := (List.nodup_append.mp hrest).2.2
  intro hmem
  rw [persistedKeys, List.append_assoc, List.mem_append, List.mem_append, List.mem_map] at hmem
  obtain ⟨o, ho, rfl⟩ | hmem | hmem := hmem
  · exact houtput _ hv o ho rfl
  · exact hparams v hmem v (List.mem_append_left _ hv) rfl
  · exact hoparams v hv v hmem rfl

theorem externalVar_not_persisted (w : Wiring) (k : Nat) : externalVar k ∉ persisted w := by
  intro hmem
  obtain ⟨s, -, m, -, hm⟩ := mem_persisted.mp hmem
  exact paramVar_ne_externalVar s.id m k hm

/-- A layout exists exactly where no cell repeats an id or names a variable like an output, and no
name is to persist twice. Its slots are those names in their order. No external cell has a slot,
and a variable of a cell has one exactly where another cell persists its name. -/
theorem build_exact (w : Wiring) :
    ((∃ l, build w = .ok l) ↔
      (∀ s ∈ w.sites, (declaredIds s.type).Nodup ∧
        ∀ v ∈ s.type.vars, ∀ o ∈ s.type.outputList, v ≠ "out" ++ o.id) ∧
      (persisted w).Nodup) ∧
    ∀ l, build w = .ok l → l.names = persisted w ∧ l.names.Nodup ∧
      (∀ x i, l.slot? x = some i ↔ l.names[i]? = some x) ∧
      (∀ k, l.slot? (externalVar k) = none) ∧
      ∀ (i : Nat) s, w.sites[i]? = some s → ∀ v ∈ s.type.vars,
        ((l.slot? (paramVar s.id v)).isSome = true ↔ ∃ j t, j ≠ i ∧ w.sites[j]? = some t ∧
          paramVar s.id v ∈ (persistedKeys t.type).map (paramVar t.id)) := by
  refine ⟨?_, fun l hl => ?_⟩
  · simp only [build_eq_ok_iff, checkSites_ok, ← checkSite_ok]
    exact ⟨fun ⟨l, hcheck, hnodup, _⟩ => ⟨hcheck, hnodup⟩,
      fun ⟨hcheck, hnodup⟩ => ⟨_, hcheck, hnodup, rfl⟩⟩
  · obtain ⟨hcheck, hnodup, rfl⟩ := build_eq_ok_iff.mp hl
    refine ⟨rfl, hnodup, fun x i => idxOf?_of_nodup hnodup, fun k => ?_, fun i s hs v hv => ?_⟩
    · exact List.idxOf?_eq_none_iff.mpr (externalVar_not_persisted w k)
    · rw [slot?, List.isSome_idxOf?, mem_persisted]
      constructor
      · rintro ⟨t, ht, m, hm, hname⟩
        obtain ⟨j, hj⟩ := List.mem_iff_getElem?.mp ht
        refine ⟨j, t, ?_, hj, List.mem_map.mpr ⟨m, hm, hname⟩⟩
        rintro rfl
        obtain rfl : t = s := some.inj (hj.symm.trans hs)
        exact not_mem_persistedKeys (checkSites_ok.mp hcheck t ht) hv (paramVar_inj.mp hname ▸ hm)
      · rintro ⟨j, t, -, ht, hmem⟩
        obtain ⟨m, hm, hname⟩ := List.mem_map.mp hmem
        exact ⟨t, List.mem_of_getElem? ht, m, hm, hname⟩

end Layout

namespace Placeholder

open Layout

theorem orElse_some {p q : Option String} {v : String} (h : (p <|> q) = some v) :
    p = some v ∨ q = some v := by
  cases p with
  | none => exact .inr h
  | some x => exact .inl h

theorem resolve?_cases {s : Scope} {t x : String} (h : resolve? s t = some x) :
    (∃ m ∈ persistedKeys s.site.type ++ s.site.type.vars, x = paramVar s.site.id m) ∨
      ∃ b ∈ s.inputs, x = s.layout.bindingVar b := by
  have hoparam : ∀ o ∈ s.site.type.outputList, ∀ p ∈ o.params,
      outputParamId o.id p ∈ persistedKeys s.site.type ++ s.site.type.vars := by
    intro o ho p hp
    simp only [persistedKeys, List.mem_append, List.mem_flatMap, List.mem_map]
    exact .inl (.inr ⟨o, ho, p, hp, rfl⟩)
  rcases orElse_some h with h | h
  · left
    unfold Site.paramVar? at h
    split at h
    · rename_i hparam
      cases h
      exact ⟨t, by simp_all [persistedKeys], rfl⟩
    · rcases orElse_some h with h | h
      · obtain ⟨o, ho, hx⟩ := List.exists_of_findSome?_eq_some h
        obtain ⟨p, hp, rfl⟩ := map_eq_some_iff.mp hx
        exact ⟨_, hoparam o ho p (List.mem_of_find?_eq_some hp), outputParamVar_eq _ _ _⟩
      · split at h
        · rename_i hvar
          cases h
          exact ⟨t, by simp_all, rfl⟩
        · cases h
  rcases orElse_some h with h | h
  · left
    unfold Site.outputParamVar? at h
    split at h
    · rename_i hany
      cases h
      obtain ⟨o, ho, hid⟩ := List.any_eq_true.mp hany
      simp only [Bool.and_eq_true, beq_iff_eq, List.contains_iff_mem] at hid
      rw [← hid.1]
      exact ⟨_, hoparam o ho t hid.2, outputParamVar_eq _ _ _⟩
    · cases h
  rcases orElse_some h with h | h
  · obtain ⟨n, -, h⟩ := bind_eq_some_iff.mp h
    obtain ⟨b, hb, h⟩ := bind_eq_some_iff.mp h
    cases h
    exact .inr ⟨b, List.mem_of_getElem? hb, rfl⟩
  · obtain ⟨n, -, h⟩ := bind_eq_some_iff.mp h
    obtain ⟨o, ho, h⟩ := bind_eq_some_iff.mp h
    cases h
    refine .inl ⟨_, ?_, outputVar_eq _ _⟩
    simp only [persistedKeys, List.mem_append, List.mem_map]
    exact .inl (.inl (.inl ⟨o, List.mem_of_getElem? ho, rfl⟩))

end Placeholder

def Descriptor.overlap : Descriptor where
  width := 1
  height := 1
  cellTypes := some [
    { id := "t", vars := ["b_x"],
      outputs := some [{ id := "1", update := "0", before := "\x7bb_x\x7d = 7;" }] },
    { id := "s", params := ["x"], outputs := some [{ id := "1", update := "\x7bx\x7d" }] }]
  unit := {
    neighbors := "4"
    rows := some [{ cells := some [{ id := "a", type := "t" }, { id := "a_b", type := "s" }] }] }

theorem Layout.build_exact_overlap : ∃ w l s, Wiring.resolve Descriptor.overlap = .ok w ∧
    build w = .ok l ∧ w.sites[0]? = some s ∧ s.type.vars = ["b_x"] ∧
      (l.slot? (paramVar s.id "b_x")).isSome = true := by
  obtain ⟨w, hw, heval⟩ := Outcome.exists_ok (Wiring.resolve Descriptor.overlap)
    (fun w => (build w).toOption.any (fun _ => true) &&
      (w.sites.map fun s => (s.id, s.type.vars, s.type.params)) ==
        [("a", ["b_x"], []), ("a_b", [], ["x"])]) (by decide +kernel)
  simp only [Bool.and_eq_true, beq_iff_eq, List.map_eq_cons_iff, Prod.mk.injEq] at heval
  obtain ⟨hbuild, s, _, hsites, ⟨hs, hvars, -⟩, t, _, rfl, ⟨ht, -, hparams⟩, -⟩ := heval
  obtain ⟨l, hl, -⟩ := Outcome.exists_ok _ _ hbuild
  refine ⟨w, l, s, hw, hl, by rw [hsites]; rfl, hvars, ?_⟩
  refine (((build_exact w).2 l hl).2.2.2.2 0 s (by rw [hsites]; rfl) "b_x" (by simp [hvars])).mpr
    ⟨1, t, by decide, by rw [hsites]; rfl, List.mem_map.mpr ⟨"x", ?_, ?_⟩⟩
  · simp [persistedKeys, hparams]
  · rw [hs, ht]
    rfl

end TiledAutomata
