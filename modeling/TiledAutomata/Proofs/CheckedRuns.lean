import TiledAutomata.Proofs.Checked

/-!
# Runs with every access checked

A run of a plan once more, in a form that goes wrong where it reads or writes a word that
is not there or applies an operator that does not exist. Where all indices of a plan stand
for something, this form gives what the run gives, on every workspace of the plan and
every state of its size, and the workspace keeps its shape.
-/

open List

namespace TiledAutomata

open Outcome

attribute [local simp] Array.getD_eq_getD_getElem?

namespace Checked

section Arrays

variable {α β : Type}

def write (xs : Array α) (i : Nat) (a : α) : Option (Array α) :=
  if i < xs.size then some (xs.setIfInBounds i a) else none

/-- The word at a place that is computed with signed numbers. -/
def wordAt (xs : Words) (n : Int) : Option Word :=
  if 0 ≤ n then xs[n.toNat]? else none

/-- All words of a row replaced, as many as it has. -/
def refill (row : Words) (ws : List Word) : Option Words :=
  if ws.length = row.size then some ws.toArray else none

theorem write_safe {xs : Array α} {i : Nat} (h : i < xs.size) (a : α) :
    write xs i a = some (xs.setIfInBounds i a) := if_pos h

theorem refill_safe {row : Words} {ws : List Word} (h : ws.length = row.size) :
    refill row ws = some ws.toArray := if_pos h

theorem foldlM_safe {P : β → Prop} {f : β → α → Option β} {g : β → α → β} {xs : List α}
    (h : ∀ a ∈ xs, ∀ b, P b → f b a = some (g b a) ∧ P (g b a)) {b : β} (hb : P b) :
    xs.foldlM f b = some (xs.foldl g b) ∧ P (xs.foldl g b) := by
  induction xs generalizing b with
  | nil => exact ⟨rfl, hb⟩
  | cons a xs ih =>
    obtain ⟨hstep, hnext⟩ := h a (by simp) b hb
    rw [foldlM_cons, hstep]
    exact ih (fun c hc => h c (by simp [hc])) hnext

theorem modify_eq_set {xs : Array α} {i : Nat} {a : α} (h : xs[i]? = some a) (g : α → α) :
    xs.modify i g = xs.setIfInBounds i (g a) := by
  apply Array.ext_getElem?
  intro j
  rw [Array.getElem?_modify, Array.getElem?_setIfInBounds]
  by_cases hij : i = j
  · subst hij
    obtain ⟨hlt, ha⟩ := Array.getElem?_eq_some_iff.mp h
    simp [hlt, ha]
  · simp [hij]

end Arrays

/-! ## Statements -/

def cyclic (input : Words) (i : Word) : Option Word :=
  if input.size = 0 then some 0 else input[(i.toInt % (input.size : Int)).toNat]?

def eval (r : Resolver) (f : Frame) : Expr → Option Word
  | .number v => some v
  | .ident x => do f.vars[← r x]?
  | .inputLength => some (Int32.ofNat f.input.size)
  | .input i => do cyclic f.input (← eval r f i)
  | .unary o x => do (Operator.applyUnary o.text (← eval r f x)).toOption
  | .binary o x y => do (Operator.applyBinary o.text (← eval r f x) (← eval r f y)).toOption
  | .cond c t e => do if (← eval r f c) != 0 then eval r f t else eval r f e

def exec (r : Resolver) (f : Frame) (a : Assign) : Option Frame := do
  let i ← r a.target
  let v ← eval r f a.value.fold
  let w ← match a.op with
    | some o => do (Operator.applyBinary o.text (← f.vars[i]?) v).toOption
    | none => some v
  return { f with vars := ← write f.vars i w }

section Statements

variable {r : Resolver} {f : Frame} {n : Nat}

theorem cyclic_safe (input : Words) (i : Word) : cyclic input i = some (input.cyclic i) := by
  unfold cyclic Words.cyclic
  split
  · simp [*]
  · rename_i hn
    have hlt : (i.toInt % (input.size : Int)).toNat < input.size := by
      have h0 := Int.emod_nonneg i.toInt (b := input.size) (by omega)
      have h1 := Int.emod_lt_of_pos i.toInt (b := input.size) (by omega)
      omega
    simp [hlt]

theorem eval_safe (hr : ∀ x i, r x = some i → i < f.vars.size) {e : Expr} {c : Code}
    (h : e.compile r = .ok c) : eval r f e.fold = some (c f) := by
  fun_induction Expr.compile r e generalizing c with
  | case1 e v he =>
    cases h
    rw [he, eval]
  | case2 e x he =>
    obtain ⟨i, hi, h⟩ := bind_ok.mp h
    cases h
    have hx := Resolver.index_ok hi
    simp [he, eval, hx, hr x i hx]
  | case3 e he =>
    cases h
    rw [he, eval]
  | case4 e i he ih =>
    cases Expr.folded_of_fold he with
    | input hi =>
    obtain ⟨ci, hci, h⟩ := bind_ok.mp h
    cases h
    have hi := hi.fold_eq ▸ ih hci
    simp [he, eval, hi, cyclic_safe]
  | case5 e o x he ih =>
    cases Expr.folded_of_fold he with
    | unary _ hx _ =>
    obtain ⟨cx, hcx, h⟩ := bind_ok.mp h
    cases h
    have hx := hx.fold_eq ▸ ih hcx
    simp [he, eval, hx, applyUnary_safe]
  | case6 e o x y he ihx ihy =>
    cases Expr.folded_of_fold he with
    | binary _ hx hy _ =>
    obtain ⟨cx, hcx, h⟩ := bind_ok.mp h
    obtain ⟨cy, hcy, h⟩ := bind_ok.mp h
    cases h
    have hx := hx.fold_eq ▸ ihx hcx
    have hy := hy.fold_eq ▸ ihy hcy
    simp [he, eval, hx, hy, applyBinary_safe, BinaryOp.code_apply]
  | case7 e t y z he iht ihy ihz =>
    cases Expr.folded_of_fold he with
    | cond ht _ hy hz =>
    obtain ⟨ct, hct, h⟩ := bind_ok.mp h
    obtain ⟨cy, hcy, h⟩ := bind_ok.mp h
    obtain ⟨cz, hcz, h⟩ := bind_ok.mp h
    cases h
    have ht := ht.fold_eq ▸ iht hct
    have hy := hy.fold_eq ▸ ihy hcy
    have hz := hz.fold_eq ▸ ihz hcz
    simp only [he, eval, ht, hy, hz, Option.bind_eq_bind, Option.bind_some]
    exact (apply_ite some _ _ _).symm

theorem exec_safe (hr : ∀ x i, r x = some i → i < n) (hf : f.vars.size = n) {a : Assign}
    {x : Frame → Frame} (h : a.compile r = .ok x) :
    exec r f a = some (x f) ∧ (x f).vars.size = n := by
  obtain ⟨i, hi, h⟩ := bind_ok.mp h
  obtain ⟨v, hv, h⟩ := bind_ok.mp h
  cases h
  have hi := Resolver.index_ok hi
  have hlt : i < f.vars.size := hf ▸ hr _ i hi
  refine ⟨?_, by simp [hf]⟩
  unfold exec
  rw [hi, eval_safe (hf ▸ hr) hv]
  cases a.op with
  | none => simp [write_safe hlt]
  | some o =>
    simp [write_safe hlt, Array.getElem?_eq_getElem hlt, applyBinary_safe]

theorem execute_safe (hr : ∀ x i, r x = some i → i < n) (hf : f.vars.size = n)
    {as : List Assign} {xs : List (Frame → Frame)}
    (h : List.Forall₂ (fun a x => a.compile r = .ok x) as xs) :
    as.foldlM (exec r) f = some (Plan.execute xs f) ∧ (Plan.execute xs f).vars.size = n := by
  induction h generalizing f with
  | nil => exact ⟨rfl, hf⟩
  | cons ha _ ih =>
    obtain ⟨hstep, hsize⟩ := exec_safe hr hf ha
    rw [foldlM_cons, hstep]
    exact ih hsize

end Statements

/-! ## Phases -/

def update (ws : Workspace) (u : Nat) (g : Frame → Option Frame) : Option Workspace := do
  let f ← ws.frames[u]?
  return { ws with frames := ← write ws.frames u (← g f) }

def publish (q : Plan) (ws : Workspace) (u : Nat) : Option Workspace := do
  let f ← ws.frames[u]?
  let scratch ← (List.range q.inlets.length).foldlM (fun scratch k => do
    let e ← q.inlets[k]?
    write scratch (k * q.units + u) (← f.vars[e.source]?)) ws.scratch
  return { ws with scratch }

def load (q : Plan) (state input : Words) (ws : Workspace) (u : Nat) : Option Workspace := do
  let loaded ← update ws u fun f => do
    let slots ← (List.range q.slots).mapM fun s => state[s * q.units + u]?
    let vars ← refill f.vars (slots ++ List.replicate (f.vars.size - q.slots) 0)
    return ⟨vars, input⟩
  publish q loaded u

def observe (q : Plan) (scratch : Words) (u : Nat) (f : Frame) : Option Frame := do
  let vars ← q.inlets.zipIdx.foldlM (fun vars (e, k) => do
    let n ← e.reads[u]?
    write vars e.var (← wordAt scratch ((k * q.units : Nat) + n))) f.vars
  return { f with vars }

def store (q : Plan) (ws : Workspace) (state : Words) (u : Nat) : Option Words := do
  let f ← ws.frames[u]?
  q.stored.foldlM (fun st s => do write st (s * q.units + u) (← f.vars[s]?)) state

def eachUnit {α : Type} (q : Plan) (f : α → Nat → Option α) (a : α) : Option α :=
  (List.range q.units).foldlM f a

def execute (p : Program) (as : List Assign) (ws : Workspace) (u : Nat) : Option Workspace :=
  update ws u (as.foldlM (exec p.varIndex?))

def iterate (p : Program) (q : Plan) (ws : Workspace) : Option Workspace := do
  let ws ← eachUnit q (fun ws u => update ws u (observe q ws.scratch u)) ws
  let ws ← eachUnit q (execute p p.dynamic) ws
  eachUnit q (publish q) ws

def iterateN (p : Program) (q : Plan) : Nat → Workspace → Option Workspace
  | 0, ws => some ws
  | n + 1, ws => do iterateN p q n (← iterate p q ws)

def runPlan (p : Program) (q : Plan) (ws : Workspace) (state input : Words) :
    Option (Workspace × Words) := do
  let ws ← eachUnit q (load q state input) ws
  let ws ← eachUnit q (execute p p.constant) ws
  let ws ← iterateN p q q.iterations ws
  return (ws, ← eachUnit q (store q ws) state)

end Checked

structure Workspace.Shaped (q : Plan) (ws : Workspace) : Prop extends ws.Fits q where
  frame : ∀ (u : Nat) f, ws.frames[u]? = some f → f.vars.size = q.frameSize

/-- A plan whose indices all stand for something: those of statements and inlets for working
variables, those of units for units, and those that are stored for slots. -/
structure Plan.Sound (p : Program) (q : Plan) : Prop where
  slots : q.slots ≤ q.frameSize
  index : ∀ x i, p.varIndex? x = some i → i < q.frameSize
  var : ∀ e ∈ q.inlets, e.var < q.frameSize
  source : ∀ e ∈ q.inlets, e.source < q.frameSize
  reads : ∀ e ∈ q.inlets, ∀ u < q.units, ∃ n : Nat, e.reads[u]? = some (n : Int) ∧ n < q.units
  stored : ∀ s ∈ q.stored, s < q.slots
  constant : List.Forall₂ (fun a x => a.compile p.varIndex? = .ok x) p.constant q.constant
  dynamic : List.Forall₂ (fun a x => a.compile p.varIndex? = .ok x) p.dynamic q.dynamic

theorem Plan.workspace_shaped (q : Plan) : q.workspace.Shaped q := by
  refine ⟨q.workspace_fits, fun u f hf => ?_⟩
  simp only [workspace, Array.getElem?_replicate] at hf
  split at hf
  · cases hf
    simp
  · cases hf

theorem Plan.place?_of_reads {q : Plan} {u k n : Nat} {e : Plan.Inlet}
    (hn : e.reads[u]? = some (n : Int)) (h : k * q.units + n < q.inlets.length * q.units) :
    q.place? u e k = some (k * q.units + n) := by
  unfold place?
  simp only [Array.getD_eq_getD_getElem?, hn, Option.getD_some, ← Int.natCast_add]
  rw [if_pos (by omega), Int.toNat_natCast]

namespace Checked

section Phases

variable {p : Program} {q : Plan} {ws : Workspace} {u : Nat} {state input : Words}

theorem update_safe {g : Frame → Option Frame} {h : Frame → Frame} (hws : ws.Shaped q)
    (hu : u < q.units)
    (hg : ∀ f, f.vars.size = q.frameSize → g f = some (h f) ∧ (h f).vars.size = q.frameSize) :
    update ws u g = some { ws with frames := ws.frames.modify u h } ∧
      Workspace.Shaped q { ws with frames := ws.frames.modify u h } := by
  obtain ⟨f, hf⟩ := hws.toFits.frame hu
  obtain ⟨hgf, hsize⟩ := hg f (hws.frame u f hf)
  have hlt : u < ws.frames.size := hws.frames ▸ hu
  refine ⟨?_, ⟨by simp [hws.frames], hws.scratch⟩, ?_⟩
  · simp [update, hf, hgf, write_safe hlt, modify_eq_set hf]
  · intro v f' hf'
    simp only [Array.getElem?_modify] at hf'
    split at hf'
    · rename_i huv
      subst huv
      rw [hf] at hf'
      cases hf'
      exact hsize
    · exact hws.frame v f' hf'

theorem publish_safe (hq : q.Sound p) (hws : ws.Shaped q) (hu : u < q.units) :
    publish q ws u = some (q.publish ws u) ∧ (q.publish ws u).Shaped q := by
  obtain ⟨f, hf⟩ := hws.toFits.frame hu
  obtain ⟨hloop, -⟩ := foldlM_safe (P := fun scratch : Words => scratch.size = ws.scratch.size)
    (f := fun scratch k => do
      let e ← q.inlets[k]?
      write scratch (k * q.units + u) (← f.vars[e.source]?))
    (g := fun scratch k => scratch.setIfInBounds (k * q.units + u) ((q.visible f).getD k 0))
    (fun k hk scratch hscratch => by
      have hk := mem_range.mp hk
      have hsource : q.inlets[k].source < f.vars.size := by
        rw [hws.frame u f hf]
        exact hq.source _ (getElem_mem hk)
      have hplace : k * q.units + u < scratch.size := by
        rw [hscratch, hws.scratch]
        exact Plan.place_lt hk hu
      refine ⟨?_, by simp [hscratch]⟩
      simp [hk, hsource, write_safe hplace, Plan.visible] :
      ∀ k ∈ List.range q.inlets.length, _) rfl
  refine ⟨?_, Plan.publish_fits hws.toFits, fun v f' hf' => hws.frame v f' ?_⟩
  · unfold publish Plan.publish
    rw [hf, Option.bind_eq_bind, Option.bind_some, hloop]
    simp only [Plan.visible_size]
    rfl
  · rwa [Plan.publish_frames] at hf'

theorem loaded_vars (hq : q.Sound p) (input : Words) :
    (q.loaded state input u).vars =
      ((List.range q.slots).map (fun s => state.getD (s * q.units + u) 0) ++
        List.replicate (q.frameSize - q.slots) 0).toArray := by
  obtain ⟨k, hk⟩ := Nat.exists_eq_add_of_le hq.slots
  apply Array.toList_inj.mp
  simp only [Plan.loaded, Array.toList_map, Array.toList_range, hk, range_add,
    map_append, map_map, Nat.add_sub_cancel_left]
  congr 1
  · refine map_congr_left fun s hs => if_pos (mem_range.mp hs)
  · rw [eq_replicate_iff]
    refine ⟨by simp, fun w hw => ?_⟩
    obtain ⟨s, -, rfl⟩ := mem_map.mp hw
    exact if_neg (Nat.not_lt.mpr (Nat.le_add_right _ _))

theorem load_safe (hq : q.Sound p) (hstate : state.size = q.slots * q.units) (hws : ws.Shaped q)
    (hu : u < q.units) :
    load q state input ws u = some (q.load state input ws u) ∧
      (q.load state input ws u).Shaped q := by
  have hslots : (List.range q.slots).mapM (fun s => state[s * q.units + u]?) =
      some ((List.range q.slots).map fun s => state.getD (s * q.units + u) 0) := by
    refine mapM_some fun s hs => ?_
    have hlt : s * q.units + u < state.size := by
      have := Nat.mul_le_mul_right q.units (Nat.succ_le_of_lt (mem_range.mp hs))
      rw [Nat.succ_mul] at this
      omega
    simp [hlt]
  obtain ⟨hupdate, hshaped⟩ := update_safe (h := fun _ => q.loaded state input u) hws hu
    (g := fun f => do
      let slots ← (List.range q.slots).mapM fun s => state[s * q.units + u]?
      let vars ← refill f.vars (slots ++ List.replicate (f.vars.size - q.slots) 0)
      return ⟨vars, input⟩)
    (fun f hf => by
      have hlen : ((List.range q.slots).map (fun s => state.getD (s * q.units + u) 0) ++
          List.replicate (q.frameSize - q.slots) 0).length = f.vars.size := by
        have := hq.slots
        simp only [length_append, length_map, length_range, length_replicate]
        omega
      refine ⟨?_, by simp [Plan.loaded]⟩
      simp only [hslots, hf, refill_safe hlen, Option.bind_eq_bind, Option.bind_some]
      rw [← loaded_vars hq input]
      rfl)
  obtain ⟨f, hf⟩ := hws.toFits.frame hu
  have hmodify : ws.frames.modify u (fun _ => q.loaded state input u) =
      ws.frames.setIfInBounds u (q.loaded state input u) := modify_eq_set hf _
  rw [hmodify] at hupdate hshaped
  unfold load
  rw [hupdate]
  exact publish_safe hq hshaped hu

theorem observe_safe (hq : q.Sound p) (hws : ws.Shaped q) (hu : u < q.units) {f : Frame}
    (hf : f.vars.size = q.frameSize) :
    observe q ws.scratch u f = some (q.observe ws.scratch u f) ∧
      (q.observe ws.scratch u f).vars.size = q.frameSize := by
  obtain ⟨hloop, hsize⟩ := foldlM_safe (P := fun vars : Words => vars.size = q.frameSize)
    (f := fun vars (e : Plan.Inlet × Nat) => do
      let n ← e.1.reads[u]?
      write vars e.1.var (← wordAt ws.scratch ((e.2 * q.units : Nat) + n)))
    (g := fun vars (e : Plan.Inlet × Nat) =>
      vars.setIfInBounds e.1.var (q.received ws.scratch u e.1 e.2))
    (fun e he vars hvars => by
      obtain ⟨hk, hget⟩ := mem_zipIdx' he
      have hmem : e.1 ∈ q.inlets := hget ▸ getElem_mem _
      obtain ⟨n, hn, hlt⟩ := hq.reads e.1 hmem u hu
      have hplace := Plan.place_lt hk hlt
      obtain ⟨w, hw⟩ := hws.toFits.word hplace
      have hread : q.received ws.scratch u e.1 e.2 = w := by
        rw [Plan.received, Plan.place?_of_reads hn hplace, Option.bind_some, hw, Option.getD_some]
      have hword : wordAt ws.scratch ((e.2 * q.units : Nat) + (n : Int)) = some w := by
        rw [wordAt, if_pos (by omega), ← Int.natCast_add, Int.toNat_natCast, hw]
      have hvar : e.1.var < vars.size := hvars ▸ hq.var e.1 hmem
      refine ⟨?_, by simp [hvars]⟩
      simp only [hn, hword, hread, write_safe hvar, Option.bind_eq_bind, Option.bind_some] :
      ∀ e ∈ q.inlets.zipIdx, _) hf
  refine ⟨?_, hsize⟩
  unfold observe
  rw [hloop]
  rfl

theorem store_safe (hq : q.Sound p) (hws : ws.Shaped q) (hstate : state.size = q.slots * q.units)
    (hu : u < q.units) :
    store q ws state u = some (q.store ws state u) ∧
      (q.store ws state u).size = q.slots * q.units := by
  obtain ⟨f, hf⟩ := hws.toFits.frame hu
  have hstore : q.store ws state u = q.stored.foldl
      (fun st s => st.setIfInBounds (s * q.units + u) (f.vars.getD s 0)) state := by
    simp [Plan.store, hf]
  rw [hstore]
  simp only [store, hf, Option.bind_eq_bind, Option.bind_some]
  refine foldlM_safe (P := fun st : Words => st.size = q.slots * q.units) (fun s hs st hst => ?_)
    hstate
  have hslot := hq.stored s hs
  have hword : s < f.vars.size := by
    rw [hws.frame u f hf]
    exact Nat.lt_of_lt_of_le hslot hq.slots
  have hplace : s * q.units + u < st.size := by
    have := Nat.mul_le_mul_right q.units (Nat.succ_le_of_lt hslot)
    rw [Nat.succ_mul] at this
    omega
  exact ⟨by simp [hword, write_safe hplace], by simp [hst]⟩

theorem eachUnit_safe {α : Type} {P : α → Prop} {f : α → Nat → Option α} {g : α → Nat → α} {a : α}
    (h : ∀ u < q.units, ∀ a, P a → f a u = some (g a u) ∧ P (g a u)) (ha : P a) :
    eachUnit q f a = some (q.eachUnit g a) ∧ P (q.eachUnit g a) :=
  foldlM_safe (fun u hu => h u (mem_range.mp hu)) ha

theorem execute_phase (hq : q.Sound p) {as : List Assign} {xs : List (Frame → Frame)}
    (h : List.Forall₂ (fun a x => a.compile p.varIndex? = .ok x) as xs) (hws : ws.Shaped q)
    (hu : u < q.units) :
    execute p as ws u = some { ws with frames := ws.frames.modify u (Plan.execute xs) } ∧
      Workspace.Shaped q { ws with frames := ws.frames.modify u (Plan.execute xs) } :=
  update_safe hws hu fun _ hf => execute_safe hq.index hf h

theorem iterate_safe (hq : q.Sound p) (hws : ws.Shaped q) :
    iterate p q ws = some (q.iterate ws) ∧ (q.iterate ws).Shaped q := by
  obtain ⟨hsnapshot, hws⟩ := eachUnit_safe (P := Workspace.Shaped q) (g := q.snapshot)
    (fun u hu ws hws => update_safe hws hu fun f hf => observe_safe hq hws hu hf) hws
  obtain ⟨hstep, hws⟩ := eachUnit_safe (P := Workspace.Shaped q) (g := q.step)
    (fun u hu ws hws => execute_phase hq hq.dynamic hws hu) hws
  obtain ⟨hpublish, hws⟩ := eachUnit_safe (P := Workspace.Shaped q) (g := q.publish)
    (fun u hu ws hws => publish_safe hq hws hu) hws
  refine ⟨?_, hws⟩
  simp only [iterate, hsnapshot, hstep, hpublish, Option.bind_eq_bind, Option.bind_some]
  rfl

theorem iterateN_safe (hq : q.Sound p) (n : Nat) (hws : ws.Shaped q) :
    iterateN p q n ws = some (q.iterateN n ws) ∧ (q.iterateN n ws).Shaped q := by
  induction n generalizing ws with
  | zero => exact ⟨rfl, hws⟩
  | succ n ih =>
    obtain ⟨hstep, hws⟩ := iterate_safe hq hws
    rw [iterateN, hstep]
    exact ih hws

theorem runPlan_safe (hq : q.Sound p) (hws : ws.Shaped q)
    (hstate : state.size = q.slots * q.units) (input : Words) :
    runPlan p q ws state input = some (q.run ws state input) ∧
      (q.run ws state input).1.Shaped q ∧ (q.run ws state input).2.size = state.size := by
  obtain ⟨hload, hws⟩ := eachUnit_safe (P := Workspace.Shaped q) (g := q.load state input)
    (fun u hu ws hws => load_safe hq hstate hws hu) hws
  obtain ⟨hconstants, hws⟩ := eachUnit_safe (P := Workspace.Shaped q) (g := q.constants)
    (fun u hu ws hws => execute_phase hq hq.constant hws hu) hws
  obtain ⟨hiterate, hws⟩ := iterateN_safe hq q.iterations hws
  obtain ⟨hstore, hsize⟩ := eachUnit_safe (P := fun st : Words => st.size = q.slots * q.units)
    (g := q.store _) (fun u hu st hst => store_safe hq hws hst hu) hstate
  refine ⟨?_, hws, hsize.trans hstate.symm⟩
  simp only [runPlan, hload, hconstants, hiterate, hstore, Option.bind_eq_bind, Option.bind_some]
  rfl

end Phases

end Checked

end TiledAutomata
