import Mathlib.Logic.Function.Basic
import TiledAutomata.Proofs.Outcome

/-!
# Compiled expressions have the value of their trees

A frame holds an assignment of words to names when every name that the resolver knows
has its word at its index. Folding keeps the value of a tree, so a compiled expression
has the value of the tree it was compiled from, and a compiled assignment changes the
one name it assigns. Which names a resolver knows is an input here.
-/

namespace TiledAutomata

open Outcome

abbrev Vars := String → Word

namespace Expr

section Reads

variable (x y z : Expr)

theorem reads_ident (n : String) : (ident n).reads = [n] := by
  simp [reads, nodes]

theorem reads_input : (input x).reads = x.reads := by
  simp [reads, nodes]

theorem reads_unary (o : UnaryOp) : (unary o x).reads = x.reads := by
  simp [reads, nodes]

theorem reads_binary (o : BinaryOp) : (binary o x y).reads = x.reads ++ y.reads := by
  simp [reads, nodes]

theorem reads_cond : (cond x y z).reads = x.reads ++ y.reads ++ z.reads := by
  simp [reads, nodes]

end Reads

variable {vars other : Vars} {input : Words}

theorem fold_eval (vars : Vars) (input : Words) (e : Expr) :
    e.fold.eval vars input = e.eval vars input := by
  induction e with
  | number v => rfl
  | ident x => rfl
  | inputLength => rfl
  | input i ih => simp only [fold, eval, ih]
  | unary o x ih =>
    simp only [fold, eval, ← ih]
    split <;> simp_all [eval]
  | binary o x y ihx ihy =>
    simp only [fold, eval, ← ihx, ← ihy]
    split <;> simp_all [eval]
  | cond c t e ihc iht ihe =>
    simp only [fold, eval, ← ihc, ← iht, ← ihe]
    split
    · rename_i v hv
      by_cases h0 : v = 0 <;> simp [hv, eval, h0]
    · simp [eval]

theorem eval_congr (e : Expr) (h : ∀ x ∈ e.reads, vars x = other x) :
    e.eval vars input = e.eval other input := by
  induction e with
  | number v => rfl
  | inputLength => rfl
  | ident x => exact h x (by simp [reads_ident])
  | input i ih =>
    rw [reads_input] at h
    simp only [eval]
    rw [ih h]
  | unary o x ih =>
    rw [reads_unary] at h
    simp only [eval]
    rw [ih h]
  | binary o x y ihx ihy =>
    simp only [reads_binary, List.mem_append] at h
    simp only [eval]
    rw [ihx fun z hz => h z (Or.inl hz), ihy fun z hz => h z (Or.inr hz)]
  | cond c t e ihc iht ihe =>
    simp only [reads_cond, List.mem_append] at h
    simp only [eval]
    rw [ihc fun z hz => h z (Or.inl (Or.inl hz)), iht fun z hz => h z (Or.inl (Or.inr hz)),
      ihe fun z hz => h z (Or.inr hz)]

theorem mem_idents {e : Expr} {x : String} : x ∈ e.idents ↔ x ∈ e.reads := by
  simp [idents]

end Expr

def Frame.Holds (r : Resolver) (f : Frame) (vars : Vars) : Prop :=
  ∀ x i, r x = some i → f.vars.getD i 0 = vars x

namespace Resolver

theorem index_ok {r : Resolver} {x : String} {i : Nat} (h : r.index x = .ok i) :
    r x = some i := by
  unfold index at h
  split at h <;> simp_all

end Resolver

/-- The operators with code of their own compute what all the others look up. -/
theorem BinaryOp.code_apply (o : BinaryOp) (x y : Code) (f : Frame) :
    o.code x y f = o.apply (x f) (y f) := by
  cases o <;> rfl

namespace Expr

variable {r : Resolver} {f : Frame} {vars : Vars}

theorem compile_eval (hf : f.Holds r vars) {e : Expr} {c : Code} (h : e.compile r = .ok c) :
    c f = e.eval vars f.input := by
  rw [← fold_eval]
  fun_induction compile r e generalizing c with
  | case1 e v he =>
    cases h
    rw [he, eval]
  | case2 e x he =>
    obtain ⟨i, hi, hc⟩ := bind_ok.mp h
    cases hc
    rw [he, eval]
    exact hf x i (Resolver.index_ok hi)
  | case3 e he =>
    cases h
    rw [he, eval]
  | case4 e i he ih =>
    obtain ⟨ci, hi, hc⟩ := bind_ok.mp h
    cases hc
    simp only [he, eval, ih hi, fold_eval]
  | case5 e o x he ih =>
    obtain ⟨cx, hx, hc⟩ := bind_ok.mp h
    cases hc
    simp only [he, eval, ih hx, fold_eval]
  | case6 e o x y he ihx ihy =>
    obtain ⟨cx, hx, h⟩ := bind_ok.mp h
    obtain ⟨cy, hy, hc⟩ := bind_ok.mp h
    cases hc
    simp only [he, eval, BinaryOp.code_apply, ihx hx, ihy hy, fold_eval]
  | case7 e t y z he iht ihy ihz =>
    obtain ⟨ct, ht, h⟩ := bind_ok.mp h
    obtain ⟨cy, hy, h⟩ := bind_ok.mp h
    obtain ⟨cz, hz, hc⟩ := bind_ok.mp h
    cases hc
    simp only [he, eval, iht ht, ihy hy, ihz hz, fold_eval]

end Expr

namespace Assign

def result (a : Assign) (vars : Vars) (input : Words) : Word :=
  match a.op with
  | some o => o.apply (vars a.target) (a.value.eval vars input)
  | none => a.value.eval vars input

def exec (input : Words) (vars : Vars) (a : Assign) : Vars :=
  Function.update vars a.target (a.result vars input)

def execAll (input : Words) (as : List Assign) (vars : Vars) : Vars := as.foldl (exec input) vars

variable {r : Resolver} {f : Frame} {vars : Vars}

theorem compile_ok {a : Assign} {x : Frame → Frame} (h : a.compile r = .ok x) :
    ∃ i, r a.target = some i ∧ ∀ f vars, f.Holds r vars →
      x f = { f with vars := f.vars.setIfInBounds i (a.result vars f.input) } := by
  obtain ⟨i, hi, h⟩ := bind_ok.mp h
  obtain ⟨c, hc, hx⟩ := bind_ok.mp h
  cases hx
  refine ⟨i, Resolver.index_ok hi, ?_⟩
  intro f vars hf
  have hv := hf a.target i (Resolver.index_ok hi)
  unfold result
  cases a.op with
  | none => simp only [Expr.compile_eval hf hc]
  | some o => simp only [Expr.compile_eval hf hc, hv]

end Assign

end TiledAutomata
