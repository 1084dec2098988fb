import TiledAutomata.Proofs.Evaluation

/-!
# What folding leaves

A folded tree applies no operator to numbers alone and reads no other names than the tree
it was folded from.
-/

namespace TiledAutomata.Expr

open List

def isNumber : Expr → Bool
  | .number _ => true
  | _ => false

theorem isNumber_eq_true {e : Expr} (h : e.isNumber = true) : ∃ v, e = .number v := by
  cases e with
  | number v => exact ⟨v, rfl⟩
  | _ => cases h

inductive Folded : Expr → Prop where
  | number (v : Word) : Folded (.number v)
  | ident (x : String) : Folded (.ident x)
  | inputLength : Folded .inputLength
  | input {i : Expr} : Folded i → Folded (.input i)
  | unary (o : UnaryOp) {x : Expr} : Folded x → x.isNumber = false → Folded (.unary o x)
  | binary (o : BinaryOp) {x y : Expr} : Folded x → Folded y →
    (x.isNumber && y.isNumber) = false → Folded (.binary o x y)
  | cond {c t e : Expr} : Folded c → c.isNumber = false → Folded t → Folded e →
    Folded (.cond c t e)

theorem folded_fold (e : Expr) : e.fold.Folded := by
  induction e with
  | number v => exact .number v
  | ident x => exact .ident x
  | inputLength => exact .inputLength
  | input i ih => exact .input ih
  | unary o x ih =>
    simp only [fold]
    split
    · exact .number _
    · next hx =>
      refine .unary o ih (Bool.not_eq_true _ ▸ ?_)
      intro h
      obtain ⟨v, hv⟩ := isNumber_eq_true h
      exact hx v hv
  | binary o x y ihx ihy =>
    simp only [fold]
    split
    · exact .number _
    · next hxy =>
      refine .binary o ihx ihy (Bool.not_eq_true _ ▸ ?_)
      intro h
      rw [Bool.and_eq_true] at h
      obtain ⟨a, ha⟩ := isNumber_eq_true h.1
      obtain ⟨b, hb⟩ := isNumber_eq_true h.2
      exact hxy a b ha hb
  | cond c t e ihc iht ihe =>
    simp only [fold]
    split
    · split
      · exact iht
      · exact ihe
    · next hc =>
      refine .cond ihc (Bool.not_eq_true _ ▸ ?_) iht ihe
      intro h
      obtain ⟨v, hv⟩ := isNumber_eq_true h
      exact hc v hv

theorem Folded.fold_eq {e : Expr} (h : e.Folded) : e.fold = e := by
  induction h with
  | number v => rfl
  | ident x => rfl
  | inputLength => rfl
  | input _ ih => rw [fold, ih]
  | unary o _ hx ih =>
    simp only [fold, ih]
    split
    · cases hx
    · rfl
  | binary o _ _ hxy ihx ihy =>
    simp only [fold, ihx, ihy]
    split
    · cases hxy
    · rfl
  | cond _ hc _ _ ihc iht ihe =>
    simp only [fold, ihc, iht, ihe]
    split
    · cases hc
    · rfl

/-- The trees below a folded root are folded: folding them again changes nothing. -/
theorem folded_of_fold {e e' : Expr} (h : e.fold = e') : e'.Folded := h ▸ folded_fold e

theorem reads_fold (e : Expr) {n : String} (h : n ∈ e.fold.reads) : n ∈ e.reads := by
  induction e with
  | number v => exact h
  | ident x => exact h
  | inputLength => exact h
  | input i ih =>
    rw [fold, reads_input] at h
    rw [reads_input]
    exact ih h
  | unary o x ih =>
    rw [reads_unary]
    simp only [fold] at h
    split at h
    · simp [reads, nodes] at h
    · rw [reads_unary] at h
      exact ih h
  | binary o x y ihx ihy =>
    rw [reads_binary, mem_append]
    simp only [fold] at h
    split at h
    · simp [reads, nodes] at h
    · rw [reads_binary, mem_append] at h
      exact h.imp ihx ihy
  | cond c t e ihc iht ihe =>
    rw [reads_cond, mem_append, mem_append]
    simp only [fold] at h
    split at h
    · split at h
      · exact .inl (.inr (iht h))
      · exact .inr (ihe h)
    · rw [reads_cond, mem_append, mem_append] at h
      exact h.imp (Or.imp ihc iht) ihe

end TiledAutomata.Expr
