import Mathlib.Data.List.Induction
import TiledAutomata.Device.Basic

/-!
# What a record of calls tells about resources

A call creates a resource, destroys one, or works on some. In an orderly record every
resource is new when it is created, and alive whenever it is worked on or destroyed. So it
is created once, destroyed once at most, and not touched after that.
-/

namespace TiledAutomata.Device

variable {c : Call}

inductive Kind where
  | shader
  | bindLayout
  | pipeLayout
  | pipeline
  | bindGroup
  | buffer
  deriving DecidableEq, Repr

variable {k : Kind}

structure Item where
  kind : Kind
  handle : Handle
  deriving DecidableEq, Repr

namespace Call

def makes : Call → Option Kind
  | .shader => some .shader
  | .bindLayout => some .bindLayout
  | .pipeLayout _ => some .pipeLayout
  | .pipeline _ => some .pipeline
  | .bindGroup _ => some .bindGroup
  | .buffer _ _ => some .buffer
  | _ => none

def ends : Call → Option Kind
  | .destroyShader => some .shader
  | .destroyBindLayout => some .bindLayout
  | .destroyPipeLayout => some .pipeLayout
  | .destroyPipeline => some .pipeline
  | .destroyBindGroup => some .bindGroup
  | .destroyBuffer _ => some .buffer
  | _ => none

def takes : Call → List Kind
  | .write _ _ | .map _ | .unmap => [.buffer]
  | .copy _ _ => [.buffer, .buffer]
  | .dispatch _ _ _ => [.pipeline, .bindGroup]
  | c => c.ends.toList

theorem takes_of_ends (h : c.ends = some k) : c.takes = [k] := by
  cases c <;> simp_all [ends, takes]

theorem takes_of_makes (h : c.makes = some k) :
    c.takes = [] ∧ c.ends = none ∧ c ≠ .destroyDevice := by
  cases c <;> simp_all [makes, takes, ends]

theorem makes_of_ends (h : c.ends = some k) : c.makes = none ∧ c ≠ .destroyDevice := by
  cases c <;> simp_all [makes, ends]

end Call

namespace Event

variable {e : Event} {x y : Item}

def makes (e : Event) (x : Item) : Bool :=
  !e.failed && e.call.makes == some x.kind && e.handles == [some x.handle]

def ends (e : Event) (x : Item) : Bool :=
  e.call.ends == some x.kind && e.handles == [some x.handle]

def Concerns (e : Event) (x : Item) : Prop := (x.kind, some x.handle) ∈ e.call.takes.zip e.handles

def Whole (e : Event) : Prop := e.call.takes.length ≤ e.handles.length ∧ none ∉ e.handles

theorem concerns_of_ends (h : e.ends x = true) : e.Concerns x := by
  simp only [ends, Bool.and_eq_true, beq_iff_eq] at h
  simp [Concerns, Call.takes_of_ends h.1, h.2]

theorem makes_of_ends (h : e.ends x = true) : e.makes x = false := by
  simp only [ends, Bool.and_eq_true, beq_iff_eq] at h
  simp [makes, (Call.makes_of_ends h.1).1]

theorem makes_iff {c : Call} {j : Handle} {failed : Bool} (h : c.makes = some k) :
    (⟨c, [some j], failed⟩ : Event).makes x = true ↔ failed = false ∧ x = ⟨k, j⟩ := by
  obtain ⟨k', j'⟩ := x
  simp [makes, h, eq_comm (a := k), eq_comm (a := j), and_assoc]

theorem ends_iff {c : Call} {j : Handle} {failed : Bool} (h : c.ends = some k) :
    (⟨c, [some j], failed⟩ : Event).ends x = true ↔ x = ⟨k, j⟩ := by
  obtain ⟨k', j'⟩ := x
  simp [ends, h, eq_comm (a := k), eq_comm (a := j)]

end Event

variable {es before after : List Event} {e : Event} {x y : Item}

def made (es : List Event) (x : Item) : Nat := es.countP (·.makes x)

def gone (es : List Event) (x : Item) : Nat := es.countP (·.ends x)

def Alive (es : List Event) (x : Item) : Prop := made es x = 1 ∧ gone es x = 0

/-- Resources are new when they are created, and alive when a call is given them. -/
def Orderly (es : List Event) : Prop :=
  ∀ before e after, es = before ++ e :: after →
    (∀ x, e.makes x = true → made before x = 0) ∧ ∀ x, e.Concerns x → Alive before x

theorem made_snoc : made (es ++ [e]) x = made es x + (e.makes x).toNat := by
  cases h : e.makes x <;> simp [made, h]

theorem gone_snoc : gone (es ++ [e]) x = gone es x + (e.ends x).toNat := by
  cases h : e.ends x <;> simp [gone, h]

theorem orderly_nil : Orderly [] := by
  intro before e after h
  simp at h

theorem Orderly.snoc (h : Orderly es) (hnew : ∀ x, e.makes x = true → made es x = 0)
    (halive : ∀ x, e.Concerns x → Alive es x) : Orderly (es ++ [e]) := by
  intro before e' after heq
  rcases List.eq_nil_or_concat after with rfl | ⟨rest, last, rfl⟩
  · obtain ⟨rfl, he⟩ := List.append_inj' heq rfl
    cases he
    exact ⟨hnew, halive⟩
  · rw [List.concat_eq_append, ← List.cons_append, ← List.append_assoc] at heq
    exact h before e' rest (List.append_inj' heq rfl).1

theorem Orderly.of_snoc (h : Orderly (es ++ [e])) :
    Orderly es ∧ (∀ x, e.makes x = true → made es x = 0) ∧ ∀ x, e.Concerns x → Alive es x := by
  refine ⟨fun before e' after heq => h before e' (after ++ [e]) (by simp [heq]), ?_⟩
  exact h es e [] rfl

theorem Orderly.once (h : Orderly es) (x : Item) : made es x ≤ 1 ∧ gone es x ≤ made es x := by
  induction es using List.reverseRecOn with
  | nil => simp [made, gone]
  | append_singleton es e ih =>
    obtain ⟨hes, hnew, halive⟩ := h.of_snoc
    obtain ⟨hmade, hgone⟩ := ih hes
    rw [made_snoc, gone_snoc]
    have hends : e.ends x = true → made es x = 1 ∧ gone es x = 0 :=
      fun he => halive x (Event.concerns_of_ends he)
    have hmakes := hnew x
    cases he : e.ends x <;> cases hm : e.makes x <;> simp_all

theorem Orderly.gone_eq (h : Orderly es) (hdead : ¬Alive es x) : gone es x = made es x := by
  obtain ⟨hmade, hgone⟩ := h.once x
  have hnot : ¬(made es x = 1 ∧ gone es x = 0) := hdead
  omega

/-- A record in which resources are created and then destroyed, each once at most, and the device
itself is left alone. -/
structure Tended (es : List Event) : Prop where
  orderly : Orderly es
  once : ∀ x, made es x ≤ 1 ∧ gone es x ≤ made es x
  spared : ∀ e ∈ es, e.call ≠ .destroyDevice

theorem Orderly.alive_snoc (h : Orderly (es ++ [e])) :
    Alive (es ++ [e]) x ↔ e.makes x = true ∨ Alive es x ∧ e.ends x = false := by
  obtain ⟨hes, hnew, -⟩ := h.of_snoc
  have hgone := (hes.once x).2
  have hmakes := hnew x
  have hends : e.ends x = true → e.makes x = false := Event.makes_of_ends
  rw [Alive, Alive, made_snoc, gone_snoc]
  cases he : e.ends x <;> cases hm : e.makes x <;> simp_all

end TiledAutomata.Device
