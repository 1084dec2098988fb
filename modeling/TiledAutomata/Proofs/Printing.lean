import TiledAutomata.Proofs.Target.HostMeaning
import TiledAutomata.Proofs.Target.ShaderMeaning

/-!
# Printed expressions mean what they were compiled to

The text of an expression is read by the grammar of its target, with the precedence of its
operators, and evaluated with the helpers that are read from the emitted source. In both
targets the reader finds the operands of every operator where the expression has them, and
the value is the one that the compiled expression has on a frame.
-/

namespace TiledAutomata

open Emit Outcome

/-- Names need only be names of the target. The host may say a constant where it wants a word; the
shader reads its variables and its input from any memory that holds them. -/
theorem printing_faithful {r : Resolver} {e : Expr} {c : Code} (hc : e.compile r = .ok c)
    {f : Frame} {vars : Vars} (hf : f.Holds r vars) (hs : f.input.size < 2 ^ 31) :
    ((∀ x ∈ e.idents, Host.FieldName x) →
      ∃ fs v, Host.functions? (Block.source "\t" Host.helperBlocks) = some fs ∧
        Host.expression? (e.print Dialect.host Package.env) =
          some (Host.wording.phrase e.fold).term ∧
        (Host.setting fs vars f.input).value (Host.wording.phrase e.fold).term = some v ∧
        v.assigned? "int32" = some (.int32 (c f))) ∧
    ((∀ x ∈ e.idents, Shader.MemberName x) →
      ∃ fs, Shader.functions? (Block.source "    " Kernel.helpers) = some fs ∧
        Shader.expression? (e.print Dialect.shader Kernel.env) =
          some (Shader.wording.phrase e.fold).term ∧
        ∀ (m : Shader.Memory) (k : UInt32), m.Holds k vars f.input →
          (Shader.setting fs m k).value (Shader.wording.phrase e.fold).term =
            some (.i32 (c f))) := by
  rw [Expr.compile_eval hf hc]
  constructor
  · intro hn
    obtain ⟨v, hv, hword⟩ := Host.value_phrase e vars hs
    exact ⟨_, v, Host.functions?_helpers, Host.expression?_print e hn, hv, hword⟩
  · intro hn
    refine ⟨_, Shader.functions?_helpers, Shader.expression?_print e hn, ?_⟩
    intro m k hm
    exact Shader.value_phrase e hm hs

/-- Differences in brackets and out of them, a negative count of a shift, and an input read from
behind its start. -/
theorem printing_faithful_mixed :
    let host := "(u.a - caShl((u.b - caInput(input, (-u.a))), (-3)))"
    let shader := "(units[k].a - ca_shl((units[k].b - ca_input((-units[k].a))), (-3i)))"
    let vars : Vars := fun x => if x = "a" then 5 else -2
    let memory : Shader.Memory := ⟨#[fun _ => 0, vars], 3, #[7, 7, 10, 20, 30], 2⟩
    (∃ e, Expr.parse (Text.ascii "a - (b - automatonInput[-a] << -3)") = .ok e ∧
      e.print Dialect.host Package.env = host ∧ e.print Dialect.shader Kernel.env = shader) ∧
    (∃ fs t v, Host.functions? (Block.source "\t" Host.helperBlocks) = some fs ∧
      Host.expression? host = some t ∧
      (Host.setting fs vars #[10, 20, 30]).value t = some v ∧
      v.assigned? "int32" = some (.int32 (-1073741819))) ∧
    ∃ fs t, Shader.functions? (Block.source "    " Kernel.helpers) = some fs ∧
      Shader.expression? shader = some t ∧
      (Shader.setting fs memory 1).value t = some (.i32 (-1073741819)) := by
  intro host shader vars memory
  let r : Resolver := fun x => if x = "a" then some 0 else if x = "b" then some 1 else none
  let f : Frame := ⟨#[5, -2], #[10, 20, 30]⟩
  let e : Expr := .binary .sub (.ident "a") (.binary .shl
    (.binary .sub (.ident "b") (.input (.unary .neg (.ident "a")))) (.unary .neg (.number 3)))
  obtain ⟨p, hp, hpe⟩ := exists_ok (Expr.parse (Text.ascii "a - (b - automatonInput[-a] << -3)"))
    (· == e) (by decide +kernel)
  obtain ⟨c, hc, hvalue⟩ := exists_ok (e.compile r) (fun c => c f == -1073741819)
    (by decide +kernel)
  have hf : f.Holds r vars := by
    intro x i hi
    by_cases ha : x = "a"
    · obtain rfl : 0 = i := by simpa [r, ha] using hi
      simp [f, vars, ha]
    · by_cases hb : x = "b"
      · obtain rfl : 1 = i := by simpa [r, hb] using hi
        simp [f, vars, hb]
      · simp [r, ha, hb] at hi
  have hm : memory.Holds 1 vars f.input := by
    refine ⟨⟨rfl, by decide, ?_⟩, rfl⟩
    show ∀ i < 3, _
    decide
  have hhost : e.print Dialect.host Package.env = host := by decide +kernel
  have hshader : e.print Dialect.shader Kernel.env = shader := by decide +kernel
  obtain ⟨onHost, onShader⟩ := printing_faithful hc hf (by decide)
  obtain ⟨fs, v, hfs, ht, hv, hword⟩ := onHost (by decide +kernel)
  obtain ⟨gs, hgs, hu, hw⟩ := onShader (by decide +kernel)
  rw [hhost] at ht
  rw [hshader] at hu
  rw [beq_iff_eq] at hpe hvalue
  refine ⟨⟨p, hp, hpe ▸ hhost, hpe ▸ hshader⟩, ⟨fs, _, v, hfs, ht, hv, hvalue ▸ hword⟩, ?_⟩
  exact ⟨gs, _, hgs, hu, hvalue ▸ hw memory 1 hm⟩

end TiledAutomata
