import TiledAutomata.Proofs.Target.Meaning
import TiledAutomata.Proofs.Target.ShaderHelpers
import TiledAutomata.Proofs.Target.ShaderReading

/-!
# What printed shader expressions compute
-/

open Int32

namespace TiledAutomata.Emit.Shader

open Target Value

/-- An expression of a phase of a unit: its place among the units of the invocation is in sight,
and the helpers of the kernel can be called. -/
def setting (fs : List Function) (m : Memory) (k : UInt32) : Setting Value where
  machine := machine
  calls := machine.calls m.globals fs 1
  scope := ("k", .u32 k) :: m.globals

structure Memory.Holds (m : Memory) (k : UInt32) (vars : Vars) (input : Words) : Prop
    extends m.HasInput input where
  unit : m.units[k.toNat]? = some vars

/-! ## Operators -/

section Operators

variable {a b : Word}

theorem binary?_apply {o : BinaryOp} (hh : Dialect.helper? o = none)
    (hl : Dialect.isLogical o = false) (hc : Dialect.isComparison o = false) :
    binary? o.text (.i32 a) (.i32 b) = some (.i32 (o.apply a b)) := by
  cases o <;> first
    | rfl
    | exact absurd hh (by decide)
    | exact absurd hl (by decide)
    | exact absurd hc (by decide)

theorem binary?_compare {o : BinaryOp} (hc : Dialect.isComparison o = true) :
    ∃ t, binary? o.text (.i32 a) (.i32 b) = some (.bool t) ∧ Word.ofBool t = o.apply a b := by
  cases o <;> first
    | exact absurd hc (by decide)
    | exact ⟨_, rfl, rfl⟩

theorem helper_names : ["Div", "Mod", "Shl", "Shr", "Ushr"].map wording.helper =
    ["ca_div", "ca_mod", "ca_shl", "ca_shr", "ca_ushr"] := by
  decide +kernel

theorem call_helper {globals : Target.Scope Value} {o : BinaryOp} {h : String}
    (ho : Dialect.helper? o = some h) :
    machine.calls globals Helper.all 1 (wording.helper h) [] [.i32 a, .i32 b] =
      some (.i32 (o.apply a b)) := by
  have hnames := helper_names
  simp only [List.map_cons, List.map_nil, List.cons.injEq, and_true] at hnames
  obtain ⟨hdiv, hmod, hshl, hshr, hushr⟩ := hnames
  cases o with
  | div =>
    cases ho
    rw [hdiv]
    exact apply_div
  | mod =>
    cases ho
    rw [hmod]
    exact apply_mod
  | shl =>
    cases ho
    rw [hshl, ← ofInt_shl]
    exact apply_shift "ca_shl" (.inl rfl) rfl
  | shr =>
    cases ho
    rw [hshr, ← ofInt_shr]
    exact apply_shift "ca_shr" (.inr rfl) rfl
  | ushr =>
    cases ho
    rw [hushr]
    exact apply_unsignedShift
  | _ => cases ho

end Operators

/-! ## Expressions -/

theorem literal?_signed {n : Nat} (hn : n < 2 ^ 31) :
    literal? (toString n ++ "i") = some (.i32 (Int32.ofNat n)) := by
  rw [literal?_append n (show "i".toList = ['i'] by decide), lettered?, if_pos hn]

theorem eval_literal (s : Setting Value) (hs : s.machine = machine) (v : Word) :
    s.eval (wording.literal v) = some (.i32 v) := by
  have hlow := v.le_toInt
  have hhigh := v.toInt_lt
  simp only [wording]
  split
  · next hmin =>
    rw [beq_iff_eq.mp hmin, Setting.eval, Setting.value, hs]
    exact eval_least
  · next hmin =>
    have hne : v.toInt ≠ -2 ^ 31 := by
      intro h
      apply hmin
      rw [beq_iff_eq, ← toInt_inj, h]
      rfl
    split
    · next h =>
      have hneg : v.toInt < 0 := lt_iff_toInt_lt.mp h
      have hnumeral := literal?_signed (n := v.toInt.natAbs) (by omega)
      have hvalue : -Int32.ofNat v.toInt.natAbs = v := by
        rw [← toInt_inj, toInt_neg, toInt_ofNat_of_lt (by omega)]
        have habs : -(v.toInt.natAbs : Int) = v.toInt := by omega
        rw [habs]
        exact Int.bmod_eq_of_le (by omega) (by omega)
      simp only [Setting.eval, Setting.value, Phrase.group, Phrase.unary, Phrase.number,
        Machine.eval, hs, machine_literal, machine_unary, hnumeral, Option.bind_eq_bind,
        Option.bind_some, unary?, hvalue]
    · next h =>
      have hle : 0 ≤ v.toInt := by simpa [lt_iff_toInt_lt] using h
      have hnumeral := literal?_signed (n := v.toInt.toNat) (by omega)
      have hvalue : Int32.ofNat v.toInt.toNat = v := by
        rw [← toInt_inj, toInt_ofNat_of_lt (by omega)]
        omega
      rw [text_nonneg h]
      simp only [Setting.eval, Setting.value, Phrase.number, Machine.eval, hs, machine_literal,
        hnumeral, hvalue]

theorem wording_means {m : Memory} {k : UInt32} {vars : Vars} {input : Words}
    (hm : m.Holds k vars input) (hs : input.size < 2 ^ 31) :
    wording.Means (setting Helper.all m k) (fun _ v a => v = .i32 a) vars input := by
  constructor
  case literal => exact fun a => ⟨_, eval_literal _ rfl a, rfl⟩
  case ident =>
    intro x
    refine ⟨_, ?_, rfl⟩
    simp [wording, setting, Setting.eval, Setting.value, Machine.eval, Memory.globals,
      List.lookup_cons, index?, hm.unit, select?]
  case inputLength =>
    have hsize : (setting Helper.all m k).eval ⟨[.word "params", .mark ".", .word "input_size"],
        .select (.name "params") "input_size"⟩ = some (.u32 m.size) := by
      simp [setting, Setting.eval, Setting.value, Machine.eval, Memory.globals, List.lookup_cons,
        select?]
    have hword : m.size.toInt32 = Int32.ofNat input.size := by
      rw [← hm.size]
      exact congrArg UInt32.toInt32 UInt32.ofNat_toNat.symm
    refine ⟨_, ?_, rfl⟩
    rw [wording, Setting.eval_call _ _ _ [.u32 m.size] (by simp [hsize]), ← hword]
    rfl
  case input =>
    rintro p x a j hp rfl
    refine ⟨_, ?_, rfl⟩
    rw [wording, Setting.eval_call _ _ _ [.i32 a] (by simp [hp])]
    exact apply_input hm.toHasInput hs
  case truth => exact fun b => rfl
  case zero =>
    refine ⟨.i32 0, literals.1, ?_⟩
    rintro x a j rfl
    by_cases h : a = 0 <;> simp [setting, binary?, operate?, compare?, h]
  case call => exact fun b => ⟨_, apply_bool b, rfl⟩
  case neg | compl =>
    rintro x a rfl
    exact ⟨_, rfl, rfl⟩
  case between =>
    rintro o hh hl x y a b i j rfl rfl -
    split
    · next hc => exact binary?_compare hc
    · next hc => exact ⟨_, binary?_apply hh hl (Bool.not_eq_true _ ▸ hc), rfl⟩
  case helper =>
    rintro o h ho x y a b i j rfl rfl
    exact ⟨_, call_helper ho, rfl⟩
  case cond =>
    rintro c p q b x y a d i j hc hp rfl hq rfl
    refine ⟨_, ?_, rfl⟩
    rw [wording, Setting.eval_call _ _ _ [.i32 d, .i32 a, .bool b] (by simp [hc, hp, hq]; rfl)]
    cases b <;> rfl

theorem expression?_print (e : Expr) (hn : ∀ x ∈ e.idents, MemberName x) :
    expression? (e.print Dialect.shader Kernel.env) = some (wording.phrase e.fold).term :=
  expression?_render e.fold fun x hx => hn x (Expr.mem_idents.mpr (e.reads_fold hx))

theorem value_phrase (e : Expr) {m : Memory} {k : UInt32} {vars : Vars} {input : Words}
    (hm : m.Holds k vars input) (hs : input.size < 2 ^ 31) :
    (setting Helper.all m k).value (wording.phrase e.fold).term =
      some (.i32 (e.eval vars input)) := by
  obtain ⟨v, hv, rfl⟩ := (wording_means hm hs).phrase e.folded_fold
  rw [← Expr.fold_eval]
  exact hv

end TiledAutomata.Emit.Shader
