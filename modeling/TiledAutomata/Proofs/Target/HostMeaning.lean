import TiledAutomata.Proofs.Target.HostHelpers
import TiledAutomata.Proofs.Target.HostReading
import TiledAutomata.Proofs.Target.Meaning

/-!
# What printed host expressions compute
-/

namespace TiledAutomata.Emit.Host

open Target Value

variable {o : BinaryOp} {input : Words}

/-- A word, as a number with a type or as a constant. -/
def Says (isConstant : Bool) (v : Value) (a : Word) : Prop :=
  v = if isConstant then .constant a.toInt else .int32 a

section Operators

variable {a b : Word} {x y : Value} {p q : Bool}

theorem Says.assigned (h : Says p x a) : x.assigned? "int32" = some (.int32 a) := by
  rw [h]
  cases p
  · exact assigned?_int32 a
  · exact assigned?_constant a

theorem binary?_eq_operate? {op : String} (ho : op ≠ "<<" ∧ op ≠ ">>") (hx : Says p x a)
    (hy : Says q y b) (hpq : (p && q) = false) :
    binary? op x y = operate? .bool .int32 (b ≠ 0) op a b := by
  rw [hx, hy]
  cases p <;> cases q
  · simp [binary?, ho, typed?]
  · simp [binary?, ho, typed?, type]
  · simp [binary?, ho, typed?, type]
  · cases hpq

theorem binary?_apply (hh : Dialect.helper? o = none) (hl : Dialect.isLogical o = false)
    (hc : Dialect.isComparison o = false) (hx : Says p x a) (hy : Says q y b)
    (hpq : (p && q) = false) : binary? o.text x y = some (.int32 (o.apply a b)) := by
  have ho : o.text ≠ "<<" ∧ o.text ≠ ">>" := by
    cases o <;> first | decide | cases hh
  rw [binary?_eq_operate? ho hx hy hpq]
  cases o <;> first
    | rfl
    | exact absurd hh (by decide)
    | exact absurd hl (by decide)
    | exact absurd hc (by decide)

theorem binary?_compare (hc : Dialect.isComparison o = true) (hx : Says p x a) (hy : Says q y b)
    (hpq : (p && q) = false) :
    ∃ t, binary? o.text x y = some (.bool t) ∧ Word.ofBool t = o.apply a b := by
  have ho : o.text ≠ "<<" ∧ o.text ≠ ">>" := by
    cases o <;> first | decide | cases hc
  rw [binary?_eq_operate? ho hx hy hpq]
  cases o <;> first
    | exact absurd hc (by decide)
    | exact ⟨_, rfl, rfl⟩

theorem binary?_zero (hx : Says p x a) :
    binary? "!=" x (.constant 0) = some (.bool (a != 0)) ∧
      binary? "==" x (.constant 0) = some (.bool (a == 0)) := by
  rw [hx]
  by_cases h : a = 0
  · cases p <;> simp [binary?, type, typed?, operate?, compare?, h]
  · have hi : a.toInt ≠ 0 := mt Word.toInt_eq_zero.mp h
    cases p <;> simp [binary?, type, typed?, operate?, compare?, h, hi]

end Operators

/-! ## Expressions -/

/-- An expression of a unit's method: the unit and the input are in sight, and the helpers of the
package can be called. -/
def setting (fs : List Function) (vars : Vars) (input : Words) : Setting Value where
  machine := machine
  calls := machine.calls [] fs 1
  scope := [("u", .unit vars), ("input", .words input)]

section Calls

variable {a b : Word} {x y : Value} {p q : Bool}

theorem call_bool (c : Bool) :
    machine.calls [] Helper.all 1 "caBool" [] [.bool c] = some (.int32 (Word.ofBool c)) :=
  apply_bool c

theorem call_select (c : Bool) (hx : Says p x a) (hy : Says q y b) :
    machine.calls [] Helper.all 1 "caSelect" [] [.bool c, x, y] =
      some (.int32 (if c then a else b)) :=
  apply_select a b c hx.assigned hy.assigned

theorem call_input (hs : input.size < 2 ^ 31) (hx : Says p x a) :
    machine.calls [] Helper.all 1 "caInput" [] [.words input, x] = some (.int32 (input.cyclic a)) :=
  apply_input a input hs hx.assigned

theorem call_helper {h : String} (ho : Dialect.helper? o = some h) (hx : Says p x a)
    (hy : Says q y b) :
    machine.calls [] Helper.all 1 ("ca" ++ h) [] [x, y] = some (.int32 (o.apply a b)) := by
  cases o with
  | div =>
    cases ho
    exact (apply_quotient a b "caDiv" hx.assigned hy.assigned).1
  | mod =>
    cases ho
    exact (apply_quotient a b "caMod" hx.assigned hy.assigned).2
  | shl =>
    cases ho
    rw [← ofInt_shl]
    exact apply_shift a b "caShl" "<<" (.inl rfl) rfl hx.assigned hy.assigned
  | shr =>
    cases ho
    rw [← ofInt_shr]
    exact apply_shift a b "caShr" ">>" (.inr rfl) rfl hx.assigned hy.assigned
  | ushr =>
    cases ho
    exact apply_unsignedShift a b hx.assigned hy.assigned
  | _ => cases ho

end Calls

theorem eval_literal (s : Setting Value) (hs : s.machine = machine) (v : Word) :
    s.eval (wording.literal v) = some (.constant v.toInt) := by
  simp only [wording]
  split
  · next h =>
    have hneg : v.toInt < 0 := Int32.lt_iff_toInt_lt.mp h
    have habs : -(v.toInt.natAbs : Int) = v.toInt := by omega
    simp only [Setting.eval, Setting.value, Phrase.group, Phrase.unary, Phrase.number,
      Machine.eval, hs, machine_literal, machine_unary, literal?_toString,
      Option.bind_eq_bind, Option.bind_some, unary?, habs]
  · next h =>
    have hle : 0 ≤ v.toInt := by simpa [Int32.lt_iff_toInt_lt] using h
    rw [text_nonneg h]
    simp only [Setting.eval, Setting.value, Phrase.number, Machine.eval, hs, machine_literal,
      literal?_toString, Int.toNat_of_nonneg hle]

theorem wording_means (vars : Vars) (hs : input.size < 2 ^ 31) :
    wording.Means (setting Helper.all vars input) Says vars input := by
  constructor
  case literal => exact fun a => ⟨_, eval_literal _ rfl a, rfl⟩
  case ident => exact fun x => ⟨_, rfl, rfl⟩
  case inputLength =>
    have hinput : (setting Helper.all vars input).eval (.name "input") = some (.words input) := rfl
    have hsize : (Int64.ofNat input.size).toInt = input.size := Int64.toInt_ofNat_of_lt (by omega)
    have hlen : (setting Helper.all vars input).eval (.call "len" [.name "input"]) =
        some (.int (Int64.ofNat input.size)) := by
      rw [Setting.eval_call _ _ _ [.words input] (by simp [hinput])]
      rfl
    refine ⟨.int32 (Int32.ofNat input.size), ?_, rfl⟩
    rw [wording, Setting.eval_call _ _ _ [.int (Int64.ofNat input.size)] (by simp [hlen])]
    show wrapped? "int32" (Int64.ofNat input.size).toInt = _
    rw [hsize, wrapped?, Int32.ofInt_eq_ofNat]
  case input =>
    intro p x a k hp hx
    have hinput : (setting Helper.all vars input).eval (.name "input") = some (.words input) := rfl
    refine ⟨_, ?_, rfl⟩
    rw [wording, Setting.eval_call _ _ _ [.words input, x] (by simp [hp, hinput])]
    exact call_input hs hx
  case truth => exact fun b => rfl
  case zero => exact ⟨.constant 0, literals.1, fun x a k hx => binary?_zero hx⟩
  case call => exact fun b => ⟨_, call_bool b, rfl⟩
  case neg | compl =>
    rintro x a rfl
    exact ⟨_, rfl, rfl⟩
  case between =>
    intro o hh hl x y a b j k hx hy hjk
    split
    · next hc => exact binary?_compare hc hx hy hjk
    · next hc => exact ⟨_, binary?_apply hh hl (Bool.not_eq_true _ ▸ hc) hx hy hjk, rfl⟩
  case helper => exact fun o h ho x y a b j k hx hy => ⟨_, call_helper ho hx hy, rfl⟩
  case cond =>
    intro c p q b x y a d j k hc hp hx hq hy
    refine ⟨_, ?_, rfl⟩
    rw [wording, Setting.eval_call _ _ _ [.bool b, x, y] (by simp [hc, hp, hq]; rfl)]
    exact call_select b hx hy

theorem expression?_print (e : Expr) (hn : ∀ x ∈ e.idents, FieldName x) :
    expression? (e.print Dialect.host Package.env) = some (wording.phrase e.fold).term :=
  expression?_render e.fold fun x hx => hn x (Expr.mem_idents.mpr (e.reads_fold hx))

theorem value_phrase (e : Expr) (vars : Vars) (hs : input.size < 2 ^ 31) :
    ∃ v, (setting Helper.all vars input).value (wording.phrase e.fold).term = some v ∧
      v.assigned? "int32" = some (.int32 (e.eval vars input)) := by
  obtain ⟨v, hv, hword⟩ := (wording_means vars hs).phrase e.folded_fold
  exact ⟨v, hv, by rw [hword.assigned, Expr.fold_eval]⟩

end TiledAutomata.Emit.Host
