import TiledAutomata.Proofs.Target.ShaderLists

/-!
# Reading printed shader expressions

The reader takes a printed expression for the term it is meant to be. Its grammar lets few
operators stand beside each other, so an operator is printed between two operands, or
between two comparisons, and always in brackets of its own.
-/

open List Option

namespace TiledAutomata.Emit.Shader

open Target

variable {ops : List String} {us : List Token} {n : Nat} {p : Phrase} {m o : String} {x : Term}

def tokensOf (p : Phrase) : List Token := p.pieces.filterMap tokenOf

/-! ## What may follow -/

def Clear (ops : List String) (us : List Token) : Prop := ∀ m ∈ ops, us.head? ≠ some (.mark m)

/-- Nothing that is selected, indexed, called or listed comes next. -/
def Quiet (us : List Token) : Prop := Clear [".", "[", "("] us ∧ us.head? ≠ some .opens

def arithmetic : List String := ["*", "/", "%", "+", "-", "<<", ">>"]

def operators : List String := arithmetic ++ comparisons ++ ["&&", "||", "&", "|", "^"]

def Ends (us : List Token) : Prop := Quiet us ∧ Clear operators us

theorem Clear.mono {ops' : List String} (h : Clear ops us) (hsub : ops' ⊆ ops) :
    Clear ops' us := fun m hm => h m (hsub hm)

theorem Clear.contains (h : Clear ops (.mark m :: us)) : ops.contains m = false := by
  rw [← Bool.not_eq_true, contains_iff_mem]
  exact fun hm => h m hm rfl

theorem clear_mark (h : o ∉ ops) (us : List Token) : Clear ops (.mark o :: us) := by
  intro m hm heq
  cases heq
  exact h hm

theorem quiet_mark {o : String} (h : o ∉ [".", "[", "("]) (us : List Token) :
    Quiet (.mark o :: us) :=
  ⟨clear_mark h us, by simp⟩

theorem ends_nil : Ends [] := by
  simp [Ends, Quiet, Clear]

theorem ends_mark {o : String} (h : o ∈ [")", ",", "]"]) (us : List Token) :
    Ends (.mark o :: us) := by
  have hall : ∀ o ∈ [")", ",", "]"], o ∉ [".", "[", "("] ∧ o ∉ operators := by decide
  exact ⟨quiet_mark (hall o h).1 us, clear_mark (hall o h).2 us⟩

@[simp] theorem demand_self (m : String) (ts : List Token) :
    demand m (.mark m :: ts) = some ts := by
  simp [demand]

/-! ## Operators -/

section Operators

variable {unary : Reader Term} {k : Nat} {x y : Term} {ts us : List Token}

theorem chain_end (f : Reader Term) (h : Clear ops us) :
    chain ops f (k + 1) x us = some (x, us) := by
  cases us with
  | nil => rfl
  | cons t us =>
    cases t with
    | mark m => rw [chain, h.contains, if_neg Bool.false_ne_true]
    | _ => rfl

theorem chain_step {f : Reader Term} (hm : m ∈ ops) (hf : f ts = some (y, us)) (h : Clear ops us) :
    chain ops f (k + 2) x (.mark m :: ts) = some (.binary m x y, us) := by
  rw [chain, contains_iff_mem.mpr hm, if_pos rfl, hf]
  exact chain_end f h

theorem sums_end (h : Clear arithmetic us) : sums unary (k + 1) x us = some (x, us) := by
  rw [sums, products, chain_end _ (h.mono (by decide))]
  exact chain_end _ (h.mono (by decide))

theorem sums_product (hy : unary ts = some (y, us)) (h : Clear arithmetic us) :
    sums unary (k + 2) x (.mark "*" :: ts) = some (.binary "*" x y, us) := by
  rw [sums, products, chain_step (by decide) hy (h.mono (by decide))]
  exact chain_end _ (h.mono (by decide))

theorem sums_sum (hm : m ∈ ["+", "-"]) (hy : unary ts = some (y, us)) (h : Clear arithmetic us) :
    sums unary (k + 2) x (.mark m :: ts) = some (.binary m x y, us) := by
  have hfirst : Clear ["*", "/", "%"] (.mark m :: ts) := by
    have hall : ∀ m ∈ ["+", "-"], m ∉ ["*", "/", "%"] := by decide
    exact clear_mark (hall m hm) ts
  rw [sums, products, chain_end _ hfirst]
  apply chain_step hm _ (h.mono (by decide))
  rw [hy]
  exact chain_end _ (h.mono (by decide))

theorem shifts_eq_sums (h : Clear ["<<", ">>"] us) : shifts unary k x us = sums unary k x us := by
  cases us with
  | nil => rfl
  | cons t us =>
    cases t with
    | mark m =>
      have hm : ¬ (m = "<<" ∨ m = ">>") := by
        rintro (rfl | rfl)
        · exact h "<<" (by decide) rfl
        · exact h ">>" (by decide) rfl
      rw [shifts, if_neg hm]
    | _ => rfl

theorem shifts_end (h : Clear arithmetic us) : shifts unary (k + 1) x us = some (x, us) :=
  (shifts_eq_sums (h.mono (by decide))).trans (sums_end h)

theorem relation_of_shifts (hx : shifts unary k x ts = some (y, us)) (h : Clear comparisons us) :
    relation unary k x ts = some (y, us) := by
  rw [relation, hx]
  cases us with
  | nil => rfl
  | cons t us =>
    cases t with
    | mark m =>
      simp only [bind_eq_bind, bind_some, h.contains, if_neg Bool.false_ne_true]
    | _ => rfl

theorem relation_comparison (hm : m ∈ comparisons) (hy : unary ts = some (y, us))
    (h : Clear arithmetic us) :
    relation unary (k + 1) x (.mark m :: ts) = some (.binary m x y, us) := by
  have hnot : ∀ m ∈ comparisons, m ∉ arithmetic := by decide
  rw [relation, shifts_end (clear_mark (hnot m hm) ts)]
  simp only [bind_eq_bind, bind_some, contains_iff_mem.mpr hm, if_true, hy,
    shifts_end h]

theorem relation_arithmetic (hm : m = "*" ∨ m ∈ ["+", "-"]) (hy : unary ts = some (y, us))
    (h : Clear operators us) :
    relation unary (k + 2) x (.mark m :: ts) = some (.binary m x y, us) := by
  have harith : Clear arithmetic us := h.mono (by decide)
  have hshift : m ∉ ["<<", ">>"] := by
    have hall : ∀ m ∈ ["*", "+", "-"], m ∉ ["<<", ">>"] := by decide
    exact hall m (mem_cons.mpr hm)
  apply relation_of_shifts _ (h.mono (by decide))
  rw [shifts_eq_sums (clear_mark hshift ts)]
  rcases hm with rfl | hm
  · exact sums_product hy harith
  · exact sums_sum hm hy harith

theorem joined_bitwise (hm : m ∈ ["&", "|", "^"]) (hy : unary ts = some (y, us))
    (h : Clear operators us) :
    joined unary (k + 2) x (.mark m :: ts) = some (.binary m x y, us) := by
  have hend : Clear [m] us := by
    have hall : ∀ m ∈ ["&", "|", "^"], m ∈ operators := by decide
    apply h.mono
    simpa using hall m hm
  rw [joined]
  simp only [contains_iff_mem.mpr hm, if_true]
  exact chain_step (by simp) hy hend

theorem joined_relation (hm : m ∉ ["&", "|", "^"])
    (hx : relation unary k x (.mark m :: ts) = some (y, us)) (h : Clear operators us) :
    joined unary k x (.mark m :: ts) = some (y, us) := by
  have hjoin : Clear ["&&", "||"] us := h.mono (by decide)
  rw [joined]
  simp only [(clear_mark hm ts).contains, if_neg Bool.false_ne_true, hx, bind_eq_bind,
    bind_some]
  cases us with
  | nil => rfl
  | cons t us =>
    cases t with
    | mark o => simp only [hjoin.contains, if_neg Bool.false_ne_true]
    | _ => rfl

theorem joined_logical {z : Term} {vs : List Token} (hm : m ∈ comparisons) (ho : o ∈ ["&&", "||"])
    (hx : relation unary (k + 2) x (.mark m :: ts) = some (y, .mark o :: vs))
    (hz : (do let (w, vs) ← unary vs; relation unary (k + 2) w vs) = some (z, us))
    (h : Clear operators us) :
    joined unary (k + 2) x (.mark m :: ts) = some (.binary o y z, us) := by
  have hnot : ∀ m ∈ comparisons, m ∉ ["&", "|", "^"] := by decide
  have hend : Clear [o] us := by
    have hall : ∀ o ∈ ["&&", "||"], o ∈ operators := by decide
    apply h.mono
    simpa using hall o ho
  rw [joined]
  simp only [(clear_mark (hnot m hm) ts).contains, if_neg Bool.false_ne_true, hx,
    bind_eq_bind, bind_some, contains_iff_mem.mpr ho, if_true]
  exact chain_step (by simp) hz hend

end Operators

/-! ## Operands -/

def Operand (p : Phrase) : Prop :=
  ∀ us n, Quiet us → 2 * (tokensOf p).length + 2 ≤ n →
    unary n (tokensOf p ++ us) = some (p.term, us)

/-- A phrase that is read where an expression ends behind it. -/
def Argument (p : Phrase) : Prop :=
  ∀ us n, Ends us → 2 * (tokensOf p).length + 3 ≤ n →
    expression (unary n) n (tokensOf p ++ us) = some (p.term, us)

theorem suffixes_end {e : Reader Term} {k : Nat} (h : Quiet us) :
    suffixes e (k + 1) x us = some (x, us) := by
  cases us with
  | nil => rfl
  | cons t us =>
    cases t with
    | mark m =>
      have hpoint : m ≠ "." := fun hm => h.1 "." (by decide) (by rw [hm]; rfl)
      have hindex : m ≠ "[" := fun hm => h.1 "[" (by decide) (by rw [hm]; rfl)
      simp only [suffixes, if_neg hpoint, if_neg hindex]
    | _ => rfl

theorem named_name {e : Reader Term} {k : Nat} {f : String} {us : List Token}
    (h : Clear ["("] us) (hl : us.head? ≠ some .opens) :
    named e k f us = suffixes e k (.name f) us := by
  cases us with
  | nil => rfl
  | cons t us =>
    cases t with
    | mark m =>
      have hm : m ≠ "(" := fun hm => h "(" (by decide) (by rw [hm]; rfl)
      simp [named, typeList, demand, hm]
    | opens => exact absurd rfl hl
    | _ => rfl

theorem unary_name {f : String} (hf : f ∉ keywords) (us : List Token) :
    unary (n + 1) (.word f :: us) = named (expression (unary n) n) n f us := by
  have hnot : keywords.contains f = false := by
    rw [← Bool.not_eq_true, contains_iff_mem]
    exact hf
  rw [unary, operand, hnot, if_neg Bool.false_ne_true]
  simp

theorem Operand.number (s : String) : Operand (.number s) := by
  intro us n hus hn
  obtain ⟨n, rfl⟩ : ∃ j, n = j + 2 := ⟨n - 2, by omega⟩
  exact suffixes_end hus

theorem Operand.unary {op : String} (ho : op ∈ ["-", "~"]) (hp : Operand p) :
    Operand (.unary op p) := by
  intro us n hus hn
  have htokens : tokensOf (.unary op p) = .mark op :: tokensOf p := rfl
  rw [htokens, length_cons] at hn
  obtain ⟨n, rfl⟩ : ∃ j, n = j + 1 := ⟨n - 1, by omega⟩
  have hsign : ["-", "~", "!"].contains op = true := by
    have hall : ∀ op ∈ ["-", "~"], ["-", "~", "!"].contains op = true := by decide
    exact hall op ho
  rw [htokens, cons_append, Shader.unary, hsign, if_pos rfl, hp us n hus (by omega)]
  rfl

theorem Operand.argument (hp : Operand p) : Argument p := by
  intro us n hus hn
  obtain ⟨n, rfl⟩ : ∃ j, n = j + 1 := ⟨n - 1, by omega⟩
  rw [expression, hp us _ hus.1 (by omega)]
  cases us with
  | nil => rfl
  | cons t us =>
    cases t with
    | mark m =>
      have hclear := hus.2
      have hm : m ∉ ["&", "|", "^"] := fun hm => hclear.mono (by decide) m hm rfl
      have hshifts := @shifts_end (Shader.unary (n + 1)) n p.term _ (hclear.mono (by decide))
      exact joined_relation hm (relation_of_shifts hshifts (hclear.mono (by decide))) hclear
    | _ => rfl

theorem tokensOf_binary (op : String) (p q : Phrase) :
    tokensOf (.binary op p q) = tokensOf p ++ .mark op :: tokensOf q := by
  simp only [tokensOf, Phrase.binary, filterMap_append, filterMap_cons, tokenOf]

theorem expression_binary {op : String} {p : Phrase} (ho : op ∉ [".", "[", "("]) (hp : Operand p)
    (q : Phrase) (us : List Token) {n : Nat} (hn : 2 * (tokensOf p).length + 2 ≤ n) :
    expression (unary n) n (tokensOf (.binary op p q) ++ us) =
      joined (unary n) n p.term (.mark op :: (tokensOf q ++ us)) := by
  rw [tokensOf_binary, append_assoc, cons_append, expression,
    hp _ n (quiet_mark ho _) hn]
  rfl

theorem Argument.binary {op : String} {q : Phrase}
    (ho : (op = "*" ∨ op ∈ ["+", "-"]) ∨ op ∈ ["&", "|", "^"] ∨ op ∈ comparisons) (hp : Operand p)
    (hq : Operand q) : Argument (.binary op p q) := by
  intro us n hus hn
  have hopen : op ∉ [".", "[", "("] := by
    have hall : ∀ op ∈ ["*", "+", "-"] ++ (["&", "|", "^"] ++ comparisons),
        op ∉ [".", "[", "("] := by
      decide
    rw [← mem_cons, ← mem_append, ← mem_append] at ho
    exact hall op ho
  rw [tokensOf_binary, length_append, length_cons] at hn
  obtain ⟨n, rfl⟩ : ∃ j, n = j + 2 := ⟨n - 2, by omega⟩
  have hright := hq us (n + 2) hus.1 (by omega)
  rw [expression_binary hopen hp q us (by omega)]
  rcases ho with harith | hbit | hcmp
  · have hall : ∀ op ∈ ["*", "+", "-"], op ∉ ["&", "|", "^"] := by decide
    have hnot := hall op (mem_cons.mpr harith)
    exact joined_relation hnot (relation_arithmetic harith hright hus.2) hus.2
  · exact joined_bitwise hbit hright hus.2
  · have hall : ∀ op ∈ comparisons, op ∉ ["&", "|", "^"] := by decide
    have hrelation := relation_comparison (k := n + 1) (x := p.term) hcmp hright
      (hus.2.mono (by decide))
    exact joined_relation (hall op hcmp) hrelation hus.2

theorem Argument.logical {l : String} {q r t : Phrase} (ho : o ∈ ["&&", "||"])
    (hm : m ∈ comparisons) (hl : l ∈ comparisons) (hp : Operand p) (hq : Operand q)
    (hr : Operand r) (ht : Operand t) : Argument (.binary o (.binary m p q) (.binary l r t)) := by
  intro us n hus hn
  have hopen : ∀ op ∈ comparisons ++ ["&&", "||"], op ∉ [".", "[", "("] := by decide
  simp only [tokensOf_binary, length_append, length_cons] at hn
  obtain ⟨n, rfl⟩ : ∃ j, n = j + 2 := ⟨n - 2, by omega⟩
  have hfirst : tokensOf (.binary o (.binary m p q) (.binary l r t)) ++ us =
      tokensOf p ++ .mark m :: (tokensOf q ++ .mark o :: (tokensOf r ++ .mark l ::
        (tokensOf t ++ us))) := by
    simp [tokensOf_binary]
  have hleft := hp (.mark m :: (tokensOf q ++ .mark o :: (tokensOf r ++ .mark l ::
    (tokensOf t ++ us)))) (n + 2) (quiet_mark (hopen m (by simp [hm])) _) (by omega)
  have hmiddle := hq (.mark o :: (tokensOf r ++ .mark l :: (tokensOf t ++ us))) (n + 2)
    (quiet_mark (hopen o (mem_append_right _ ho)) _) (by omega)
  have hthird := hr (.mark l :: (tokensOf t ++ us)) (n + 2)
    (quiet_mark (hopen l (by simp [hl])) _) (by omega)
  have hlast := ht us (n + 2) hus.1 (by omega)
  have harith : Clear arithmetic us := hus.2.mono (by decide)
  have hnot : ∀ o ∈ ["&&", "||"], o ∉ arithmetic := by decide
  rw [hfirst, expression, hleft]
  apply joined_logical hm ho (relation_comparison hm hmiddle (clear_mark (hnot o ho) _)) _ hus.2
  rw [hthird]
  exact relation_comparison hl hlast harith

theorem Operand.group (hp : Argument p) : Operand (.group p) := by
  intro us n hus hn
  have htokens : tokensOf (.group p) = .mark "(" :: (tokensOf p ++ [.mark ")"]) := by
    simp [tokensOf, Phrase.group, tokenOf]
  rw [htokens] at hn ⊢
  simp only [length_cons, length_append, length_nil] at hn
  obtain ⟨n, rfl⟩ : ∃ j, n = j + 2 := ⟨n - 2, by omega⟩
  have hinner := hp (.mark ")" :: us) (n + 1) (ends_mark (by decide) us) (by omega)
  simp only [cons_append, append_assoc, nil_append]
  rw [Shader.unary, if_neg (by decide), operand, if_pos rfl, hinner]
  simp only [bind_eq_bind, bind_some, demand_self]
  exact suffixes_end hus

/-! ## Names, members and calls -/

theorem Operand.name {x : String} (hx : x ∉ keywords) : Operand (.name x) := by
  intro us n hus hn
  have htokens : tokensOf (.name x) = [.word x] := rfl
  rw [htokens, length_singleton] at hn
  obtain ⟨n, rfl⟩ : ∃ j, n = j + 2 := ⟨n - 2, by omega⟩
  rw [htokens, singleton_append, unary_name hx, named_name (hus.1.mono (by decide)) hus.2]
  exact suffixes_end hus

theorem suffixes_select {e : Reader Term} {k : Nat} (h : Quiet us) (f : String) :
    suffixes e (k + 2) x (.mark "." :: .word f :: us) = some (.select x f, us) := by
  rw [suffixes, if_pos rfl]
  exact suffixes_end h

theorem Operand.member {x : String} (hx : x ∉ keywords) (f : String) :
    Operand ⟨[.word x, .mark ".", .word f], .select (.name x) f⟩ := by
  intro us n hus hn
  have htokens : tokensOf ⟨[.word x, .mark ".", .word f], .select (.name x) f⟩ =
      [.word x, .mark ".", .word f] := rfl
  rw [htokens, length_cons] at hn
  obtain ⟨n, rfl⟩ : ∃ j, n = j + 3 := ⟨n - 3, by omega⟩
  rw [htokens]
  simp only [cons_append, nil_append]
  rw [unary_name hx, named_name (clear_mark (by decide) _) (by simp)]
  exact suffixes_select hus f

theorem Operand.indexed {x i : String} (hx : x ∉ keywords) (hi : i ∉ keywords) (f : String) :
    Operand ⟨[.word x, .mark "[", .word i, .mark "]", .mark ".", .word f],
      .select (.index (.name x) (.name i)) f⟩ := by
  intro us n hus hn
  have htokens : tokensOf ⟨[.word x, .mark "[", .word i, .mark "]", .mark ".", .word f],
      .select (.index (.name x) (.name i)) f⟩ =
      [.word x, .mark "[", .word i, .mark "]", .mark ".", .word f] := rfl
  rw [htokens] at hn ⊢
  simp only [length_cons, length_nil] at hn
  obtain ⟨n, rfl⟩ : ∃ j, n = j + 6 := ⟨n - 6, by omega⟩
  have hinner : expression (Shader.unary (n + 5)) (n + 5)
      (.word i :: .mark "]" :: .mark "." :: .word f :: us) =
        some (.name i, .mark "]" :: .mark "." :: .word f :: us) :=
    (Operand.name hi).argument _ (n + 5) (ends_mark (by decide) _) (Nat.le_add_left 5 n)
  simp only [cons_append, nil_append]
  rw [unary_name hx, named_name (clear_mark (by decide) _) (by simp)]
  simp only [suffixes, if_neg (show "[" ≠ "." by decide), if_true, hinner, bind_eq_bind,
    bind_some, demand_self]
  exact suffixes_end hus

theorem demand_closing {ts : List Token} (h : expression (unary n) n ts = some (x, us)) :
    demand ")" ts = none := by
  match ts with
  | .mark m :: ts =>
    by_cases hm : m = ")"
    · subst hm
      cases n <;> cases h
    · simp [demand, hm]
  | [] => rfl
  | .word _ :: _ => rfl
  | .number _ :: _ => rfl
  | .opens :: _ => rfl
  | .closes :: _ => rfl

def listTokens (ps : List Phrase) : List Token := (Phrase.listed ps).filterMap tokenOf

theorem listTokens_cons (p q : Phrase) (ps : List Phrase) :
    listTokens (p :: q :: ps) = tokensOf p ++ .mark "," :: listTokens (q :: ps) := by
  simp only [listTokens, Phrase.listed, tokensOf, filterMap_append, filterMap_cons, tokenOf]

theorem length_le_listTokens (ps : List Phrase) : ps.length ≤ (listTokens ps).length + 1 := by
  match ps with
  | [] => simp
  | [p] => simp
  | p :: q :: ps =>
    have hrest := length_le_listTokens (q :: ps)
    rw [listTokens_cons]
    simp only [length_append, length_cons] at hrest ⊢
    omega

theorem arguments_read {ps : List Phrase} (hps : ∀ p ∈ ps, Argument p) {n k : Nat}
    (hn : 2 * (listTokens ps).length + 3 ≤ n) (hk : ps.length < k) (us : List Token) :
    arguments (expression (unary n) n) k (listTokens ps ++ .mark ")" :: us) =
      some (.ofList (ps.map Phrase.term), us) := by
  obtain ⟨k, rfl⟩ : ∃ j, k = j + 1 := ⟨k - 1, by omega⟩
  match ps with
  | [] => rfl
  | [p] =>
    have hp := hps p (by simp) (.mark ")" :: us) n (ends_mark (by decide) us) hn
    show arguments _ (k + 1) (tokensOf p ++ .mark ")" :: us) = _
    rw [arguments, demand_closing hp]
    simp only [hp, bind_eq_bind, bind_some]
    rfl
  | p :: q :: ps =>
    rw [listTokens_cons] at hn ⊢
    simp only [length_append, length_cons] at hn hk
    rw [append_assoc, cons_append]
    have hp := hps p (by simp) (.mark "," :: (listTokens (q :: ps) ++ .mark ")" :: us)) n
      (ends_mark (by decide) _) (by omega)
    have hrest := arguments_read (fun r hr => hps r (mem_cons_of_mem p hr))
      (by omega : 2 * (listTokens (q :: ps)).length + 3 ≤ n)
      (by simpa using hk : (q :: ps).length < k) us
    rw [arguments, demand_closing hp]
    simp only [hp, bind_eq_bind, bind_some, demand_self, hrest]
    rfl

theorem Operand.call {f : String} (hf : f ∉ keywords) {ps : List Phrase}
    (hps : ∀ p ∈ ps, Argument p) : Operand (.call f ps) := by
  intro us n hus hn
  have htokens : tokensOf (.call f ps) =
      .word f :: .mark "(" :: (listTokens ps ++ [.mark ")"]) := by
    simp [tokensOf, listTokens, Phrase.call, tokenOf]
  have hlen := length_le_listTokens ps
  rw [htokens] at hn ⊢
  simp only [length_cons, length_append, length_nil] at hn
  obtain ⟨n, rfl⟩ : ∃ j, n = j + 2 := ⟨n - 2, by omega⟩
  have hargs := arguments_read hps (by omega : 2 * (listTokens ps).length + 3 ≤ n + 1)
    (by omega : ps.length < n + 1) us
  simp only [cons_append, append_assoc, nil_append]
  rw [unary_name hf, named]
  simp only [typeList, bind_eq_bind, bind_some, demand_self, hargs]
  exact suffixes_end hus

/-! ## Every expression -/

open Phrase

theorem numeral_toString (n : Nat) : Numeral (toString n ++ "i") := by
  have hlist : (toString n ++ "i").toList = Nat.toDigits 10 n ++ ['i'] := by
    rw [String.toList_append, Nat.toString_eq_ofList_toDigits, String.toList_ofList]
    rfl
  have hdigit : ∀ c ∈ Nat.toDigits 10 n, c.isDigit = true := fun c hc =>
    Nat.isDigit_of_mem_toDigits (by decide) (by decide) hc
  unfold Numeral
  rw [hlist]
  refine ⟨by simp, ?_, ?_⟩
  · obtain ⟨c, cs, hcs⟩ := exists_cons_of_ne_nil (@Nat.toDigits_ne_nil n 10)
    have hc := hdigit c (by simp [hcs])
    simp [isName, hcs, hc]
  · intro c hc
    rcases mem_append.mp hc with hc | hc
    · simp [isWord, Char.isAlphanum, hdigit c hc]
    · rw [mem_singleton.mp hc]
      decide

theorem wording_speaks : wording.Speaks lexicon := by
  have hnumber : ∀ n : Nat, Formed lexicon .operand (number (toString n ++ "i")) := fun n =>
    .number (numeral_toString n)
  have hsigned : ∀ n : Nat,
      Formed lexicon .signed (Phrase.unary "-" (number (toString n ++ "i"))) :=
    fun n => .unary (by decide) (hnumber n)
  constructor
  case literal =>
    intro v
    simp only [wording]
    split
    · exact .group (.binary .sub rfl rfl (hsigned 2147483647) (hnumber 1))
    · split
      · exact .group (.inner (.test (hsigned _)))
      · next h =>
        rw [text_nonneg h]
        exact hnumber _
  case ident => exact fun x hx => .element trivial (by decide) (by decide) hx
  case inputLength =>
    have hsize : Formed lexicon .operand ⟨[.word "params", .mark ".", .word "input_size"],
        .select (.name "params") "input_size"⟩ := .field (by decide) (by decide)
    exact .call [] _ (by decide) (by simp) (.inner hsize.tested)
  case input => exact fun p hp => .call [] p (by decide) (by simp) (.inner hp.tested)
  case zero => exact numeral_toString 0
  case signs => rfl
  case truth =>
    show MemberName "ca_bool"
    decide
  case helper =>
    intro o h ho
    show MemberName ("ca_" ++ h.map Char.toLower)
    cases o <;> cases ho <;> decide +kernel
  case cond =>
    exact fun c t e hc ht he => .call [e, t] c (by decide) (by simp [he.tested, ht.tested])
      (.inner hc)

def Reads : Rank → Phrase → Prop
  | .operand | .signed => Operand
  | .test | .inner => Argument

theorem reads_formed {r : Rank} (h : Formed lexicon r p) : Reads r p := by
  induction h with
  | number => exact .number _
  | name hx => exact .name hx.2.2
  | field hx => exact .member hx.2.2 _
  | element _ hx hi => exact .indexed hx.2.2 hi.2.2 _
  | group _ ih => exact Operand.group ih
  | call ps q hf _ _ ihps ihq =>
    exact Operand.call hf.2.2 (forall_mem_append.mpr ⟨ihps, forall_mem_singleton.mpr ihq⟩)
  | signed _ ih | inner _ ih => exact ih
  | unary ho _ ih => exact Operand.unary ho ih
  | test _ ih => exact Operand.argument ih
  | @equal op p q ho _ _ ihp ihq =>
    exact Argument.binary (.inr (.inr (by revert op; decide))) ihp ihq
  | binary o hh hl _ _ ihp ihq =>
    refine Argument.binary ?_ ihp ihq
    cases o <;> first | exact absurd hh (by decide) | exact absurd hl (by decide) | decide
  | logical o ho _ _ _ _ ihp ihq ihr iht =>
    have htext : o.text ∈ ["&&", "||"] := by
      cases o <;> first | exact absurd ho (by decide) | decide
    exact Argument.logical htext (by decide) (by decide) ihp ihq ihr iht

theorem plain_formed {r : Rank} (h : Formed lexicon r p) : p.Consists Plain := by
  refine h.consists (fun _ => id) (fun _ => id) trivial ?_ ?_ ?_ fun o ho => ?_ <;> unfold Plain
  · decide
  · decide
  · decide
  · cases o <;> first | decide | cases ho

theorem wording_writes : wording.Writes Dialect.shader Kernel.env := by
  constructor
  case literal =>
    intro v
    apply String.toList_injective
    by_cases hmin : v = Int32.minValue
    · simp [Dialect.shader, wording, hmin, Phrase.text, group, Phrase.unary, binary, number,
        Piece.text]
    · by_cases h : v < 0
      · simp [Dialect.shader, wording, hmin, h, text_neg h, Phrase.text, group, Phrase.unary,
          number, Piece.text]
      · simp [Dialect.shader, wording, hmin, h, Phrase.text, number, Piece.text]
  case unary =>
    intro o p
    apply String.toList_injective
    cases o <;> simp [Dialect.shader, Wording.unary, wording, Phrase.text, group, Phrase.unary,
      call, listed, binary, number, Piece.text]
  case binary =>
    intro o p q
    apply String.toList_injective
    cases o <;> simp [Dialect.shader, Dialect.helper?, Dialect.isComparison, Dialect.isLogical,
      BinaryOp.text, Wording.binary, Wording.holds, wording, Phrase.text, group, call, listed,
      binary, number, Piece.text]
  all_goals
    intros
    apply String.toList_injective
    simp [Dialect.shader, Kernel.env, Wording.holds, wording, Phrase.text, call, listed, binary,
      number, Piece.text]

theorem expression?_render (e : Expr) (hn : ∀ x ∈ e.reads, MemberName x) :
    expression? (e.render Dialect.shader Kernel.env) = some (wording.phrase e).term := by
  have hformed := wording_speaks.phrase e hn
  have hreads : Operand (wording.phrase e) := reads_formed hformed
  have hspaced : Piece.Spaced (wording.phrase e).pieces := by
    simpa using (hformed.flows (by decide)).1 [] rfl trivial
  have htokens : tokenize (e.render Dialect.shader Kernel.env).toList =
      tokensOf (wording.phrase e) := by
    rw [wording_writes.render]
    exact tokenize_texts hspaced (plain_formed hformed) (settles_formed hformed)
  have hrun := hreads.argument [] (depthOf (tokensOf (wording.phrase e))) ends_nil
    (by unfold depthOf; omega)
  rw [append_nil] at hrun
  rw [expression?]
  simp only [htokens, hrun, bind_eq_bind, bind_some, if_true]

end TiledAutomata.Emit.Shader
