import TiledAutomata.Text.Numeral
import TiledAutomata.Text.Utf8
import Mathlib.Tactic

/-!
# Bytes and numerals of a text

The bytes of a text spell that text, and an integer is read as it is written.
-/

open List

namespace TiledAutomata.Text

open Nat

variable {n : Nat}

/-! ## Bytes -/

section Bytes

variable {a b c d : UInt8} {r : Bytes}

theorem not_ascii (ha : 0x80 ≤ a.toNat) : ¬a < 0x80 :=
  UInt8.not_lt.mpr (UInt8.le_iff_toNat_le.mpr ha)

theorem decode_one (ha : a.toNat < 0x80) :
    decode (a :: r) = .ok (Char.ofNat a.toNat) :: decode r := by
  have hlt : a < 0x80 := UInt8.lt_iff_toNat_lt.mpr ha
  rw [decode.eq_def]
  exact if_pos hlt

theorem decode_two (ha : 0xc2 ≤ a.toNat ∧ a.toNat ≤ 0xdf) (hb : isTail b = true) :
    decode (a :: b :: r) = .ok (Char.ofNat (a.toNat % 32 * 64 + low b)) :: decode r := by
  have hlo : 0xc2 ≤ a := UInt8.le_iff_toNat_le.mpr ha.1
  have hhi : a ≤ 0xdf := UInt8.le_iff_toNat_le.mpr ha.2
  have hone : ¬a < 0x80 := not_ascii (by omega)
  rw [decode.eq_def]
  simp only [hone, hlo, hhi, hb, decide_true, Bool.and_true, if_true, if_false]

theorem decode_three (ha : 0xe0 ≤ a.toNat ∧ a.toNat ≤ 0xef) (hb : isSecond a b = true)
    (hc : isTail c = true) :
    decode (a :: b :: c :: r) =
      .ok (Char.ofNat ((a.toNat % 16 * 64 + low b) * 64 + low c)) :: decode r := by
  have hlo : 0xe0 ≤ a := UInt8.le_iff_toNat_le.mpr ha.1
  have hhi : a ≤ 0xef := UInt8.le_iff_toNat_le.mpr ha.2
  have hone : ¬a < 0x80 := not_ascii (by omega)
  have htwo : ¬a ≤ 0xdf :=
    UInt8.not_le.mpr (UInt8.lt_iff_toNat_lt.mpr (show 0xdf < a.toNat by omega))
  rw [decode.eq_def]
  simp only [hone, hlo, hhi, htwo, hb, hc, decide_true, decide_false, Bool.and_true, Bool.and_false,
    Bool.false_and, Bool.false_eq_true, if_true, if_false]

theorem decode_four (ha : 0xf0 ≤ a.toNat ∧ a.toNat ≤ 0xf4) (hb : isSecond a b = true)
    (hc : isTail c = true) (hd : isTail d = true) :
    decode (a :: b :: c :: d :: r) =
      .ok (Char.ofNat (((a.toNat % 8 * 64 + low b) * 64 + low c) * 64 + low d)) :: decode r := by
  have hlo : 0xf0 ≤ a := UInt8.le_iff_toNat_le.mpr ha.1
  have hhi : a ≤ 0xf4 := UInt8.le_iff_toNat_le.mpr ha.2
  have hone : ¬a < 0x80 := not_ascii (by omega)
  have htwo : ¬a ≤ 0xdf :=
    UInt8.not_le.mpr (UInt8.lt_iff_toNat_lt.mpr (show 0xdf < a.toNat by omega))
  have hthree : ¬a ≤ 0xef :=
    UInt8.not_le.mpr (UInt8.lt_iff_toNat_lt.mpr (show 0xef < a.toNat by omega))
  rw [decode.eq_def]
  simp only [hone, hlo, hhi, htwo, hthree, hb, hc, hd, decide_true, decide_false, Bool.and_true,
    Bool.and_false, Bool.false_and, Bool.false_eq_true, if_true, if_false]

end Bytes

theorem takeWhile_append_stop {α : Type} {p : α → Bool} {xs ys : List α}
    (hx : ∀ a ∈ xs, p a = true) (hy : ∀ a ∈ ys.head?, p a = false) :
    (xs ++ ys).takeWhile p = xs := by
  rw [takeWhile_append_of_pos hx]
  cases ys with
  | nil => simp
  | cons a ys => simp [hy a (by simp)]

/-- Where nothing stands behind one of its own beginnings, the longest that fits is found. -/
theorem find?_longest {α β : Type} [BEq β] [LawfulBEq β] {f : α → List β} {as : List α}
    (hordered : as.Pairwise fun a b => ¬f a <+: f b) {a : α} (ha : a ∈ as) {rest : List β}
    (hlong : ∀ b ∈ as, f b <+: f a ++ rest → (f b).length ≤ (f a).length) :
    (as.find? fun b => (f b).isPrefixOf (f a ++ rest)) = some a := by
  obtain ⟨before, behind, rfl⟩ := append_of_mem ha
  rw [find?_eq_some_iff_append]
  refine ⟨by simp, before, behind, rfl, fun b hb => ?_⟩
  rw [Bool.not_eq_true', ← Bool.not_eq_true, isPrefixOf_iff_prefix]
  intro hfits
  exact (pairwise_append.mp hordered).2.2 b hb a mem_cons_self
    (prefix_of_prefix_length_le hfits (prefix_append _ _) (hlong b (mem_append_left _ hb) hfits))

theorem toNat_byte (h : n < 256) : (UInt8.ofNat n).toNat = n :=
  UInt8.toNat_ofNat_of_lt' h

theorem isTail_byte (h : n < 64) : isTail (UInt8.ofNat (n + 128)) = true := by
  simp only [isTail, Bool.and_eq_true, decide_eq_true_eq, UInt8.le_iff_toNat_le,
    toNat_byte (show n + 128 < 256 by omega), UInt8.reduceToNat]
  omega

theorem low_byte (h : n < 64) : low (UInt8.ofNat (n + 128)) = n := by
  rw [low, toNat_byte (by omega)]
  omega

/-- The bounds of a second byte keep out what a shorter sequence holds, surrogates and what is too
large. -/
theorem isSecond_byte {m : Nat} (hm : m < 256) (hn : n < 64) (h0 : m = 0xe0 → 0x20 ≤ n)
    (hd : m = 0xed → n < 0x20) (hf : m = 0xf0 → 0x10 ≤ n) (h4 : m = 0xf4 → n < 0x10) :
    isSecond (UInt8.ofNat m) (UInt8.ofNat (n + 128)) = true := by
  have heq : ∀ k : UInt8, (UInt8.ofNat m == k) = decide (m = k.toNat) := fun k => by
    rw [Bool.eq_iff_iff, beq_iff_eq, decide_eq_true_eq, ← UInt8.toNat_inj, toNat_byte hm]
  have hn' := toNat_byte (show n + 128 < 256 by omega)
  simp only [isSecond, secondBounds, heq, UInt8.reduceToNat]
  simp only [decide_eq_true_eq]
  split_ifs <;> simp only [UInt8.le_iff_toNat_le, hn', Bool.and_eq_true, decide_eq_true_eq,
    UInt8.reduceToNat] <;> omega

theorem toNat_valid (c : Char) :
    c.toNat < 0xd800 ∨ 0xdfff < c.toNat ∧ c.toNat < 0x110000 := c.valid

theorem decode_encode (c : Char) (r : Bytes) :
    decode (String.utf8EncodeChar c ++ r) = .ok c :: decode r := by
  have hval := toNat_valid c
  have hback : ∀ n, n = c.toNat → Char.ofNat n = c := by
    rintro n rfl
    exact Char.ofNat_toNat c
  have hv : c.val.toNat = c.toNat := rfl
  rw [String.utf8EncodeChar, hv]
  generalize c.toNat = v at *
  split_ifs with h1 h2 h3
  · rw [singleton_append, decode_one (by rw [toNat_byte] <;> omega), toNat_byte (by omega),
      hback v rfl]
  · rw [cons_append, singleton_append,
      decode_two (by rw [toNat_byte] <;> omega) (isTail_byte (by omega)), low_byte (by omega),
      toNat_byte (by omega), hback _ (by omega)]
  · rw [cons_append, cons_append, singleton_append,
      decode_three (by rw [toNat_byte] <;> omega)
        (isSecond_byte (by omega) (by omega) (by omega) (by omega) (by omega) (by omega))
        (isTail_byte (by omega)),
      low_byte (by omega), low_byte (by omega), toNat_byte (by omega), hback _ (by omega)]
  · rw [cons_append, cons_append, cons_append, singleton_append,
      decode_four (by rw [toNat_byte] <;> omega)
        (isSecond_byte (by omega) (by omega) (by omega) (by omega) (by omega) (by omega))
        (isTail_byte (by omega)) (isTail_byte (by omega)),
      low_byte (by omega), low_byte (by omega), low_byte (by omega), toNat_byte (by omega),
      hback _ (by omega)]

theorem bytes_ofList (cs : List Char) :
    bytes (String.ofList cs) = cs.flatMap String.utf8EncodeChar := by
  rw [bytes, String.toUTF8, String.toByteArray_ofList, List.utf8Encode]
  simp

theorem decode_bytes (s : String) : decode (bytes s) = s.toList.map .ok := by
  have hlist : ∀ cs : List Char, decode (cs.flatMap String.utf8EncodeChar) = cs.map .ok := by
    intro cs
    induction cs with
    | nil => rfl
    | cons c cs ih => rw [flatMap_cons, decode_encode, ih, map_cons]
  rw [← hlist, ← bytes_ofList, String.ofList_toList]

theorem lossy_bytes (s : String) : lossy (bytes s) = s := by
  rw [lossy, decode_bytes, map_map]
  simp [Function.comp_def, Except.toOption]

/-! ## Numerals -/

theorem digitChar_ne_zero : ∀ n < 10, 0 < n → Nat.digitChar n ≠ '0' := by
  decide

theorem head?_toDigits (n : Nat) (h : 0 < n) : (Nat.toDigits 10 n).head? ≠ some '0' := by
  induction n using Nat.strongRecOn with
  | ind n ih =>
    by_cases hn : n < 10
    · rw [Nat.toDigits_of_lt_base hn]
      simpa using digitChar_ne_zero n hn h
    · rw [Nat.toDigits_of_base_le (by decide) (by omega), List.head?_append,
        List.head?_eq_some_head Nat.toDigits_ne_nil, Option.some_or, ← List.head?_eq_some_head]
      exact ih (n / 10) (by omega) (by omega)

theorem digits_toString (n : Nat) : ∃ c cs, (toString n).toList = c :: cs ∧
    (∀ d ∈ c :: cs, d.isDigit = true) ∧ (c = '0' → cs = []) := by
  have hlist : (toString n).toList = toDigits 10 n := by
    rw [toString_eq_ofList_toDigits, String.toList_ofList]
  obtain ⟨c, cs, hcs⟩ := exists_cons_of_ne_nil (toDigits_ne_nil (b := 10) (n := n))
  refine ⟨c, cs, hlist.trans hcs, ?_, ?_⟩
  · intro d hd
    exact isDigit_of_mem_toDigits (by decide) (by decide) (hcs ▸ hd)
  · rintro rfl
    by_cases hn : 0 < n
    · have hhead := head?_toDigits n hn
      rw [hcs] at hhead
      exact absurd rfl hhead
    · have hz : n = 0 := by omega
      rw [hz, toDigits_zero] at hcs
      exact (List.cons.inj hcs).2.symm

theorem toNat_of_isDigit {c : Char} (h : c.isDigit = true) : 48 ≤ c.toNat ∧ c.toNat ≤ 57 :=
  Char.isDigit_iff_toNat.mp h

theorem toString_int (k : Int) :
    (toString k).toList = (if k < 0 then ['-'] else []) ++ (toString k.natAbs).toList := by
  cases k with
  | ofNat n => rfl
  | negSucc n =>
    have h : toString (Int.negSucc n) = "-" ++ toString (n + 1) := rfl
    rw [h, String.toList_append, if_pos (Int.negSucc_lt_zero n)]
    rfl

namespace Numeral

theorem digit?_of_isDigit {c : Char} (h : c.isDigit = true) : digit? c = some (c.toNat - 48) := by
  obtain ⟨hlo, hhi⟩ := toNat_of_isDigit h
  simp only [digit?, hlo, hhi, decide_true, Bool.and_true, if_true]

theorem le_ofDigitChars (cs : List Char) (n : Nat) : n ≤ Nat.ofDigitChars 10 cs n := by
  induction cs generalizing n with
  | nil => exact le_rfl
  | cons c cs ih =>
    have hnext := ih (10 * n + (c.toNat - '0'.toNat))
    have hcons : ofDigitChars 10 (c :: cs) n =
      ofDigitChars 10 cs (10 * n + (c.toNat - '0'.toNat)) := rfl
    omega

theorem digits_eq {top : Nat} {cs : List Char} (hcs : ∀ c ∈ cs, c.isDigit = true)
    (htop : Nat.ofDigitChars 10 cs n ≤ top) :
    digits 10 top false n cs = .ok (Nat.ofDigitChars 10 cs n) := by
  induction cs generalizing n with
  | nil => rfl
  | cons c cs ih =>
    have hc := hcs c (by simp)
    obtain ⟨hlo, hhi⟩ := toNat_of_isDigit hc
    have hcons : Nat.ofDigitChars 10 (c :: cs) n =
        Nat.ofDigitChars 10 cs (n * 10 + (c.toNat - 48)) := by
      rw [Nat.mul_comm]
      rfl
    rw [hcons] at htop ⊢
    have hle := (le_ofDigitChars cs (n * 10 + (c.toNat - 48))).trans htop
    rw [digits, digit?_of_isDigit hc, Bool.false_and, if_neg Bool.false_ne_true]
    simp only
    rw [if_neg (by omega), if_neg (Nat.not_lt.mpr hle)]
    exact ih (fun d hd => hcs d (by simp [hd])) htop

theorem decimal_toString {top : Nat} (h : n ≤ top) : decimal top (toString n).toList = .ok n := by
  obtain ⟨c, cs, hcs, hdigit, -⟩ := digits_toString n
  have hvalue : Nat.ofDigitChars 10 (c :: cs) 0 = n := by
    rw [← hcs, Nat.toString_eq_ofList_toDigits, String.toList_ofList,
      Nat.ofDigitChars_toDigits (by decide) le_rfl]
  rw [hcs, decimal, isEmpty_cons, if_neg Bool.false_ne_true, digits_eq hdigit (by omega),
    hvalue]

theorem decimal64_toString {k : Int} (hlo : -2 ^ 63 ≤ k) (hhi : k < 2 ^ 63) :
    decimal64 (toString k) = .ok k := by
  have htop : k.natAbs ≤ Nat.pow 2 64 - 1 := by norm_num; omega
  have hread := decimal_toString htop
  obtain ⟨c, cs, hcs, hdigit, -⟩ := digits_toString k.natAbs
  have hc := toNat_of_isDigit (hdigit c (by simp))
  rw [decimal64, toString_int]
  by_cases hneg : k < 0
  · rw [if_pos hneg, singleton_append, signed, hread]
    have hfits : ¬Nat.pow 2 63 < k.natAbs := by norm_num; omega
    change (if _ then _ else _) = _
    rw [if_neg hfits]
    congr 1
    omega
  · rw [if_neg hneg, nil_append]
    have hfits : ¬Nat.pow 2 63 ≤ k.natAbs := by norm_num; omega
    have hsigned : signed decimal (toString k.natAbs).toList =
        (do
          let n ← decimal (Nat.pow 2 64 - 1) (toString k.natAbs).toList
          if Nat.pow 2 63 ≤ n then .error .outOfRange else .ok (n : Int)) := by
      rw [hcs]
      unfold signed
      split
      · rename_i heq; obtain ⟨rfl, -⟩ := List.cons.inj heq; simp at hc
      · rename_i heq; obtain ⟨rfl, -⟩ := List.cons.inj heq; simp at hc
      · rfl
    rw [hsigned, hread]
    change (if _ then _ else _) = _
    rw [if_neg hfits]
    congr 1
    omega

end Numeral

end TiledAutomata.Text
