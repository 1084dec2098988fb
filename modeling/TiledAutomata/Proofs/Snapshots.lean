import TiledAutomata.Proofs.Calls
import TiledAutomata.Snapshot

/-!
# Snapshots that are written and read back

A snapshot whose numbers fit the header reads back as it was written. Reading in chunks is
reading all words at once.
-/

open List

namespace TiledAutomata

open Text (Bytes)
open Outcome

variable {bs : Bytes} {s : Snapshot}

namespace Snapshot

theorem takeWord?_putWord (w : UInt32) (rest : Bytes) :
    takeWord? (putWord w ++ rest) = some (w, rest) := by
  have hbits : w.toUInt8.toUInt32 ||| ((w >>> 8).toUInt8.toUInt32 <<< 8) |||
      ((w >>> 16).toUInt8.toUInt32 <<< 16) ||| ((w >>> 24).toUInt8.toUInt32 <<< 24) = w := by
    apply UInt32.eq_of_toBitVec_eq
    simp only [UInt32.toBitVec_or, UInt32.toBitVec_shiftLeft, UInt8.toBitVec_toUInt32,
      UInt32.toBitVec_toUInt8, UInt32.toBitVec_shiftRight]
    ext i hi
    simp only [UInt32.toBitVec_ofNat, BitVec.ofNat_eq_ofNat, BitVec.reduceMod,
      BitVec.ushiftRight_eq', BitVec.toNat_ofNat, Nat.reducePow, Nat.reduceMod,
      BitVec.shiftLeft_eq', BitVec.getElem_or, BitVec.getElem_setWidth, BitVec.getLsbD_setWidth,
      BitVec.getElem_shiftLeft, BitVec.getLsbD_ushiftRight]
    grind
  simp only [putWord, cons_append, nil_append, takeWord?, hbits]

theorem takeWords?_written (ws : List Word) (seen : Words) (rest : Bytes) :
    takeWords? ws.length seen ((ws.flatMap fun w => putWord w.toUInt32) ++ rest) =
      some (seen ++ ws) := by
  induction ws generalizing seen with
  | nil => simp [takeWords?]
  | cons w ws ih =>
    rw [flatMap_cons, append_assoc, length_cons, takeWords?, takeWord?_putWord]
    simp [ih]

theorem takeWords?_size {n : Nat} {seen ws : Words} (h : takeWords? n seen bs = some ws) :
    ws.size = seen.size + n := by
  induction n generalizing seen bs with
  | zero => rw [← Option.some.inj h, Nat.add_zero]
  | succ n ih =>
    rw [takeWords?] at h
    split at h
    · rw [ih h, Array.size_push, Nat.add_assoc, Nat.add_comm 1]
    · cases h

theorem putWord_of_take {rest : Bytes} {w : UInt32} (h : takeWord? bs = some (w, rest)) :
    bs = putWord w ++ rest := by
  match bs, h with
  | a :: b :: c :: d :: rest', h =>
    obtain ⟨hw, rfl⟩ := Prod.mk.inj (Option.some.inj h)
    have hbytes : putWord w = [a, b, c, d] := by
      subst hw
      simp only [putWord, List.cons.injEq, and_true]
      refine ⟨?_, ?_, ?_, ?_⟩ <;> apply UInt8.eq_of_toBitVec_eq <;>
        simp only [UInt32.toBitVec_or, UInt32.toBitVec_shiftLeft, UInt8.toBitVec_toUInt32,
          UInt32.toBitVec_toUInt8, UInt32.toBitVec_shiftRight] <;> ext i hi <;>
        simp only [UInt32.toBitVec_ofNat, BitVec.ofNat_eq_ofNat, BitVec.reduceMod,
          BitVec.ushiftRight_eq', BitVec.toNat_ofNat, Nat.reducePow, Nat.reduceMod,
          BitVec.shiftLeft_eq', BitVec.getElem_setWidth, BitVec.getLsbD_setWidth,
          BitVec.getLsbD_ushiftRight, BitVec.getLsbD_or, BitVec.getLsbD_shiftLeft] <;>
        grind
    rw [hbytes]
    rfl

theorem takeWords?_add (k m : Nat) (ws : Words) (bs : Bytes) :
    takeWords? (k + m) ws bs =
      (takeWords? k ws bs).bind fun seen => takeWords? m seen (bs.drop (4 * k)) := by
  induction k generalizing ws bs with
  | zero => simp [takeWords?]
  | succ k ih =>
    rw [Nat.add_right_comm, takeWords?, takeWords?]
    cases hword : takeWord? bs with
    | none => rfl
    | some r =>
      obtain ⟨w, rest⟩ := r
      have hdrop : bs.drop (4 * (k + 1)) = rest.drop (4 * k) := by
        rw [putWord_of_take hword, Nat.mul_succ, Nat.add_comm, ← drop_drop]
        rfl
      simp only [ih, hdrop]

theorem readChunks_toOption {chunks n : Nat} (h : n ≤ chunks * chunk) (ws : Words) (bs : Bytes) :
    (readChunks chunks n ws bs).toOption = takeWords? n ws bs := by
  induction chunks generalizing n ws bs with
  | zero =>
    obtain rfl : n = 0 := by omega
    rfl
  | succ chunks ih =>
    have hsplit := takeWords?_add (min n chunk) (n - min n chunk) ws bs
    rw [Nat.add_sub_cancel' (Nat.min_le_left n chunk)] at hsplit
    rw [hsplit, readChunks]
    cases htake : takeWords? (min n chunk) ws bs with
    | none => rfl
    | some seen => exact ih (by rw [Nat.add_mul] at h; omega) seen _

theorem readWords_toOption (n : Nat) (bs : Bytes) :
    (readWords n bs).toOption = takeWords? n #[] bs :=
  readChunks_toOption (by simp only [chunk]; omega) #[] bs

structure Fits (s : Snapshot) : Prop where
  count_nonneg : 0 ≤ s.count.toInt
  count_lt : s.count.toInt < 2 ^ 32
  size_nonneg : 0 ≤ s.stateSize.toInt
  size_lt : s.stateSize.toInt < 2 ^ 32
  words : s.words.size = s.count.toInt.toNat * s.stateSize.toInt.toNat
  few : s.words.size ≤ limit

def number (bs : Bytes) (i : Nat) : UInt32 := ((takeWord? (bs.drop (4 * i))).map (·.1)).getD 0

theorem number_written (front : Bytes) {i : Nat} (hfront : front.length = 4 * i) (w : UInt32)
    (rest : Bytes) : number (front ++ (putWord w ++ rest)) i = w := by
  rw [number, ← hfront, drop_left, takeWord?_putWord]
  rfl

theorem decode_ok :
    decode bs = .ok s ↔ 16 ≤ bs.length ∧ bs.take 4 = magic ∧ number bs 1 = version ∧
      (number bs 2).toNat * (number bs 3).toNat ≤ limit ∧
      ∃ words, takeWords? ((number bs 2).toNat * (number bs 3).toNat) #[] (bs.drop 16) =
        some words ∧
      s = ⟨Int64.ofNat (number bs 2).toNat, Int64.ofNat (number bs 3).toNat, words⟩ := by
  unfold decode
  rw [guard_ok]
  simp only [guard_ok, ne_eq, not_not, Nat.not_lt]
  refine and_congr_right fun _ => and_congr_right fun _ => and_congr_right fun _ =>
    and_congr_right fun _ => ?_
  change (readWords ((number bs 2).toNat * (number bs 3).toNat) (bs.drop 16) >>= fun words =>
    .ok (⟨Int64.ofNat (number bs 2).toNat, Int64.ofNat (number bs 3).toNat, words⟩ : Snapshot)) =
      _ ↔ _
  rw [← readWords_toOption, bind_ok]
  cases readWords ((number bs 2).toNat * (number bs 3).toNat) (bs.drop 16) with
  | error e => simp [Except.toOption]
  | ok words => simp [Except.toOption, eq_comm]

theorem decode_fits (h : decode bs = .ok s) : s.Fits := by
  obtain ⟨-, -, -, hfew, words, hwords, rfl⟩ := decode_ok.mp h
  have hcount := (number bs 2).toNat_lt
  have hsize := (number bs 3).toNat_lt
  have htoInt : ∀ n < 2 ^ 32, (Int64.ofNat n).toInt = n :=
    fun n hn => Int64.toInt_ofNat_of_lt (by omega)
  have hlen := takeWords?_size hwords
  rw [Array.size_empty, Nat.zero_add] at hlen
  constructor <;> simp only [htoInt _ hcount, htoInt _ hsize, Int.toNat_natCast, hlen] <;> omega

theorem toNat_toUInt32 {n : Int64} (hnonneg : 0 ≤ n.toInt) (hlt : n.toInt < 2 ^ 32) :
    n.toUInt64.toUInt32.toNat = n.toInt.toNat := by
  have hcases : n.toInt = if 2 * n.toBitVec.toNat < 2 ^ 64 then (n.toBitVec.toNat : Int)
      else (n.toBitVec.toNat : Int) - (2 ^ 64 : Nat) := BitVec.toInt_eq_toNat_cond n.toBitVec
  have hbits : n.toUInt64.toNat = n.toBitVec.toNat := rfl
  have hbound := n.toBitVec.isLt
  rw [UInt64.toNat_toUInt32, hbits]
  split at hcases <;> omega

theorem Fits.encode (h : s.Fits) : ∃ bs, s.encode = .ok bs ∧ decode bs = .ok s := by
  have hcount := toNat_toUInt32 h.count_nonneg h.count_lt
  have hsize := toNat_toUInt32 h.size_nonneg h.size_lt
  have hfew : s.count.toInt.toNat * s.stateSize.toInt.toNat ≤ 2 ^ 30 := h.words ▸ h.few
  have hproduct : Int64.ofNat s.words.size = s.count * s.stateSize := by
    have hmul : (s.count.toInt.toNat * s.stateSize.toInt.toNat : Int) =
        s.count.toInt * s.stateSize.toInt := by
      rw [Int.toNat_of_nonneg h.count_nonneg, Int.toNat_of_nonneg h.size_nonneg]
    apply Int64.toInt_inj.mp
    rw [Int64.toInt_ofNat_of_lt (by rw [h.words]; omega), h.words, Nat.cast_mul, hmul,
      Int64.toInt_mul_eq (by omega) (by omega)]
  let body : Bytes := s.words.toList.flatMap fun w => putWord w.toUInt32
  let bs := magic ++ putWord version ++ putWord s.count.toUInt64.toUInt32 ++
    putWord s.stateSize.toUInt64.toUInt32 ++ body
  have hone : number bs 1 = version := number_written magic rfl _ _
  have htwo : number bs 2 = s.count.toUInt64.toUInt32 :=
    number_written (magic ++ putWord version) rfl _ _
  have hthree : number bs 3 = s.stateSize.toUInt64.toUInt32 :=
    number_written (magic ++ putWord version ++ putWord s.count.toUInt64.toUInt32) rfl _ _
  refine ⟨bs, by rw [Snapshot.encode, if_neg (not_not.mpr hproduct)], decode_ok.mpr ?_⟩
  rw [htwo, hthree, hcount, hsize]
  refine ⟨by simp [bs, magic, putWord], rfl, hone, hfew, s.words, ?_, ?_⟩
  · have hread := takeWords?_written s.words.toList #[] []
    rw [Array.length_toList, h.words, append_nil] at hread
    change takeWords? _ _ body = _
    simpa using hread
  · rw [Int64.ofNat_toNat h.count_nonneg, Int64.ofNat_toNat h.size_nonneg]

end Snapshot

end TiledAutomata
