import TiledAutomata.Proofs.Snapshots

/-!
# The format of snapshots

Bytes are read as a snapshot exactly where they begin with a header and hold the words that it
promises; what is written for the snapshot again is what was read. Writing checks less than
reading: numbers are cut to the 32 bits of the header, and there may be more words than are read.
-/

namespace TiledAutomata.Snapshot

open List

open Text (Bytes)
open Outcome

variable {bs : Bytes} {e : Error}

def promised (bs : Bytes) : Nat := (number bs 2).toNat * (number bs 3).toNat

theorem takeWords?_isSome (n : Nat) (ws : Words) (bs : Bytes) :
    (takeWords? n ws bs).isSome = true ↔ 4 * n ≤ bs.length := by
  induction n generalizing ws bs with
  | zero => simp [takeWords?]
  | succ n ih =>
    rw [takeWords?]
    rcases bs with _ | ⟨a, _ | ⟨b, _ | ⟨c, _ | ⟨d, rest⟩⟩⟩⟩ <;>
      simp only [takeWord?, ih, length_cons, length_nil, Option.isSome_none,
        Bool.false_eq_true, false_iff] <;> omega

theorem takeWords?_bytes {n : Nat} {seen ws : Words} (h : takeWords? n seen bs = some ws) :
    (ws.toList.flatMap fun w => putWord w.toUInt32) =
      (seen.toList.flatMap fun w => putWord w.toUInt32) ++ bs.take (4 * n) := by
  induction n generalizing seen bs with
  | zero => simp [← Option.some.inj h]
  | succ n ih =>
    rw [takeWords?] at h
    split at h
    · rename_i w rest hword
      have htake : bs.take (4 * (n + 1)) = putWord w ++ rest.take (4 * n) := by
        rw [putWord_of_take hword, Nat.mul_succ, Nat.add_comm, take_add]
        rfl
      rw [ih h, htake]
      simp
    · cases h

theorem putWord_number {i : Nat} (h : 4 * i + 4 ≤ bs.length) :
    putWord (number bs i) = (bs.drop (4 * i)).take 4 := by
  have hsome : (takeWords? 1 #[] (bs.drop (4 * i))).isSome = true := by
    rw [takeWords?_isSome, length_drop]
    omega
  rw [takeWords?] at hsome
  split at hsome
  · rename_i hword
    rw [number, hword, putWord_of_take hword]
    rfl
  · cases hsome

theorem toUInt32_ofNat (n : UInt32) : (Int64.ofNat n.toNat).toUInt64.toUInt32 = n := by
  have hlt := n.toNat_lt
  have hint : (Int64.ofNat n.toNat).toInt = n.toNat := Int64.toInt_ofNat_of_lt (by omega)
  apply UInt32.toNat_inj.mp
  rw [toNat_toUInt32 (by omega) (by omega), hint, Int.toNat_natCast]

theorem readChunks_error {chunks n : Nat} {ws : Words} (h : readChunks chunks n ws bs = .error e) :
    ∃ t, e = .noted .format t := by
  induction chunks generalizing n ws bs with
  | zero => cases h
  | succ chunks ih =>
    rw [readChunks] at h
    split at h
    · exact ih h
    · exact ⟨_, (Except.error.inj h).symm⟩

theorem decode_ok_iff : (∃ s, decode bs = .ok s) ↔ 16 ≤ bs.length ∧
    bs.take 4 = magic ∧ number bs 1 = version ∧ promised bs ≤ limit ∧
    16 + 4 * promised bs ≤ bs.length := by
  have hwords : (∃ words, takeWords? (promised bs) #[] (bs.drop 16) = some words) ↔
      4 * promised bs ≤ bs.length - 16 := by
    rw [← Option.isSome_iff_exists, takeWords?_isSome, length_drop]
  constructor
  · rintro ⟨s, hs⟩
    obtain ⟨hheader, hmagic, hversion, hfew, words, htake, -⟩ := decode_ok.mp hs
    have hlength := hwords.mp ⟨words, htake⟩
    exact ⟨hheader, hmagic, hversion, hfew, by omega⟩
  · rintro ⟨hheader, hmagic, hversion, hfew, hlength⟩
    obtain ⟨words, htake⟩ := hwords.mpr (by omega)
    exact ⟨_, decode_ok.mpr ⟨hheader, hmagic, hversion, hfew, words, htake, rfl⟩⟩

theorem decode_encode {s : Snapshot} (h : decode bs = .ok s) :
    s.encode = .ok (bs.take (16 + 4 * promised bs)) := by
  have hfits := decode_fits h
  obtain ⟨hheader, hmagic, hversion, -, words, htake, rfl⟩ := decode_ok.mp h
  obtain ⟨bs', hencode, -⟩ := hfits.encode
  have hbytes := takeWords?_bytes htake
  rw [Array.toList_empty, flatMap_nil, nil_append] at hbytes
  unfold encode at hencode ⊢
  split at hencode
  · cases hencode
  · rename_i hsize
    have hnumbers : bs.take 16 = magic ++ putWord version ++ putWord (number bs 2) ++
        putWord (number bs 3) := by
      rw [← hmagic, ← hversion, putWord_number (by omega), putWord_number (by omega),
        putWord_number (by omega), ← take_add, ← take_add, ← take_add]
    rw [if_neg hsize, toUInt32_ofNat, toUInt32_ofNat, hbytes, take_add, hnumbers]
    rfl

theorem guard_error {β : Type} {c : Prop} [Decidable c] {e' : Error} {f : PUnit → Except Error β} :
    (if c then throw e' >>= f else f ⟨⟩) = .error e ↔ c ∧ e' = e ∨ ¬c ∧ f ⟨⟩ = .error e := by
  by_cases h : c <;> simp [h, bind, Except.bind, throw, throwThe, MonadExceptOf.throw]

/-- What reading refuses is of another version where the header is there and says so, and is else
no snapshot. -/
theorem decode_error (h : decode bs = .error e) :
    if 16 ≤ bs.length ∧ bs.take 4 = magic ∧ number bs 1 ≠ version then ∃ t, e = .noted .version t
    else ∃ t, e = .noted .format t := by
  unfold decode at h
  rw [guard_error] at h
  simp only [guard_error] at h
  rcases h with ⟨hshort, rfl⟩ | ⟨hheader, ⟨hmagic, rfl⟩ | ⟨hmagic, ⟨hversion, rfl⟩ | ⟨hversion, h⟩⟩⟩
  · rw [if_neg fun hv => absurd hv.1 (by omega)]
    exact ⟨_, rfl⟩
  · rw [if_neg fun hv => hmagic hv.2.1]
    exact ⟨_, rfl⟩
  · rw [if_pos ⟨by omega, not_not.mp hmagic, hversion⟩]
    exact ⟨_, rfl⟩
  · rw [if_neg fun hv => hversion hv.2.2]
    rcases h with ⟨-, rfl⟩ | ⟨-, h⟩
    · exact ⟨_, rfl⟩
    · match hread : readWords ((number bs 2).toNat * (number bs 3).toNat) (bs.drop 16) with
      | .error e' =>
        unfold number at hread
        rw [hread] at h
        cases h
        exact readChunks_error hread
      | .ok words =>
        unfold number at hread
        rw [hread] at h
        cases h

/-- Reading accepts exactly the format, whatever the bytes. The snapshot has the numbers of the
header and the words that they promise, and writing it gives the bytes that were read. Other bytes
are refused for their version if only that is wrong with their header, and else for their format.
Reading in chunks is reading all words at once. -/
theorem decode_exact (bs : Bytes) :
    ((∃ s, decode bs = .ok s) ↔ 16 ≤ bs.length ∧ bs.take 4 = magic ∧ number bs 1 = version ∧
      promised bs ≤ 2 ^ 30 ∧ 16 + 4 * promised bs ≤ bs.length) ∧
    (∀ s, decode bs = .ok s → s.count.toInt = (number bs 2).toNat ∧
      s.stateSize.toInt = (number bs 3).toNat ∧ s.words.size = promised bs ∧
      s.encode = .ok (bs.take (16 + 4 * promised bs))) ∧
    (∀ e, decode bs = .error e →
      if 16 ≤ bs.length ∧ bs.take 4 = magic ∧ number bs 1 ≠ version
      then ∃ t, e = .noted .version t else ∃ t, e = .noted .format t) ∧
    ∀ n body, (readWords n body).toOption = takeWords? n #[] body := by
  refine ⟨decode_ok_iff, fun s hs => ?_, fun e => decode_error, readWords_toOption⟩
  have hfits := decode_fits hs
  obtain ⟨-, -, -, -, words, htake, rfl⟩ := decode_ok.mp hs
  have hint : ∀ n : UInt32, (Int64.ofNat n.toNat).toInt = n.toNat := fun n => by
    have := n.toNat_lt
    exact Int64.toInt_ofNat_of_lt (by omega)
  exact ⟨hint _, hint _, (takeWords?_size htake).trans (Nat.zero_add _), decode_encode hs⟩

/-- One instance of one word, and three bytes behind it that are not read. -/
theorem decode_exact_single :
    ∃ s, decode (magic ++ [1, 0, 0, 0, 1, 0, 0, 0, 1, 0, 0, 0, 7, 0, 0, 0, 9, 9, 9]) = .ok s ∧
      s.encode = .ok (magic ++ [1, 0, 0, 0, 1, 0, 0, 0, 1, 0, 0, 0, 7, 0, 0, 0]) := by
  obtain ⟨haccepts, hread, -⟩ := decode_exact
    (magic ++ [1, 0, 0, 0, 1, 0, 0, 0, 1, 0, 0, 0, 7, 0, 0, 0, 9, 9, 9])
  obtain ⟨s, hs⟩ := haccepts.mpr (by decide)
  exact ⟨s, hs, (hread s hs).2.2.2⟩

/-- What is written is read back as it was exactly where both numbers fit the header and there are
no more words than are read. -/
theorem encode_read_back {s : Snapshot} {bs : Bytes} (hcount : 0 ≤ s.count.toInt)
    (hsize : 0 ≤ s.stateSize.toInt) (h : s.encode = .ok bs) :
    decode bs = .ok s ↔
      s.count.toInt < 2 ^ 32 ∧ s.stateSize.toInt < 2 ^ 32 ∧ s.words.size ≤ 2 ^ 30 := by
  constructor
  · intro hread
    have hfits := decode_fits hread
    exact ⟨hfits.count_lt, hfits.size_lt, hfits.few⟩
  · rintro ⟨hcount', hsize', hfew⟩
    have hproduct : Int64.ofNat s.words.size = s.count * s.stateSize := by
      unfold encode at h
      split at h
      · cases h
      · exact not_not.mp ‹_›
    have hwords : s.words.size = s.count.toInt.toNat * s.stateSize.toInt.toNat := by
      have hnonneg := Int.mul_nonneg hcount hsize
      have hlt : s.count.toInt * s.stateSize.toInt < 2 ^ 64 := by nlinarith
      have hwrap := congrArg Int64.toInt hproduct
      rw [Int64.toInt_ofNat_of_lt (by omega), Int64.toInt_mul, Int.bmod_def] at hwrap
      rw [← Int.toNat_mul hcount hsize]
      split at hwrap <;> omega
    obtain ⟨bs', hencode, hdecode⟩ :=
      Fits.encode ⟨hcount, hcount', hsize, hsize', hwords, hfew⟩
    cases hencode.symm.trans h
    exact hdecode

/-- As many instances as the header cannot count, without any words, are written and not read. -/
theorem encode_read_back_wide :
    ∃ bs, encode ⟨4294967296, 0, #[]⟩ = .ok bs ∧ decode bs ≠ .ok ⟨4294967296, 0, #[]⟩ := by
  refine ⟨_, rfl, fun hread => ?_⟩
  exact absurd ((encode_read_back (by decide) (by decide) rfl).mp hread).1 (by decide)

end TiledAutomata.Snapshot
