import TiledAutomata.Expr.Parse
import TiledAutomata.Proofs.Texts

/-!
# Tokens of a text, piece by piece

A piece of a source that ends where a token ends is scanned by itself: its tokens come
first, then those of what follows. Names and numerals end where no letter, digit or
underscore follows them, an operator where no longer one does.
-/

namespace TiledAutomata

open Bool List Text Token

open Text (Bytes)

variable {bs cs rest : Bytes} {k : Kind} {ts : List Token} {m : String} {c : UInt8} {n : Nat}

/-! ## Bytes of plain texts -/

namespace Text

theorem bytes_append (s t : String) : bytes (s ++ t) = bytes s ++ bytes t := by
  rw [← String.ofList_toList (s := s), ← String.ofList_toList (s := t), ← String.ofList_append]
  simp only [bytes_ofList, flatMap_append]

theorem bytes_join (ss : List String) : bytes (String.join ss) = ss.flatMap bytes := by
  have hfrom : ∀ s : String, bytes (ss.foldl (· ++ ·) s) = bytes s ++ ss.flatMap bytes := by
    induction ss with
    | nil => simp
    | cons t ts ih => intro s; rw [foldl_cons, ih, bytes_append]; simp
  exact hfrom ""

theorem bytes_ofAscii (h : ∀ b ∈ bs, b.toNat < 128) : bytes (ofAscii bs) = bs := by
  rw [ofAscii, bytes_ofList]
  induction bs with
  | nil => rfl
  | cons b bs ih =>
    have hb := h b (by simp)
    have hval : (Char.ofNat b.toNat).val.toNat = b.toNat := by
      have hvalid : b.toNat.isValidChar := Or.inl (by omega)
      rw [Char.ofNat, dif_pos hvalid]
      rfl
    rw [map_cons, flatMap_cons, ih fun c hc => h c (by simp [hc]),
      String.utf8EncodeChar, hval, if_pos (by omega)]
    simp

theorem ofAscii_bytes {s : String} (h : ∀ b ∈ bytes s, b.toNat < 128) : ofAscii (bytes s) = s := by
  have hdecode : ∀ bs : Bytes, (∀ b ∈ bs, b.toNat < 128) →
      decode bs = bs.map fun b => .ok (Char.ofNat b.toNat) := by
    intro bs hbs
    induction bs with
    | nil => rfl
    | cons b bs ih =>
      rw [decode_one (hbs b (by simp)), ih fun c hc => hbs c (by simp [hc])]
      rfl
  have hs := lossy_bytes s
  rw [lossy, hdecode _ h, map_map] at hs
  exact hs

end Text

namespace Token

/-! ## The token that starts a text -/

def isName : Bytes → Bool
  | [] => false
  | c :: cs => isWordStart c && cs.all isWord

def Name (x : String) : Prop := isName (Text.bytes x) = true

instance (x : String) : Decidable (Name x) := inferInstanceAs (Decidable (_ = true))

def Apart (rest : Bytes) : Prop := ∀ b ∈ rest.head?, isWord b = false

theorem isWord_plain (h : isWord c = true) :
    c.toNat < 128 ∧ isBlank c = false ∧ (c == slash) = false := by
  simp only [isWord, isWordStart, isDigit, or_eq_true, and_eq_true, beq_iff_eq,
    decide_eq_true_eq, UInt8.le_iff_toNat_le, ← UInt8.toNat_inj, UInt8.reduceToNat] at h
  simp only [isBlank, slash, or_eq_false_iff, beq_eq_false_iff_ne, ne_eq, ← UInt8.toNat_inj,
    UInt8.reduceToNat]
  omega

theorem isWord_of_start (h : isWordStart c = true) : isWord c = true := by
  simp [isWord, h]

theorem isWord_of_isName (h : isName bs = true) : ∀ b ∈ bs, isWord b = true := by
  match bs, h with
  | c :: cs, h =>
    obtain ⟨hc, hcs⟩ := and_eq_true_iff.mp h
    intro b hb
    rcases mem_cons.mp hb with rfl | hb
    · exact isWord_of_start hc
    · exact all_eq_true.mp hcs b hb

theorem not_digit_of_start (h : isWordStart c = true) : isDigit c = false := by
  simp only [isWordStart, or_eq_true, and_eq_true, beq_iff_eq,
    decide_eq_true_eq, UInt8.le_iff_toNat_le, ← UInt8.toNat_inj, UInt8.reduceToNat] at h
  simp only [isDigit, and_eq_false_iff, decide_eq_false_iff_not, UInt8.le_iff_toNat_le,
    UInt8.reduceToNat]
  omega

theorem spellings_plain : ∀ s ∈ spellings, Text.bytes s.1 = Text.ascii s.1 ∧
    Text.ofAscii (Text.ascii s.1) = s.1 ∧ (Text.ascii s.1).length = s.1.length ∧
      ∃ c ∈ (Text.ascii s.1).head?, isDigit c = false ∧ isWordStart c = false ∧
        isBlank c = false ∧ (c = slash → s.1 = "/" ∨ s.1 = "/=") := by
  decide

/-- Every spelling stands before its own beginnings. -/
theorem spellings_ordered :
    spellings.Pairwise fun a b => ¬ascii a.1 <+: ascii b.1 := by
  decide

theorem spellings_letters : ∀ s ∈ spellings, slash ∉ (ascii s.1).tail ∧
    ∀ b ∈ ascii s.1, isWord b = false ∧ b.toNat < 128 := by
  decide +kernel

/-- No longer spelling than this one starts where it does, with other bytes behind it. -/
def Longest (m : String) (rest : Bytes) : Prop :=
  ∀ s ∈ spellings, Text.ascii s.1 <+: Text.ascii m ++ rest →
    (Text.ascii s.1).length ≤ (Text.ascii m).length

/-- Bytes of a token of a kind in front of others: a number or a name takes all letters, digits and
underscores, and any other token is the longest spelling that starts there. -/
inductive Starts : Kind → Bytes → Bytes → Prop where
  | number {c : UInt8} {cs rest : Bytes} (hc : isDigit c = true) (hcs : ∀ b ∈ cs, isWord b = true)
      (hrest : Apart rest) : Starts .number (c :: cs) rest
  | name {cs rest : Bytes} (h : isName cs = true) (hrest : Apart rest) : Starts .ident cs rest
  | spelling {m : String} {k : Kind} {rest : Bytes} (h : (m, k) ∈ spellings)
      (hrest : Longest m rest) : Starts k (Text.ascii m) rest

theorem take_of_isPrefixOf {a : List UInt8} {b c : UInt8} (h : a.isPrefixOf (c :: cs) = true)
    (hb : b ∈ a.head?) : c :: cs.take (a.length - 1) = a := by
  obtain ⟨as, rfl⟩ := head?_eq_some_iff.mp hb
  have hstart := isPrefixOf_iff_prefix.mp h
  obtain ⟨rfl, has⟩ := cons_prefix_cons.mp hstart
  rw [length_cons, Nat.add_sub_cancel, ← prefix_iff_eq_take.mp has]

theorem find_longest (h : spellings.find? (fun s => (ascii s.1).isPrefixOf cs) = some (m, k)) :
    ∀ s ∈ spellings, ascii s.1 <+: cs → (ascii s.1).length ≤ (ascii m).length := by
  obtain ⟨hfits, before, behind, hsplit, hnone⟩ := find?_eq_some_iff_append.mp h
  intro s hs hstart
  by_contra hlong
  have hshort := isPrefixOf_iff_prefix.mp hfits
  have hle : ascii m <+: ascii s.1 := prefix_of_prefix_length_le hshort hstart (by omega)
  have hordered := spellings_ordered
  rw [hsplit, pairwise_append] at hordered
  rw [hsplit, mem_append, mem_cons] at hs
  rcases hs with hs | rfl | hs
  · rw [← isPrefixOf_iff_prefix] at hstart
    exact absurd (hnone s hs) (by simp [hstart])
  · exact hlong (Nat.le_refl _)
  · exact (pairwise_cons.mp hordered.2.1).1 s hs hle

theorem lexeme_starts (h : lexeme? c cs = some (k, n)) :
    n ≤ cs.length ∧ Starts k (c :: cs.take n) (cs.drop n) := by
  have hpre := takeWhile_prefix (l := cs) isWord
  have hall : ∀ b ∈ cs.take (cs.takeWhile isWord).length, isWord b = true := by
    rw [← prefix_iff_eq_take.mp hpre]
    exact all_eq_true.mp all_takeWhile
  have hrest : Apart (cs.drop (cs.takeWhile isWord).length) := by
    have hdrop := @drop_left _ (cs.takeWhile isWord) (cs.dropWhile isWord)
    rw [takeWhile_append_dropWhile] at hdrop
    have hnot := head?_dropWhile_not isWord cs
    rw [hdrop]
    intro b hb
    rwa [hb] at hnot
  unfold lexeme? at h
  split at h
  · next hc =>
    cases h
    exact ⟨hpre.length_le, .number hc hall hrest⟩
  · split at h
    · next hc =>
      cases h
      exact ⟨hpre.length_le, .name (by rw [isName, hc]; exact all_eq_true.mpr hall) hrest⟩
    · obtain ⟨⟨m, k⟩, hs, heq⟩ := Option.map_eq_some_iff.mp h
      cases heq
      have hmem := mem_of_find?_eq_some hs
      obtain ⟨-, -, hlength, b, hb, -⟩ := spellings_plain _ hmem
      have hfits := find?_some hs
      have htake := take_of_isPrefixOf hfits hb
      have hstart := isPrefixOf_iff_prefix.mp hfits
      have hle := hstart.length_le
      simp only at hlength
      rw [hlength] at htake
      rw [hlength, length_cons] at hle
      refine ⟨show m.length - 1 ≤ _ by omega, ?_⟩
      rw [htake]
      refine .spelling hmem fun s hs' => ?_
      rw [← htake, cons_append, take_append_drop]
      exact htake ▸ find_longest hs s hs'

theorem Starts.lexeme (h : Starts k (c :: cs) rest) :
    lexeme? c (cs ++ rest) = some (k, cs.length) := by
  generalize hown : c :: cs = own at h
  cases h with
  | number hc hcs hrest =>
    cases hown
    rw [lexeme?, hc, takeWhile_append_stop hcs hrest]
    rfl
  | name h hrest =>
    rw [← hown] at h
    obtain ⟨hc, hcs⟩ := and_eq_true_iff.mp h
    rw [lexeme?, not_digit_of_start hc, hc, takeWhile_append_stop (all_eq_true.mp hcs) hrest]
    rfl
  | @spelling m _ _ h hrest =>
    obtain ⟨-, -, hlength, b, hb, hdigit, hstart, -⟩ := spellings_plain _ h
    have hfind := find?_longest (f := fun s : String × Kind => ascii s.1) spellings_ordered h hrest
    simp only at hlength hb
    rw [← hown] at hlength hb hfind
    cases hb
    rw [lexeme?, hdigit, hstart, ← cons_append, hfind]
    simp [← hlength]

theorem Starts.plain (h : Starts k cs rest) : (∀ b ∈ cs, b.toNat < 128) ∧ slash ∉ cs.tail ∧
    ∃ c ∈ cs.head?, isBlank c = false := by
  have hword : ∀ {c cs}, (∀ b ∈ c :: cs, isWord b = true) → (∀ b ∈ c :: cs, b.toNat < 128) ∧
      slash ∉ cs ∧ ∃ b ∈ (c :: cs).head?, isBlank b = false := fun hall =>
    ⟨fun b hb => (isWord_plain (hall b hb)).1,
      fun hs => absurd (hall slash (mem_cons_of_mem _ hs)) (by decide),
      _, rfl, (isWord_plain (hall _ mem_cons_self)).2.1⟩
  cases h with
  | number hc hcs => exact hword (forall_mem_cons.mpr ⟨by simp [isWord, hc], hcs⟩)
  | name h =>
    match cs, h with
    | c :: cs, h => exact hword (isWord_of_isName h)
  | spelling h =>
    obtain ⟨hslash, hletters⟩ := spellings_letters _ h
    obtain ⟨-, -, -, c, hc, -, -, hblank, -⟩ := spellings_plain _ h
    exact ⟨fun b hb => (hletters b hb).2, hslash, c, hc, hblank⟩

/-! ## Pieces of a source -/

/-- A piece has its tokens in front of those of the rest. -/
def Reads (cs rest : Bytes) (pos : Nat) (ts : List Token) : Prop :=
  scan .between pos (cs ++ rest) = (ts ++ ·) <$> scan .between (pos + cs.length) rest

theorem Reads.nil (rest : Bytes) (pos : Nat) : Reads [] rest pos [] := by
  cases h : scan .between pos rest <;> simp [Reads, h]

theorem Reads.append {ds : Bytes} {pos : Nat} {us : List Token} (h : Reads cs (ds ++ rest) pos ts)
    (h' : Reads ds rest (pos + cs.length) us) : Reads (cs ++ ds) rest pos (ts ++ us) := by
  rw [Reads, append_assoc, h, h', length_append, ← Nat.add_assoc]
  cases scan .between (pos + cs.length + ds.length) rest <;> simp

theorem scan_within_zero (pos : Nat) (rest : Bytes) :
    scan (.within 0) pos rest = scan .between pos rest := by
  cases rest <;> simp [scan]

theorem scan_within (cs rest : Bytes) (pos : Nat) :
    scan (.within cs.length) pos (cs ++ rest) = scan .between (pos + cs.length) rest := by
  induction cs generalizing pos with
  | nil => exact scan_within_zero pos rest
  | cons c cs ih =>
    rw [length_cons, cons_append, scan, ih, Nat.add_assoc, Nat.add_comm 1]

theorem scan_between (c : UInt8) (cs : Bytes) (pos : Nat) : scan .between pos (c :: cs) =
    if isBlank c then scan .between (pos + 1) cs
    else if c == slash && cs.head? == some slash then scan .comment (pos + 1) cs
    else match lexeme? c cs with
      | none => .error ⟨pos, .badByte c⟩
      | some (k, n) => do
        let ts ← scan (.within n) (pos + 1) cs
        return ⟨k, ofAscii (c :: cs.take n), pos⟩ :: ts :=
  rfl

theorem reads_starts (h : Starts k cs rest) (hgap : cs = [slash] → rest.head? ≠ some slash)
    (pos : Nat) : Reads cs rest pos [⟨k, ofAscii cs, pos⟩] := by
  obtain ⟨-, hslash, c, hc, hblank⟩ := h.plain
  obtain ⟨cs, rfl⟩ := head?_eq_some_iff.mp hc
  have hcomment : (c == slash && (cs ++ rest).head? == some slash) = false := by
    rw [← not_eq_true, and_eq_true, beq_iff_eq, beq_iff_eq]
    rintro ⟨rfl, hhead⟩
    cases cs with
    | nil => exact hgap rfl hhead
    | cons b cs =>
      cases hhead
      exact hslash mem_cons_self
  rw [Reads, cons_append, scan_between, hblank, hcomment, h.lexeme]
  simp only [false_eq_true, if_false, scan_within, take_left', length_cons]
  rw [show pos + 1 + cs.length = pos + (cs.length + 1) by omega]
  cases scan .between (pos + (cs.length + 1)) rest <;> rfl

theorem reads_text {s : String} (h : Starts k (bytes s) rest)
    (hgap : bytes s = [slash] → rest.head? ≠ some slash) (pos : Nat) :
    Reads (bytes s) rest pos [⟨k, s, pos⟩] := by
  have hread := reads_starts h hgap pos
  rwa [ofAscii_bytes h.plain.1] at hread

theorem reads_name {x : String} (h : Name x) (hrest : Apart rest) (pos : Nat) :
    Reads (bytes x) rest pos [⟨.ident, x, pos⟩] :=
  reads_text (.name h hrest)
    (fun heq => absurd (heq ▸ h : isName [slash] = true) (by decide)) pos

theorem reads_spelling (h : (m, k) ∈ spellings) (hrest : Longest m rest)
    (hslash : m = "/" → rest.head? ≠ some slash) (pos : Nat) :
    Reads (bytes m) rest pos [⟨k, m, pos⟩] := by
  obtain ⟨hbytes, htext, -⟩ := spellings_plain _ h
  simp only at hbytes htext
  refine reads_text (hbytes ▸ .spelling h hrest) (fun heq => hslash ?_) pos
  rw [← htext, ← hbytes, heq]
  decide

theorem reads_blank (hc : isBlank c = true) (rest : Bytes) (pos : Nat) : Reads [c] rest pos [] := by
  rw [Reads, singleton_append, scan_between, if_pos hc]
  cases scan .between (pos + [c].length) rest <;> simp

theorem scan_comment (h : newline ∉ bs) (rest : Bytes) (pos : Nat) :
    scan .comment pos (bs ++ rest) = scan .comment (pos + bs.length) rest := by
  induction bs generalizing pos with
  | nil => rfl
  | cons b bs ih =>
    have hb : (b == newline) = false := beq_eq_false_iff_ne.mpr (ne_of_not_mem_cons h).symm
    rw [cons_append, scan, hb]
    simp only [false_eq_true, if_false, ih (not_mem_of_not_mem_cons h), length_cons]
    congr 1
    omega

theorem longest_of (h : ∀ s ∈ spellings, ascii m <+: ascii s.1 → ascii s.1 <+: ascii m ++ rest →
    (ascii s.1).length ≤ (ascii m).length) : Longest m rest := by
  intro s hs hfits
  rcases prefix_or_prefix_of_prefix hfits (prefix_append _ _) with hle | hle
  · exact hle.length_le
  · exact h s hs hle hfits

theorem longest_blank (m : String) (rest : Bytes) : Longest m (32 :: rest) := by
  refine longest_of fun s hs hle hfits => ?_
  have hplain : ∀ s ∈ spellings, 32 ∉ ascii s.1 := by decide
  obtain ⟨t, ht⟩ := hle
  rw [← ht, prefix_append_right_inj] at hfits
  have hmem := hplain s hs
  rw [← ht] at hmem ⊢
  cases t with
  | nil => simp
  | cons b t => simp [← (cons_prefix_cons.mp hfits).1] at hmem

def brackets : List (String × Kind) :=
  [("(", .lparen), (")", .rparen), ("[", .lbracket), ("]", .rbracket), ("?", .question),
    (":", .colon), (";", .semicolon)]

theorem reads_bracket (h : (m, k) ∈ brackets) (rest : Bytes) (pos : Nat) :
    Reads (bytes m) rest pos [⟨k, m, pos⟩] := by
  have halone : ∀ s ∈ brackets, s ∈ spellings ∧ s.1 ≠ "/" ∧
      ∀ t ∈ spellings, ascii s.1 <+: ascii t.1 →
        (ascii t.1).length ≤ (ascii s.1).length := by
    decide
  obtain ⟨hmem, hdiv, hlong⟩ := halone _ h
  exact reads_spelling hmem (longest_of fun s hs hle _ => hlong s hs hle)
    (fun heq => absurd heq hdiv) pos

theorem reads_sign (o : UnaryOp) {b : UInt8} (hb : b ≠ 61) (rest : Bytes) (pos : Nat) :
    Reads (bytes o.text) (b :: rest) pos [⟨.op, o.text, pos⟩] := by
  have hequals : ∀ o ∈ UnaryOp.all, (o.text, Kind.op) ∈ spellings ∧ o.text ≠ "/" ∧
      ∀ s ∈ spellings, ascii o.text <+: ascii s.1 →
        ascii s.1 = ascii o.text ∨ ascii s.1 = ascii o.text ++ [61] := by
    decide
  obtain ⟨hmem, hdiv, hlong⟩ := hequals o (by cases o <;> decide)
  refine reads_spelling hmem (longest_of fun s hs hle hfits => ?_)
    (fun heq => absurd heq hdiv) pos
  rcases hlong s hs hle with heq | heq
  · rw [heq]
  · rw [heq, prefix_append_right_inj] at hfits
    exact absurd (cons_prefix_cons.mp hfits).1.symm hb

theorem reads_operator (o : BinaryOp) (rest : Bytes) (pos : Nat) :
    Reads (bytes o.text) (32 :: rest) pos [⟨.op, o.text, pos⟩] := by
  have hmem : ∀ o ∈ BinaryOp.all, (o.text, Kind.op) ∈ spellings := by decide
  exact reads_spelling (hmem o (by cases o <;> decide)) (longest_blank _ rest)
    (fun _ => by simp [slash]) pos

end Token

end TiledAutomata
