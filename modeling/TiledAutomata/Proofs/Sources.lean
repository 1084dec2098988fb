import TiledAutomata.Placeholder
import TiledAutomata.Proofs.Parsing

/-!
# Sources in which placeholders are whole

A source is read with each of its placeholders as one letter, which outside comments is
a name by itself. Writing the variables out gives the same tokens, as long as every
placeholder outside comments stands for a name and touches no letter, digit, underscore
or other placeholder, and none in a comment ends the comment.
-/

open List

namespace TiledAutomata.Placeholder

open Text (Bytes)
open Token (Place Kind lexeme? isBlank slash newline spellings)

variable {l r : Bytes} {c : UInt8}

/-- A letter of a source: a byte, or a placeholder with the variable that it stands for. -/
inductive Letter where
  | byte (b : UInt8)
  | var (x : String)
  deriving DecidableEq, Repr

variable {ys : List Letter}

namespace Letter

def spell : Letter → Bytes
  | .byte b => [b]
  | .var x => Text.bytes x

def spellAll (ys : List Letter) : Bytes := ys.flatMap spell

def stretch : List Letter → Bytes
  | .byte b :: ys => b :: stretch ys
  | _ => []

/-- The tokens of a source. No token but a placeholder's own reaches into a placeholder. -/
def scan : Place → Nat → List Letter → Except SyntaxError (List Token)
  | _, pos, [] => .ok [⟨.eof, "", pos⟩]
  | .comment, pos, .byte c :: ys =>
    scan (if c == newline then .between else .comment) (pos + 1) ys
  | .comment, pos, .var x :: ys => scan .comment (pos + (Text.bytes x).length) ys
  | .within (k + 1), pos, .byte _ :: ys => scan (.within k) (pos + 1) ys
  | _, pos, .var x :: ys => do
    let ts ← scan .between (pos + (Text.bytes x).length) ys
    return ⟨.ident, x, pos⟩ :: ts
  | _, pos, .byte c :: ys =>
    if isBlank c then scan .between (pos + 1) ys
    else if c == slash && ys.head? == some (.byte slash) then scan .comment (pos + 1) ys
    else match lexeme? c (stretch ys) with
      | none => .error ⟨pos, .badByte c⟩
      | some (k, n) => do
        let ts ← scan (.within n) (pos + 1) ys
        return ⟨k, Text.ofAscii (c :: (stretch ys).take n), pos⟩ :: ts

def isWord : Letter → Bool
  | .byte c => Token.isWord c
  | .var _ => true

def isVar : Letter → Bool
  | .byte _ => false
  | .var _ => true

/-- Outside comments every placeholder stands for a name and touches nothing that could be part of
one; in comments none ends the line. The flag tells whether a comment is open. -/
def Apart : Bool → List Letter → Prop
  | _, [] => True
  | true, .byte c :: ys => Apart (c != newline) ys
  | true, .var x :: ys => newline ∉ Text.bytes x ∧ Apart true ys
  | false, .byte c :: ys =>
    (Token.isWord c = true → ys.head?.any isVar = false) ∧
      Apart (c == slash && ys.head? == some (.byte slash)) ys
  | false, .var x :: ys => Token.Name x ∧ ys.head?.any isWord = false ∧ Apart false ys

instance decidableApart : (comment : Bool) → (ys : List Letter) → Decidable (Apart comment ys)
  | true, [] => isTrue trivial
  | false, [] => isTrue trivial
  | true, .byte c :: ys => decidableApart (c != newline) ys
  | true, .var _ :: ys =>
    have := decidableApart true ys
    inferInstanceAs (Decidable (_ ∧ _))
  | false, .byte c :: ys =>
    have := decidableApart (c == slash && ys.head? == some (.byte slash)) ys
    inferInstanceAs (Decidable (_ ∧ _))
  | false, .var _ :: ys =>
    have := decidableApart false ys
    inferInstanceAs (Decidable (_ ∧ _ ∧ _))

/-! ## Where a token ends -/

/-- A token that starts with a byte and goes on in a list of bytes does not go on behind them. -/
def Stops (c : UInt8) (l r : Bytes) : Prop :=
  r = [] ∨ slash ∈ l ∨
    (∃ b ∈ r.head?, Token.isWord b = true) ∧ ∃ b ∈ (c :: l).getLast?, Token.isWord b = false

theorem takeWhile_append_of_not {p : UInt8 → Bool} (h : ∃ b ∈ l, p b = false) (r : Bytes) :
    (l ++ r).takeWhile p = l.takeWhile p := by
  induction l with
  | nil => simp at h
  | cons c l ih =>
    by_cases hc : p c = true
    · obtain ⟨b, hb, hpb⟩ := h
      rcases mem_cons.mp hb with rfl | hb
      · simp [hc] at hpb
      · simp [hc, ih ⟨b, hb, hpb⟩]
    · simp [hc]

theorem prefix_append_iff_of_length {s : Bytes} (h : s <+: l ++ r → s.length ≤ l.length) :
    s <+: l ++ r ↔ s <+: l :=
  ⟨fun hs => prefix_of_prefix_length_le hs (prefix_append l r) (h hs),
    fun hs => hs.trans (prefix_append l r)⟩

theorem Stops.spelling_length (h : Stops c l r) {s : String × Kind} (hs : s ∈ spellings)
    (hfits : Text.ascii s.1 <+: c :: l ++ r) : (Text.ascii s.1).length ≤ (c :: l).length := by
  obtain ⟨hslash, hword⟩ := Token.spellings_letters s hs
  by_contra hlong
  -- A spelling that goes on behind the list holds all of it and the byte behind it.
  have hall : c :: l <+: Text.ascii s.1 :=
    prefix_of_prefix_length_le (prefix_append _ _) hfits (by omega)
  obtain ⟨t, ht⟩ := hall
  rw [← ht] at hfits hslash hword hlong
  have ht' : t <+: r := (prefix_append_right_inj (c :: l)).mp hfits
  cases t with
  | nil => exact hlong (by simp)
  | cons b t =>
    obtain ⟨u, hu⟩ := ht'
    rcases h with rfl | hmem | ⟨⟨d, hd, hdw⟩, -⟩
    · cases hu
    · exact hslash (by simp [hmem])
    · rw [← hu] at hd
      cases hd
      have hb := (hword b (by simp)).1
      rw [hdw] at hb
      cases hb

theorem Stops.exists_not_word (h : Stops c l r) (hc : Token.isWord c = true) :
    r = [] ∨ ∃ b ∈ l, Token.isWord b = false := by
  rcases h with h | h | ⟨-, b, hb, hw⟩
  · exact Or.inl h
  · exact Or.inr ⟨slash, h, by decide⟩
  · cases l with
    | nil =>
      rw [getLast?_singleton, Option.mem_some_iff] at hb
      rw [← hb, hc] at hw
      cases hw
    | cons d l =>
      rw [getLast?_cons_cons] at hb
      exact Or.inr ⟨b, mem_of_getLast? hb, hw⟩

theorem Stops.lexeme (h : Stops c l r) : lexeme? c (l ++ r) = lexeme? c l := by
  have hword (hc : Token.isWord c = true) :
      (l ++ r).takeWhile Token.isWord = l.takeWhile Token.isWord := by
    rcases h.exists_not_word hc with rfl | hex
    · rw [append_nil]
    · exact takeWhile_append_of_not hex r
  have hfind : spellings.find? (fun s => (Text.ascii s.1).isPrefixOf (c :: (l ++ r))) =
      spellings.find? fun s => (Text.ascii s.1).isPrefixOf (c :: l) := by
    apply List.find?_congr
    intro s hs
    rw [Bool.eq_iff_iff, isPrefixOf_iff_prefix, isPrefixOf_iff_prefix,
      ← cons_append]
    exact prefix_append_iff_of_length fun hfits => h.spelling_length hs hfits
  unfold lexeme?
  split
  · next hd => rw [hword (by simp [Token.isWord, hd])]
  · split
    · next hs => rw [hword (Token.isWord_of_start hs)]
    · rw [hfind]

/-! ## Tokens of the written-out source -/

theorem spellAll_cons (y : Letter) (ys : List Letter) :
    spellAll (y :: ys) = y.spell ++ spellAll ys := flatMap_cons

theorem head_name {x : String} (h : Token.Name x) :
    ∃ b bs, Text.bytes x = b :: bs ∧ Token.isWordStart b = true := by
  unfold Token.Name at h
  match hx : Text.bytes x, h with
  | b :: bs, h => exact ⟨b, bs, rfl, (Bool.and_eq_true_iff.mp h).1⟩

theorem exists_stretch (ys : List Letter) : ∃ r, spellAll ys = stretch ys ++ r := by
  induction ys with
  | nil => exact ⟨[], rfl⟩
  | cons y ys ih =>
    cases y with
    | var x => exact ⟨spellAll (.var x :: ys), rfl⟩
    | byte b =>
      obtain ⟨r, hr⟩ := ih
      exact ⟨r, by rw [spellAll_cons, hr]; rfl⟩

/-- Behind a byte, the bytes up to the next placeholder hold all of a token that starts there. -/
theorem Apart.stops (hc : Token.isWord c = true → ys.head?.any isVar = false) (h : Apart false ys) :
    ∃ r, spellAll ys = stretch ys ++ r ∧ Stops c (stretch ys) r := by
  induction ys generalizing c with
  | nil => exact ⟨[], rfl, Or.inl rfl⟩
  | cons y ys ih =>
    cases y with
    | var x =>
      obtain ⟨b, bs, hbytes, hb⟩ := head_name h.1
      refine ⟨spellAll (.var x :: ys), rfl, Or.inr (Or.inr ⟨⟨b, ?_, Token.isWord_of_start hb⟩, c,
        rfl, ?_⟩)⟩
      · rw [spellAll_cons, spell, hbytes]
        rfl
      · exact Bool.eq_false_iff.mpr fun hw => absurd (hc hw) (by simp [isVar])
    | byte b =>
      by_cases hb : b = slash
      · -- A comment may follow, with any placeholder in it, but no token runs into a slash.
        obtain ⟨r, hr⟩ := exists_stretch (.byte b :: ys)
        exact ⟨r, hr, Or.inr (Or.inl (by simp [stretch, hb]))⟩
      · have hflag : (b == slash && ys.head? == some (.byte slash)) = false := by simp [hb]
        obtain ⟨hw, h⟩ := h
        rw [hflag] at h
        obtain ⟨r, hr, hstops⟩ := ih hw h
        refine ⟨r, by rw [spellAll_cons, hr]; rfl, ?_⟩
        rcases hstops with hnil | hmem | ⟨hr', d, hd, hdw⟩
        · exact Or.inl hnil
        · exact Or.inr (Or.inl (by simp [stretch, hmem]))
        · exact Or.inr (Or.inr ⟨hr', d, by rw [stretch, getLast?_cons_cons]; exact hd, hdw⟩)

theorem scan_within_zero (pos : Nat) (ys : List Letter) :
    scan (.within 0) pos ys = scan .between pos ys := by
  match ys with
  | [] => rfl
  | .var x :: ys => rfl
  | .byte c :: ys => rfl

theorem scan_between (c : UInt8) (ys : List Letter) (pos : Nat) :
    scan .between pos (.byte c :: ys) =
      if isBlank c then scan .between (pos + 1) ys
      else if c == slash && ys.head? == some (.byte slash) then scan .comment (pos + 1) ys
      else match lexeme? c (stretch ys) with
        | none => .error ⟨pos, .badByte c⟩
        | some (k, n) => do
          let ts ← scan (.within n) (pos + 1) ys
          return ⟨k, Text.ofAscii (c :: (stretch ys).take n), pos⟩ :: ts := by
  rw [scan] <;> simp

theorem Apart.head_slash (h : Apart false (.byte c :: ys)) :
    (c == slash && (spellAll ys).head? == some slash) =
      (c == slash && ys.head? == some (.byte slash)) := by
  match ys, h with
  | [], _ => rfl
  | .byte b :: ys, _ =>
    rw [Bool.eq_iff_iff]
    simp [spellAll_cons, spell]
  | .var x :: ys, h =>
    have hflag : (c == slash && (Letter.var x :: ys).head? == some (.byte slash)) = false := by simp
    have hvar := h.2
    rw [hflag] at hvar
    obtain ⟨b, bs, hbytes, hb⟩ := head_name hvar.1
    have hne := (Token.isWord_plain (Token.isWord_of_start hb)).2.2
    rw [hflag, spellAll_cons, spell, hbytes]
    simp_all

/-- The written-out source has the tokens of the source, with their positions, or the same error.
In the middle of a token its bytes are there and hold no slash. -/
structure Agrees (ys : List Letter) : Prop where
  comment : Apart true ys → ∀ pos, Token.scan .comment pos (spellAll ys) = scan .comment pos ys
  within : Apart false ys → ∀ k pos, k ≤ (stretch ys).length →
    (∀ b ∈ (stretch ys).take k, b ≠ slash) →
      Token.scan (.within k) pos (spellAll ys) = scan (.within k) pos ys

theorem Agrees.between (h : Agrees ys) (hys : Apart false ys) (pos : Nat) :
    Token.scan .between pos (spellAll ys) = scan .between pos ys := by
  have hzero := h.within hys 0 pos (Nat.zero_le _) (by simp)
  rwa [Token.scan_within_zero, scan_within_zero] at hzero

theorem apart_spellAll (hnext : ys.head?.any isWord = false) : Token.Apart (spellAll ys) := by
  match ys, hnext with
  | [], _ => simp [spellAll, Token.Apart]
  | .byte b :: ys, hnext =>
    rintro c hc
    rw [spellAll_cons, spell, singleton_append, head?_cons, Option.mem_some_iff] at hc
    exact hc ▸ hnext
  | .var x :: ys, hnext => exact absurd hnext (by simp [isWord])

theorem agrees_var (ih : Agrees ys) (x : String) : Agrees (.var x :: ys) := by
  constructor
  · intro h pos
    rw [spellAll_cons, spell, Token.scan_comment h.1, scan]
    exact ih.comment h.2 _
  · intro h k pos hk _
    obtain rfl : k = 0 := by simpa [stretch] using hk
    obtain ⟨hname, hnext, h⟩ := h
    have hread := Token.reads_name hname (apart_spellAll hnext) pos
    rw [spellAll_cons, spell, Token.scan_within_zero, hread, ih.between h]
    cases hscan : scan .between (pos + (Text.bytes x).length) ys <;> simp [scan, hscan]

theorem agrees_start (ih : Agrees ys) (h : Apart false (.byte c :: ys)) (pos : Nat) :
    Token.scan .between pos (c :: spellAll ys) = scan .between pos (.byte c :: ys) := by
  rw [Token.scan_between, scan_between, h.head_slash]
  obtain ⟨hword, htail⟩ := h
  cases hblank : isBlank c with
  | true =>
    have hc : (c == slash && ys.head? == some (.byte slash)) = false := by
      have hne : c ≠ slash := by rintro rfl; cases hblank
      simp [hne]
    rw [hc] at htail
    simp only [if_true]
    exact ih.between htail _
  | false =>
    cases hslash : c == slash && ys.head? == some (.byte slash) with
    | true =>
      rw [hslash] at htail
      simp only [Bool.false_eq_true, if_false, if_true]
      exact ih.comment htail _
    | false =>
      rw [hslash] at htail
      obtain ⟨r, hr, hstops⟩ := Apart.stops hword htail
      have hlex : lexeme? c (spellAll ys) = lexeme? c (stretch ys) := by rw [hr, hstops.lexeme]
      simp only [Bool.false_eq_true, if_false, hlex]
      cases hfound : lexeme? c (stretch ys) with
      | none => rfl
      | some kn =>
        obtain ⟨hlen, hstarts⟩ := Token.lexeme_starts hfound
        have hno : ∀ b ∈ (stretch ys).take kn.2, b ≠ slash := by
          rintro _ hb rfl
          exact hstarts.plain.2.1 hb
        have htake : (spellAll ys).take kn.2 = (stretch ys).take kn.2 := by
          rw [hr, take_append_of_le_length hlen]
        simp only [ih.within htail _ _ hlen hno, htake]

theorem agrees_byte (ih : Agrees ys) (c : UInt8) : Agrees (.byte c :: ys) := by
  constructor
  · intro h pos
    rw [spellAll_cons, spell, singleton_append, Token.scan, scan]
    cases hc : c == newline with
    | true =>
      have h' : Apart false ys := by simpa [Apart, hc, bne] using h
      exact ih.between h' _
    | false =>
      have h' : Apart true ys := by simpa [Apart, hc, bne] using h
      exact ih.comment h' _
  · intro h k pos hk hno
    rw [spellAll_cons, spell, singleton_append]
    cases k with
    | zero =>
      rw [Token.scan_within_zero, scan_within_zero]
      exact agrees_start ih h pos
    | succ k =>
      have hc : c ≠ slash := hno c (by simp [stretch])
      have hflag : (c == slash && ys.head? == some (.byte slash)) = false := by simp [hc]
      have htail := h.2
      rw [hflag] at htail
      rw [Token.scan, scan]
      exact ih.within htail k _ (by simpa [stretch] using hk)
        fun b hb => hno b (by simp [stretch, hb])

theorem agrees (ys : List Letter) : Agrees ys := by
  induction ys with
  | nil => exact ⟨fun _ _ => by simp [spellAll, Token.scan, scan],
      fun _ _ _ _ _ => by simp [spellAll, Token.scan, scan]⟩
  | cons y ys ih =>
    cases y with
    | byte c => exact agrees_byte ih c
    | var x => exact agrees_var ih x

theorem tokenize_spellAll (h : Apart false ys) : tokenize (spellAll ys) = scan .between 0 ys :=
  (agrees ys).between h 0

end Letter

end TiledAutomata.Placeholder
