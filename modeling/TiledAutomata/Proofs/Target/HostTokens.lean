import TiledAutomata.Proofs.Target.HostText
import TiledAutomata.Proofs.Texts

/-!
# Tokens of printed expressions

Pieces that stand apart are one token each, of the kinds they are meant to be.
-/

open List

namespace TiledAutomata.Emit.Host

open Target

variable {c : Char} {k : Kind} {m rest : List Char} {ps : List Piece} {a : Piece} {s : String}

/-- A name by which a field can be selected: no keyword, and not the blank name. -/
def FieldName (x : String) : Prop :=
  x.toList ≠ [] ∧ (∀ c ∈ x.toList.head?, Lexeme.startsWord c = true) ∧
    (∀ c ∈ x.toList, Lexeme.continuesWord c = true) ∧ x ∉ Lexeme.keywords ∧ x ≠ "_"

instance (x : String) : Decidable (FieldName x) :=
  decidable_of_iff (x.toList ≠ [] ∧ x.toList.head?.all Lexeme.startsWord = true ∧
    x.toList.all Lexeme.continuesWord = true ∧ x ∉ Lexeme.keywords ∧ x ≠ "_") <| by
    simp only [FieldName, Option.all_eq_true, List.all_eq_true, Option.mem_def]

def Plain : Piece → Prop
  | .word s => FieldName s
  | .number s => ∃ n : Nat, s = toString n
  | .mark m => m.toList ∈ Lexeme.marks ∧ m ≠ "..."
  | .blank => True

def spelled : Piece → Option (Kind × String)
  | .word s => some (.name, s)
  | .number s => some (.integer, s)
  | .mark s => some (.mark, s)
  | .blank => none

def Spells (ts : List Token) (ps : List Piece) : Prop :=
  ts.map (fun t => (t.kind, t.text)) = ps.filterMap spelled

namespace Lexeme

theorem piece?_word {x : String} (hx : FieldName x)
    (hr : ∀ c ∈ rest.head?, continuesWord c = false) :
    piece? (x.toList ++ rest) = some (some .name, x.toList.length) := by
  obtain ⟨hne, hstart, hword, hkey, -⟩ := hx
  have htake := Text.takeWhile_append_stop hword hr
  obtain ⟨c, cs, hcs⟩ := exists_cons_of_ne_nil hne
  rw [hcs] at htake hstart ⊢
  have hc := hstart c (by simp)
  have hof : String.ofList (c :: cs) = x := by rw [← hcs, String.ofList_toList]
  simp only [cons_append] at htake ⊢
  simp [piece?, hc, htake, hof, hkey]

theorem marks_ordered : marks.Pairwise fun a b => ¬a <+: b := by
  decide

def Sign (c : Char) : Prop :=
  continuesWord c = false ∧ isBlank c = false ∧ c ≠ '\n' ∧ c.isDigit = false ∧ c ≠ '\x22' ∧
    c ≠ '\x27' ∧ c ≠ '\x60' ∧ c ≠ ';' ∧ c.toNat ≠ 0 ∧ c.toNat ≠ 0xfeff

instance : DecidablePred Sign := fun _ => inferInstanceAs (Decidable (_ ∧ _))

theorem marks_plain : ∀ m ∈ marks, m ≠ [] ∧ (∀ c ∈ m, Sign c) ∧
    ∀ c ∈ m.tail, c ≠ '/' ∧ c ≠ '*' := by
  have hall : ∀ m ∈ marks, m ≠ [] ∧ (m.all fun c => decide (Sign c)) = true ∧
      (m.tail.all fun c => decide (c ≠ '/' ∧ c ≠ '*')) = true := by
    decide
  simpa only [all_eq_true, decide_eq_true_eq] using hall

/-- A character behind a mark that makes no longer token of it. -/
def Safe (m : List Char) (c : Char) : Prop :=
  (∀ a ∈ marks, ¬(m ++ [c]) <+: a) ∧ (m = ['.'] → c.isDigit = false) ∧
    (m = ['/'] → c ≠ '/' ∧ c ≠ '*')

theorem find?_mark (hm : m ∈ marks) (hr : ∀ c ∈ rest.head?, Safe m c) :
    (marks.find? fun a => a.isPrefixOf (m ++ rest)) = some m := by
  refine Text.find?_longest (f := id) marks_ordered hm fun a ha hpre => ?_
  by_contra hlong
  -- A longer mark would go on with the character behind this one.
  obtain ⟨ds, rfl⟩ : m <+: a :=
    prefix_of_prefix_length_le (prefix_append m rest) hpre (Nat.le_of_not_le hlong)
  have hd := (prefix_append_right_inj m).mp hpre
  cases ds with
  | nil => simp at hlong
  | cons d ds =>
    cases rest with
    | nil => simp at hd
    | cons c rest =>
      obtain ⟨rfl, -⟩ := cons_prefix_cons.mp hd
      exact (hr d (by simp)).1 _ ha ⟨ds, by simp⟩

theorem piece?_mark (hm : m ∈ marks) (hr : ∀ c ∈ rest.head?, Safe m c) :
    piece? (m ++ rest) = some (some .mark, m.length) := by
  have hfind := find?_mark hm hr
  obtain ⟨hne, hall, htail⟩ := marks_plain m hm
  obtain ⟨c, cs, rfl⟩ := exists_cons_of_ne_nil hne
  obtain ⟨hw, hb, hn, hd, h1, h2, h3, h4, -⟩ := hall c (by simp)
  have hs : startsWord c = false := by
    simp only [continuesWord, Bool.or_eq_false_iff] at hw
    exact hw.1
  have hdot : (c == '.' && (cs ++ rest).head?.any Char.isDigit) = false := by
    cases cs with
    | nil =>
      cases rest with
      | nil => simp
      | cons d rest =>
        by_cases hc : c = '.'
        · simp [(hr d (by simp)).2.1 (by rw [hc])]
        · simp [hc]
    | cons d ds => simp [(hall d (by simp)).2.2.2.1]
  have hslash : ∀ d, d = '/' ∨ d = '*' → (c == '/' && (cs ++ rest).head? == some d) = false := by
    intro d hd
    cases cs with
    | nil =>
      cases rest with
      | nil => simp
      | cons x rest =>
        by_cases hc : c = '/'
        · have hx := (hr x (by simp)).2.2 (by rw [hc])
          rcases hd with rfl | rfl <;> simp [hx]
        · simp [hc]
    | cons x xs =>
      have hx := htail x (by simp)
      rcases hd with rfl | rfl <;> simp [hx]
  simp only [cons_append] at hfind ⊢
  simp only [piece?, hs, hd, hdot, hslash '/' (by simp), hslash '*' (by simp), hfind]
  simp [h1, h2, h3, h4]

/-! ### Numerals -/

theorem word_of_isDigit (h : c.isDigit = true) : startsWord c = false ∧ continuesWord c = true := by
  have hn := Text.toNat_of_isDigit h
  have hall : ∀ n < 58, 48 ≤ n → startsWord (Char.ofNat n) = false ∧
      continuesWord (Char.ofNat n) = true := by
    decide +kernel
  simpa using hall c.toNat (by omega) (by omega)

theorem isDigit_of_not_word (h : continuesWord c = false) : c.isDigit = false := by
  rw [← Bool.not_eq_true]
  intro hd
  rw [(word_of_isDigit hd).2] at h
  cases h

theorem toLower_of_not_word (h : continuesWord c = false) : c.toLower = c := by
  by_cases hc : c.val ≥ 'A'.val ∧ c.val ≤ 'Z'.val
  · have hall : ∀ n < 91, 65 ≤ n → continuesWord (Char.ofNat n) = true := by decide +kernel
    have hword := hall c.toNat (Nat.lt_succ_of_le hc.2) hc.1
    rw [Char.ofNat_toNat, h] at hword
    cases hword
  · exact dif_neg hc

theorem isSpaced_digits (p : Char → Bool) {b : Char} {ds : List Char} (hb : b ≠ '_')
    (hd : ∀ d ∈ ds, d ≠ '_') : isSpaced p b ds = true := by
  induction ds generalizing b with
  | nil => simp [isSpaced, hb]
  | cons d ds ih =>
    have hrest := ih (hd d (by simp)) fun x hx => hd x (by simp [hx])
    simp [isSpaced, hb, hd d (by simp), hrest]

theorem numeralBase_digits {cs : List Char} (hzero : c = '0' → cs = [])
    (hr : ∀ c ∈ rest.head?, continuesWord c = false) :
    numeralBase (c :: (cs ++ rest)) = (10, 0) := by
  unfold numeralBase
  split
  · next d _ heq =>
    injection heq with hc heq
    rw [hzero hc, nil_append] at heq
    have hd := hr d (by simp [heq])
    rw [toLower_of_not_word hd]
    split
    · exact absurd hd (by decide)
    · exact absurd hd (by decide)
    · exact absurd hd (by decide)
    · rfl
  · rfl

theorem numeral?_digits {cs : List Char} (hdigit : ∀ d ∈ c :: cs, d.isDigit = true)
    (hzero : c = '0' → cs = []) (hr : ∀ c ∈ rest.head?, continuesWord c = false ∧ c ≠ '.') :
    numeral? (c :: (cs ++ rest)) = some (.integer, cs.length + 1) := by
  have hbase := numeralBase_digits hzero fun d hd => (hr d hd).1
  have hne : ∀ d ∈ c :: cs, d ≠ '_' := by
    rintro d hd rfl
    exact absurd (hdigit _ hd) (by decide)
  have hword : ∀ d, continuesWord d = false → d ≠ '_' ∧ d ≠ 'e' ∧ d ≠ 'p' ∧ d ≠ 'i' := by
    intro d hd
    refine ⟨?_, ?_, ?_, ?_⟩ <;> rintro rfl <;> exact absurd hd (by decide)
  have hwhole : digits Char.isDigit (c :: (cs ++ rest)) = c :: cs := by
    rw [← cons_append]
    apply Text.takeWhile_append_stop
    · intro d hd
      simp [hdigit d hd]
    · intro d hd
      have hd := (hr d hd).1
      simp [isDigit_of_not_word hd, hword d hd]
  have hfraction : fraction Char.isDigit rest = [] := by
    unfold fraction
    split
    · exact absurd rfl (hr '.' (by simp)).2
    · rfl
  have hexponent : exponent 'e' rest = (0, true) := by
    cases rest with
    | nil => rfl
    | cons d rest =>
      have hd := (hr d (by simp)).1
      simp [exponent, toLower_of_not_word hd, hword d hd]
  have hend : rest.head?.any (fun c => c.toLower == 'e' || c.toLower == 'p') = false ∧
      rest.head? ≠ some 'i' := by
    cases rest with
    | nil => simp
    | cons d rest =>
      have hd := (hr d (by simp)).1
      simp [toLower_of_not_word hd, hword d hd]
  have hspaced := isSpaced_digits Char.isDigit (b := '.') (by decide) hne
  simp only [numeral?, hbase]
  simpa [hwhole, hfraction, hexponent, hend, hspaced, hdigit c (by simp)] using
    fun hc hcs => absurd (hzero hc) hcs

theorem piece?_number (n : Nat) (hr : ∀ c ∈ rest.head?, continuesWord c = false ∧ c ≠ '.') :
    piece? ((toString n).toList ++ rest) = some (some .integer, (toString n).toList.length) := by
  obtain ⟨c, cs, hcs, hdigit, hzero⟩ := Text.digits_toString n
  have hc := hdigit c (by simp)
  rw [hcs, cons_append]
  simp [piece?, (word_of_isDigit hc).1, hc, numeral?_digits hdigit hzero hr]

/-! ### Rows of tokens -/

theorem scan_skip (isOpen : Bool) (place : Place) (xs ys : List Char) (ls : Array Lexeme) :
    ∃ behind, scan xs.length isOpen place (xs ++ ys) ls = scan 0 isOpen behind ys ls := by
  induction xs generalizing place with
  | nil => exact ⟨place, rfl⟩
  | cons x xs ih => exact ih (place + x.utf8Size)

theorem scan_token {xs : List Char} (hne : xs ≠ []) (hk : k ≠ .text)
    (hx : ∀ c ∈ xs.head?, isBlank c = false ∧ c ≠ '\n')
    (hp : piece? (xs ++ rest) = some (some k, xs.length)) (isOpen : Bool) (place : Place)
    (ls : Array Lexeme) :
    ∃ t : Token, ∃ behind, t.kind = k ∧ t.text = String.ofList xs ∧
      scan 0 isOpen place (xs ++ rest) ls =
        scan 0 (closes k (String.ofList xs)) behind rest (ls.push (.token t)) := by
  obtain ⟨c, cs, rfl⟩ := exists_cons_of_ne_nil hne
  obtain ⟨hb, hn⟩ := hx c (by simp)
  have htake : (c :: (cs ++ rest)).take (cs.length + 1) = c :: cs := by simp
  have hkept : kept k (c :: cs) = String.ofList (c :: cs) := by simp [kept, hk]
  let t : Token := ⟨k, String.ofList (c :: cs), place, place + sizeOf (c :: cs), none, none⟩
  obtain ⟨behind, hskip⟩ := scan_skip (closes k (String.ofList (c :: cs))) (place + c.utf8Size) cs
    rest (ls.push (.token t))
  refine ⟨t, behind, rfl, rfl, ?_⟩
  rw [← hskip]
  rw [cons_append, length_cons] at hp
  simp [scan, hb, hn, hp, htake, hkept, t]

theorem safe_of_outside (hc : ∀ a ∈ marks, c ∉ a) (hdot : m = ['.'] → c.isDigit = false) :
    Safe m c := by
  have hne : ∀ d, [d] ∈ marks → c ≠ d := by
    rintro d hd rfl
    exact hc _ hd (by simp)
  refine ⟨?_, hdot, fun _ => ⟨hne '/' (by decide), hne '*' (by decide)⟩⟩
  rintro a ha ⟨ds, rfl⟩
  exact hc _ ha (by simp)

theorem not_mem_mark (h : continuesWord c = true) : ∀ a ∈ marks, c ∉ a := by
  intro a ha hmem
  rw [((marks_plain a ha).2.1 c hmem).1] at h
  cases h

theorem brackets_whole : ∀ m ∈ Piece.brackets, m.toList ≠ ['.'] ∧ m.toList ≠ ['/'] ∧
    ∀ a ∈ marks, m.toList <+: a → a = m.toList := by
  decide

theorem bracket_not_tail : ∀ a ∈ marks, '(' ∉ a.tail := by
  decide

theorem point_marks : ∀ m ∈ marks, m.head? = some '.' → m = ['.'] ∨ m = ['.', '.', '.'] := by
  decide

theorem safe_of_apart {m : String} {b : Piece} (hm : Plain (.mark m)) (hb : Plain b)
    (h : Piece.apart (.mark m) (some b) = true) : ∀ c ∈ b.text.toList.head?, Safe m.toList c := by
  intro c hc
  cases b with
  | blank =>
    simp [Piece.text] at hc
    subst hc
    exact safe_of_outside (by decide) fun _ => rfl
  | word s =>
    have hs : startsWord c = true := hb.2.1 c hc
    refine safe_of_outside (not_mem_mark (by simp [continuesWord, hs])) fun _ => ?_
    rw [← Bool.not_eq_true]
    intro hd
    rw [(word_of_isDigit hd).1] at hs
    cases hs
  | number s =>
    obtain ⟨n, rfl⟩ := hb
    obtain ⟨d, ds, hds, hdigit, -⟩ := Text.digits_toString n
    rw [Piece.text, hds] at hc
    have hc : d = c := Option.some.inj hc
    have hd := hdigit d (by simp)
    rw [hc] at hd
    have hpoint : m ≠ "." := by simpa [Piece.apart] using h
    exact safe_of_outside (not_mem_mark (word_of_isDigit hd).2) fun hdot =>
      absurd (String.toList_injective hdot) hpoint
  | mark n =>
    simp only [Piece.apart, Bool.or_eq_true, Bool.and_eq_true, bne_iff_ne, beq_iff_eq,
      contains_iff_mem] at h
    rcases h with h | ⟨hpoint, rfl⟩
    · obtain ⟨hdot, hslash, hwhole⟩ := brackets_whole m h
      refine ⟨?_, fun e => absurd e hdot, fun e => absurd e hslash⟩
      intro a ha hpre
      have heq := hwhole a ha ((prefix_append _ _).trans hpre)
      have hlen := hpre.length_le
      rw [heq] at hlen
      simp only [length_append, length_singleton] at hlen
      omega
    · have hc : '(' = c := by simpa [Piece.text] using hc
      subst hc
      obtain ⟨d, ds, hds⟩ := exists_cons_of_ne_nil (marks_plain _ hm.1).1
      refine ⟨?_, fun _ => rfl, fun _ => by decide⟩
      rintro a ha ⟨es, rfl⟩
      rw [hds] at ha
      exact bracket_not_tail _ ha (by simp)

theorem text_ne_nil (ha : Plain a) : a.text.toList ≠ [] := by
  cases a with
  | word s => exact ha.1
  | number s =>
    obtain ⟨n, rfl⟩ := ha
    obtain ⟨c, cs, hcs, -, -⟩ := Text.digits_toString n
    rw [Piece.text, hcs]
    simp
  | mark m => exact (marks_plain _ ha.1).1
  | blank => simp [Piece.text]

theorem head?_texts (hps : ∀ a ∈ ps, Plain a) (hc : c ∈ (Piece.texts ps).toList.head?) :
    ∃ b ∈ ps.head?, Plain b ∧ c ∈ b.text.toList.head? := by
  cases ps with
  | nil => simp at hc
  | cons b ps =>
    have hb := hps b (by simp)
    refine ⟨b, rfl, hb, ?_⟩
    obtain ⟨d, ds, hds⟩ := exists_cons_of_ne_nil (text_ne_nil hb)
    simpa [hds] using hc

theorem not_word_of_mark {m : String} (hm : Plain (.mark m)) (hc : c ∈ m.toList.head?) :
    continuesWord c = false :=
  ((marks_plain _ hm.1).2.1 c (mem_of_mem_head? hc)).1

theorem piece?_spelled (ha : Plain a) (hps : ∀ b ∈ ps, Plain b)
    (h : Piece.apart a ps.head? = true) (hs : spelled a = some (k, s)) :
    piece? (a.text.toList ++ (Piece.texts ps).toList) = some (some k, a.text.toList.length) := by
  cases a with
  | blank => cases hs
  | word x =>
    cases hs
    apply piece?_word ha
    intro c hc
    obtain ⟨b, hb, hplain, hc⟩ := head?_texts hps hc
    rw [hb] at h
    cases b with
    | word | number => cases h
    | blank =>
      simp [Piece.text] at hc
      subst hc
      decide
    | mark m => exact not_word_of_mark hplain hc
  | number x =>
    cases hs
    obtain ⟨n, rfl⟩ := ha
    apply piece?_number
    intro c hc
    obtain ⟨b, hb, hplain, hc⟩ := head?_texts hps hc
    rw [hb] at h
    cases b with
    | word | number => cases h
    | blank =>
      simp [Piece.text] at hc
      subst hc
      decide
    | mark m =>
      refine ⟨not_word_of_mark hplain hc, ?_⟩
      rintro rfl
      rcases point_marks _ hplain.1 hc with hm | hm
      · have hm : m = "." := String.toList_injective hm
        rw [hm] at h
        cases h
      · exact hplain.2 (String.toList_injective hm)
  | mark m =>
    cases hs
    apply piece?_mark ha.1
    intro c hc
    obtain ⟨b, hb, hplain, hc⟩ := head?_texts hps hc
    rw [hb] at h
    exact safe_of_apart ha hplain h c hc

theorem not_blank_of_continues (h : continuesWord c = true) : isBlank c = false ∧ c ≠ '\n' := by
  constructor
  · rw [← Bool.not_eq_true]
    intro hb
    simp only [isBlank, Bool.or_eq_true, beq_iff_eq] at hb
    rcases hb with (rfl | rfl) | rfl <;> exact absurd h (by decide)
  · rintro rfl
    exact absurd h (by decide)

theorem spelled_text (h : spelled a = some (k, s)) : s = a.text ∧ k ≠ .text := by
  cases a <;> cases h <;> exact ⟨rfl, by decide⟩

theorem chars_of_plain (ha : Plain a) (hc : c ∈ a.text.toList) :
    continuesWord c = true ∨ (∃ m ∈ marks, c ∈ m) ∨ a = .blank ∧ c = ' ' := by
  cases a with
  | word x => exact .inl (ha.2.2.1 c hc)
  | number x =>
    obtain ⟨n, rfl⟩ := ha
    obtain ⟨d, ds, hds, hdigit, -⟩ := Text.digits_toString n
    rw [Piece.text, hds] at hc
    exact .inl (word_of_isDigit (hdigit c hc)).2
  | mark m => exact .inr (.inl ⟨_, ha.1, hc⟩)
  | blank => exact .inr (.inr ⟨rfl, by simpa [Piece.text] using hc⟩)

theorem not_blank_of_spelled (ha : Plain a) (hs : spelled a = some (k, s)) :
    ∀ c ∈ a.text.toList.head?, isBlank c = false ∧ c ≠ '\n' := by
  intro c hc
  rcases chars_of_plain ha (mem_of_mem_head? hc) with hw | ⟨m, hm, hmem⟩ | ⟨rfl, -⟩
  · exact not_blank_of_continues hw
  · have hplain := (marks_plain m hm).2.1 c hmem
    exact ⟨hplain.2.1, hplain.2.2.1⟩
  · cases hs

def Ends (ts : List Token) : Prop :=
  ts ≠ [] ∧ ∀ t ∈ ts, t.kind = .separator false ∨ t.kind = .stop

theorem scan_pieces (hs : Piece.Spaced ps) (hp : ∀ a ∈ ps, Plain a) (isOpen : Bool)
    (place : Place) (ls : Array Lexeme) :
    ∃ ts tail, Spells ts ps ∧ Ends tail ∧
      scan 0 isOpen place (Piece.texts ps).toList ls =
        some (ls ++ ((ts ++ tail).map Lexeme.token).toArray) := by
  induction ps generalizing isOpen place ls with
  | nil =>
    let stop : Token := ⟨.stop, "", place, place, none, none⟩
    cases isOpen with
    | false => exact ⟨[], [stop], rfl, ⟨by simp, by simp [stop]⟩, by simp [scan, stop]⟩
    | true =>
      let line : Token := ⟨.separator false, "\n", place, place, none, none⟩
      refine ⟨[], [line, stop], rfl, ⟨by simp, by simp [line, stop]⟩, ?_⟩
      have hpush : (ls.push (.token line)).push (.token stop) =
          ls ++ #[.token line, .token stop] := by
        apply Array.ext'
        simp
      simpa [scan, lineEnd] using hpush
  | cons a ps ih =>
    have ha := hp a (by simp)
    have hps : ∀ b ∈ ps, Plain b := fun b hb => hp b (by simp [hb])
    rw [Piece.texts_cons, String.toList_append]
    cases hk : spelled a with
    | none =>
      cases a with
      | blank =>
        obtain ⟨ts, tail, hts, htail, heq⟩ := ih hs.2 hps isOpen (place + 1) ls
        exact ⟨ts, tail, hts, htail, by simpa [scan, Piece.text, isBlank] using heq⟩
      | _ => cases hk
    | some ks =>
      obtain ⟨k, s⟩ := ks
      obtain ⟨rfl, hkind⟩ := spelled_text hk
      obtain ⟨t, behind, htk, htt, hscan⟩ := scan_token (text_ne_nil ha) hkind
        (not_blank_of_spelled ha hk) (piece?_spelled ha hps hs.1 hk) isOpen place ls
      obtain ⟨ts, tail, hts, htail, heq⟩ := ih hs.2 hps
        (closes k (String.ofList a.text.toList)) behind (ls.push (.token t))
      refine ⟨t :: ts, tail, ?_, htail, ?_⟩
      · simp only [Spells, map_cons, filterMap_cons, hk, htk, htt, String.ofList_toList]
        rw [← hts]
      · rw [hscan, heq]
        simp

theorem toNat_of_continues (h : continuesWord c = true) : c.toNat ≠ 0 ∧ c.toNat ≠ 0xfeff := by
  have hne : ∀ n, continuesWord (Char.ofNat n) = false → c.toNat ≠ n := by
    intro n hn heq
    rw [← heq, Char.ofNat_toNat, h] at hn
    cases hn
  exact ⟨hne 0 (by decide), hne 0xfeff (by decide +kernel)⟩

theorem toNat_of_plain (ha : Plain a) : ∀ c ∈ a.text.toList, c.toNat ≠ 0 ∧ c.toNat ≠ 0xfeff := by
  intro c hc
  rcases chars_of_plain ha hc with hw | ⟨m, hm, hmem⟩ | ⟨-, rfl⟩
  · exact toNat_of_continues hw
  · exact ((marks_plain m hm).2.1 c hmem).2.2.2.2.2.2.2.2
  · decide

end Lexeme

theorem numbered_tokens (table : LineTable) (size : Nat) (ts : List Token) :
    numbered table size (ts.map Lexeme.token).toArray = some table := by
  simp only [numbered, size_toArray]
  induction ts with
  | nil => rfl
  | cons t ts ih => simpa using ih

theorem Gathered.foldl_tokens (lines : LineTable) (ts : List Token) (g : Gathered)
    (hg : g.open_ = []) :
    ((ts.map Lexeme.token).foldl (Gathered.add lines) g).tokens = g.tokens ++ ts.toArray := by
  induction ts generalizing g with
  | nil => simp
  | cons t ts ih =>
    have hadd : Gathered.add lines g (.token t) =
        { g with tokens := g.tokens.push t, place := t.place } := by
      simp [add, addToken, hg]
    rw [map_cons, foldl_cons, hadd]
    refine (ih _ ?_).trans ?_
    · exact hg
    · simp

theorem Source.ofText_tokens {text : String} {ts : List Token}
    (hc : ∀ c ∈ text.toList, c.toNat ≠ 0 ∧ c.toNat ≠ 0xfeff)
    (hs : Lexeme.scan 0 false 1 text.toList #[] = some (ts.map Lexeme.token).toArray) :
    ∃ s, Source.ofText text = some s ∧ s.tokens = ts := by
  have hany : (text.toList.any fun c => c.toNat = 0 || c.toNat = 0xfeff) = false := by
    rw [any_eq_false]
    intro c hmem
    simp [hc c hmem]
  let lines : LineTable := { starts := lineStarts text.toList }
  let g := (ts.map Lexeme.token).foldl (Gathered.add lines) {}
  have htokens : g.tokens = ts.toArray := by simp [g, Gathered.foldl_tokens]
  refine ⟨⟨g.tokens.toList, g.groups.toList, lines⟩, ?_, by simp [htokens]⟩
  simp [Source.ofText, hany, hs, numbered_tokens, g, lines]

theorem Source.ofText_pieces (hs : Piece.Spaced ps) (hp : ∀ a ∈ ps, Plain a) :
    ∃ s ts tail, Source.ofText (Piece.texts ps) = some s ∧ s.tokens = ts ++ tail ∧
      Spells ts ps ∧ Lexeme.Ends tail := by
  obtain ⟨ts, tail, hts, htail, hscan⟩ := Lexeme.scan_pieces hs hp false 1 #[]
  rw [Array.empty_append] at hscan
  have hc : ∀ c ∈ (Piece.texts ps).toList, c.toNat ≠ 0 ∧ c.toNat ≠ 0xfeff := by
    clear hscan hts hs
    induction ps with
    | nil => simp
    | cons a ps ih =>
      intro c hc
      rw [Piece.texts_cons, String.toList_append, mem_append] at hc
      rcases hc with hc | hc
      · exact Lexeme.toNat_of_plain (hp a (by simp)) c hc
      · exact ih (fun b hb => hp b (by simp [hb])) c hc
  obtain ⟨s, hsource, htokens⟩ := Source.ofText_tokens hc hscan
  exact ⟨s, ts, tail, hsource, htokens, hts, htail⟩

end TiledAutomata.Emit.Host
