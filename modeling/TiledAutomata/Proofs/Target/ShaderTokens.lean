import TiledAutomata.Proofs.Target.ShaderText

/-!
# Tokens of printed shader expressions

Pieces that stand apart are atoms of their own, and where no list of types is found, each
that is no blank is one token.
-/

open List

namespace TiledAutomata.Emit.Shader

open Target

variable {ps : List Piece}

def marks : List String :=
  ["(", ")", "[", "]", ",", ".", "-", "~", "+", "*", "&", "|", "^", "<", ">", "==", "!=", "<=",
    ">=", "&&", "||"]

/-- A name of the shader language in plain letters. -/
def MemberName (x : String) : Prop :=
  isName x.toList = true ∧ (∀ c ∈ x.toList, isWord c = true) ∧ x ∉ keywords

instance (x : String) : Decidable (MemberName x) :=
  decidable_of_iff (isName x.toList = true ∧ x.toList.all isWord = true ∧ x ∉ keywords) <| by
    simp only [MemberName, List.all_eq_true]

def Numeral (s : String) : Prop :=
  s.toList ≠ [] ∧ isName s.toList = false ∧ ∀ c ∈ s.toList, isWord c = true

def Plain : Piece → Prop
  | .word s => MemberName s
  | .number s => Numeral s
  | .mark m => m ∈ marks
  | .blank => True

def atomsOf : Piece → List Atom
  | .word s => [.word s.toList]
  | .number s => [.word s.toList]
  | .mark m => m.toList.map .sign
  | .blank => [.gap]

def tokenOf : Piece → Option Token
  | .word s => some (.word s)
  | .number s => some (.number s)
  | .mark m => some (.mark m)
  | .blank => none

abbrev lexicon : Lexicon := ⟨MemberName, Numeral, ["-", "~"], True⟩

/-! ## Atoms -/

theorem marks_plain : ∀ m ∈ marks, m.toList ≠ [] ∧
    ∀ c ∈ m.toList, isWord c = false ∧ isBlank c = false := by
  have hall : ∀ m ∈ marks, m.toList ≠ [] ∧
      (m.toList.all fun c => decide (isWord c = false ∧ isBlank c = false)) = true := by
    decide
  simpa only [all_eq_true, decide_eq_true_eq] using hall

theorem atoms_word {w rest : List Char} (hne : w ≠ []) (hw : ∀ c ∈ w, isWord c = true)
    (hr : ∀ v as, atoms rest ≠ .word v :: as) : atoms (w ++ rest) = .word w :: atoms rest := by
  induction w with
  | nil => exact absurd rfl hne
  | cons c w ih =>
    have hc := hw c (by simp)
    by_cases hnil : w = []
    · rw [hnil, singleton_append, atoms, if_pos hc]
      split
      · next v as h => exact absurd h (hr v as)
      · rfl
    · have hrest := ih hnil fun d hd => hw d (by simp [hd])
      simp [atoms, hc, hrest]

theorem atoms_signs {m rest : List Char} (hm : ∀ c ∈ m, isWord c = false ∧ isBlank c = false) :
    atoms (m ++ rest) = m.map .sign ++ atoms rest := by
  induction m with
  | nil => rfl
  | cons c m ih =>
    have hc := hm c (by simp)
    simp [atoms, hc, ih fun d hd => hm d (by simp [hd])]

theorem atoms_behind {a : Piece} (hp : ∀ b ∈ ps, Plain b)
    (ha : (∃ s, a = .word s) ∨ ∃ s, a = .number s) (h : Piece.apart a ps.head? = true) :
    ∀ v as, ps.flatMap atomsOf ≠ .word v :: as := by
  intro v as heq
  match ps with
  | [] => cases heq
  | .blank :: ps => cases heq
  | .mark m :: ps =>
    obtain ⟨c, cs, hcs⟩ := exists_cons_of_ne_nil (marks_plain m (hp (.mark m) (by simp))).1
    simp [atomsOf, hcs] at heq
  | .word x :: ps => rcases ha with ⟨s, rfl⟩ | ⟨s, rfl⟩ <;> cases h
  | .number x :: ps => rcases ha with ⟨s, rfl⟩ | ⟨s, rfl⟩ <;> cases h

theorem ne_nil_of_isName {w : List Char} (h : isName w = true) : w ≠ [] := by
  rintro rfl
  cases h

theorem atoms_texts (hs : Piece.Spaced ps) (hp : ∀ a ∈ ps, Plain a) :
    atoms (Piece.texts ps).toList = ps.flatMap atomsOf := by
  induction ps with
  | nil => rfl
  | cons a ps ih =>
    have ha := hp a (by simp)
    have hps : ∀ b ∈ ps, Plain b := fun b hb => hp b (by simp [hb])
    have hrest := ih hs.2 hps
    rw [Piece.texts_cons, String.toList_append, flatMap_cons, ← hrest]
    cases a with
    | blank => rfl
    | word s =>
      have hbehind := atoms_behind hps (.inl ⟨s, rfl⟩) hs.1
      exact atoms_word (ne_nil_of_isName ha.1) ha.2.1 (by rwa [hrest])
    | number s =>
      have hbehind := atoms_behind hps (.inr ⟨s, rfl⟩) hs.1
      exact atoms_word ha.1 ha.2.2 (by rwa [hrest])
    | mark m => exact atoms_signs (marks_plain m ha).2

/-! ## Tokens -/

def isShort (m : List Char) : Bool :=
  match m with
  | [_] => true
  | [c, d] => pairs.contains (c, d)
  | _ => false

theorem marks_short : ∀ m ∈ marks, isShort m.toList = true := by
  decide

theorem pairs_apart : ∀ p ∈ pairs, (∀ m ∈ Piece.brackets, m.toList ≠ [p.1]) ∧ p.2 ≠ '(' := by
  decide

theorem no_pair_behind {m : String} {c : Char} (hm : m.toList = [c])
    (h : Piece.apart (.mark m) ps.head? = true) (hp : ∀ b ∈ ps, Plain b) {d : Char}
    (hd : (ps.flatMap atomsOf).head? = some (.sign d)) : pairs.contains (c, d) = false := by
  rw [← Bool.not_eq_true, contains_iff_mem]
  intro hpair
  obtain ⟨hbracket, hopen⟩ := pairs_apart _ hpair
  match ps with
  | [] => cases hd
  | .blank :: ps => cases hd
  | .word x :: ps => cases hd
  | .number x :: ps => cases hd
  | .mark n :: ps =>
    simp only [Piece.apart, head?_cons, Bool.or_eq_true, Bool.and_eq_true, bne_iff_ne,
      beq_iff_eq, contains_iff_mem] at h
    rcases h with h | ⟨-, rfl⟩
    · exact hbracket m h hm
    · exact hopen (by simpa [atomsOf] using hd.symm)

theorem tokens_mark {m : String} (hm : m ∈ marks) (h : Piece.apart (.mark m) ps.head? = true)
    (hp : ∀ b ∈ ps, Plain b) (i : Nat) :
    ∃ j, tokens [] false i (m.toList.map .sign ++ ps.flatMap atomsOf) =
      .mark m :: tokens [] false j (ps.flatMap atomsOf) := by
  have hshort := marks_short m hm
  match hcs : m.toList with
  | [] =>
    rw [hcs] at hshort
    cases hshort
  | [c] =>
    have hof : String.ofList [c] = m := by rw [← hcs, String.ofList_toList]
    refine ⟨i + 1, ?_⟩
    cases hhead : (ps.flatMap atomsOf).head? with
    | none => simp [tokens, hhead, hof]
    | some a =>
      cases a with
      | sign d =>
        have hpair := no_pair_behind hcs h hp hhead
        simp only [map_cons, map_nil, singleton_append, tokens, any_nil,
          Bool.false_eq_true, if_false, hhead, hpair, Bool.false_and, hof]
      | word w => simp [tokens, hhead, hof]
      | gap => simp [tokens, hhead, hof]
  | [c, d] =>
    have hof : String.ofList [c, d] = m := by rw [← hcs, String.ofList_toList]
    rw [hcs] at hshort
    have hpair : pairs.contains (c, d) = true := hshort
    refine ⟨i + 2, ?_⟩
    simp only [map_cons, map_nil, cons_append, nil_append, tokens, any_nil,
      Bool.false_eq_true, if_false, List.head?_cons, hpair, Bool.true_and, Bool.not_false, if_true,
      hof]
  | _ :: _ :: _ :: _ =>
    rw [hcs] at hshort
    cases hshort

theorem tokens_texts (hs : Piece.Spaced ps) (hp : ∀ a ∈ ps, Plain a) (i : Nat) :
    tokens [] false i (ps.flatMap atomsOf) = ps.filterMap tokenOf := by
  induction ps generalizing i with
  | nil => rfl
  | cons a ps ih =>
    have ha := hp a (by simp)
    have hps : ∀ b ∈ ps, Plain b := fun b hb => hp b (by simp [hb])
    have hrest := fun i => ih hs.2 hps i
    cases a with
    | blank => exact hrest (i + 1)
    | word s => simp [atomsOf, tokens, ha.1, hrest, tokenOf]
    | number s => simp [atomsOf, tokens, ha.2.1, hrest, tokenOf]
    | mark m =>
      obtain ⟨j, hj⟩ := tokens_mark ha hs.1 hps i
      rw [flatMap_cons, atomsOf, hj, hrest]
      rfl

end TiledAutomata.Emit.Shader
