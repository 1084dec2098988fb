import TiledAutomata.Proofs.Lexing

/-!
# A source is cut into tokens and gaps

Up to the place where a scan ends, every byte of a source belongs to a token or to a gap of
blanks and comments. It ends before the first byte that starts no token, or at the end of the
source. Tokens keep their kinds and texts when they are written apart with blanks.
-/

open Bool List

namespace TiledAutomata.Token

open Text (Bytes bytes ofAscii)

variable {cs rest : Bytes} {ts us : List Token} {t : Token} {c : UInt8} {pos : Nat}
  {last : Nat → Bytes → Prop}

/-- A blank, or a comment with the line break that ends it. -/
def Gap (g : Bytes) : Prop :=
  (∃ c, g = [c] ∧ isBlank c = true) ∨
    ∃ line, g = slash :: slash :: (line ++ [newline]) ∧ newline ∉ line

/-- From a place on, a source is made of gaps and of tokens at their places, up to a place with some
bytes left. -/
inductive Divides (last : Nat → Bytes → Prop) : Nat → Bytes → List Token → Prop where
  | stop {pos : Nat} {cs : Bytes} (h : last pos cs) : Divides last pos cs []
  | gap {pos : Nat} {g rest : Bytes} {ts : List Token} (hg : Gap g)
      (h : Divides last (pos + g.length) rest ts) : Divides last pos (g ++ rest) ts
  | token {rest : Bytes} {ts : List Token} (t : Token) (ht : Starts t.kind (bytes t.text) rest)
      (hgap : bytes t.text = [slash] → rest.head? ≠ some slash)
      (h : Divides last (t.pos + (bytes t.text).length) rest ts) :
      Divides last t.pos (bytes t.text ++ rest) (t :: ts)

/-- The end of a source, where a comment needs no line break. -/
def AtEnd (_ : Nat) (cs : Bytes) : Prop :=
  cs = [] ∨ ∃ line, cs = slash :: slash :: line ∧ newline ∉ line

def Stuck (e : SyntaxError) (pos : Nat) (cs : Bytes) : Prop :=
  e.pos = pos ∧ ∃ c, cs.head? = some c ∧ e.fault = .badByte c ∧ isBlank c = false ∧
    ¬[slash, slash] <+: cs ∧ ∀ k own rest, own ++ rest = cs → ¬Starts k own rest

def Scanned (pos : Nat) (cs : Bytes) : Except SyntaxError (List Token) → Prop
  | .ok ts => ∃ body, ts = body ++ [⟨.eof, "", pos + cs.length⟩] ∧ Divides AtEnd pos cs body
  | .error e => ∃ body, Divides (Stuck e) pos cs body

/-! ## Scans -/

theorem Scanned.step (hread : Reads cs rest pos ts)
    (hstep : ∀ {last us}, Divides last (pos + cs.length) rest us →
      Divides last pos (cs ++ rest) (ts ++ us))
    (h : Scanned (pos + cs.length) rest (scan .between (pos + cs.length) rest)) :
    Scanned pos (cs ++ rest) (scan .between pos (cs ++ rest)) := by
  rw [hread]
  cases hscan : scan .between (pos + cs.length) rest with
  | ok us =>
    rw [hscan] at h
    obtain ⟨body, rfl, hbody⟩ := h
    exact ⟨ts ++ body, by simp [Nat.add_assoc], hstep hbody⟩
  | error e =>
    rw [hscan] at h
    obtain ⟨body, hbody⟩ := h
    exact ⟨ts ++ body, hstep hbody⟩

theorem scan_slashes {line : Bytes} (hline : newline ∉ line) (rest : Bytes) (pos : Nat) :
    scan .between pos (slash :: slash :: (line ++ rest)) =
      scan .comment (pos + (line.length + 2)) rest := by
  have hslash : newline ∉ slash :: line := by simpa [newline, slash] using hline
  have hscan := scan_comment hslash rest (pos + 1)
  rw [cons_append, length_cons] at hscan
  rw [show pos + (line.length + 2) = pos + 1 + (line.length + 1) by omega, ← hscan]
  rfl

theorem reads_gap {g : Bytes} (h : Gap g) (rest : Bytes) (pos : Nat) : Reads g rest pos [] := by
  rcases h with ⟨c, rfl, hc⟩ | ⟨line, rfl, hline⟩
  · exact reads_blank hc rest pos
  · have hscan := scan_slashes hline (newline :: rest) pos
    rw [scan, beq_self_eq_true, if_pos rfl] at hscan
    rw [Reads, cons_append, cons_append, append_assoc, singleton_append, hscan]
    simp only [length_cons, length_append, length_nil, Nat.add_assoc]
    cases scan .between (pos + (line.length + (2 + 1))) rest <;> rfl

theorem Scanned.token {k : Kind} (h : Starts k cs rest)
    (hgap : cs = [slash] → rest.head? ≠ some slash)
    (ih : Scanned (pos + cs.length) rest (scan .between (pos + cs.length) rest)) :
    Scanned pos (cs ++ rest) (scan .between pos (cs ++ rest)) := by
  have hbytes := Text.bytes_ofAscii h.plain.1
  refine Scanned.step (reads_starts h hgap pos) (fun {last us} hrest => ?_) ih
  have htoken := @Divides.token last rest us ⟨k, ofAscii cs, pos⟩
  rw [hbytes] at htoken
  exact htoken h hgap hrest

theorem stuck_of_lexeme (hblank : isBlank c = false) (hslash : ¬(c = slash ∧ cs.head? = some slash))
    (hlex : lexeme? c cs = none) : Stuck ⟨pos, .badByte c⟩ pos (c :: cs) := by
  refine ⟨rfl, c, rfl, rfl, hblank, ?_, fun k own rest hown hstarts => ?_⟩
  · rintro ⟨rest, hrest⟩
    cases hrest
    exact hslash ⟨rfl, rfl⟩
  · obtain ⟨-, -, b, hb, -⟩ := hstarts.plain
    obtain ⟨own, rfl⟩ := head?_eq_some_iff.mp hb
    obtain ⟨rfl, rfl⟩ := cons.inj hown
    cases hstarts.lexeme.symm.trans hlex

/-- The induction is on the bytes left, since a token or a comment takes several at once. -/
theorem scan_scanned (pos : Nat) (cs : Bytes) : Scanned pos cs (scan .between pos cs) := by
  induction hn : cs.length using Nat.strongRecOn generalizing pos cs with
  | ind n ih =>
    have hgap : ∀ {g rest}, Gap g → g ++ rest = cs → g ≠ [] →
        Scanned pos cs (scan .between pos cs) := by
      rintro g rest hg rfl hne
      have := length_pos_iff.mpr hne
      exact Scanned.step (reads_gap hg rest pos) (.gap hg)
        (ih rest.length (by rw [← hn, length_append]; omega) _ _ rfl)
    cases cs with
    | nil => exact ⟨[], rfl, .stop (.inl rfl)⟩
    | cons c cs =>
      by_cases hblank : isBlank c = true
      · exact hgap (.inl ⟨c, rfl, hblank⟩) (singleton_append ..) (by simp)
      · by_cases hslash : c = slash ∧ cs.head? = some slash
        · obtain ⟨rfl, hhead⟩ := hslash
          obtain ⟨cs, rfl⟩ := head?_eq_some_iff.mp hhead
          by_cases hmem : newline ∈ cs
          · obtain ⟨line, rest, rfl, hline⟩ := eq_append_cons_of_mem hmem
            exact @hgap (slash :: slash :: (line ++ [newline])) rest (.inr ⟨line, rfl, hline⟩)
              (by simp) (by simp)
          · have hscan := scan_slashes hmem [] pos
            rw [append_nil] at hscan
            rw [hscan]
            exact ⟨[], rfl, .stop (.inr ⟨cs, rfl, hmem⟩)⟩
        · cases hlex : lexeme? c cs with
          | none =>
            have hscan : scan .between pos (c :: cs) = .error ⟨pos, .badByte c⟩ := by
              rw [scan_between, if_neg hblank, if_neg (by simpa using hslash), hlex]
            rw [hscan]
            exact ⟨[], .stop (stuck_of_lexeme (eq_false_of_not_eq_true hblank) hslash hlex)⟩
          | some kn =>
            obtain ⟨hle, hstarts⟩ := lexeme_starts hlex
            have hscan := Scanned.token hstarts ?_ (ih _ ?_ (pos + _) _ rfl)
            · rwa [cons_append, take_append_drop] at hscan
            · intro heq hhead
              obtain ⟨rfl, htake⟩ := cons.inj heq
              rcases take_eq_nil_iff.mp htake with hzero | rfl
              · rw [hzero, drop_zero] at hhead
                exact hslash ⟨rfl, hhead⟩
              · simp at hhead
            · rw [← hn, length_drop, length_cons]
              omega

theorem Divides.starts {src : Bytes} (h : Divides last pos cs ts) (hsrc : src.drop pos = cs) :
    (∀ t ∈ ts, pos ≤ t.pos ∧ ∃ rest, src.drop t.pos = bytes t.text ++ rest ∧
      Starts t.kind (bytes t.text) rest) ∧
    ts.Pairwise fun t u => t.pos + (bytes t.text).length ≤ u.pos := by
  have hnext : ∀ {pos own rest}, src.drop pos = own ++ rest →
      src.drop (pos + own.length) = rest := fun h => by
    rw [← drop_drop, h, drop_left]
  induction h with
  | stop => exact ⟨by simp, .nil⟩
  | gap hg h ih =>
    obtain ⟨hall, hapart⟩ := ih (hnext hsrc)
    exact ⟨fun t ht => ⟨Nat.le_of_add_right_le (hall t ht).1, (hall t ht).2⟩, hapart⟩
  | token t ht hgap h ih =>
    obtain ⟨hall, hapart⟩ := ih (hnext hsrc)
    refine ⟨forall_mem_cons.mpr ⟨⟨le_rfl, _, hsrc, ht⟩, fun u hu => ?_⟩,
      pairwise_cons.mpr ⟨fun u hu => (hall u hu).1, hapart⟩⟩
    exact ⟨Nat.le_of_add_right_le (hall u hu).1, (hall u hu).2⟩

/-! ## What tokens can be -/

def Spelled (t : Token) : Prop :=
  t.kind = .number ∨ t.kind = .ident ∧ Name t.text ∨ (t.text, t.kind) ∈ spellings

theorem Starts.spelled (h : Starts t.kind (bytes t.text) rest) : t.Spelled := by
  have hplain := h.plain.1
  unfold Spelled Name
  generalize hown : bytes t.text = own at h
  generalize t.kind = k at h ⊢
  cases h with
  | number => exact .inl rfl
  | name h => exact .inr (.inl ⟨rfl, h⟩)
  | @spelling m k _ h =>
    obtain ⟨-, htext, -⟩ := spellings_plain _ h
    rw [← Text.ofAscii_bytes hplain, hown, htext]
    exact .inr (.inr h)

theorem tokenize_spelled {src : Bytes} (h : tokenize src = .ok ts) :
    ∃ body stop, ts = body ++ [⟨.eof, "", stop⟩] ∧ ∀ t ∈ body, t.Spelled := by
  have hscan := scan_scanned 0 src
  rw [← tokenize, h] at hscan
  obtain ⟨body, hts, hbody⟩ := hscan
  refine ⟨body, _, hts, fun t ht => ?_⟩
  obtain ⟨-, rest, -, hstarts⟩ := (hbody.starts rfl).1 t ht
  exact hstarts.spelled

theorem spelled_of_mem {src : Bytes} (h : tokenize src = .ok ts) (ht : t ∈ ts)
    (hk : t.kind ≠ .eof) : t.Spelled := by
  obtain ⟨body, stop, rfl, hbody⟩ := tokenize_spelled h
  rcases mem_append.mp ht with ht | ht
  · exact hbody t ht
  · rw [mem_singleton.mp ht] at hk
    exact absurd rfl hk

theorem tokenize_names {src : Bytes} (h : tokenize src = .ok ts) :
    ∀ t ∈ ts, t.kind = .ident → Name t.text := by
  intro t ht hk
  have hkinds : ∀ s ∈ spellings, s.2 ≠ .ident := by decide +kernel
  rcases spelled_of_mem h ht (by simp [hk]) with hn | ⟨-, hname⟩ | hmem
  · cases hk.symm.trans hn
  · exact hname
  · exact absurd hk (hkinds _ hmem)

theorem tokenize_marks {src : Bytes} (h : tokenize src = .ok ts) :
    ∀ t ∈ ts, t.kind = .assign → (t.text, Kind.assign) ∈ spellings := by
  intro t ht hk
  rcases spelled_of_mem h ht (by simp [hk]) with hn | ⟨hn, -⟩ | hmem
  · cases hk.symm.trans hn
  · cases hk.symm.trans hn
  · rwa [hk] at hmem

/-! ## Tokens written apart -/

def shape (t : Token) : Kind × String := (t.kind, t.text)

theorem Starts.before_blank {k : Kind} (h : Starts k cs rest) (bs : Bytes) :
    Starts k cs (32 :: bs) := by
  have hapart : Apart (32 :: bs) := by simp [Apart, isWord, isWordStart, isDigit]
  cases h with
  | number hc hcs => exact .number hc hcs hapart
  | name h => exact .name h hapart
  | spelling h => exact .spelling h (longest_blank _ bs)

theorem scan_written (h : ∀ t ∈ ts, ∃ rest, Starts t.kind (bytes t.text) rest) (pos : Nat) :
    ∃ us, scan .between pos (ts.flatMap fun t => bytes t.text ++ [32]) = .ok us ∧
      us.map shape = ts.map shape ++ [(.eof, "")] := by
  induction ts generalizing pos with
  | nil => exact ⟨_, rfl, rfl⟩
  | cons t ts ih =>
    obtain ⟨⟨rest, ht⟩, hts⟩ := forall_mem_cons.mp h
    have hstarts := ht.before_blank (ts.flatMap fun t => bytes t.text ++ [32])
    have hread := (reads_text hstarts (by simp [slash]) pos).append
      (reads_blank (c := 32) rfl (ts.flatMap fun t => bytes t.text ++ [32]) _)
    obtain ⟨us, hscan, hus⟩ := ih hts (pos + (bytes t.text ++ [32]).length)
    refine ⟨⟨t.kind, t.text, pos⟩ :: us, ?_, by simp [hus, shape]⟩
    rw [flatMap_cons, hread, hscan]
    rfl

theorem intercalate_texts (body : List Token) (pos : Nat) :
    [32].intercalate ((body ++ [(⟨.eof, "", pos⟩ : Token)]).map fun t => bytes t.text) =
      body.flatMap fun t => bytes t.text ++ [32] := by
  induction body with
  | nil => rfl
  | cons t body ih =>
    rw [cons_append, map_cons, flatMap_cons, ← ih]
    cases body <;> simp [intercalate]

/-- Every byte of a source up to where a scan ends is in one token or in a gap. A scan fails only
at a byte that is in no gap and starts no token; else it ends at the end of the source, and the
texts of its tokens, with blanks between them, are cut into the same tokens. -/
theorem tokenize_partitions (src : Bytes) :
    match tokenize src with
    | .ok ts => ∃ body, ts = body ++ [⟨.eof, "", src.length⟩] ∧ Divides AtEnd 0 src body ∧
        (∀ t ∈ body, ∃ rest, src.drop t.pos = bytes t.text ++ rest ∧
          Starts t.kind (bytes t.text) rest) ∧
        (body.Pairwise fun t u => t.pos + (bytes t.text).length ≤ u.pos) ∧
        ∃ us, tokenize ([32].intercalate (ts.map fun t => bytes t.text)) = .ok us ∧
          us.map shape = ts.map shape
    | .error e => ∃ body, Divides (Stuck e) 0 src body := by
  have hscan := scan_scanned 0 src
  cases htok : tokenize src with
  | error e =>
    rw [← tokenize, htok] at hscan
    exact hscan
  | ok ts =>
    rw [← tokenize, htok] at hscan
    obtain ⟨body, rfl, hbody⟩ := hscan
    obtain ⟨hall, hapart⟩ := hbody.starts rfl
    obtain ⟨us, hus, hshape⟩ := scan_written (fun t ht => (hall t ht).2.imp fun _ h => h.2) 0
    refine ⟨body, by rw [Nat.zero_add], hbody, fun t ht => (hall t ht).2, hapart, us, ?_,
      by simp [hshape, shape]⟩
    rw [intercalate_texts]
    exact hus

end TiledAutomata.Token
