import TiledAutomata.Json.Parse
import TiledAutomata.Proofs.Outcome
import TiledAutomata.Proofs.Texts

/-!
# Documents are read as they are written

A grammar of the texts that spell a document, with the blanks that writers leave. The reader
finds every spelling at the front of a text, and both ways to write a document spell it.
-/

open List

namespace TiledAutomata.Json

variable {c : Char} {j : Json} {ms : List (String × Json)} {xs : List Json} {n : Nat} {s : String}

/-! ## Strings -/

section Strings

variable {fuel : Nat} {r : List Char}

def after (fuel : Nat) (c : Char) (r : List Char) : Except Fault (List Char × List Char) := do
  let (s, r) ← stringBody fuel none r
  return (c :: s, r)

theorem hexValue?_digitChar : ∀ n < 16, hexValue? (Nat.digitChar n) = some n := by
  decide

theorem unit16?_hex (h : n < 65536) (r : List Char) :
    unit16? (Text.hex 4 n ++ r) = some (n, r) := by
  have hdigit : ∀ m, hexValue? (Text.hexDigit m) = some (m % 16) := fun m =>
    hexValue?_digitChar _ (Nat.mod_lt _ (by decide))
  have hvalue : ((n / 16 / 16 / 16 % 16 * 16 + n / 16 / 16 % 16) * 16 + n / 16 % 16) * 16 +
      n % 16 = n := by
    omega
  simp only [Text.hex, nil_append, cons_append, unit16?, hdigit]
  exact congrArg (fun m => some (m, r)) hvalue

theorem stringBody_short {e : Char} (hc : c ≠ 'u') (he : simpleEscape? c = some e) :
    stringBody (fuel + 1) none ('\\' :: c :: r) = after fuel e r := by
  rw [stringBody]
  · simp only [he]
    rfl
  · exact hc

theorem stringBody_plain (hlo : 0x20 ≤ c.toNat) (hquote : c ≠ '"') (hslash : c ≠ '\\') :
    stringBody (fuel + 1) none (c :: r) = after fuel c r := by
  have hplain : ¬(decide (c.toNat < 0x20) || c == '\\') = true := by
    simp only [Bool.or_eq_true, decide_eq_true_eq, beq_iff_eq, hslash, or_false, Nat.not_lt]
    exact hlo
  rw [stringBody]
  · rw [if_neg hplain]
    rfl
  · exact hquote
  · exact fun _ h => absurd h hslash
  · exact fun _ _ h => absurd h hslash

theorem stringBody_long (hc : c.toNat < 0xd800) :
    stringBody (fuel + 1) none ('\\' :: 'u' :: (Text.hex 4 c.toNat ++ r)) = after fuel c r := by
  have hhigh : isHigh c.toNat = false := by simp [isHigh]; omega
  have hlow : isLow c.toNat = false := by simp [isLow]; omega
  rw [stringBody, unit16?_hex (by omega)]
  simp only [unit, hhigh, hlow, Bool.false_eq_true, if_false, Char.ofNat_toNat]
  rfl

theorem simpleEscape?_short {e : Char}
    (h : [(8, 'b'), (12, 'f'), (10, 'n'), (13, 'r'), (9, 't')].lookup c.toNat = some e) :
    e ≠ 'u' ∧ simpleEscape? e = some c := by
  have hall : ∀ p ∈ [(8, 'b'), (12, 'f'), (10, 'n'), (13, 'r'), (9, 't')],
      p.2 ≠ 'u' ∧ simpleEscape? p.2 = some (Char.ofNat p.1) := by
    decide
  obtain ⟨l, m, heq, -⟩ := lookup_eq_some_iff.mp h
  have hmem := hall (c.toNat, e) (by rw [heq]; simp)
  rwa [Char.ofNat_toNat] at hmem

theorem stringBody_escape (c : Char) (r : List Char) :
    stringBody (fuel + 1) none (escape c ++ r) = after fuel c r := by
  rw [escape]
  by_cases hself : c = '"' ∨ c = '\\'
  · rw [if_pos (by simpa using hself)]
    rcases hself with rfl | rfl <;> exact stringBody_short (by decide) rfl
  · rw [if_neg (by simpa using hself)]
    rw [not_or] at hself
    split
    · rename_i e he
      obtain ⟨hu, hback⟩ := simpleEscape?_short he
      exact stringBody_short hu hback
    · split
      · rename_i hrange
        refine stringBody_long ?_
        simp only [Bool.or_eq_true, decide_eq_true_eq, beq_iff_eq] at hrange
        rcases hrange with ((((h | rfl) | rfl) | rfl) | h) | h
        · omega
        · decide
        · decide
        · decide
        · omega
        · omega
      · rename_i hrange
        simp only [Bool.or_eq_true, decide_eq_true_eq, not_or] at hrange
        exact stringBody_plain (Nat.not_lt.mp hrange.1.1.1.1.1) hself.1 hself.2

theorem stringBody_escaped {s : List Char} (hfuel : s.length < fuel) (r : List Char) :
    stringBody fuel none (s.flatMap escape ++ '"' :: r) = .ok (s, r) := by
  induction s generalizing fuel with
  | nil =>
    obtain ⟨fuel, rfl⟩ := Nat.exists_eq_succ_of_ne_zero (Nat.ne_of_gt hfuel)
    rfl
  | cons c s ih =>
    obtain ⟨fuel, rfl⟩ := Nat.exists_eq_succ_of_ne_zero (Nat.ne_zero_of_lt hfuel)
    rw [flatMap_cons, append_assoc, stringBody_escape, after,
      ih (by simpa using hfuel)]
    rfl

end Strings

/-! ## Numbers -/

section Numbers

variable {r : List Char}

def Apart (cs : List Char) : Prop :=
  ∀ c ∈ cs.head?, c.isDigit = false ∧ c ≠ '.' ∧ c ≠ 'e' ∧ c ≠ 'E'

theorem span_digits {ds : List Char} (hds : ∀ c ∈ ds, isDigit c = true) (hr : Apart r) :
    (ds ++ r).span isDigit = (ds, r) := by
  have htake : r.takeWhile isDigit = [] ∧ r.dropWhile isDigit = r := by
    cases r with
    | nil => exact ⟨rfl, rfl⟩
    | cons c r =>
      have hc : isDigit c = false := (hr c rfl).1
      simp [hc]
  rw [span_eq_takeWhile_dropWhile, takeWhile_append_of_pos hds,
    dropWhile_append_of_pos hds, htake.1, htake.2, append_nil]

theorem whole_digits (n : Nat) (hr : Apart r) :
    whole ((toString n).toList ++ r) = .ok ((toString n).toList, r) := by
  obtain ⟨c, cs, hcs, hdigit, hzero⟩ := Text.digits_toString n
  rw [hcs]
  by_cases hc : c = '0'
  · rw [hzero hc, hc]
    rfl
  · rw [cons_append, whole]
    · rw [digits, ← cons_append, span_digits hdigit hr]
    · exact fun _ h => hc (List.cons.inj h).1

theorem fraction_apart (hr : Apart r) : fraction r = .ok ([], r) := by
  cases r with
  | nil => rfl
  | cons c r =>
    rw [fraction]
    exact fun _ h => (hr c rfl).2.1 (List.cons.inj h).1

theorem exponent_apart (hr : Apart r) : exponent r = .ok ([], r) := by
  cases r with
  | nil => rfl
  | cons c r =>
    have hc := (hr c rfl).2.2
    simp only [exponent, beq_eq_false_iff_ne.mpr hc.1, beq_eq_false_iff_ne.mpr hc.2,
      Bool.or_self, Bool.false_eq_true, if_false]

theorem number_int (k : Int) (hr : Apart r) :
    number ((toString k).toList ++ r) = .ok (.int k, r) := by
  have hwhole := whole_digits k.natAbs hr
  have hrest : ∀ sign : List Char, (do
      let (i, r) ← whole ((toString k.natAbs).toList ++ r)
      let (f, r) ← fraction r
      let (e, r) ← exponent r
      return (num (String.ofList (sign ++ i ++ f ++ e)), r) : Except Fault (Json × List Char)) =
        .ok (num (String.ofList (sign ++ (toString k.natAbs).toList)), r) := fun sign => by
    rw [hwhole]
    refine Outcome.bind_ok.mpr ⟨_, rfl, Outcome.bind_ok.mpr ⟨_, fraction_apart hr,
      Outcome.bind_ok.mpr ⟨_, exponent_apart hr, ?_⟩⟩⟩
    simp only [append_nil]
    rfl
  have hint : int k = num (String.ofList (toString k).toList) := by rw [String.ofList_toList]; rfl
  rw [hint, Text.toString_int]
  by_cases hk : k < 0
  · rw [if_pos hk]
    exact hrest ['-']
  · rw [if_neg hk, nil_append]
    obtain ⟨c, cs, hcs, hdigit, -⟩ := Text.digits_toString k.natAbs
    have hc : c ≠ '-' := by
      rintro rfl
      exact absurd (hdigit '-' (by simp)) (by decide)
    refine Eq.trans ?_ (hrest [])
    rw [hcs, number]
    exact fun _ h => hc (List.cons.inj h).1

end Numbers

/-! ## Spellings -/

section Blanks

variable {b cs r : List Char} {c : Char}

def Blank (b : List Char) : Prop := ∀ c ∈ b, isBlank c = true

theorem skip_blank (hb : Blank b) (cs : List Char) : skip (b ++ cs) = skip cs :=
  dropWhile_append_of_pos hb

theorem skip_cons (hc : isBlank c = false) : skip (c :: cs) = c :: cs := by
  rw [skip, dropWhile_cons, if_neg (by rw [hc]; exact Bool.false_ne_true)]

theorem skip_skip (cs : List Char) : skip (skip cs) = skip cs := by
  induction cs with
  | nil => rfl
  | cons c cs ih =>
    by_cases hc : isBlank c = true
    · rw [show skip (c :: cs) = skip cs from skip_blank (b := [c]) (by simpa [Blank]) cs, ih]
    · have hc' := Bool.eq_false_iff.mpr hc
      rw [skip_cons hc', skip_cons hc']

theorem apart_of_blank (hb : Blank b) (hr : Apart r) : Apart (b ++ r) := by
  cases b with
  | nil => exact hr
  | cons c b =>
    intro d hd
    obtain rfl : c = d := by simpa using hd
    have hc := hb c (by simp)
    simp only [isBlank, Bool.or_eq_true, beq_iff_eq] at hc
    rcases hc with ((rfl | rfl) | rfl) | rfl <;> decide

end Blanks

inductive Phrase where
  | value (j : Json)
  | items (xs : List Json)
  | members (ms : List (String × Json))

/-- The texts of a phrase with at most so many containers inside each other. Blanks may stand in
front of values and keys and in front of the bracket that closes a container. -/
inductive Spelling : Nat → Phrase → List Char → Prop
  | null {n : Nat} : Spelling n (.value .null) "null".toList
  | bool {n : Nat} (b : Bool) : Spelling n (.value (.bool b)) (if b then "true" else "false").toList
  | int {n : Nat} (k : Int) : Spelling n (.value (.int k)) (toString k).toList
  | str {n : Nat} (s : String) : Spelling n (.value (.str s)) (quoted s).toList
  | blank {n : Nat} {j : Json} {b cs : List Char} (hb : Blank b) (hj : Spelling n (.value j) cs) :
      Spelling n (.value j) (b ++ cs)
  | noItems {n : Nat} : Spelling (n + 1) (.value (.arr [])) ['[', ']']
  | arr {n : Nat} {xs : List Json} {cs : List Char} (hxs : Spelling n (.items xs) cs) :
      Spelling (n + 1) (.value (.arr xs)) ('[' :: cs)
  | noMembers {n : Nat} : Spelling (n + 1) (.value (.obj [])) ['\x7b', '\x7d']
  | obj {n : Nat} {ms : List (String × Json)} {cs : List Char}
      (hms : Spelling n (.members ms) cs) :
      Spelling (n + 1) (.value (.obj ms)) ('\x7b' :: cs)
  | lastItem {n : Nat} {x : Json} {cs b : List Char} (hx : Spelling n (.value x) cs)
      (hb : Blank b) : Spelling n (.items [x]) (cs ++ (b ++ [']']))
  | item {n : Nat} {x : Json} {xs : List Json} {cs ds : List Char} (hx : Spelling n (.value x) cs)
      (hxs : Spelling n (.items xs) ds) : Spelling n (.items (x :: xs)) (cs ++ ',' :: ds)
  | lastMember {n : Nat} {k : String} {v : Json} {b cs e : List Char} (hb : Blank b)
      (hv : Spelling n (.value v) cs) (he : Blank e) :
      Spelling n (.members [(k, v)]) (b ++ ((quoted k).toList ++ ':' :: (cs ++ (e ++ ['\x7d']))))
  | member {n : Nat} {k : String} {v : Json} {ms : List (String × Json)} {b cs ds : List Char}
      (hb : Blank b) (hv : Spelling n (.value v) cs) (hms : Spelling n (.members ms) ds) :
      Spelling n (.members ((k, v) :: ms)) (b ++ ((quoted k).toList ++ ':' :: (cs ++ ',' :: ds)))

def Phrase.Found (fuel depth : Nat) (cs rest : List Char) : Phrase → Prop
  | .value j => Json.value fuel depth cs = .ok (j, rest)
  | .items xs => Json.items fuel depth cs = .ok (xs, rest)
  | .members ms => Json.members fuel depth cs = .ok (ms, rest)

section Reading

variable {fuel depth : Nat} {b cs r rest : List Char} {c : Char}

theorem value_skip (cs : List Char) : value fuel depth (skip cs) = value fuel depth cs := by
  cases fuel with
  | zero => rfl
  | succ fuel => rw [value, skip_skip, value]

theorem items_skip (cs : List Char) : items fuel depth (skip cs) = items fuel depth cs := by
  cases fuel with
  | zero => rfl
  | succ fuel => rw [items, value_skip, items]

theorem members_skip (cs : List Char) : members fuel depth (skip cs) = members fuel depth cs := by
  cases fuel with
  | zero => rfl
  | succ fuel => rw [members, skip_skip, members]

theorem string_quoted (hfuel : s.toList.length < fuel) (r : List Char) :
    string fuel (s.toList.flatMap escape ++ '"' :: r) = .ok (s, r) := by
  rw [string, stringBody_escaped hfuel]
  exact congrArg (fun s => Except.ok (s, r)) String.ofList_toList

theorem items_close : items fuel depth (']' :: r) = .error .malformed :=
  match fuel with
  | 0 => rfl
  | 1 => rfl
  | _ + 2 => rfl

theorem members_close : members fuel depth ('\x7d' :: r) = .error .malformed :=
  match fuel with
  | 0 => rfl
  | _ + 1 => rfl

theorem value_arr (hdepth : depth < maxDepth) (hxs : items fuel (depth + 1) cs = .ok (xs, rest)) :
    value (fuel + 1) depth ('[' :: cs) = .ok (.arr xs, rest) := by
  rw [← items_skip] at hxs
  rw [value, skip_cons (by decide)]
  simp only [if_neg (Nat.not_le.mpr hdepth)]
  split
  · rename_i heq
    rw [heq, items_close] at hxs
    cases hxs
  · exact Outcome.bind_ok.mpr ⟨_, hxs, rfl⟩

theorem value_obj (hdepth : depth < maxDepth) (hms : members fuel (depth + 1) cs = .ok (ms, rest)) :
    value (fuel + 1) depth ('\x7b' :: cs) = .ok (.obj ms, rest) := by
  rw [← members_skip] at hms
  rw [value, skip_cons (by decide)]
  simp only [if_neg (Nat.not_le.mpr hdepth)]
  split
  · rename_i heq
    rw [heq, members_close] at hms
    cases hms
  · exact Outcome.bind_ok.mpr ⟨_, hms, rfl⟩

theorem value_number (hc : c = '-' ∨ c.isDigit = true) :
    value (fuel + 1) depth (c :: cs) = number (c :: cs) := by
  have hblank : isBlank c = false := by
    rw [← Bool.not_eq_true]
    intro hb
    simp only [isBlank, Bool.or_eq_true, beq_iff_eq] at hb
    rcases hb with ((rfl | rfl) | rfl) | rfl <;> exact absurd hc (by decide)
  rw [value, skip_cons hblank]
  split
  case h_8 => rfl
  all_goals
    rename_i heq
    cases heq <;> exact absurd hc (by decide)

theorem value_int (k : Int) (hrest : Apart rest) :
    value (fuel + 1) depth ((toString k).toList ++ rest) = .ok (.int k, rest) := by
  obtain ⟨c, cs, hcs, hc⟩ :
      ∃ c cs, (toString k).toList = c :: cs ∧ (c = '-' ∨ c.isDigit = true) := by
    obtain ⟨c, cs, hcs, hdigit, -⟩ := Text.digits_toString k.natAbs
    rw [Text.toString_int, hcs]
    by_cases hk : k < 0
    · exact ⟨'-', c :: cs, by rw [if_pos hk]; rfl, .inl rfl⟩
    · exact ⟨c, cs, by rw [if_neg hk]; rfl, .inr (hdigit c (by simp))⟩
  rw [← number_int k hrest, hcs]
  exact value_number hc

theorem value_str (hfuel : s.toList.length < fuel) (rest : List Char) :
    value (fuel + 1) depth ((quoted s).toList ++ rest) = .ok (.str s, rest) := by
  rw [quoted, String.toList_ofList, append_assoc, cons_append, value,
    skip_cons (by decide)]
  exact Outcome.bind_ok.mpr ⟨_, string_quoted hfuel rest, rfl⟩

theorem items_last {x : Json} (hx : value fuel depth cs = .ok (x, r))
    (hr : skip r = ']' :: rest) : items (fuel + 1) depth cs = .ok ([x], rest) := by
  rw [items, hx]
  refine Outcome.bind_ok.mpr ⟨_, rfl, ?_⟩
  simp only [hr]
  rfl

theorem items_cons {x : Json} (hx : value fuel depth cs = .ok (x, ',' :: r))
    (hxs : items fuel depth r = .ok (xs, rest)) :
    items (fuel + 1) depth cs = .ok (x :: xs, rest) := by
  rw [items, hx]
  exact Outcome.bind_ok.mpr ⟨_, rfl, Outcome.bind_ok.mpr ⟨_, hxs, rfl⟩⟩

theorem members_last {k : String} {v : Json} (hfuel : k.toList.length < fuel) (hb : Blank b)
    (hv : value fuel depth cs = .ok (v, r)) (hr : skip r = '\x7d' :: rest) :
    members (fuel + 1) depth (b ++ ((quoted k).toList ++ ':' :: cs)) = .ok ([(k, v)], rest) := by
  rw [members, skip_blank hb, quoted, String.toList_ofList, append_assoc, cons_append,
    skip_cons (by decide)]
  refine Outcome.bind_ok.mpr ⟨_, string_quoted hfuel _, ?_⟩
  refine Outcome.bind_ok.mpr ⟨_, hv, ?_⟩
  simp only [hr]
  rfl

theorem members_cons {k : String} {v : Json} (hfuel : k.toList.length < fuel) (hb : Blank b)
    (hv : value fuel depth cs = .ok (v, ',' :: r)) (hms : members fuel depth r = .ok (ms, rest)) :
    members (fuel + 1) depth (b ++ ((quoted k).toList ++ ':' :: cs)) =
      .ok ((k, v) :: ms, rest) := by
  rw [members, skip_blank hb, quoted, String.toList_ofList, append_assoc, cons_append,
    skip_cons (by decide)]
  refine Outcome.bind_ok.mpr ⟨_, string_quoted hfuel _, ?_⟩
  exact Outcome.bind_ok.mpr ⟨_, hv, Outcome.bind_ok.mpr ⟨_, hms, rfl⟩⟩

theorem length_quoted (s : String) : s.toList.length + 2 ≤ (quoted s).toList.length := by
  have hescape : ∀ c : Char, 1 ≤ (escape c).length := fun c => by
    rw [escape]
    split
    · simp
    · split
      · simp
      · split <;> simp
  have hlist : ∀ cs : List Char, cs.length ≤ (cs.flatMap escape).length := fun cs => by
    induction cs with
    | nil => exact le_rfl
    | cons c cs ih =>
      rw [flatMap_cons, length_append, length_cons]
      have := hescape c
      omega
  have := hlist s.toList
  rw [quoted, String.toList_ofList, length_append, length_cons, length_singleton]
  omega

theorem apart_comma (cs : List Char) : Apart (',' :: cs) := by
  simp [Apart]

/-- Every spelling is read as what it spells, if the text goes on with something else. Fuel of
twice the length of a text is enough, since a container takes two steps for its bracket. -/
theorem Spelling.found {p : Phrase} (h : Spelling n p cs) (hfuel : 2 * cs.length ≤ fuel)
    (hdepth : depth + n ≤ maxDepth) (hrest : Apart rest) :
    p.Found (fuel + 1) depth (cs ++ rest) rest := by
  induction h generalizing fuel depth rest with
  | null => rfl
  | bool b => cases b <;> rfl
  | int k => exact value_int k hrest
  | str s =>
    have hlength := length_quoted s
    exact value_str (by omega) rest
  | blank hb hj ih =>
    rw [length_append] at hfuel
    have hread : value (fuel + 1) depth _ = _ := ih (by omega) hdepth hrest
    rw [← value_skip] at hread
    rwa [Phrase.Found, append_assoc, ← value_skip, skip_blank hb]
  | noItems =>
    have hless : ¬maxDepth ≤ depth := by omega
    rw [Phrase.Found, cons_append, value, skip_cons (by decide)]
    simp only [if_neg hless, cons_append, skip_cons (show isBlank ']' = false by decide)]
    rfl
  | arr hxs ih =>
    rw [length_cons] at hfuel
    obtain ⟨fuel, rfl⟩ : ∃ m, fuel = m + 1 := ⟨fuel - 1, by omega⟩
    exact value_arr (by omega) (ih (by omega) (by omega) hrest)
  | noMembers =>
    have hless : ¬maxDepth ≤ depth := by omega
    rw [Phrase.Found, cons_append, value, skip_cons (by decide)]
    simp only [if_neg hless, cons_append, skip_cons (show isBlank '\x7d' = false by decide)]
    rfl
  | obj hms ih =>
    rw [length_cons] at hfuel
    obtain ⟨fuel, rfl⟩ : ∃ m, fuel = m + 1 := ⟨fuel - 1, by omega⟩
    exact value_obj (by omega) (ih (by omega) (by omega) hrest)
  | lastItem hx hb ih =>
    simp only [length_append, length_singleton] at hfuel
    obtain ⟨fuel, rfl⟩ : ∃ m, fuel = m + 1 := ⟨fuel - 1, by omega⟩
    rw [append_assoc, append_assoc]
    exact items_last (ih (by omega) hdepth (apart_of_blank hb (by simp [Apart])))
      (skip_blank hb _)
  | item hx hxs ihx ihxs =>
    simp only [length_append, length_cons] at hfuel
    obtain ⟨fuel, rfl⟩ : ∃ m, fuel = m + 1 := ⟨fuel - 1, by omega⟩
    rw [append_assoc]
    exact items_cons (ihx (by omega) hdepth (apart_comma _)) (ihxs (by omega) hdepth hrest)
  | @lastMember _ k _ _ _ _ hb hv he ih =>
    have hlength := length_quoted k
    simp only [length_append, length_cons] at hfuel
    obtain ⟨fuel, rfl⟩ : ∃ m, fuel = m + 1 := ⟨fuel - 1, by omega⟩
    simp only [append_assoc, cons_append]
    exact members_last (by omega) hb
      (ih (by omega) hdepth (apart_of_blank he (by simp [Apart]))) (skip_blank he _)
  | @member _ k _ _ _ _ _ hb hv hms ihv ihms =>
    have hlength := length_quoted k
    simp only [length_append, length_cons] at hfuel
    obtain ⟨fuel, rfl⟩ : ∃ m, fuel = m + 1 := ⟨fuel - 1, by omega⟩
    simp only [append_assoc, cons_append]
    exact members_cons (by omega) hb (ihv (by omega) hdepth (apart_comma _))
      (ihms (by omega) hdepth hrest)

theorem parse_spelling (h : Spelling n (.value j) cs) (hn : n ≤ maxDepth)
    (hs : s.toList = cs ++ rest) (hrest : Apart rest) : parse (Text.bytes s) = .ok j := by
  have hvalue : value (2 * s.toList.length + 2) 0 s.toList = .ok (j, rest) := by
    rw [hs]
    refine h.found ?_ (by omega) hrest
    rw [List.length_append]
    omega
  have hskip : skip s.toList ≠ [] := by
    intro hnil
    rw [value, hnil] at hvalue
    cases hvalue
  rw [parse, Text.lossy_bytes]
  simp only [List.isEmpty_iff, hskip, if_false, hvalue]
  rfl

end Reading

/-! ## Written documents -/

/-- Documents with integers for numbers and at most so many containers inside each other. -/
inductive Plain : Nat → Json → Prop
  | null (n : Nat) : Plain n .null
  | bool (n : Nat) (b : Bool) : Plain n (.bool b)
  | int (n : Nat) (k : Int) : Plain n (.int k)
  | str (n : Nat) (s : String) : Plain n (.str s)
  | arr {n : Nat} {xs : List Json} (h : ∀ x ∈ xs, Plain n x) : Plain (n + 1) (.arr xs)
  | obj {n : Nat} {ms : List (String × Json)} (h : ∀ m ∈ ms, Plain n m.2) :
      Plain (n + 1) (.obj ms)

section Writing

variable {n : Nat} {b e : List Char}

theorem spelling_items {write : Json → String} (hb : Blank b) (he : Blank e)
    (hxs : ∀ x ∈ xs, Spelling n (.value x) (write x).toList) (hne : xs ≠ []) :
    Spelling n (.items xs)
      (b ++ (',' :: b).intercalate (xs.map fun x => (write x).toList) ++ (e ++ [']'])) := by
  induction xs with
  | nil => exact absurd rfl hne
  | cons x xs ih =>
    have hx := (hxs x (by simp)).blank hb
    cases xs with
    | nil =>
      rw [map_singleton, intercalate_singleton]
      exact hx.lastItem he
    | cons y ys =>
      have hnext := hx.item (ih (fun z hz => hxs z (by simp [hz])) (by simp))
      simpa [intercalate_cons_cons] using hnext

theorem spelling_members {g : List Char} {write : Json → String} (hb : Blank b) (he : Blank e)
    (hg : Blank g) (hms : ∀ m ∈ ms, Spelling n (.value m.2) (write m.2).toList) (hne : ms ≠ []) :
    Spelling n (.members ms)
      (b ++ (',' :: b).intercalate (ms.map fun m =>
        (quoted m.1).toList ++ ':' :: (g ++ (write m.2).toList)) ++ (e ++ ['\x7d'])) := by
  induction ms with
  | nil => exact absurd rfl hne
  | cons m ms ih =>
    obtain ⟨k, v⟩ := m
    have hv := (hms (k, v) (by simp)).blank hg
    cases ms with
    | nil =>
      rw [map_singleton, intercalate_singleton]
      simpa using hv.lastMember hb he
    | cons m' ms' =>
      have hnext := hv.member (k := k) hb (ih (fun m hm => hms m (by simp [hm])) (by simp))
      simpa [intercalate_cons_cons] using hnext

theorem compactItems_eq (xs : List Json) : compactItems xs = xs.map compact := by
  induction xs with
  | nil => rfl
  | cons x xs ih => rw [compactItems, ih, map_cons]

theorem compactMembers_eq (ms : List (String × Json)) :
    compactMembers ms = ms.map fun m => quoted m.1 ++ ":" ++ m.2.compact := by
  induction ms with
  | nil => rfl
  | cons m ms ih => rw [compactMembers, ih, map_cons]

theorem indentedItems_eq (depth : Nat) (xs : List Json) :
    indentedItems depth xs = xs.map (indented depth) := by
  induction xs with
  | nil => rfl
  | cons x xs ih => rw [indentedItems, ih, map_cons]

theorem indentedMembers_eq (depth : Nat) (ms : List (String × Json)) :
    indentedMembers depth ms = ms.map fun m => quoted m.1 ++ ": " ++ m.2.indented depth := by
  induction ms with
  | nil => rfl
  | cons m ms ih => rw [indentedMembers, ih, map_cons]

theorem blank_nil : Blank [] := fun _ h => nomatch h

theorem blank_newline (depth : Nat) : Blank (newline depth).toList := by
  intro c hc
  simp only [newline, String.toList_append, String.toList_ofList, mem_append,
    mem_replicate] at hc
  rcases hc with hc | ⟨-, rfl⟩
  · obtain rfl : c = '\n' := by simpa using hc
    rfl
  · rfl

theorem Plain.compact (h : Plain n j) : Spelling n (.value j) j.compact.toList := by
  induction h with
  | null n => exact .null
  | bool n b =>
    rw [Json.compact]
    exact .bool b
  | int n k => exact .int k
  | str n s =>
    rw [Json.compact]
    exact .str s
  | @arr n xs h ih =>
    rw [Json.compact, compactItems_eq]
    by_cases hne : xs = []
    · rw [hne]
      exact .noItems
    · have hitems := spelling_items blank_nil blank_nil ih hne
      simpa [String.toList_intercalate, Function.comp_def] using hitems.arr
  | @obj n ms h ih =>
    rw [Json.compact, compactMembers_eq]
    by_cases hne : ms = []
    · rw [hne]
      exact .noMembers
    · have hmembers := spelling_members blank_nil blank_nil blank_nil ih hne
      simpa [String.toList_intercalate, Function.comp_def] using hmembers.obj

theorem Plain.indented (h : Plain n j) (depth : Nat) :
    Spelling n (.value j) (j.indented depth).toList := by
  induction h generalizing depth with
  | null n => exact .null
  | bool n b =>
    rw [Json.indented]
    exact .bool b
  | int n k => exact .int k
  | str n s =>
    rw [Json.indented]
    exact .str s
  | @arr n xs h ih =>
    rw [Json.indented, indentedItems_eq, block]
    by_cases hne : xs = []
    · rw [hne, map_nil, isEmpty_nil, if_pos rfl]
      exact .noItems
    · have hitems := spelling_items (blank_newline (depth + 1)) (blank_newline depth)
        (fun x hx => ih x hx (depth + 1)) hne
      simpa [hne, String.toList_intercalate, Function.comp_def] using hitems.arr
  | @obj n ms h ih =>
    rw [Json.indented, indentedMembers_eq, block]
    by_cases hne : ms = []
    · rw [hne, map_nil, isEmpty_nil, if_pos rfl]
      exact .noMembers
    · have hmembers := spelling_members (g := [' ']) (blank_newline (depth + 1))
        (blank_newline depth) (by simp [Blank, isBlank]) (fun m hm => ih m hm (depth + 1)) hne
      simpa [hne, String.toList_intercalate, Function.comp_def] using hmembers.obj

theorem parse_compact (h : Plain n j) (hn : n ≤ maxDepth) : parse (Text.bytes j.compact) = .ok j :=
  parse_spelling h.compact hn (append_nil _).symm (by simp [Apart])

theorem parse_pretty (h : Plain n j) (hn : n ≤ maxDepth) : parse (Text.bytes j.pretty) = .ok j :=
  parse_spelling (h.indented 0) hn (String.toList_append) (by simp [Apart])

end Writing

end TiledAutomata.Json
