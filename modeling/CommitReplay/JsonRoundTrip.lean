import CommitReplay.JsonText

/-! Reading a printed JSON value gives the value back, so its text determines it; and the text
holds nothing outside printable ASCII but what the strings of the value hold. -/
namespace CommitReplay.JsonRoundTrip

open CommitReplay.PythonText CommitReplay.JsonValue CommitReplay.JsonText

section NumberText

lemma toDigits_isDigit {n : ℕ} {c : Char} (h : c ∈ Nat.toDigits 10 n) : c.isDigit = true :=
  Nat.isDigit_of_mem_toDigits (by norm_num) (by norm_num) h

lemma isDigit_of_toDigits {n : ℕ} {c : Char} {cs : Text} (h : Nat.toDigits 10 n = c :: cs) :
    c.isDigit = true :=
  toDigits_isDigit (h ▸ List.mem_cons_self)

lemma toDigits_head {n : ℕ} (h : n ≠ 0) :
    ∃ c cs, Nat.toDigits 10 n = c :: cs ∧ c ≠ '0' ∧ c.isDigit = true := by
  induction n using Nat.strong_induction_on with
  | _ n ih =>
    by_cases h10 : n < 10
    · refine ⟨n.digitChar, [], Nat.toDigits_of_lt_base h10, ?_, ?_⟩
      · interval_cases n <;> simp_all [Nat.digitChar]
      · exact isDigit_of_toDigits (Nat.toDigits_of_lt_base h10)
    · obtain ⟨c, cs, he, hc⟩ := ih (n / 10) (by omega) (by omega)
      exact ⟨c, cs ++ [(n % 10).digitChar], by
        rw [Nat.toDigits_eq_if (by norm_num), if_neg h10, he]; rfl, hc⟩

lemma notDigit_of_stop {rest : Text} (h : NumberStop rest) :
    ∀ c ∈ rest.head?, c.isDigit = false := fun c hc => (h c hc).1

lemma takeWhile_digits {ds rest : Text} (hd : ∀ c ∈ ds, c.isDigit = true)
    (hr : ∀ c ∈ rest.head?, c.isDigit = false) :
    (ds ++ rest).takeWhile Char.isDigit = ds ∧ (ds ++ rest).dropWhile Char.isDigit = rest := by
  rw [List.takeWhile_append_of_pos hd, List.dropWhile_append_of_pos hd]
  cases rest with
  | nil => simp
  | cons c cs => simp [hr c (by simp)]

lemma scanNat_toDigits (n : ℕ) {rest : Text} (hr : ∀ c ∈ rest.head?, c.isDigit = false) :
    scanInt.scanNat (Nat.toDigits 10 n ++ rest) = some (Nat.toDigits 10 n, rest) := by
  by_cases h : n = 0
  · subst h
    simp [scanInt.scanNat]
  · obtain ⟨c, cs, he, h0, hc⟩ := toDigits_head h
    have hd : ∀ d ∈ cs, d.isDigit = true := fun d hd => toDigits_isDigit (he ▸ List.mem_cons_of_mem c hd)
    obtain ⟨ht, hw⟩ := takeWhile_digits hd hr
    simp [he, scanInt.scanNat, h0, hc, ht, hw]

lemma intText_ne_nil (n : ℤ) : intText n ≠ [] := by
  cases n <;> simp [intText]

lemma scanInt_intText (n : ℤ) {rest : Text} (hr : ∀ c ∈ rest.head?, c.isDigit = false) :
    scanInt (intText n ++ rest) = some (intText n, rest) := by
  cases n with
  | ofNat n =>
    have h := scanNat_toDigits n hr
    obtain ⟨c, cs, he⟩ := List.exists_cons_of_ne_nil (@Nat.toDigits_ne_nil n 10)
    have hc : c ≠ '-' := by
      rintro rfl
      simpa using isDigit_of_toDigits he
    rw [intText]
    rw [he] at h ⊢
    rw [scanInt.eq_def]
    split
    · simp_all
    · exact h
  | negSucc n => simp [intText, scanInt, scanNat_toDigits _ hr]

lemma scanFrac_stop {rest : Text} (hr : NumberStop rest) : scanFrac rest = ([], rest) := by
  rw [scanFrac.eq_def]
  split
  · exact absurd rfl (hr '.' rfl).2.1
  · rfl

lemma scanExp_stop {rest : Text} (hr : NumberStop rest) : scanExp rest = ([], rest) := by
  cases rest with
  | nil => rfl
  | cons c cs => simp [scanExp, (hr c rfl).2.2]

lemma scanNumber_intText (n : ℤ) {rest : Text} (hr : NumberStop rest) :
    scanNumber (intText n ++ rest) = some (intText n, false, rest) := by
  simp [scanNumber, scanInt_intText n (notDigit_of_stop hr), scanFrac_stop hr, scanExp_stop hr]

lemma natOf_toDigits (n : ℕ) : natOf (Nat.toDigits 10 n) = n := Nat.ofDigitChars_ten_toDigits

lemma intOf_intText (n : ℤ) : intOf (intText n) = n := by
  cases n with
  | ofNat n =>
    rw [intText, intOf.eq_def]
    split
    · rename_i ds he
      simpa using isDigit_of_toDigits he
    · simp [natOf_toDigits]
  | negSucc n =>
    rw [intText, intOf, natOf_toDigits]
    omega

/-- Whole numbers among the floats, each written with the fraction `.0`. -/
structure Whole where
  value : ℤ
deriving DecidableEq

instance : PyFloat Whole where
  text x := intText x.value ++ ['.', '0']
  ofText t := ⟨intOf (t.take (t.length - 2))⟩
  zero := ⟨0⟩
  isZero x := x.value == 0
  isOne x := x.value == 1
  isPositive x := 0 < x.value
  ofText_text x := by simp [intOf_intText]
  scan_text x rest hr := by
    have h0 : ∀ c ∈ (['.', '0'] ++ rest).head?, c.isDigit = false := by simp
    have h1 := @takeWhile_digits ['0'] rest (by simp) (notDigit_of_stop hr)
    rw [List.append_assoc, scanNumber, scanInt_intText _ h0]
    simp only [List.cons_append, List.nil_append] at h1 ⊢
    simp [scanFrac, h1.1, h1.2, scanExp_stop hr]

end NumberText

section StringText

lemma hexValue_digitChar {d : ℕ} (h : d < 16) : hexValue d.digitChar = some d := by
  interval_cases d <;> decide

/-- One character read back from its escape. -/
lemma scanString_escChar (n : ℕ) (c : Char) (rest : Text) :
    scanString (n + 1) (escChar c ++ rest) =
      (scanString n rest).map fun p => (c :: p.1, p.2) := by
  have hof : ∀ m, c.toNat = m → Char.ofNat m = c := fun m hm => hm ▸ Char.ofNat_toNat c
  unfold escChar
  split_ifs with h1 h2 h3 h4 h5 h6 h7 h8
  · subst h1
    simp [scanString, unescape, Option.map_eq_bind]
  · subst h2
    simp [scanString, unescape, Option.map_eq_bind]
  · subst h3
    simp [scanString, unescape, Option.map_eq_bind]
  · subst h4
    simp [scanString, unescape, Option.map_eq_bind]
  · subst h5
    simp [scanString, unescape, Option.map_eq_bind]
  · obtain rfl : c = Char.ofNat 8 := (hof 8 h6).symm
    simp [scanString, unescape, Option.map_eq_bind]
  · obtain rfl : c = Char.ofNat 12 := (hof 12 h7).symm
    simp [scanString, unescape, Option.map_eq_bind]
  · have e1 := hexValue_digitChar (show c.toNat / 16 < 16 by omega)
    have e2 := hexValue_digitChar (show c.toNat % 16 < 16 by omega)
    have e0 : hexValue '0' = some 0 := by decide
    have hc : Char.ofNat (c.toNat / 16 * 16 + c.toNat % 16) = c := hof _ (by omega)
    simp [scanString, unescape, unicodeEscape, e0, e1, e2, hc, Option.map_eq_bind,
      show ¬ 0xD800 ≤ c.toNat / 16 * 16 + c.toNat % 16 by omega,
      show ¬ 0xDC00 ≤ c.toNat / 16 * 16 + c.toNat % 16 by omega]
  · simp [scanString, h1, h2, h8, Option.map_eq_bind]

lemma scanString_escaped (s rest : Text) {n : ℕ} (hn : s.length < n) :
    scanString n (s.flatMap escChar ++ '"' :: rest) = some (s, rest) := by
  induction s generalizing n with
  | nil =>
    obtain ⟨n, rfl⟩ := Nat.exists_eq_succ_of_ne_zero (show n ≠ 0 by omega)
    simp [scanString]
  | cons c s ih =>
    rw [List.length_cons] at hn
    obtain ⟨n, rfl⟩ := Nat.exists_eq_succ_of_ne_zero (show n ≠ 0 by omega)
    rw [List.flatMap_cons, List.append_assoc, scanString_escChar, ih (by omega)]
    rfl

end StringText

section RoundTrip

variable {F : Type} [PyFloat F] {pad : Text}

def isNumberHead (c : Char) : Bool := c.isDigit || c = '-' || c = 'N' || c = 'I'

lemma scanNumber_eq_none {c : Char} (h : isNumberHead c = false) (cs : Text) :
    scanNumber (c :: cs) = none := by
  simp only [isNumberHead, Bool.or_eq_false_iff, decide_eq_false_iff_not] at h
  obtain ⟨⟨⟨hd, hm⟩, hN⟩, hI⟩ := h
  have h0 : c ≠ '0' := by
    rintro rfl
    simp at hd
  have hi : scanInt (c :: cs) = none := by
    rw [scanInt.eq_def]
    split
    · simp_all
    · simp [scanInt.scanNat, h0, hd]
  simp [scanNumber, nonFinite, hi, Ne.symm hN, Ne.symm hI, Ne.symm hm]

lemma isNumberHead_of_scanNumber {c : Char} {cs : Text} (h : scanNumber (c :: cs) ≠ none) :
    isNumberHead c = true := by
  by_contra hc
  exact h (scanNumber_eq_none (by simpa using hc) cs)

lemma numberStop_nil : NumberStop [] := by
  simp [NumberStop]

lemma numberStop_cons {c : Char} {cs : Text} (h : c.isDigit = false ∧ c ≠ '.' ∧ c ≠ 'e' ∧ c ≠ 'E') :
    NumberStop (c :: cs) := by
  simpa [NumberStop] using h

lemma floatText_head (x : F) : ∃ c cs, PyFloat.text x = c :: cs ∧ isNumberHead c = true := by
  have h := PyFloat.scan_text x [] numberStop_nil
  cases ht : PyFloat.text x with
  | nil => simp [ht, scanNumber, nonFinite, scanInt, scanInt.scanNat] at h
  | cons c cs =>
    rw [ht, List.append_nil] at h
    exact ⟨c, cs, rfl, isNumberHead_of_scanNumber (h ▸ Option.some_ne_none _)⟩

lemma intText_head (n : ℤ) : ∃ c cs, intText n = c :: cs ∧ isNumberHead c = true := by
  obtain ⟨c, cs, he⟩ := List.exists_cons_of_ne_nil (intText_ne_nil n)
  have h := scanNumber_intText n numberStop_nil
  rw [he, List.append_nil] at h
  exact ⟨c, cs, he, isNumberHead_of_scanNumber (h ▸ Option.some_ne_none _)⟩

lemma not_close_of_isNumberHead {c : Char} (h : isNumberHead c = true) :
    isJsonSpace c = false ∧ c ≠ ']' ∧ c ≠ '}' := by
  refine ⟨?_, ?_, ?_⟩
  · by_contra hc
    simp only [isJsonSpace, Bool.or_eq_true, decide_eq_true_eq, Bool.not_eq_false] at hc
    rcases hc with ((rfl | rfl) | rfl) | rfl <;> simp [isNumberHead] at h
  · rintro rfl
    simp [isNumberHead] at h
  · rintro rfl
    simp [isNumberHead] at h

/-- A printed value starts with a character that is neither white space nor a closing bracket. -/
lemma dumps_head (pad : Text) (v : Json F) :
    ∃ c cs, dumps pad v = c :: cs ∧ isJsonSpace c = false ∧ c ≠ ']' ∧ c ≠ '}' := by
  cases v with
  | null => exact ⟨_, _, rfl, by decide⟩
  | bool b => cases b <;> exact ⟨_, _, rfl, by decide⟩
  | int n =>
    obtain ⟨c, cs, he, hc⟩ := intText_head n
    exact ⟨c, cs, by rw [dumps, he], not_close_of_isNumberHead hc⟩
  | float x =>
    obtain ⟨c, cs, he, hc⟩ := floatText_head x
    exact ⟨c, cs, by rw [dumps, he], not_close_of_isNumberHead hc⟩
  | str s => exact ⟨_, _, by rw [dumps, quote]; rfl, by decide⟩
  | arr xs => exact ⟨_, _, by rw [dumps]; rfl, by decide⟩
  | obj ps => exact ⟨_, _, by rw [dumps]; rfl, by decide⟩

lemma skipSpace_cons {c : Char} (h : isJsonSpace c = false) (cs : Text) :
    skipSpace (c :: cs) = c :: cs := by
  simp [skipSpace, h]

lemma skipSpace_pad (hpad : ∀ c ∈ pad, isJsonSpace c = true) (s : Text) :
    skipSpace (pad ++ s) = skipSpace s := by
  rw [skipSpace, List.dropWhile_append_of_pos hpad]
  rfl

@[simp] lemma skipSpace_dumps (pad : Text) (v : Json F) (rest : Text) :
    skipSpace (dumps pad v ++ rest) = dumps pad v ++ rest := by
  obtain ⟨c, cs, he, hc, -⟩ := dumps_head pad v
  rw [he, List.cons_append, skipSpace_cons hc]

lemma scanString_quote (s : String) (rest : Text) :
    ∃ cs, quote s ++ rest = '"' :: cs ∧ scanString (cs.length + 1) cs = some (s.toList, rest) := by
  refine ⟨s.toList.flatMap escChar ++ '"' :: rest, by simp [quote], scanString_escaped _ _ ?_⟩
  have hlen : ∀ t : Text, t.length ≤ (t.flatMap escChar).length := by
    intro t
    induction t with
    | nil => simp
    | cons c t ih =>
      have hc : 1 ≤ (escChar c).length := by
        unfold escChar
        split_ifs <;> simp
      simp only [List.flatMap_cons, List.length_append, List.length_cons]
      omega
  have := hlen s.toList
  simp only [List.length_append, List.length_cons]
  omega

/-- What the round trip says of one value, for every reader with enough fuel. -/
def ReadsBack (pad : Text) (v : Json F) : Prop :=
  ∀ n rest, (dumps pad v).length ≤ n → NumberStop rest →
    scanValue n (dumps pad v ++ rest) = some (v, rest)

lemma scanItems_joined (hpad : ∀ c ∈ pad, isJsonSpace c = true) {vs : List (Json F)}
    (hvs : ∀ v ∈ vs, ReadsBack pad v) (hne : vs ≠ []) {n : ℕ} (rest : Text)
    (hn : (joined pad (vs.map (dumps pad))).length < n) :
    scanItems n (joined pad (vs.map (dumps pad)) ++ ']' :: rest) = some (vs, rest) := by
  induction vs generalizing n with
  | nil => exact absurd rfl hne
  | cons v vs ih =>
    obtain ⟨n, rfl⟩ := Nat.exists_eq_succ_of_ne_zero (show n ≠ 0 by omega)
    cases vs with
    | nil =>
      simp only [List.map_cons, List.map_nil, joined] at hn ⊢
      rw [scanItems, hvs v (by simp) n _ (by omega) (numberStop_cons (by decide))]
      simp [skipSpace_cons (show isJsonSpace ']' = false by decide)]
    | cons w ws =>
      simp only [List.map_cons, joined, List.append_assoc, List.cons_append, List.length_append,
        List.length_cons] at hn ih ⊢
      rw [scanItems, hvs v (by simp) n _ (by omega) (numberStop_cons (by decide))]
      simp only [Option.bind_eq_bind, Option.bind_some,
        skipSpace_cons (show isJsonSpace ',' = false by decide), skipSpace_pad hpad]
      have hw : skipSpace (joined pad (dumps pad w :: ws.map (dumps pad)) ++ ']' :: rest) =
          joined pad (dumps pad w :: ws.map (dumps pad)) ++ ']' :: rest := by
        cases ws <;> simp [joined]
      rw [hw, ih (fun u hu => hvs u (by simp [hu])) (by simp) (by omega)]
      simp

lemma scanFields_joined (hpad : ∀ c ∈ pad, isJsonSpace c = true) {ps : List (String × Json F)}
    (hps : ∀ p ∈ ps, ReadsBack pad p.2) (hne : ps ≠ []) {n : ℕ} (rest : Text)
    (hn : (joined pad (dumpsFields pad ps)).length < n) :
    scanFields n (joined pad (dumpsFields pad ps) ++ '}' :: rest) = some (ps, rest) := by
  induction ps generalizing n with
  | nil => exact absurd rfl hne
  | cons p ps ih =>
    obtain ⟨n, rfl⟩ := Nat.exists_eq_succ_of_ne_zero (show n ≠ 0 by omega)
    obtain ⟨k, v⟩ := p
    have hv : ReadsBack pad v := hps (k, v) (by simp)
    cases ps with
    | nil =>
      simp only [dumpsFields_eq, List.map_cons, List.map_nil, joined, List.append_assoc,
        List.cons_append, List.length_append, List.length_cons] at hn ⊢
      obtain ⟨cs, hcs, hs⟩ := scanString_quote k (':' :: (pad ++ (dumps pad v ++ '}' :: rest)))
      rw [hcs, scanFields]
      simp only [hs, Option.bind_eq_bind, Option.bind_some, skipSpace_pad hpad, skipSpace_dumps,
        skipSpace_cons (show isJsonSpace ':' = false by decide), String.ofList_toList]
      rw [hv n _ (by omega) (numberStop_cons (by decide))]
      simp [skipSpace_cons (show isJsonSpace '}' = false by decide)]
    | cons q qs =>
      simp only [dumpsFields_eq, List.map_cons, joined, List.append_assoc, List.cons_append,
        List.length_append, List.length_cons] at hn ih ⊢
      obtain ⟨cs, hcs, hs⟩ := scanString_quote k (':' :: (pad ++ (dumps pad v ++ ',' :: (pad ++
        (joined pad ((quote q.1 ++ ':' :: (pad ++ dumps pad q.2)) :: qs.map fun p =>
          quote p.1 ++ ':' :: (pad ++ dumps pad p.2)) ++ '}' :: rest)))))
      rw [hcs, scanFields]
      simp only [hs, Option.bind_eq_bind, Option.bind_some, skipSpace_pad hpad, skipSpace_dumps,
        skipSpace_cons (show isJsonSpace ':' = false by decide), String.ofList_toList]
      rw [hv n _ (by omega) (numberStop_cons (by decide))]
      simp only [Option.bind_some, skipSpace_cons (show isJsonSpace ',' = false by decide),
        skipSpace_pad hpad]
      have hq : skipSpace (joined pad ((quote q.1 ++ ':' :: (pad ++ dumps pad q.2)) ::
          qs.map fun p => quote p.1 ++ ':' :: (pad ++ dumps pad p.2)) ++ '}' :: rest) =
          joined pad ((quote q.1 ++ ':' :: (pad ++ dumps pad q.2)) ::
          qs.map fun p => quote p.1 ++ ':' :: (pad ++ dumps pad p.2)) ++ '}' :: rest := by
        cases qs <;> simp [joined, quote, skipSpace_cons (show isJsonSpace '"' = false by decide)]
      rw [hq, ih (fun u hu => hps u (by simp [hu])) (by simp) (by omega)]
      simp

lemma readsBack_of_succ {v : Json F} (h : ∀ n rest, (dumps pad v).length ≤ n + 1 →
    NumberStop rest → scanValue (n + 1) (dumps pad v ++ rest) = some (v, rest)) :
    ReadsBack pad v := by
  intro n rest hn hr
  obtain ⟨c, cs, he, -⟩ := dumps_head pad v
  have h0 : n ≠ 0 := by
    rintro rfl
    simp [he] at hn
  obtain ⟨n, rfl⟩ := Nat.exists_eq_succ_of_ne_zero h0
  exact h n rest hn hr

lemma scanValue_arr (n : ℕ) {c : Char} (cs : Text) (hs : isJsonSpace c = false) (hc : c ≠ ']') :
    scanValue (n + 1) ('[' :: c :: cs) =
      (scanItems n (c :: cs)).map fun p => ((.arr p.1 : Json F), p.2) := by
  rw [scanValue, scanNumber_eq_none (by decide)]
  simp only [skipSpace_cons hs]
  split
  · simp_all
  · rfl

lemma scanValue_obj (n : ℕ) {c : Char} (cs : Text) (hs : isJsonSpace c = false) (hc : c ≠ '}') :
    scanValue (n + 1) ('{' :: c :: cs) =
      (scanFields n (c :: cs)).map fun p => ((.obj (ofPairs p.1) : Json F), p.2) := by
  rw [scanValue, scanNumber_eq_none (by decide)]
  simp only [skipSpace_cons hs]
  split
  · simp_all
  · rfl

lemma joined_cons (pad t : Text) (ts : List Text) : ∃ r, joined pad (t :: ts) = t ++ r := by
  cases ts with
  | nil => exact ⟨[], by simp [joined]⟩
  | cons u us => exact ⟨_, by rw [joined, List.append_assoc]⟩

/-- The reader gives back the printed value and stops where it ends. -/
theorem readsBack (hpad : ∀ c ∈ pad, isJsonSpace c = true) {v : Json F} (hv : Canonical v) :
    ReadsBack pad v := by
  induction hv with
  | null =>
    refine readsBack_of_succ fun n rest _ _ => ?_
    simp [dumps, scanValue, scanNumber_eq_none (show isNumberHead 'n' = false by decide)]
  | bool b =>
    refine readsBack_of_succ fun n rest _ _ => ?_
    cases b
    · simp [dumps, scanValue, scanNumber_eq_none (show isNumberHead 'f' = false by decide)]
    · simp [dumps, scanValue, scanNumber_eq_none (show isNumberHead 't' = false by decide)]
  | int m =>
    refine readsBack_of_succ fun n rest _ hr => ?_
    simp [dumps, scanValue, scanNumber_intText m hr, intOf_intText]
  | float x =>
    refine readsBack_of_succ fun n rest _ hr => ?_
    simp [dumps, scanValue, PyFloat.scan_text x rest hr, PyFloat.ofText_text]
  | str s =>
    refine readsBack_of_succ fun n rest _ _ => ?_
    obtain ⟨cs, hcs, hs⟩ := scanString_quote s rest
    simp [dumps, hcs, scanValue, scanNumber_eq_none (show isNumberHead '"' = false by decide), hs]
  | @arr xs _ ih =>
    refine readsBack_of_succ fun n rest hn _ => ?_
    cases xs with
    | nil =>
      simp [dumps, joined, scanValue, scanNumber_eq_none (show isNumberHead '[' = false by decide),
        skipSpace_cons (show isJsonSpace ']' = false by decide)]
    | cons v vs =>
      have h := scanItems_joined hpad ih (by simp) (n := n) rest
      simp only [dumps, dumpsAll_eq, List.length_append, List.length_cons, List.length_nil,
        List.cons_append, List.append_assoc, List.nil_append] at hn ⊢
      specialize h (by omega)
      obtain ⟨c, cs, he, hs, hc, -⟩ := dumps_head pad v
      obtain ⟨r, hj⟩ := joined_cons pad (dumps pad v) (vs.map (dumps pad))
      rw [List.map_cons, hj, he, List.cons_append, List.cons_append] at h ⊢
      rw [scanValue_arr n _ hs hc, h]
      rfl
  | @obj ps hsorted _ ih =>
    refine readsBack_of_succ fun n rest hn _ => ?_
    cases ps with
    | nil =>
      simp [dumps, dumpsFields, joined, scanValue,
        scanNumber_eq_none (show isNumberHead '{' = false by decide),
        skipSpace_cons (show isJsonSpace '}' = false by decide)]
    | cons p ps =>
      have h := scanFields_joined hpad ih (by simp) (n := n) rest
      simp only [dumps, List.length_append, List.length_cons, List.length_nil,
        List.cons_append, List.append_assoc, List.nil_append] at hn ⊢
      specialize h (by omega)
      obtain ⟨r, hj⟩ := joined_cons pad (dumpsField pad p) (dumpsFields pad ps)
      rw [dumpsFields, hj, dumpsField, quote] at h ⊢
      simp only [List.cons_append, List.append_assoc] at h ⊢
      rw [scanValue_obj n _ (show isJsonSpace '"' = false by decide) (by decide), h,
        Option.map_some, ofPairs_of_sorted hsorted]

lemma loads_eq_some {s ws : Text} {v : Json F} (hs : skipSpace s = s) (hws : skipSpace ws = [])
    (h : scanValue (s.length + 1) s = some (v, ws)) : loads s = some v := by
  simp only [loads, hs, h, hws, Option.bind_eq_bind, Option.bind_some]
  rfl

/-- `json.loads(json.dumps(v))` is `v`, with any white space after it. -/
theorem loads_dumps (hpad : ∀ c ∈ pad, isJsonSpace c = true) {v : Json F} (hv : Canonical v)
    {ws : Text} (hws : ∀ c ∈ ws, isJsonSpace c = true) : loads (dumps pad v ++ ws) = some v := by
  have hstop : NumberStop ws := by
    intro c hc
    have hs := hws c (List.mem_of_mem_head? hc)
    simp only [isJsonSpace, Bool.or_eq_true, decide_eq_true_eq] at hs
    rcases hs with ((rfl | rfl) | rfl) | rfl <;> decide
  have h := readsBack hpad hv ((dumps pad v ++ ws).length + 1) ws
    (by rw [List.length_append]; omega) hstop
  exact loads_eq_some (skipSpace_dumps pad v ws) (List.dropWhile_eq_nil_iff.mpr hws) h

/-- The text of a value determines it. -/
theorem dumps_injective (hpad : ∀ c ∈ pad, isJsonSpace c = true) {v w : Json F}
    (hv : Canonical v) (hw : Canonical w) (h : dumps pad v = dumps pad w) : v = w := by
  have hl := loads_dumps hpad hv (List.forall_mem_nil _)
  rw [h, loads_dumps hpad hw (List.forall_mem_nil _)] at hl
  exact (Option.some.inj hl).symm

end RoundTrip

section Characters

variable {F : Type} [PyFloat F] {pad : Text}

/-- The printable characters of the ASCII range, of which all syntax is made. -/
def Printable (c : Char) : Prop := 32 ≤ c.toNat ∧ c.toNat < 127

instance : DecidablePred Printable := fun c => inferInstanceAs (Decidable (32 ≤ c.toNat ∧ _))

/-- The characters of number literals. -/
def isNumberChar (c : Char) : Bool :=
  c.isDigit || c ∈ ['-', '+', '.', 'e', 'E', 'N', 'a', 'I', 'n', 'f', 'i', 't', 'y']

lemma isNumberChar_of_isDigit {c : Char} (h : c.isDigit = true) : isNumberChar c = true := by
  simp [isNumberChar, h]

lemma mem_digits {s : Text} {c : Char} (h : c ∈ s.takeWhile Char.isDigit) :
    isNumberChar c = true :=
  isNumberChar_of_isDigit (List.mem_takeWhile_imp h)

lemma toNat_of_isDigit {c : Char} (h : c.isDigit = true) : 48 ≤ c.toNat ∧ c.toNat ≤ 57 := by
  simp only [Char.isDigit, Bool.and_eq_true, decide_eq_true_eq, ge_iff_le,
    UInt32.le_iff_toNat_le] at h
  have h1 : '0'.val.toNat = 48 := rfl
  have h2 : '9'.val.toNat = 57 := rfl
  simp only [Char.toNat]
  omega

/-- A number's characters are printable ASCII and take no part in strings. -/
lemma printable_of_isNumberChar {c : Char} (h : isNumberChar c = true) :
    Printable c ∧ c ≠ '"' ∧ c ≠ '\\' := by
  rw [isNumberChar, Bool.or_eq_true] at h
  rcases h with h | h
  · have hd := toNat_of_isDigit h
    refine ⟨⟨by omega, by omega⟩, ?_, ?_⟩ <;>
      · rintro rfl
        simp at hd
  · have hall : ∀ c ∈ ['-', '+', '.', 'e', 'E', 'N', 'a', 'I', 'n', 'f', 'i', 't', 'y'],
        Printable c ∧ c ≠ '"' ∧ c ≠ '\\' := by simp [Printable]
    exact hall c (by simpa using h)

lemma scanInt_chars {s t r : Text} (h : scanInt s = some (t, r)) :
    t ++ r = s ∧ ∀ c ∈ t, isNumberChar c = true := by
  have hnat : ∀ {s t r}, scanInt.scanNat s = some (t, r) →
      t ++ r = s ∧ ∀ c ∈ t, isNumberChar c = true := by
    intro s t r h
    cases s with
    | nil => simp [scanInt.scanNat] at h
    | cons d ds =>
      rw [scanInt.scanNat] at h
      split_ifs at h with h0 hd
      · obtain ⟨rfl, rfl⟩ := Prod.mk.inj (Option.some.inj h)
        subst h0
        exact ⟨rfl, by simp [isNumberChar]⟩
      · obtain ⟨rfl, rfl⟩ := Prod.mk.inj (Option.some.inj h)
        refine ⟨by simp, fun c hc => ?_⟩
        rcases List.mem_cons.mp hc with rfl | hc
        · exact isNumberChar_of_isDigit hd
        · exact mem_digits hc
  rw [scanInt.eq_def] at h
  split at h
  · obtain ⟨⟨u, v⟩, hu, he⟩ := Option.map_eq_some_iff.mp h
    obtain ⟨rfl, rfl⟩ := Prod.mk.inj he
    obtain ⟨rfl, hchars⟩ := hnat hu
    exact ⟨rfl, List.forall_mem_cons.mpr ⟨by decide, hchars⟩⟩
  · exact hnat h

lemma scanFrac_chars (s : Text) :
    (scanFrac s).1 ++ (scanFrac s).2 = s ∧ ∀ c ∈ (scanFrac s).1, isNumberChar c = true := by
  rw [scanFrac.eq_def]
  split
  · split_ifs
    · simp
    · refine ⟨by simp, List.forall_mem_cons.mpr ⟨by decide, fun c hc => mem_digits hc⟩⟩
  · simp

lemma scanExp_chars (s : Text) :
    (scanExp s).1 ++ (scanExp s).2 = s ∧ ∀ c ∈ (scanExp s).1, isNumberChar c = true := by
  cases s with
  | nil => simp [scanExp]
  | cons e cs =>
    rw [scanExp]
    split_ifs with he
    · set sign := (cs.takeWhile fun c => c = '+' || c = '-').take 1 with hsign
      have hcs : sign ++ cs.drop sign.length = cs := by
        have hpre : sign <+: cs := (List.take_prefix _ _).trans (List.takeWhile_prefix _)
        exact List.prefix_append_drop hpre |>.symm
      refine ⟨?_, fun c hc => ?_⟩
      · rw [List.cons_append, List.cons_append, List.append_assoc, List.takeWhile_append_dropWhile,
          hcs]
      · simp only [List.cons_append, List.mem_cons, List.mem_append] at hc
        rcases hc with rfl | hc | hc
        · rcases he.1 with rfl | rfl <;> decide
        · have hs := List.mem_takeWhile_imp (List.mem_of_mem_take hc)
          simp only [Bool.or_eq_true, decide_eq_true_eq] at hs
          rcases hs with rfl | rfl <;> decide
        · exact mem_digits hc
    · simp

/-- A number literal is the head of the text it is read from, and made of its characters. -/
lemma scanNumber_chars {s t r : Text} {b : Bool} (h : scanNumber s = some (t, b, r)) :
    t ++ r = s ∧ ∀ c ∈ t, isNumberChar c = true := by
  rw [scanNumber] at h
  split at h
  · rename_i i r' hi
    obtain ⟨rfl, -, rfl⟩ := Option.some.inj h
    obtain ⟨rfl, hint⟩ := scanInt_chars hi
    obtain ⟨hfrac, hfchars⟩ := scanFrac_chars r'
    obtain ⟨hexp, hechars⟩ := scanExp_chars (scanFrac r').2
    refine ⟨by simp only [List.append_assoc, hexp, hfrac], fun c hc => ?_⟩
    simp only [List.mem_append] at hc
    rcases hc with (hc | hc) | hc
    · exact hint c hc
    · exact hfchars c hc
    · exact hechars c hc
  · obtain ⟨w, hw, he⟩ := Option.map_eq_some_iff.mp h
    obtain ⟨rfl, -, rfl⟩ := he
    have hp : ∀ w ∈ nonFinite, ∀ c ∈ w, isNumberChar c = true := by simp [nonFinite, isNumberChar]
    have hpre : t <+: s := by simpa using List.find?_some hw
    exact ⟨(List.prefix_append_drop hpre).symm, hp t (List.mem_of_find?_eq_some hw)⟩

lemma scanNumber_printable {s t r : Text} {b : Bool} (h : scanNumber s = some (t, b, r)) :
    ∀ c ∈ t, Printable c :=
  fun c hc => (printable_of_isNumberChar ((scanNumber_chars h).2 c hc)).1

lemma mem_escChar {c d : Char} (h : d ∈ escChar c) : Printable d ∨ d = c ∧ 32 ≤ c.toNat := by
  have hx : ∀ n, n < 16 → Printable n.digitChar := by decide
  unfold escChar at h
  split_ifs at h with h1 h2 h3 h4 h5 h6 h7 h8
  on_goal 8 =>
    simp only [List.mem_cons, List.not_mem_nil, or_false] at h
    rcases h with rfl | rfl | rfl | rfl | rfl | rfl
    · exact .inl (by decide)
    · exact .inl (by decide)
    · exact .inl (by decide)
    · exact .inl (by decide)
    · exact .inl (hx _ (by omega))
    · exact .inl (hx _ (by omega))
  on_goal 8 => exact .inr ⟨by simpa using h, by omega⟩
  all_goals
    simp only [List.mem_cons, List.not_mem_nil, or_false] at h
    rcases h with rfl | rfl <;> exact .inl (by decide)

lemma mem_escChar_self {c : Char} (h : 127 < c.toNat) : c ∈ escChar c := by
  have hne : ∀ d : Char, d.toNat < 127 → c ≠ d := by
    rintro d hd rfl
    omega
  unfold escChar
  rw [if_neg (hne _ (by decide)), if_neg (hne _ (by decide)), if_neg (hne _ (by decide)),
    if_neg (hne _ (by decide)), if_neg (hne _ (by decide)), if_neg (by omega), if_neg (by omega),
    if_neg (by omega)]
  simp

lemma mem_quote {s : String} {d : Char} (h : d ∈ quote s) :
    Printable d ∨ d ∈ s.toList ∧ 32 ≤ d.toNat := by
  have hq : Printable '"' := by decide
  simp only [quote, List.cons_append, List.mem_cons, List.mem_append, List.mem_flatMap,
    List.not_mem_nil, or_false] at h
  rcases h with rfl | ⟨c, hc, hd⟩ | rfl
  · exact .inl hq
  · rcases mem_escChar hd with hp | ⟨rfl, h32⟩
    · exact .inl hp
    · exact .inr ⟨hc, h32⟩
  · exact .inl hq

lemma mem_quote_self {s : String} {d : Char} (h : 127 < d.toNat) (hd : d ∈ s.toList) :
    d ∈ quote s := by
  simp only [quote, List.cons_append, List.mem_cons, List.mem_append, List.mem_flatMap]
  exact .inr (.inl ⟨d, hd, mem_escChar_self h⟩)

lemma mem_joined {ts : List Text} {d : Char} (h : d ∈ joined pad ts) :
    d = ',' ∨ d ∈ pad ∨ ∃ t ∈ ts, d ∈ t := by
  fun_induction joined pad ts with
  | case1 => simp at h
  | case2 t => exact .inr (.inr ⟨t, by simp, h⟩)
  | case3 t u ts ih =>
    simp only [List.cons_append, List.append_assoc, List.mem_append, List.mem_cons] at h
    rcases h with h | rfl | h | h
    · exact .inr (.inr ⟨t, by simp, h⟩)
    · exact .inl rfl
    · exact .inr (.inl h)
    · rcases ih h with h | h | ⟨w, hw, hd⟩
      · exact .inl h
      · exact .inr (.inl h)
      · exact .inr (.inr ⟨w, List.mem_cons_of_mem _ hw, hd⟩)

lemma mem_joined_of_mem (pad : Text) {ts : List Text} {t : Text} {d : Char} (ht : t ∈ ts) (hd : d ∈ t) :
    d ∈ joined pad ts := by
  fun_induction joined pad ts with
  | case1 => simp at ht
  | case2 u => simp_all
  | case3 u w ts ih =>
    simp only [List.cons_append, List.append_assoc, List.mem_append, List.mem_cons]
    rcases List.mem_cons.mp ht with rfl | ht
    · exact .inl hd
    · exact .inr (.inr (.inr (ih ht)))

/-- A printed value is printable ASCII but for what its strings and keys hold. -/
theorem mem_dumps (hpad : ∀ c ∈ pad, c = ' ') {v : Json F} {d : Char} (h : d ∈ dumps pad v) :
    Printable d ∨ d ∈ chars v ∧ 32 ≤ d.toNat := by
  have hs : Printable ' ' := by decide
  have hcomma : Printable ',' := by decide
  have hcolon : Printable ':' := by decide
  induction v with
  | null =>
    simp only [dumps, List.mem_cons, List.not_mem_nil, or_false] at h
    rcases h with rfl | rfl | rfl | rfl <;> exact .inl (by decide)
  | bool b =>
    cases b
    all_goals
      simp only [dumps, List.mem_cons, List.not_mem_nil, or_false] at h
      rcases h with rfl | rfl | rfl | rfl | rfl <;> exact .inl (by decide)
  | int n =>
    have hn := scanNumber_intText n numberStop_nil
    exact .inl (scanNumber_printable hn d (by simpa [dumps] using h))
  | float x =>
    have hx := PyFloat.scan_text x [] numberStop_nil
    exact .inl (scanNumber_printable hx d (by simpa [dumps] using h))
  | str s =>
    rw [dumps] at h
    simpa [chars] using mem_quote h
  | arr xs ih =>
    rw [dumps, dumpsAll_eq, List.cons_append, List.mem_cons, List.mem_append,
      List.mem_singleton] at h
    rcases h with rfl | h | rfl
    · exact .inl (by decide)
    · rcases mem_joined h with rfl | h | ⟨t, ht, hd⟩
      · exact .inl hcomma
      · exact .inl (hpad _ h ▸ hs)
      · obtain ⟨v, hv, rfl⟩ := List.mem_map.mp ht
        refine (ih v hv hd).imp_right fun hc => ⟨?_, hc.2⟩
        rw [chars, charsAll_eq]
        exact List.mem_flatMap_of_mem hv hc.1
    · exact .inl (by decide)
  | obj ps ih =>
    rw [dumps, dumpsFields_eq, List.cons_append, List.mem_cons, List.mem_append,
      List.mem_singleton] at h
    rcases h with rfl | h | rfl
    · exact .inl (by decide)
    · rcases mem_joined h with rfl | h | ⟨t, ht, hd⟩
      · exact .inl hcomma
      · exact .inl (hpad _ h ▸ hs)
      · obtain ⟨p, hp, rfl⟩ := List.mem_map.mp ht
        have hin : ∀ c, c ∈ p.1.toList ++ chars p.2 → c ∈ chars (.obj ps : Json F) := by
          intro c hc
          rw [chars, charsFields_eq]
          exact List.mem_flatMap_of_mem hp hc
        simp only [List.append_assoc, List.cons_append, List.mem_append, List.mem_cons] at hd
        rcases hd with hd | rfl | hd | hd
        · exact (mem_quote hd).imp_right fun hc => ⟨hin _ (List.mem_append_left _ hc.1), hc.2⟩
        · exact .inl hcolon
        · exact .inl (hpad _ hd ▸ hs)
        · exact (ih p hp hd).imp_right fun hc => ⟨hin _ (List.mem_append_right _ hc.1), hc.2⟩
    · exact .inl (by decide)

lemma mem_dumps_of_mem_chars {v : Json F} {d : Char} (h : 127 < d.toNat) (hd : d ∈ chars v) :
    d ∈ dumps pad v := by
  induction v with
  | str s =>
    rw [dumps]
    exact mem_quote_self h (by simpa [chars] using hd)
  | arr xs ih =>
    rw [chars, charsAll_eq] at hd
    obtain ⟨v, hv, hd⟩ := List.mem_flatMap.mp hd
    rw [dumps, dumpsAll_eq]
    have hj := mem_joined_of_mem pad (List.mem_map_of_mem hv) (ih v hv hd)
    simp [hj]
  | obj ps ih =>
    rw [chars, charsFields_eq] at hd
    obtain ⟨p, hp, hd⟩ := List.mem_flatMap.mp hd
    have hq : d ∈ quote p.1 ++ ':' :: pad ++ dumps pad p.2 := by
      rcases List.mem_append.mp hd with hd | hd
      · simp [mem_quote_self h hd]
      · simp [ih p hp hd]
    have hj := mem_joined_of_mem pad
      (List.mem_map_of_mem (f := fun p : String × Json F => quote p.1 ++ ':' :: pad ++
        dumps pad p.2) hp) hq
    rw [dumps, dumpsFields_eq]
    simp only [List.cons_append, List.mem_cons, List.mem_append]
    exact .inr (.inl hj)
  | _ => simp [chars] at hd

/-- Outside ASCII the text of a value holds exactly what its strings and keys hold. -/
theorem mem_dumps_iff (hpad : ∀ c ∈ pad, c = ' ') (v : Json F) {d : Char} (h : 127 < d.toNat) :
    d ∈ dumps pad v ↔ d ∈ chars v := by
  refine ⟨fun hd => ?_, mem_dumps_of_mem_chars h⟩
  rcases mem_dumps hpad hd with hp | hc
  · have := hp.2
    omega
  · exact hc.1

end Characters

end CommitReplay.JsonRoundTrip
