import CommitReplay.PythonText

/-! Lower case as Python has it: each character has its own lower case, but a capital sigma is a final one where a
cased letter stands before it and none behind, whatever case-ignorable characters stand between. Which characters are
cased or ignorable is a table of the Unicode version. -/
namespace CommitReplay.LowerCase

open CommitReplay.PythonText

section Tables

/-- White space and some punctuation, which no letter's case looks across. -/
def isNeutral (c : Char) : Bool := isSpace c || c ∈ ['@', '/', '[', ']', '-', '_']

def capitalSigma : Char := Char.ofNat 0x3A3

def finalSigma : Char := Char.ofNat 0x3C2

def smallSigma : Char := Char.ofNat 0x3C3

/-- The tables of a Unicode version that `str.lower` reads. -/
structure CaseTable where
  lowerChar : Char → Text
  isCased : Char → Bool
  isIgnorable : Char → Bool
  lowerChar_ne : ∀ c, lowerChar c ≠ []
  lowerChar_neutral : ∀ c, isNeutral c = true → lowerChar c = [c]
  lowerChar_stop : ∀ c ∈ ['.', ':'], lowerChar c = [c]
  not_cased : ∀ c, isNeutral c = true → isCased c = false
  not_ignorable : ∀ c, isNeutral c = true → isIgnorable c = false
  own : ∀ c d, d ∈ lowerChar c → isNeutral d = true → d = c

variable (t : CaseTable)

/-- A cased letter is the next one of a text. -/
def nextCased (s : Text) : Bool := (s.dropWhile t.isIgnorable).head?.any t.isCased

/-- The lower case of a character, with what stands before it, the nearest first, and behind it. -/
def lowerAt (before after : Text) (c : Char) : Text :=
  if c = capitalSigma then
    [if nextCased t before && !nextCased t after then finalSigma else smallSigma]
  else t.lowerChar c

def lowerFrom : Text → Text → Text
  | _, [] => []
  | before, c :: after => lowerAt t before after c ++ lowerFrom (c :: before) after

/-- `str.lower`. -/
def lower (s : Text) : Text := lowerFrom t [] s

end Tables

section Facts

variable {t : CaseTable} {c : Char} {s : Text}

lemma neutral_ne_sigma (hc : isNeutral c = true) : c ≠ capitalSigma := by
  rintro rfl
  exact absurd hc (by decide)

/-- A neutral character hides what stands behind it. -/
lemma nextCased_append (hc : isNeutral c = true) (x y : Text) :
    nextCased t (x ++ c :: y) = nextCased t x := by
  have hself : (c :: y).dropWhile t.isIgnorable = c :: y :=
    List.dropWhile_cons_of_neg (by simp [t.not_ignorable c hc])
  rw [nextCased, nextCased, List.dropWhile_append, hself]
  split_ifs with hx
  · rw [List.isEmpty_iff.mp hx]
    exact t.not_cased c hc
  · obtain ⟨d, ds, hds⟩ := List.exists_cons_of_ne_nil (fun he => hx (List.isEmpty_iff.mpr he))
    rw [hds]
    rfl

lemma lowerFrom_before (hc : isNeutral c = true) (x y s : Text) :
    lowerFrom t (x ++ c :: y) s = lowerFrom t x s := by
  induction s generalizing x with
  | nil => rfl
  | cons d s ih =>
    have hd := ih (d :: x)
    rw [List.cons_append] at hd
    rw [lowerFrom, lowerFrom, hd, lowerAt, lowerAt, nextCased_append hc]

lemma lowerFrom_append_neutral (hc : isNeutral c = true) (before a b : Text) :
    lowerFrom t before (a ++ c :: b) = lowerFrom t before a ++ c :: lower t b := by
  induction a generalizing before with
  | nil =>
    have hlow : lowerAt t before b c = [c] := (if_neg (neutral_ne_sigma hc)).trans (t.lowerChar_neutral c hc)
    rw [List.nil_append, lowerFrom.eq_2, hlow, ← List.nil_append (c :: before), lowerFrom_before hc]
    rfl
  | cons d a ih =>
    rw [List.cons_append, lowerFrom, lowerFrom, ih, lowerAt, lowerAt, nextCased_append hc, List.append_assoc]

/-- The lower case of a text with a neutral character in it. -/
lemma lower_append_neutral (hc : isNeutral c = true) (a b : Text) :
    lower t (a ++ c :: b) = lower t a ++ c :: lower t b := lowerFrom_append_neutral hc [] a b

lemma lower_cons_neutral (hc : isNeutral c = true) (b : Text) : lower t (c :: b) = c :: lower t b :=
  lower_append_neutral hc [] b

lemma own_lowerAt {before after : Text} {d : Char} (h : d ∈ lowerAt t before after c)
    (hd : isNeutral d = true) : d = c := by
  rw [lowerAt] at h
  split_ifs at h
  · rw [List.mem_singleton.mp h] at hd
    exact absurd hd (by decide)
  · rw [List.mem_singleton.mp h] at hd
    exact absurd hd (by decide)
  · exact t.own c d h hd

lemma mem_of_mem_lowerFrom {before : Text} {d : Char} (hd : isNeutral d = true) (h : d ∈ lowerFrom t before s) :
    d ∈ s := by
  induction s generalizing before with
  | nil => exact h
  | cons c s ih =>
    obtain h | h := List.mem_append.mp h
    · exact List.mem_cons.mpr (.inl (own_lowerAt h hd))
    · exact List.mem_cons_of_mem _ (ih h)

/-- Lowering neither makes nor removes a neutral character. -/
lemma mem_lower {d : Char} (hd : isNeutral d = true) : d ∈ lower t s ↔ d ∈ s := by
  refine ⟨mem_of_mem_lowerFrom hd, fun h => ?_⟩
  obtain ⟨a, b, rfl⟩ := List.append_of_mem h
  rw [lower_append_neutral hd]
  exact List.mem_append_right _ List.mem_cons_self

/-- The first character stays one that is no white space. -/
lemma head_lower (hc : isSpace c = false) (s : Text) : ∀ d ∈ (lower t (c :: s)).head?, isSpace d = false := by
  intro d hd
  have hne : lowerAt t [] s c ≠ [] := by
    rw [lowerAt]
    split_ifs
    · exact List.cons_ne_nil _ _
    · exact List.cons_ne_nil _ _
    · exact t.lowerChar_ne c
  rw [lower, lowerFrom, List.head?_append_of_ne_nil _ hne] at hd
  by_contra hspace
  rw [Bool.not_eq_false] at hspace
  rw [own_lowerAt (List.mem_of_mem_head? hd) (by simp [isNeutral, hspace]), hc] at hspace
  cases hspace

lemma lower_append_spaces {ws : Text} (hws : ∀ c ∈ ws, isSpace c = true) (s : Text) :
    lower t (s ++ ws) = lower t s ++ ws := by
  induction ws generalizing s with
  | nil => rw [List.append_nil, List.append_nil]
  | cons c ws ih =>
    obtain ⟨hc, hws⟩ := List.forall_mem_cons.mp hws
    have hneutral : isNeutral c = true := by simp [isNeutral, hc]
    have hnil : lower t ws = ws := ih hws []
    rw [lower_append_neutral hneutral, hnil]

lemma lower_spaces_append {ws : Text} (hws : ∀ c ∈ ws, isSpace c = true) (s : Text) :
    lower t (ws ++ s) = ws ++ lower t s := by
  induction ws with
  | nil => rfl
  | cons c ws ih =>
    obtain ⟨hc, hws⟩ := List.forall_mem_cons.mp hws
    rw [List.cons_append, lower_cons_neutral (by simp [isNeutral, hc]), ih hws, List.cons_append]

/-- Without a capital sigma, the lower case of what is put behind comes behind. -/
lemma lowerFrom_append (before : Text) {a : Text} (ha : capitalSigma ∉ a) (b : Text) :
    lowerFrom t before (a ++ b) = lowerFrom t before a ++ lowerFrom t (a.reverse ++ before) b := by
  induction a generalizing before with
  | nil => rfl
  | cons c a ih =>
    obtain ⟨hc, ha⟩ := not_or.mp (fun h => ha (List.mem_cons.mpr h))
    have hlow : ∀ after, lowerAt t before after c = t.lowerChar c := fun after => if_neg (Ne.symm hc)
    rw [List.cons_append, lowerFrom, lowerFrom, ih (c :: before) ha, hlow, hlow, List.append_assoc,
      List.reverse_cons, List.append_assoc, List.singleton_append]

end Facts

end CommitReplay.LowerCase
