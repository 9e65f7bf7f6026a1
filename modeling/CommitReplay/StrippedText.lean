import CommitReplay.PythonText

/-! What is stripped from the ends of a text: what runs from an end go up to, and white space. -/
namespace CommitReplay.StrippedText

open CommitReplay.PythonText

section Ends

variable {p : Char → Bool}

lemma rtakeWhile_append_of_pos (x : Text) {y : Text} (h : ∀ c ∈ y, p c = true) :
    (x ++ y).rtakeWhile p = x.rtakeWhile p ++ y := by
  rw [List.rtakeWhile, List.reverse_append, List.takeWhile_append_of_pos (fun c hc => h c (List.mem_reverse.mp hc)),
    List.reverse_append, List.reverse_reverse, List.rtakeWhile]

lemma rdropWhile_append_of_pos (x : Text) {y : Text} (h : ∀ c ∈ y, p c = true) :
    (x ++ y).rdropWhile p = x.rdropWhile p := by
  rw [List.rdropWhile, List.reverse_append, List.dropWhile_append_of_pos (fun c hc => h c (List.mem_reverse.mp hc)),
    List.rdropWhile]

lemma rtakeWhile_append_cons (x : Text) {c : Char} (hc : p c = false) (y : Text) :
    (x ++ c :: y).rtakeWhile p = y.rtakeWhile p := by
  induction y using List.reverseRecOn with
  | nil => rw [List.rtakeWhile_concat_neg _ _ _ (by simp [hc]), List.rtakeWhile_nil]
  | append_singleton y e ih =>
    rw [← List.cons_append, ← List.append_assoc, List.rtakeWhile_concat, List.rtakeWhile_concat, ih]

lemma rdropWhile_append_cons (x : Text) {c : Char} (hc : p c = false) (y : Text) :
    (x ++ c :: y).rdropWhile p = x ++ c :: y.rdropWhile p := by
  induction y using List.reverseRecOn with
  | nil => rw [List.rdropWhile_concat_neg _ _ _ (by simp [hc]), List.rdropWhile_nil]
  | append_singleton y e ih =>
    rw [← List.cons_append, ← List.append_assoc, List.rdropWhile_concat, List.rdropWhile_concat, ih]
    split_ifs <;> simp

lemma dropWhile_append_cons (x : Text) {c : Char} (hc : p c = false) (y : Text) :
    (x ++ c :: y).dropWhile p = x.dropWhile p ++ c :: y := by
  rw [List.dropWhile_append, List.dropWhile_cons_of_neg (by simp [hc])]
  split_ifs with h
  · rw [List.isEmpty_iff.mp h, List.nil_append]
  · rfl

lemma rtakeWhile_append_of_mem (x : Text) {c : Char} {y : Text} (hc : p c = false) (h : c ∈ y) :
    (x ++ y).rtakeWhile p = y.rtakeWhile p ∧ (x ++ y).rdropWhile p = x ++ y.rdropWhile p := by
  obtain ⟨a, b, rfl⟩ := List.append_of_mem h
  rw [← List.append_assoc, rtakeWhile_append_cons _ hc, rtakeWhile_append_cons _ hc, rdropWhile_append_cons _ hc,
    rdropWhile_append_cons _ hc, List.append_assoc]
  exact ⟨rfl, rfl⟩

lemma mem_rtakeWhile_append {x y : Text} {c : Char} (h : c ∈ y.rtakeWhile p) : c ∈ (x ++ y).rtakeWhile p := by
  rw [List.rtakeWhile, List.reverse_append, List.takeWhile_append, List.mem_reverse]
  rw [List.rtakeWhile, List.mem_reverse] at h
  split_ifs
  · exact List.mem_append_left _ ((List.takeWhile_prefix _).subset h)
  · exact h

end Ends

section Stripping

lemma strip_append_space {s : Text} {c : Char} (hc : isSpace c = true) : strip (s ++ [c]) = strip s := by
  rw [strip, strip, List.dropWhile_append]
  split_ifs with h
  · rw [List.isEmpty_iff.mp h, List.dropWhile_cons_of_pos hc, List.dropWhile_nil]
  · rw [List.rdropWhile_concat_pos _ _ _ hc]

lemma strip_append_spaces {s ws : Text} (hws : ∀ c ∈ ws, isSpace c = true) : strip (s ++ ws) = strip s := by
  induction ws using List.reverseRecOn with
  | nil => rw [List.append_nil]
  | append_singleton ws c ih =>
    rw [← List.append_assoc, strip_append_space (hws c (by simp)), ih fun d hd => hws d (by simp [hd])]

lemma strip_spaces_append {s ws : Text} (hws : ∀ c ∈ ws, isSpace c = true) : strip (ws ++ s) = strip s := by
  rw [strip, List.dropWhile_append_of_pos hws, strip]

/-- What is not stripped is spaces. -/
lemma exists_strip (s : Text) : ∃ ws ws', (∀ c ∈ ws, isSpace c = true) ∧ (∀ c ∈ ws', isSpace c = true) ∧
    s = ws ++ strip s ++ ws' := by
  refine ⟨s.takeWhile isSpace, (s.dropWhile isSpace).rtakeWhile isSpace, fun c hc => List.mem_takeWhile_imp hc,
    fun c hc => List.mem_rtakeWhile_imp hc, ?_⟩
  rw [strip, List.append_assoc, List.rdropWhile_append_rtakeWhile, List.takeWhile_append_dropWhile]

/-- Stripping a text stops at a character that is no space, from either side. -/
lemma strip_append_cons {c : Char} (hc : isSpace c = false) (a b : Text) :
    strip (a ++ c :: b) = a.dropWhile isSpace ++ c :: b.rdropWhile isSpace := by
  rw [strip, dropWhile_append_cons a hc, rdropWhile_append_cons _ hc]

lemma dropWhile_strip (s : Text) : (strip s).dropWhile isSpace = strip s := by
  cases hs : strip s with
  | nil => rfl
  | cons c cs =>
    refine List.dropWhile_cons_of_neg ?_
    obtain ⟨t, ht⟩ : strip s <+: s.dropWhile isSpace := List.rdropWhile_prefix ..
    rw [hs] at ht
    have hhead := List.head?_dropWhile_not isSpace s
    rw [← ht] at hhead
    simpa using hhead

lemma strip_strip (s : Text) : strip (strip s) = strip s := by
  have hr : (strip s).rdropWhile isSpace = strip s := List.rdropWhile_idempotent ..
  rw [strip, dropWhile_strip, hr]

lemma strip_dropWhile (s : Text) : strip (s.dropWhile isSpace) = strip s := by
  rw [strip, List.dropWhile_idempotent, strip]

lemma dropWhile_of_head {s : Text} (h : ∀ c ∈ s.head?, isSpace c = false) : s.dropWhile isSpace = s := by
  cases s with
  | nil => rfl
  | cons c s => exact List.dropWhile_cons_of_neg (by simp [h c rfl])

lemma dropWhile_of_strip {s : Text} (h : strip s = s) : s.dropWhile isSpace = s := by
  refine (List.dropWhile_suffix isSpace).eq_of_length_le ?_
  conv_lhs => rw [← h]
  exact (List.rdropWhile_prefix isSpace (s.dropWhile isSpace)).length_le

end Stripping

end CommitReplay.StrippedText
