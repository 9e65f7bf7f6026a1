import Mathlib.Data.List.DropRight

/-! Slugs: a text in which each run of other characters is one separator. A slug is the words of the text, joined; to
cut it off is to cut off its words. -/
namespace CommitReplay.Slugs

variable {α : Type*}

section Definitions

variable (isWord : α → Bool) (sep : α)

/-- Each run of characters outside the words becomes one separator; `inRun` says that one stands before the text. -/
def collapse (inRun : Bool) : List α → List α
  | [] => []
  | c :: cs =>
    if isWord c then c :: collapse false cs
    else if inRun then collapse true cs else sep :: collapse true cs

def trim [DecidableEq α] (s : List α) : List α := (s.dropWhile (· = sep)).rdropWhile (· = sep)

/-- The slug of a text, cut off after a number of characters. -/
def slug [DecidableEq α] (maxLen : ℕ) (text : List α) : List α :=
  ((trim sep (collapse isWord sep false text)).take maxLen).rdropWhile (· = sep)

/-- The longest runs of word characters, in order. -/
def words : List α → List (List α)
  | [] => []
  | c :: cs =>
    if isWord c then if cs.head?.any isWord then (words cs).modifyHead (c :: ·) else [c] :: words cs
    else words cs

/-- The words that fit where they are joined by separators, the last of them cut off. -/
def capWords : ℕ → List (List α) → List (List α)
  | _, [] => []
  | n, w :: ws =>
    if n = 0 then [] else if n ≤ w.length then [w.take n] else w :: capWords (n - w.length - 1) ws

/-- Words that are not empty, of word characters only. -/
def Worded (ws : List (List α)) : Prop := ∀ w ∈ ws, w ≠ [] ∧ ∀ c ∈ w, isWord c = true

end Definitions

section Words

variable {isWord : α → Bool} {sep : α} {ws : List (List α)} {w : List α}

lemma worded_cons : Worded isWord (w :: ws) ↔ (w ≠ [] ∧ ∀ c ∈ w, isWord c = true) ∧ Worded isWord ws := by
  simp [Worded]

lemma words_ne_nil {cs : List α} (h : cs.head?.any isWord = true) : words isWord cs ≠ [] := by
  cases cs with
  | nil => cases h
  | cons c cs =>
    have hc : isWord c = true := h
    rw [words, if_pos hc]
    split_ifs with hcs
    · intro he
      rw [List.modifyHead_eq_nil_iff] at he
      exact words_ne_nil hcs he
    · exact List.cons_ne_nil _ _

lemma worded_words (isWord : α → Bool) (text : List α) : Worded isWord (words isWord text) := by
  induction text with
  | nil => exact fun w hw => absurd hw List.not_mem_nil
  | cons c cs ih =>
    rw [words]
    split_ifs with hc hcs
    · obtain ⟨v, vs, hv⟩ := List.exists_cons_of_ne_nil (words_ne_nil hcs)
      rw [hv] at ih ⊢
      obtain ⟨⟨-, hchars⟩, hrest⟩ := worded_cons.mp ih
      refine worded_cons.mpr ⟨⟨List.cons_ne_nil _ _, fun d hd => ?_⟩, hrest⟩
      obtain rfl | hd := List.mem_cons.mp hd
      · exact hc
      · exact hchars d hd
    · exact worded_cons.mpr ⟨⟨List.cons_ne_nil _ _, fun d hd => List.mem_singleton.mp hd ▸ hc⟩, ih⟩
    · exact ih

lemma worded_capWords (n : ℕ) (h : Worded isWord ws) : Worded isWord (capWords n ws) := by
  induction ws generalizing n with
  | nil => exact h
  | cons w ws ih =>
    obtain ⟨⟨hne, hchars⟩, hrest⟩ := worded_cons.mp h
    rw [capWords]
    split_ifs with hn hw
    · exact fun v hv => absurd hv List.not_mem_nil
    · intro v hv
      obtain rfl := List.mem_singleton.mp hv
      exact ⟨by simp [hn, hne], fun c hc => hchars c (List.mem_of_mem_take hc)⟩
    · exact worded_cons.mpr ⟨⟨hne, hchars⟩, ih _ hrest⟩

/-- Joined words begin with a word character, -/
lemma head_intercalate (sep : α) (h : Worded isWord ws) (hne : ws ≠ []) :
    ∃ c s, [sep].intercalate ws = c :: s ∧ isWord c = true := by
  obtain ⟨w, ws, rfl⟩ := List.exists_cons_of_ne_nil hne
  obtain ⟨⟨hw, hchars⟩, -⟩ := worded_cons.mp h
  obtain ⟨c, w, rfl⟩ := List.exists_cons_of_ne_nil hw
  have hc := hchars c List.mem_cons_self
  cases ws with
  | nil => exact ⟨c, w, by simp, hc⟩
  | cons v vs => exact ⟨c, _, by rw [List.intercalate_cons_cons]; rfl, hc⟩

/-- and end with one. -/
lemma last_intercalate (sep : α) (h : Worded isWord ws) (hne : ws ≠ []) :
    ∃ s c, [sep].intercalate ws = s ++ [c] ∧ isWord c = true := by
  induction ws with
  | nil => exact absurd rfl hne
  | cons w ws ih =>
    obtain ⟨⟨hw, hchars⟩, hrest⟩ := worded_cons.mp h
    cases ws with
    | nil =>
      refine ⟨w.dropLast, w.getLast hw, ?_, hchars _ (List.getLast_mem hw)⟩
      rw [List.intercalate_singleton, List.dropLast_append_getLast]
    | cons v vs =>
      obtain ⟨s, c, hs, hc⟩ := ih hrest (List.cons_ne_nil _ _)
      exact ⟨w ++ [sep] ++ s, c, by rw [List.intercalate_cons_cons, hs]; simp, hc⟩

lemma splitOn_words [DecidableEq α] (hsep : isWord sep = false) (h : Worded isWord ws) (hne : ws ≠ []) :
    ([sep].intercalate ws).splitOn sep = ws := by
  refine List.splitOn_intercalate sep (fun w hw hmem => ?_) hne
  exact absurd (hsep.symm.trans ((h w hw).2 sep hmem)) Bool.false_ne_true

lemma intercalate_append {vs : List (List α)} (hws : ws ≠ []) (hvs : vs ≠ []) :
    [sep].intercalate (ws ++ vs) = [sep].intercalate ws ++ sep :: [sep].intercalate vs := by
  induction ws with
  | nil => exact absurd rfl hws
  | cons w ws ih =>
    cases ws with
    | nil =>
      obtain ⟨v, vs, rfl⟩ := List.exists_cons_of_ne_nil hvs
      simp
    | cons u us =>
      have hus := ih (List.cons_ne_nil u us)
      rw [List.cons_append] at hus
      rw [List.cons_append, List.cons_append, List.intercalate_cons_cons, hus, List.intercalate_cons_cons]
      simp

end Words

section Slug

variable {isWord : α → Bool} {sep : α} {ws : List (List α)}

lemma ne_of_isWord (hsep : isWord sep = false) {c : α} (hc : isWord c = true) : c ≠ sep := by
  rintro rfl
  exact absurd (hsep.symm.trans hc) Bool.false_ne_true

/-- Up to a separator at its end, a collapsed text is its words joined. -/
lemma collapse_eq (isWord : α → Bool) (sep : α) (text : List α) : ∃ tail, (tail = [] ∨ tail = [sep]) ∧ (words isWord text = [] → tail = []) ∧
    collapse isWord sep true text = [sep].intercalate (words isWord text) ++ tail := by
  induction text with
  | nil => exact ⟨[], .inl rfl, fun _ => rfl, rfl⟩
  | cons c cs ih =>
    obtain ⟨tail, htail, hnil, hcs⟩ := ih
    by_cases hc : isWord c = true
    · rw [collapse, if_pos hc, words, if_pos hc]
      cases cs with
      | nil => exact ⟨[], .inl rfl, fun _ => rfl, by simp [collapse, words]⟩
      | cons d ds =>
        by_cases hd : isWord d = true
        · have hhead : (d :: ds).head?.any isWord = true := hd
          have hsame : collapse isWord sep false (d :: ds) = collapse isWord sep true (d :: ds) := by
            rw [collapse, if_pos hd, collapse, if_pos hd]
          obtain ⟨v, vs, hv⟩ := List.exists_cons_of_ne_nil (words_ne_nil hhead)
          rw [if_pos hhead, hsame, hcs, hv]
          refine ⟨tail, htail, fun he => absurd he (List.cons_ne_nil _ _), ?_⟩
          cases vs <;> simp
        · have hhead : ¬ (d :: ds).head?.any isWord = true := hd
          rw [if_neg hhead, collapse, if_neg hd, if_neg Bool.false_ne_true, words, if_neg hd]
          rw [collapse, if_neg hd, if_pos rfl, words, if_neg hd] at hcs
          rw [words, if_neg hd] at hnil
          rw [hcs]
          by_cases hds : words isWord ds = []
          · exact ⟨[sep], .inr rfl, fun he => absurd he (List.cons_ne_nil _ _), by simp [hds, hnil hds]⟩
          · obtain ⟨v, vs, hv⟩ := List.exists_cons_of_ne_nil hds
            refine ⟨tail, htail, fun he => absurd he (List.cons_ne_nil _ _), ?_⟩
            rw [hv, List.intercalate_cons_cons]
            simp
    · rw [collapse, if_neg hc, if_pos rfl, words, if_neg hc]
      exact ⟨tail, htail, hnil, hcs⟩

variable [DecidableEq α]

lemma rdropWhile_intercalate (hsep : isWord sep = false) (h : Worded isWord ws) :
    ([sep].intercalate ws).rdropWhile (· = sep) = [sep].intercalate ws := by
  by_cases hne : ws = []
  · simp [hne]
  · obtain ⟨s, c, hs, hc⟩ := last_intercalate sep h hne
    rw [hs, List.rdropWhile_concat_neg _ _ _ (by simpa using ne_of_isWord hsep hc)]

/-- What stands before the first word is dropped. -/
lemma dropWhile_collapse (text : List α) : (collapse isWord sep false text).dropWhile (· = sep) =
    (collapse isWord sep true text).dropWhile (· = sep) := by
  cases text with
  | nil => rfl
  | cons c cs =>
    by_cases hc : isWord c = true
    · rw [collapse, collapse, if_pos hc, if_pos hc]
    · rw [collapse, collapse, if_neg hc, if_neg hc, if_neg Bool.false_ne_true, if_pos rfl]
      exact List.dropWhile_cons_of_pos (by simp)

/-- A trimmed text is its words joined. -/
theorem trim_collapse (hsep : isWord sep = false) (text : List α) :
    trim sep (collapse isWord sep false text) = [sep].intercalate (words isWord text) := by
  have hworded := worded_words isWord text
  obtain ⟨tail, htail, hnil, hcollapse⟩ := collapse_eq isWord sep text
  rw [trim, dropWhile_collapse, hcollapse]
  by_cases hne : words isWord text = []
  · simp [hne, hnil hne]
  · obtain ⟨c, s, hs, hc⟩ := head_intercalate sep hworded hne
    have hdrop : ([sep].intercalate (words isWord text) ++ tail).dropWhile (· = sep) =
        [sep].intercalate (words isWord text) ++ tail := by
      rw [hs, List.cons_append, List.dropWhile_cons_of_neg (by simpa using ne_of_isWord hsep hc)]
    rw [hdrop]
    obtain rfl | rfl := htail
    · rw [List.append_nil, rdropWhile_intercalate hsep hworded]
    · rw [List.rdropWhile_concat_pos _ _ _ (by simp), rdropWhile_intercalate hsep hworded]

lemma rdropWhile_append_cons (s t : List α) :
    (s ++ sep :: t).rdropWhile (· = sep) =
      if t.rdropWhile (· = sep) = [] then s.rdropWhile (· = sep) else s ++ sep :: t.rdropWhile (· = sep) := by
  induction t using List.reverseRecOn with
  | nil => simp [List.rdropWhile_concat_pos]
  | append_singleton t c ih =>
    rw [← List.cons_append, ← List.append_assoc]
    by_cases hc : c = sep
    · rw [List.rdropWhile_concat_pos _ _ _ (by simpa using hc), ih, List.rdropWhile_concat_pos _ _ _ (by simpa using hc)]
    · rw [List.rdropWhile_concat_neg _ _ _ (by simpa using hc), List.rdropWhile_concat_neg _ _ _ (by simpa using hc),
        if_neg (by simp)]
      simp

/-- To cut off joined words is to cut off the words. -/
theorem take_intercalate (hsep : isWord sep = false) (n : ℕ) (h : Worded isWord ws) :
    (([sep].intercalate ws).take n).rdropWhile (· = sep) = [sep].intercalate (capWords n ws) := by
  induction ws generalizing n with
  | nil => simp [capWords]
  | cons w ws ih =>
    obtain ⟨hw, hrest⟩ := worded_cons.mp h
    have hone : ∀ k, k ≠ 0 → (w.take k).rdropWhile (· = sep) = [sep].intercalate [w.take k] := by
      intro k hk
      have htake : Worded isWord [w.take k] := by
        intro v hv
        obtain rfl := List.mem_singleton.mp hv
        exact ⟨by simp [hk, hw.1], fun c hc => hw.2 c (List.mem_of_mem_take hc)⟩
      have := rdropWhile_intercalate hsep htake
      rwa [List.intercalate_singleton] at this ⊢
    rw [capWords]
    split_ifs with hn hle
    · simp [hn]
    · rw [← hone n hn]
      cases ws with
      | nil => rw [List.intercalate_singleton]
      | cons v vs => rw [List.intercalate_cons_cons, List.append_assoc, List.take_append_of_le_length hle]
    · have hlong : w.length ≤ n := (Nat.lt_of_not_le hle).le
      have hself : w.rdropWhile (· = sep) = w := by
        have := hone w.length (by simpa using hw.1)
        rwa [List.take_length, List.intercalate_singleton] at this
      cases ws with
      | nil => rw [List.intercalate_singleton, List.take_of_length_le hlong, hself, capWords, List.intercalate_singleton]
      | cons v vs =>
        obtain ⟨m, rfl⟩ : ∃ m, n = w.length + 1 + m := ⟨n - w.length - 1, by omega⟩
        have hm : w.length + 1 + m - w.length - 1 = m := by omega
        rw [List.intercalate_cons_cons, hm]
        have htake : (w ++ [sep] ++ [sep].intercalate (v :: vs)).take (w.length + 1 + m) =
            w ++ sep :: ([sep].intercalate (v :: vs)).take m := by
          rw [List.take_append, List.take_of_length_le (by simp)]
          simp
        rw [htake, rdropWhile_append_cons, ih m hrest]
        split_ifs with hnil
        · have hempty : capWords m (v :: vs) = [] := by
            by_contra hne
            obtain ⟨c, s, hs, -⟩ := head_intercalate sep (worded_capWords m hrest) hne
            exact absurd (hs.symm.trans hnil) (List.cons_ne_nil _ _)
          rw [hempty, List.intercalate_singleton, hself]
        · have hne : capWords m (v :: vs) ≠ [] := fun he => hnil (by simp [he])
          obtain ⟨u, us, hu⟩ := List.exists_cons_of_ne_nil hne
          rw [hu, List.intercalate_cons_cons]
          simp

/-- A slug is the words of its text that fit, joined. -/
theorem slug_eq (hsep : isWord sep = false) (maxLen : ℕ) (text : List α) :
    slug isWord sep maxLen text = [sep].intercalate (capWords maxLen (words isWord text)) := by
  rw [slug, trim_collapse hsep, take_intercalate hsep maxLen (worded_words isWord text)]

end Slug

end CommitReplay.Slugs
