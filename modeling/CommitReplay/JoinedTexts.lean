import Mathlib.Data.List.Forall2

/-! Texts joined by a separator that they may contain themselves. How many times each of them
contains it is all that is lost: with these numbers known, the joined text gives back its parts. -/
namespace CommitReplay.JoinedTexts

variable {α : Type*} [DecidableEq α] {c : α}

/-- A part that a separator follows is determined by the separators it contains. -/
lemma append_cons_inj {x y r s : List α} (hcount : x.count c = y.count c)
    (h : x ++ c :: r = y ++ c :: s) : x = y ∧ r = s := by
  induction x generalizing y with
  | nil =>
    cases y with
    | nil => exact ⟨rfl, (List.cons.inj h).2⟩
    | cons b y =>
      obtain rfl := (List.cons.inj h).1
      simp at hcount
  | cons a x ih =>
    cases y with
    | nil =>
      obtain rfl := (List.cons.inj h).1
      simp at hcount
    | cons b y =>
      obtain ⟨rfl, htail⟩ := List.cons.inj h
      obtain ⟨rfl, hrest⟩ := ih (by simpa [List.count_cons] using hcount) htail
      exact ⟨rfl, hrest⟩

/-- A joined text is of its separator's and its parts' characters. -/
lemma mem_intercalate {sep : List α} {xs : List (List α)} {a : α} (h : a ∈ sep.intercalate xs) :
    a ∈ sep ∨ ∃ x ∈ xs, a ∈ x := by
  induction xs with
  | nil => simp at h
  | cons x xs ih =>
    cases xs with
    | nil => exact .inr ⟨x, by simp, by simpa using h⟩
    | cons y ys =>
      rw [List.intercalate_cons_cons, List.append_assoc, List.mem_append, List.mem_append] at h
      obtain h | h | h := h
      · exact .inr ⟨x, by simp, h⟩
      · exact .inl h
      · exact (ih h).imp_right fun ⟨z, hz, ha⟩ => ⟨z, List.mem_cons_of_mem x hz, ha⟩

/-- Each part stands in the joined text. -/
lemma infix_intercalate {sep : List α} {xs : List (List α)} {x : List α} (h : x ∈ xs) :
    x <:+: sep.intercalate xs := by
  induction xs with
  | nil => simp at h
  | cons y xs ih =>
    cases xs with
    | nil => simp [List.mem_singleton.mp h]
    | cons z zs =>
      rw [List.intercalate_cons_cons, List.append_assoc]
      obtain rfl | h := List.mem_cons.mp h
      · exact (List.prefix_append _ _).isInfix
      · rw [← List.append_assoc]
        exact (ih h).trans (List.suffix_append _ _).isInfix

/-- What may follow the last part: nothing, or a separator and more. -/
def Tail (c : α) (t : List α) : Prop := t = [] ∨ ∃ r, t = c :: r

lemma append_tail_inj {x y t u : List α} (ht : Tail c t) (hu : Tail c u)
    (hcount : x.count c = y.count c) (h : x ++ t = y ++ u) : x = y ∧ t = u := by
  have hsep : t.count c = u.count c := by
    have hall := congrArg (List.count c) h
    rw [List.count_append, List.count_append, hcount] at hall
    exact Nat.add_left_cancel hall
  rcases ht with rfl | ⟨r, rfl⟩ <;> rcases hu with rfl | ⟨s, rfl⟩
  · exact ⟨by simpa using h, rfl⟩
  · simp at hsep
  · simp at hsep
  · obtain ⟨rfl, rfl⟩ := append_cons_inj hcount h
    exact ⟨rfl, rfl⟩

/-- The parts, and what follows them, of two joined texts that agree. -/
theorem intercalate_append_inj {xs ys : List (List α)} {t u : List α} (ht : Tail c t)
    (hu : Tail c u) (hcount : List.Forall₂ (fun x y => x.count c = y.count c) xs ys)
    (h : [c].intercalate xs ++ t = [c].intercalate ys ++ u) : xs = ys ∧ t = u := by
  induction hcount with
  | nil => exact ⟨rfl, by simpa using h⟩
  | @cons x y xs ys hxy hrest ih =>
    cases hrest with
    | nil =>
      simp only [List.intercalate_singleton] at h
      obtain ⟨rfl, rfl⟩ := append_tail_inj ht hu hxy h
      exact ⟨rfl, rfl⟩
    | cons hxy' hrest' =>
      simp only [List.intercalate_cons_cons, List.append_assoc, List.singleton_append] at h ih
      obtain ⟨rfl, hjoin⟩ := append_cons_inj hxy h
      obtain ⟨hparts, htail⟩ := ih hjoin
      exact ⟨congrArg _ hparts, htail⟩

end CommitReplay.JoinedTexts
