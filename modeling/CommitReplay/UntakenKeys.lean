import Mathlib.Data.List.Basic
import Mathlib.Data.List.Perm.Subperm

/-! The elements of a list a keyed pass keeps: those whose key is neither taken before the pass nor
the key of an element it kept earlier. -/
namespace CommitReplay.UntakenKeys

variable {α κ : Type*} [DecidableEq κ] {key : α → κ} {taken taken' : List κ} {xs : List α}

/-- The elements kept, each taking its key. -/
def untaken (key : α → κ) : List κ → List α → List α
  | _, [] => []
  | taken, x :: xs => if key x ∈ taken then untaken key taken xs
      else x :: untaken key (key x :: taken) xs

lemma untaken_cons_of_mem {x : α} (h : key x ∈ taken) :
    untaken key taken (x :: xs) = untaken key taken xs := if_pos h

lemma untaken_cons {x : α} (h : key x ∉ taken) :
    untaken key taken (x :: xs) = x :: untaken key (key x :: taken) xs := if_neg h

lemma untaken_congr_key {key' : α → κ} (h : ∀ x ∈ xs, key x = key' x) :
    untaken key taken xs = untaken key' taken xs := by
  induction xs generalizing taken with
  | nil => rfl
  | cons x xs ih =>
    simp only [List.forall_mem_cons] at h
    simp only [untaken, h.1, ih h.2]

lemma untaken_congr (h : ∀ k, k ∈ taken ↔ k ∈ taken') : untaken key taken xs = untaken key taken' xs := by
  induction xs generalizing taken taken' with
  | nil => rfl
  | cons x xs ih =>
    have hcons : ∀ k, k ∈ key x :: taken ↔ k ∈ key x :: taken' := fun k => by
      simp only [List.mem_cons, h k]
    simp only [untaken, h (key x), ih h, ih hcons]

lemma untaken_subset : untaken key taken xs ⊆ xs := by
  induction xs generalizing taken with
  | nil => exact List.Subset.refl _
  | cons x xs ih =>
    by_cases h : key x ∈ taken
    · rw [untaken_cons_of_mem h]
      exact List.subset_cons_of_subset x ih
    · rw [untaken_cons h]
      exact List.cons_subset_cons x ih

lemma not_mem_taken {x : α} (hx : x ∈ untaken key taken xs) : key x ∉ taken := by
  induction xs generalizing taken with
  | nil => simp [untaken] at hx
  | cons y xs ih =>
    by_cases h : key y ∈ taken
    · exact ih (untaken_cons_of_mem h ▸ hx)
    · rw [untaken_cons h] at hx
      rcases List.mem_cons.mp hx with rfl | hx
      · exact h
      · exact fun hk => ih hx (List.mem_cons_of_mem _ hk)

/-- After the pass every key is taken. -/
lemma taken_or_kept {x : α} (hx : x ∈ xs) :
    key x ∈ taken ∨ ∃ y ∈ untaken key taken xs, key y = key x := by
  induction xs generalizing taken with
  | nil => simp at hx
  | cons z xs ih =>
    by_cases h : key z ∈ taken
    · rw [untaken_cons_of_mem h]
      rcases List.mem_cons.mp hx with rfl | hx
      · exact .inl h
      · exact ih hx
    · rw [untaken_cons h]
      rcases List.mem_cons.mp hx with rfl | hx
      · exact .inr ⟨x, List.mem_cons_self, rfl⟩
      · rcases @ih (key z :: taken) hx with hk | ⟨y, hy, he⟩
        · rcases List.mem_cons.mp hk with hk | hk
          · exact .inr ⟨z, List.mem_cons_self, hk.symm⟩
          · exact .inl hk
        · exact .inr ⟨y, List.mem_cons_of_mem _ hy, he⟩

lemma untaken_eq_nil (h : ∀ x ∈ xs, key x ∈ taken) : untaken key taken xs = [] := by
  induction xs with
  | nil => rfl
  | cons x xs ih =>
    simp only [List.forall_mem_cons] at h
    rw [untaken_cons_of_mem h.1, ih h.2]

/-- With more keys taken, fewer elements are kept. -/
lemma untaken_anti (h : taken' ⊆ taken) : untaken key taken xs ⊆ untaken key taken' xs := by
  induction xs generalizing taken taken' with
  | nil => exact List.Subset.refl _
  | cons x xs ih =>
    by_cases hx' : key x ∈ taken'
    · rw [untaken_cons_of_mem hx', untaken_cons_of_mem (h hx')]
      exact ih h
    · rw [untaken_cons hx']
      by_cases hx : key x ∈ taken
      · rw [untaken_cons_of_mem hx]
        refine List.subset_cons_of_subset x (ih fun k hk => ?_)
        rcases List.mem_cons.mp hk with rfl | hk
        exacts [hx, h hk]
      · rw [untaken_cons hx]
        exact List.cons_subset_cons x (ih (List.cons_subset_cons _ h))

/-- A class of elements that shares no key with the others is passed over as on its own. -/
lemma filter_untaken {p : α → Bool} (htaken : ∀ x ∈ xs, p x = true → (key x ∈ taken ↔ key x ∈ taken'))
    (hsep : ∀ x ∈ xs, ∀ y ∈ xs, p x = true → p y = false → key x ≠ key y) :
    (untaken key taken xs).filter p = untaken key taken' (xs.filter p) := by
  induction xs generalizing taken taken' with
  | nil => rfl
  | cons x xs ih =>
    have hsep' : ∀ y ∈ xs, ∀ z ∈ xs, p y = true → p z = false → key y ≠ key z := fun y hy z hz =>
      hsep y (List.mem_cons_of_mem _ hy) z (List.mem_cons_of_mem _ hz)
    have htail : ∀ y ∈ xs, p y = true → (key y ∈ taken ↔ key y ∈ taken') := fun y hy =>
      htaken y (List.mem_cons_of_mem _ hy)
    cases hp : p x with
    | true =>
      have hx := htaken x List.mem_cons_self hp
      rw [List.filter_cons_of_pos hp]
      by_cases h : key x ∈ taken
      · rw [untaken_cons_of_mem h, untaken_cons_of_mem (hx.mp h), ih htail hsep']
      · rw [untaken_cons h, untaken_cons (h ∘ hx.mpr), List.filter_cons_of_pos hp,
          ih (fun y hy hpy => ?_) hsep']
        simp only [List.mem_cons, htail y hy hpy]
    | false =>
      rw [List.filter_cons_of_neg (by simp [hp])]
      by_cases h : key x ∈ taken
      · rw [untaken_cons_of_mem h, ih htail hsep']
      · rw [untaken_cons h, List.filter_cons_of_neg (by simp [hp]), ih (fun y hy hpy => ?_) hsep']
        have hne := hsep y (List.mem_cons_of_mem _ hy) x List.mem_cons_self hpy hp
        simp only [List.mem_cons, hne, false_or, htail y hy hpy]

end CommitReplay.UntakenKeys
