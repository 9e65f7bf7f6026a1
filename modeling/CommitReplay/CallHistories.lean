import Mathlib.Data.List.Forall2
import Mathlib.Data.List.Induction

/-! Histories that grow at their end: what held of each entry when it came, what the last reading of
some kind was, and which requests the entries of a history carry out. -/
namespace CommitReplay.CallHistories

variable {α β : Type*}

section Each

/-- Each entry stands to the ones before it as it should. -/
def Each (P : List α → α → Prop) (h : List α) : Prop := ∀ pre c post, h = pre ++ c :: post → P pre c

variable {P Q : List α → α → Prop} {h : List α} {c : α}

@[simp] lemma each_nil : Each P ([] : List α) := fun pre c post hsplit => by simp at hsplit

lemma each_snoc : Each P (h ++ [c]) ↔ Each P h ∧ P h c := by
  constructor
  · intro hall
    refine ⟨fun pre d post hsplit => hall pre d (post ++ [c]) ?_, hall h c [] rfl⟩
    simp [hsplit]
  · rintro ⟨hall, hlast⟩ pre d post hsplit
    induction post using List.reverseRecOn with
    | nil =>
      obtain ⟨rfl, hd⟩ := List.append_inj' hsplit rfl
      obtain rfl := List.singleton_inj.mp hd
      exact hlast
    | append_singleton post e =>
      refine hall pre d post ?_
      rw [← List.cons_append, ← List.append_assoc] at hsplit
      exact (List.append_inj' hsplit rfl).1

lemma Each.snoc (hall : Each P h) (hlast : P h c) : Each P (h ++ [c]) := each_snoc.mpr ⟨hall, hlast⟩

lemma Each.mono (hall : Each P h) (himp : ∀ pre c, P pre c → Q pre c) : Each Q h :=
  fun pre c post hsplit => himp pre c (hall pre c post hsplit)

lemma Each.of_prefix {m n : List α} (hall : Each P n) (h : m <+: n) : Each P m := by
  obtain ⟨more, rfl⟩ := h
  intro pre c post hsplit
  refine hall pre c (post ++ more) ?_
  rw [hsplit, List.append_assoc, List.cons_append]

/-- How many entries of a kind there are is bounded by what each of them found before it. -/
lemma Each.countP_le {p : α → Bool} {n : ℕ} (hall : Each (fun pre c => p c = true → pre.countP p < n) h) :
    h.countP p ≤ n := by
  induction h using List.reverseRecOn with
  | nil => simp
  | append_singleton h c ih =>
    obtain ⟨hall, hlast⟩ := each_snoc.mp hall
    rw [List.countP_append, List.countP_singleton]
    by_cases hc : p c = true
    · rw [if_pos hc]
      exact hlast hc
    · rw [if_neg hc]
      exact ih hall

end Each

section Readings

/-- The last of the readings of some kind. -/
def lastOf (f : α → Option β) (h : List α) : Option β := (h.filterMap f).getLast?

variable {f : α → Option β} {h : List α} {c : α} {b : β}

lemma lastOf_snoc_some (hc : f c = some b) : lastOf f (h ++ [c]) = some b := by
  simp [lastOf, List.filterMap_append, hc]

lemma lastOf_snoc_none (hc : f c = none) : lastOf f (h ++ [c]) = lastOf f h := by
  simp [lastOf, List.filterMap_append, hc]

end Readings

section Requests

/-- The entries carry out some of the requests, each at most once and in the order they were made. -/
def Serves (R : α → β → Prop) (made : List α) (asked : List β) : Prop :=
  ∃ served, List.Forall₂ R made served ∧ served.Sublist asked

variable {R : α → β → Prop} {made : List α} {asked : List β} {a : α} {b : β}

@[simp] lemma serves_nil : Serves R [] asked := ⟨[], .nil, List.nil_sublist _⟩

lemma Serves.skip (h : Serves R made asked) (more : List β) : Serves R made (asked ++ more) := by
  obtain ⟨served, hr, hs⟩ := h
  exact ⟨served, hr, hs.trans (List.sublist_append_left _ _)⟩

lemma Serves.serve (h : Serves R made asked) (hab : R a b) : Serves R (made ++ [a]) (asked ++ [b]) := by
  obtain ⟨served, hr, hs⟩ := h
  exact ⟨served ++ [b], List.rel_append hr (.cons hab .nil), hs.append (List.Sublist.refl [b])⟩

lemma Serves.length_le (h : Serves R made asked) : made.length ≤ asked.length := by
  obtain ⟨served, hr, hs⟩ := h
  rw [hr.length_eq]
  exact hs.length_le

end Requests

end CommitReplay.CallHistories
