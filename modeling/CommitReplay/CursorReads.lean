import Mathlib.Data.List.Sort
import Mathlib.Data.List.Pairwise

/-! Reading a growing log by a cursor: each page holds the first entries whose keys are above it, and the
last key of the page is the next cursor. Nothing is missed as long as the keys rise along the log. -/
namespace CommitReplay.CursorReads

variable {α : Type*} (key : α → ℕ)

/-- The first entries above the cursor, in the order of their keys. -/
def pageAfter (log : List α) (cursor n : ℕ) : List α :=
  ((log.filter fun a => cursor < key a).insertionSort fun a b => key a ≤ key b).take n

def Rising (log : List α) : Prop := log.Pairwise fun a b => key a < key b

structure Reader (α : Type*) where
  cursor : ℕ := 0
  served : List α := []

/-- The reader after one more page. -/
def Reader.turn (r : Reader α) (page : List α) : Reader α where
  cursor := (page.getLast?.map key).getD r.cursor
  served := r.served ++ page

/-- The reader was served what the log has up to its cursor. -/
structure UpToDate (log : List α) (r : Reader α) : Prop where
  served : r.served = log.filter fun a => key a ≤ r.cursor
  cursor : r.cursor = 0 ∨ ∃ a ∈ log, key a = r.cursor

variable {key} {log more : List α} {r : Reader α}

lemma upToDate_start (h : ∀ a ∈ log, 0 < key a) : UpToDate key log {} where
  served := by
    symm
    rw [List.filter_eq_nil_iff]
    intro a ha
    have := h a ha
    simp
    omega
  cursor := .inl rfl

lemma pageAfter_of_rising (h : Rising key log) (c n : ℕ) :
    pageAfter key log c n = (log.filter fun a => c < key a).take n := by
  rw [pageAfter, List.Pairwise.insertionSort_eq]
  exact (h.sublist List.filter_sublist).imp fun hab => hab.le

/-- A cursor splits a rising log. -/
lemma filter_append_filter (h : Rising key log) (c : ℕ) :
    (log.filter fun a => key a ≤ c) ++ (log.filter fun a => c < key a) = log := by
  induction log with
  | nil => rfl
  | cons a log ih =>
    obtain ⟨ha, hlog⟩ := List.pairwise_cons.mp h
    by_cases hc : key a ≤ c
    · rw [List.filter_cons_of_pos (by simpa), List.filter_cons_of_neg (by simpa), List.cons_append, ih hlog]
    · have hnone : (log.filter fun b => key b ≤ c) = [] := by
        rw [List.filter_eq_nil_iff]
        intro b hb
        have := ha b hb
        simp
        omega
      have hall : (log.filter fun b => c < key b) = log := by
        rw [List.filter_eq_self]
        intro b hb
        have := ha b hb
        simp
        omega
      have hlt : key a > c := not_le.mp hc
      rw [List.filter_cons_of_neg (by simpa using hlt), hnone, List.filter_cons_of_pos (by simpa using hlt), hall]
      rfl

lemma filter_le_of_rising {front back : List α} {c : ℕ} (hf : ∀ a ∈ front, key a ≤ c)
    (hb : ∀ a ∈ back, c < key a) : (front ++ back).filter (fun a => key a ≤ c) = front := by
  rw [List.filter_append, List.filter_eq_self.mpr (by simpa using hf),
    List.filter_eq_nil_iff.mpr (by simpa using hb), List.append_nil]

lemma UpToDate.append (h : UpToDate key log r) (hr : Rising key (log ++ more))
    (hpos : ∀ a ∈ more, 0 < key a) : UpToDate key (log ++ more) r := by
  have hmore : ∀ a ∈ more, r.cursor < key a := by
    intro a ha
    obtain hc | ⟨b, hb, hc⟩ := h.cursor
    · rw [hc]
      exact hpos a ha
    · rw [← hc]
      exact (List.pairwise_append.mp hr).2.2 b hb a ha
  constructor
  · have hnone : (more.filter fun a => key a ≤ r.cursor) = [] := by
      rw [List.filter_eq_nil_iff]
      simpa using hmore
    rw [h.served, List.filter_append, hnone, List.append_nil]
  · exact h.cursor.imp_right fun ⟨b, hb, hc⟩ => ⟨b, List.mem_append_left _ hb, hc⟩

theorem UpToDate.turn (h : UpToDate key log r) (hr : Rising key log) (n : ℕ) :
    UpToDate key log (r.turn key (pageAfter key log r.cursor n)) := by
  have hpage := pageAfter_of_rising hr r.cursor n
  obtain hnil | ⟨front, last, hlast⟩ := List.eq_nil_or_concat (pageAfter key log r.cursor n)
  · simpa [Reader.turn, hnil] using h
  rw [List.concat_eq_append] at hlast
  have hcursor : (r.turn key (front ++ [last])).cursor = key last := by simp [Reader.turn]
  -- what was served, the page, and what is still to come
  obtain ⟨rest, hrest⟩ : ∃ rest, log = r.served ++ (front ++ [last]) ++ rest := by
    refine ⟨(log.filter fun a => r.cursor < key a).drop n, ?_⟩
    rw [← hlast, hpage, List.append_assoc, List.take_append_drop, h.served, filter_append_filter hr]
  have hfront : ∀ a ∈ r.served ++ (front ++ [last]), key a ≤ key last := by
    intro a ha
    rw [← List.append_assoc] at ha
    obtain ha | ha := List.mem_append.mp ha
    · rw [hrest, ← List.append_assoc] at hr
      exact ((List.pairwise_append.mp (List.pairwise_append.mp hr).1).2.2 a ha last (by simp)).le
    · rw [List.mem_singleton.mp ha]
  have hback : ∀ a ∈ rest, key last < key a := fun a ha =>
    (List.pairwise_append.mp (hrest ▸ hr)).2.2 last (by simp) a ha
  rw [hlast]
  constructor
  · rw [hcursor]
    conv_rhs => rw [hrest]
    rw [filter_le_of_rising hfront hback, Reader.turn]
  · exact .inr ⟨last, by rw [hrest]; simp, hcursor.symm⟩

end CommitReplay.CursorReads
