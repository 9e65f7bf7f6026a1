import Mathlib.Data.Nat.Choose.Sum
import Mathlib.Algebra.BigOperators.Field
import Mathlib.Algebra.Order.BigOperators.Group.Finset
import Mathlib.Data.Rat.Defs
import Mathlib.Algebra.Order.Field.Rat
import Mathlib.Tactic.Linarith

/-! The tails of a fair binomial: how many of the subsets of `n` things are no larger than a bound, and how
many stand that far from the middle on either side. -/
namespace CommitReplay.FairTails

open Finset

/-- The subsets of `n` things with at most `t` of them. -/
def lowerTail (n t : ℕ) : ℕ := ∑ k ∈ range (t + 1), n.choose k

/-- The sizes that stand within `t` of either end. -/
def farSizes (n t : ℕ) : Finset ℕ := (range (n + 1)).filter fun k => min k (n - k) ≤ t

lemma lowerTail_mono {n s t : ℕ} (h : s ≤ t) : lowerTail n s ≤ lowerTail n t :=
  sum_le_sum_of_subset fun k hk => mem_range.mpr (by have := mem_range.mp hk; omega)

lemma one_le_lowerTail (n t : ℕ) : 1 ≤ lowerTail n t :=
  calc 1 = n.choose 0 := (Nat.choose_zero_right n).symm
    _ ≤ lowerTail n t := single_le_sum (f := fun k => n.choose k) (fun _ _ => Nat.zero_le _) (by simp)

/-- The upper tail counts as much as the lower. -/
lemma sum_upper {n t : ℕ} (h : t ≤ n) :
    ∑ k ∈ (range (n + 1)).filter (fun k => n - k ≤ t), n.choose k = lowerTail n t := by
  refine sum_nbij' (fun k => n - k) (fun k => n - k) ?_ ?_ ?_ ?_ ?_
  · intro k hk
    obtain ⟨-, hk⟩ := mem_filter.mp hk
    exact mem_range.mpr (by omega)
  · intro k hk
    have := mem_range.mp hk
    exact mem_filter.mpr ⟨mem_range.mpr (by omega), by omega⟩
  · intro k hk
    have := mem_range.mp (mem_filter.mp hk).1
    omega
  · intro k hk
    have := mem_range.mp hk
    omega
  · intro k hk
    have := mem_range.mp (mem_filter.mp hk).1
    exact (Nat.choose_symm (by omega)).symm

lemma sum_lower {n t : ℕ} (h : t ≤ n) :
    ∑ k ∈ (range (n + 1)).filter (fun k => k ≤ t), n.choose k = lowerTail n t := by
  refine sum_congr ?_ fun _ _ => rfl
  ext k
  simp only [mem_filter, mem_range]
  omega

lemma farSizes_eq (n t : ℕ) : farSizes n t =
    (range (n + 1)).filter (fun k => k ≤ t) ∪ (range (n + 1)).filter (fun k => n - k ≤ t) := by
  rw [← filter_or]
  exact filter_congr fun k _ => min_le_iff

/-- What stands far from the middle is in one of the tails. -/
lemma sum_farSizes_le {n t : ℕ} (h : t ≤ n) : ∑ k ∈ farSizes n t, n.choose k ≤ 2 * lowerTail n t := by
  rw [farSizes_eq, two_mul]
  conv_rhs => rw [← sum_lower h]
  conv_rhs => rhs; rw [sum_lower h, ← sum_upper h]
  exact sum_union_inter (f := fun k => n.choose k) ▸ Nat.le_add_right _ _

/-- Short of the middle the two tails share no size. -/
lemma two_mul_lowerTail {n t : ℕ} (h : 2 * t < n) :
    2 * lowerTail n t = ∑ k ∈ farSizes n t, n.choose k := by
  rw [farSizes_eq, sum_union, sum_lower (by omega), sum_upper (by omega), two_mul]
  rw [disjoint_filter]
  intro k hk hlow hup
  have := mem_range.mp hk
  omega

/-- Both tails together are all subsets at the two sizes next to the middle, and not before. -/
lemma two_mul_lowerTail_lt {n t : ℕ} : 2 * lowerTail n t < 2 ^ n ↔ 2 * t + 1 < n := by
  constructor
  · intro hlt
    by_contra hge
    have hhalf : 2 ^ n ≤ 2 * lowerTail n t := by
      rw [← Nat.sum_range_choose n]
      have hall : farSizes n t = range (n + 1) := by
        refine filter_eq_self.mpr fun k hk => ?_
        have := mem_range.mp hk
        omega
      by_cases ht : t ≤ n
      · rw [← hall]
        exact sum_farSizes_le ht
      · calc ∑ k ∈ range (n + 1), n.choose k ≤ lowerTail n t :=
              sum_le_sum_of_subset fun k hk => mem_range.mpr (by have := mem_range.mp hk; omega)
          _ ≤ 2 * lowerTail n t := by omega
    omega
  · intro hlt
    rw [two_mul_lowerTail (by omega), ← Nat.sum_range_choose n]
    refine sum_lt_sum_of_subset (i := t + 1) (filter_subset _ _) ?_ ?_ ?_ fun _ _ _ => Nat.zero_le _
    · exact mem_range.mpr (by omega)
    · simp only [farSizes, mem_filter, not_and, not_le]
      omega
    · exact Nat.choose_pos (by omega)

end CommitReplay.FairTails
