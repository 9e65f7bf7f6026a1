import CommitReplay.FairTails
import Mathlib.Algebra.Order.Field.Basic

/-! The exact test of the discordant pairs of two arms. -/
namespace CommitReplay.PairTest

open Finset CommitReplay.FairTails

/-- The exact two-sided p of `b` and `c` discordant pairs. -/
def mcnemarP (b c : ℕ) : ℚ :=
  if b + c = 0 then 1
  else min 1 (2 * (∑ k ∈ range (min b c + 1), (b + c).choose k : ℕ) / 2 ^ (b + c))

lemma mcnemarP_eq (b c : ℕ) :
    mcnemarP b c = min 1 (2 * (lowerTail (b + c) (min b c) : ℚ) / 2 ^ (b + c)) := by
  unfold mcnemarP
  split_ifs with h
  · obtain ⟨rfl, rfl⟩ : b = 0 ∧ c = 0 := by omega
    norm_num [lowerTail]
  · rfl

lemma mcnemarP_comm (b c : ℕ) : mcnemarP b c = mcnemarP c b := by
  rw [mcnemarP_eq, mcnemarP_eq, Nat.add_comm, min_comm b c]

lemma mcnemarP_pos (b c : ℕ) : 0 < mcnemarP b c := by
  have htail : (0 : ℚ) < lowerTail (b + c) (min b c) := by exact_mod_cast one_le_lowerTail _ _
  rw [mcnemarP_eq]
  exact lt_min one_pos (div_pos (mul_pos two_pos htail) (by positivity))

lemma mcnemarP_le_one (b c : ℕ) : mcnemarP b c ≤ 1 := by
  rw [mcnemarP_eq]
  exact min_le_left _ _

lemma mcnemarP_eq_one {b c : ℕ} : mcnemarP b c = 1 ↔ |(b : ℤ) - c| ≤ 1 := by
  have hiff : mcnemarP b c = 1 ↔ ¬ 2 * lowerTail (b + c) (min b c) < 2 ^ (b + c) := by
    rw [mcnemarP_eq, min_eq_left_iff, le_div_iff₀ (by positivity), one_mul, not_lt]
    exact_mod_cast Iff.rfl
  rw [hiff, two_mul_lowerTail_lt, abs_le]
  omega

/-- The more the pairs lean one way, the smaller the p. -/
lemma mcnemarP_anti {b c b' c' : ℕ} (hsum : b + c = b' + c') (h : |(b : ℤ) - c| ≤ |(b' : ℤ) - c'|) :
    mcnemarP b' c' ≤ mcnemarP b c := by
  have hmin : min b' c' ≤ min b c := by
    rw [abs_le, le_abs, neg_le, le_abs] at h
    omega
  have htail : (lowerTail (b' + c') (min b' c') : ℚ) ≤ lowerTail (b' + c') (min b c) := by
    exact_mod_cast lowerTail_mono hmin
  rw [mcnemarP_eq, mcnemarP_eq, hsum]
  have hle : 2 * (lowerTail (b' + c') (min b' c') : ℚ) / 2 ^ (b' + c') ≤
      2 * (lowerTail (b' + c') (min b c) : ℚ) / 2 ^ (b' + c') := by gcongr
  exact min_le_min_left 1 hle

/-- Under no difference a p of at most `α` has a chance of at most `α`. -/
lemma mcnemarP_level (n : ℕ) {α : ℚ} (hα : 0 ≤ α) :
    ∑ b ∈ (range (n + 1)).filter (fun b => mcnemarP b (n - b) ≤ α), (n.choose b : ℚ) / 2 ^ n ≤ α := by
  set small := (range (n + 1)).filter fun b => mcnemarP b (n - b) ≤ α with hsmall
  rcases small.eq_empty_or_nonempty with hnone | hsome
  · rw [hnone, sum_empty]
    exact hα
  -- of the small p's the one nearest the middle bounds them all
  obtain ⟨b, hb, hfar⟩ := exists_max_image small (fun b => min b (n - b)) hsome
  obtain ⟨hrange, hp⟩ := mem_filter.mp hb
  have hbn : b + (n - b) = n := by have := mem_range.mp hrange; omega
  have htn : min b (n - b) ≤ n := by omega
  have hsub : small ⊆ farSizes n (min b (n - b)) := fun k hk =>
    mem_filter.mpr ⟨(mem_filter.mp hk).1, hfar k hk⟩
  have hsum : ∑ k ∈ small, (n.choose k : ℚ) ≤ min ((2 : ℚ) ^ n) (2 * (lowerTail n (min b (n - b)) : ℚ)) := by
    refine le_min ?_ ?_
    · calc ∑ k ∈ small, (n.choose k : ℚ) ≤ ∑ k ∈ range (n + 1), (n.choose k : ℚ) :=
            sum_le_sum_of_subset_of_nonneg (filter_subset _ _) fun _ _ _ => Nat.cast_nonneg _
        _ = 2 ^ n := by exact_mod_cast Nat.sum_range_choose n
    · calc ∑ k ∈ small, (n.choose k : ℚ) ≤ ∑ k ∈ farSizes n (min b (n - b)), (n.choose k : ℚ) :=
            sum_le_sum_of_subset_of_nonneg hsub fun _ _ _ => Nat.cast_nonneg _
        _ ≤ 2 * lowerTail n (min b (n - b)) := by exact_mod_cast sum_farSizes_le htn
  calc ∑ k ∈ small, (n.choose k : ℚ) / 2 ^ n = (∑ k ∈ small, (n.choose k : ℚ)) / 2 ^ n := (sum_div ..).symm
    _ ≤ min ((2 : ℚ) ^ n) (2 * (lowerTail n (min b (n - b)) : ℚ)) / 2 ^ n := by gcongr
    _ = mcnemarP b (n - b) := by
        rw [mcnemarP_eq, hbn, ← min_div_div_right (by positivity), div_self (by positivity)]
    _ ≤ α := hp

/-- The test of the pairs is exact: of its level whatever the level, the same either way round, a chance,
one where the pairs are as even as they can be, and the smaller the more they lean. -/
theorem mcnemarP_exact :
    (∀ (n : ℕ) (α : ℚ), 0 ≤ α → α ≤ 1 →
      ∑ b ∈ (range (n + 1)).filter (fun b => mcnemarP b (n - b) ≤ α), (n.choose b : ℚ) / 2 ^ n ≤ α) ∧
    (∀ b c, mcnemarP b c = mcnemarP c b) ∧
    (∀ b c, 0 < mcnemarP b c ∧ mcnemarP b c ≤ 1) ∧
    (∀ b c : ℕ, mcnemarP b c = 1 ↔ |(b : ℤ) - c| ≤ 1) ∧
    ∀ b c b' c' : ℕ, b + c = b' + c' → |(b : ℤ) - c| ≤ |(b' : ℤ) - c'| → mcnemarP b' c' ≤ mcnemarP b c :=
  ⟨fun n _ hα _ => mcnemarP_level n hα, mcnemarP_comm, fun b c => ⟨mcnemarP_pos b c, mcnemarP_le_one b c⟩,
    fun _ _ => mcnemarP_eq_one, fun _ _ _ _ => mcnemarP_anti⟩

example : mcnemarP 0 5 = 1 / 16 := by decide +kernel

/-- Five pairs at the usual level. -/
theorem mcnemarP_exact_five :
    ∑ b ∈ (range 6).filter (fun b => mcnemarP b (5 - b) ≤ 1 / 20), ((5).choose b : ℚ) / 2 ^ 5 ≤ 1 / 20 :=
  mcnemarP_exact.1 5 (1 / 20) (by norm_num) (by norm_num)

end CommitReplay.PairTest
