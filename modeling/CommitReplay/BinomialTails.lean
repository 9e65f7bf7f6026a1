import Mathlib.Algebra.BigOperators.Fin
import Mathlib.Algebra.Order.BigOperators.Group.Finset
import Mathlib.Algebra.Order.Ring.Rat
import Mathlib.Data.Fin.Tuple.Basic
import Mathlib.Data.Fintype.BigOperators
import Mathlib.Data.Nat.Choose.Basic
import Mathlib.Logic.Equiv.Fin.Basic
import Mathlib.Tactic.Linarith
import Mathlib.Tactic.Ring

/-! The chance of a vector of independent outcomes, and the lower tail of a binomial: how many of the
first outcomes are hits, and how the tail moves with the rate. -/
namespace CommitReplay.BinomialTails

variable {p q : ℚ}

section Vectors

/-- The chance of these outcomes, each a hit with probability `p`. -/
def weight (p : ℚ) (o : List Bool) : ℚ := p ^ o.count true * (1 - p) ^ o.count false

lemma weight_cons (o : Bool) (os : List Bool) :
    weight p (o :: os) = (if o then p else 1 - p) * weight p os := by
  cases o <;> simp [weight, pow_succ] <;> ring

lemma weight_nonneg (h₀ : 0 ≤ p) (h₁ : p ≤ 1) (o : List Bool) : 0 ≤ weight p o :=
  mul_nonneg (pow_nonneg h₀ _) (pow_nonneg (sub_nonneg.mpr h₁) _)

lemma sum_cons {n : ℕ} (f : List Bool → ℚ) :
    ∑ o : Fin (n + 1) → Bool, f (List.ofFn o) =
      ∑ o : Fin n → Bool, f (true :: List.ofFn o) + ∑ o : Fin n → Bool, f (false :: List.ofFn o) := by
  rw [← (Fin.consEquiv fun _ => Bool).sum_comp, Fintype.sum_prod_type, Fintype.sum_bool]
  simp only [Fin.consEquiv, Equiv.coe_fn_mk, List.ofFn_cons]

/-- The chances of all outcomes of `n` draws are one together. -/
lemma sum_weight (n : ℕ) : ∑ o : Fin n → Bool, weight p (List.ofFn o) = 1 := by
  induction n with
  | zero => simp [weight]
  | succ n ih =>
    rw [sum_cons]
    simp only [weight_cons, ← Finset.mul_sum, ih]
    simp

end Vectors

section Tails

/-- The chance of at most `k` hits among `n` draws. -/
def tail (p : ℚ) (n k : ℕ) : ℚ :=
  ∑ i ∈ Finset.range (k + 1), n.choose i * p ^ i * (1 - p) ^ (n - i)

lemma tail_zero (k : ℕ) : tail p 0 k = 1 := by
  rw [tail, Finset.sum_range_succ']
  simp

lemma tail_succ_zero (n : ℕ) : tail p (n + 1) 0 = (1 - p) * tail p n 0 := by
  simp only [tail, zero_add, Finset.range_one, Finset.sum_singleton, Nat.choose_zero_right, pow_zero,
    Nat.sub_zero]
  ring

/-- One more hit, or one more miss. -/
lemma term_succ (n i : ℕ) :
    ((n + 1).choose (i + 1) : ℚ) * p ^ (i + 1) * (1 - p) ^ (n + 1 - (i + 1)) =
      (1 - p) * (n.choose (i + 1) * p ^ (i + 1) * (1 - p) ^ (n - (i + 1))) +
        p * (n.choose i * p ^ i * (1 - p) ^ (n - i)) := by
  rw [Nat.choose_succ_succ, Nat.add_sub_add_right]
  push_cast
  rcases lt_or_ge i n with h | h
  · have hpow : (1 - p) ^ (n - i) = (1 - p) * (1 - p) ^ (n - (i + 1)) := by
      rw [← pow_succ']
      congr 1
      omega
    rw [hpow]
    ring
  · rw [Nat.choose_eq_zero_of_lt (Nat.lt_succ_of_le h)]
    simp only [Nat.cast_zero, zero_mul, mul_zero, zero_add, add_zero]
    ring

lemma tail_succ_succ (n k : ℕ) :
    tail p (n + 1) (k + 1) = (1 - p) * tail p n (k + 1) + p * tail p n k := by
  have hzero : ((n + 1).choose 0 : ℚ) * p ^ 0 * (1 - p) ^ (n + 1 - 0) =
      (1 - p) * (n.choose 0 * p ^ 0 * (1 - p) ^ (n - 0)) := by
    simp only [Nat.choose_zero_right, pow_zero, Nat.sub_zero]
    ring
  calc tail p (n + 1) (k + 1)
      = ∑ i ∈ Finset.range (k + 1),
          ((n + 1).choose (i + 1) : ℚ) * p ^ (i + 1) * (1 - p) ^ (n + 1 - (i + 1)) +
          (n + 1).choose 0 * p ^ 0 * (1 - p) ^ (n + 1 - 0) := Finset.sum_range_succ' _ _
    _ = (1 - p) * (∑ i ∈ Finset.range (k + 1),
          (n.choose (i + 1) : ℚ) * p ^ (i + 1) * (1 - p) ^ (n - (i + 1)) +
          n.choose 0 * p ^ 0 * (1 - p) ^ (n - 0)) + p * tail p n k := by
        simp only [term_succ, Finset.sum_add_distrib, ← Finset.mul_sum, hzero, tail]
        ring
    _ = (1 - p) * tail p n (k + 1) + p * tail p n k := by
        rw [show tail p n (k + 1) = _ from Finset.sum_range_succ' _ (k + 1)]

lemma tail_le_tail_succ (h₀ : 0 ≤ p) (h₁ : p ≤ 1) (n k : ℕ) : tail p n k ≤ tail p n (k + 1) := by
  rw [tail, tail, Finset.sum_range_succ _ (k + 1)]
  have hterm : 0 ≤ (n.choose (k + 1) : ℚ) * p ^ (k + 1) * (1 - p) ^ (n - (k + 1)) :=
    mul_nonneg (mul_nonneg (Nat.cast_nonneg _) (pow_nonneg h₀ _)) (pow_nonneg (sub_nonneg.mpr h₁) _)
  linarith

lemma tail_mono (h₀ : 0 ≤ p) (h₁ : p ≤ 1) (n : ℕ) : Monotone (tail p n) :=
  monotone_nat_of_le_succ (tail_le_tail_succ h₀ h₁ n)

/-- The more often the draws hit, the less is in the lower tail. -/
lemma tail_anti (h₀ : 0 ≤ q) (hqp : q ≤ p) (h₁ : p ≤ 1) (n k : ℕ) : tail p n k ≤ tail q n k := by
  have hmiss : 0 ≤ 1 - p := sub_nonneg.mpr h₁
  have hhit : 0 ≤ p := h₀.trans hqp
  induction n generalizing k with
  | zero => rw [tail_zero, tail_zero]
  | succ n ih =>
    cases k with
    | zero =>
      have hq : 0 ≤ tail q n 0 := by
        rw [tail, zero_add, Finset.range_one, Finset.sum_singleton]
        simpa using pow_nonneg (sub_nonneg.mpr (hqp.trans h₁)) n
      rw [tail_succ_zero, tail_succ_zero]
      calc (1 - p) * tail p n 0 ≤ (1 - p) * tail q n 0 := mul_le_mul_of_nonneg_left (ih 0) hmiss
        _ ≤ (1 - q) * tail q n 0 := mul_le_mul_of_nonneg_right (by linarith) hq
    | succ k =>
      have hstep : tail q n k ≤ tail q n (k + 1) := tail_le_tail_succ h₀ (hqp.trans h₁) n k
      rw [tail_succ_succ, tail_succ_succ]
      calc (1 - p) * tail p n (k + 1) + p * tail p n k
          ≤ (1 - p) * tail q n (k + 1) + p * tail q n k :=
            add_le_add (mul_le_mul_of_nonneg_left (ih (k + 1)) hmiss)
              (mul_le_mul_of_nonneg_left (ih k) hhit)
        _ ≤ (1 - q) * tail q n (k + 1) + q * tail q n k := by nlinarith

end Tails

section Heads

/-- The vectors with at most `k` hits among their first `n` outcomes. -/
def headMass (p : ℚ) (N n k : ℕ) : ℚ :=
  ∑ o : Fin N → Bool, if ((List.ofFn o).take n).count true ≤ k then weight p (List.ofFn o) else 0

/-- What comes behind the first outcomes does not matter. -/
lemma headMass_eq_tail {N n : ℕ} (h : n ≤ N) (k : ℕ) : headMass p N n k = tail p n k := by
  induction n generalizing N k with
  | zero => simp [headMass, tail_zero, sum_weight]
  | succ n ih =>
    obtain ⟨N, rfl⟩ : ∃ M, N = M + 1 := ⟨N - 1, by omega⟩
    have hle : n ≤ N := by omega
    rw [headMass,
      sum_cons fun o => if (o.take (n + 1)).count true ≤ k then weight p o else 0]
    simp only [List.take_succ_cons, weight_cons, if_true, Bool.false_eq_true, if_false,
      List.count_cons_self, List.count_cons_of_ne (show (false : Bool) ≠ true by decide)]
    have hmiss : ∑ o : Fin N → Bool, (if ((List.ofFn o).take n).count true ≤ k
        then (1 - p) * weight p (List.ofFn o) else 0) = (1 - p) * tail p n k := by
      rw [← ih hle k, headMass, Finset.mul_sum]
      simp only [mul_ite, mul_zero]
    rw [hmiss]
    cases k with
    | zero =>
      rw [tail_succ_zero]
      simp
    | succ k =>
      have hhit : ∑ o : Fin N → Bool, (if ((List.ofFn o).take n).count true + 1 ≤ k + 1
          then p * weight p (List.ofFn o) else 0) = p * tail p n k := by
        rw [← ih hle k, headMass, Finset.mul_sum]
        simp only [mul_ite, mul_zero, Nat.add_le_add_iff_right]
      rw [hhit, tail_succ_succ]
      ring

end Heads

end CommitReplay.BinomialTails
