import Mathlib.Algebra.Order.Floor.Ring
import Mathlib.Algebra.Order.Field.Basic
import Mathlib.Data.Int.Init

/-! Rounding to a number of decimals, a tie going to the even neighbour. -/
namespace CommitReplay.DecimalRounding

instance atLeastTwo_two : Nat.AtLeastTwo 2 := inferInstance

instance atLeastTwo_four : Nat.AtLeastTwo 4 := inferInstance

instance atLeastTwo_ten : Nat.AtLeastTwo 10 := inferInstance

variable {K : Type*} [Field K] [LinearOrder K] [IsStrictOrderedRing K] [FloorRing K]

/-- The nearest integer, of two the even one. -/
def roundHalfEven (x : K) : ℤ :=
  if Int.fract x < 1 / 2 then ⌊x⌋
  else if 1 / 2 < Int.fract x then ⌊x⌋ + 1
  else if ⌊x⌋ % 2 = 0 then ⌊x⌋ else ⌊x⌋ + 1

def roundTo (digits : ℕ) (x : K) : K := roundHalfEven (x * 10 ^ digits) / 10 ^ digits

omit [IsStrictOrderedRing K] in
lemma floor_le_roundHalfEven (x : K) : ⌊x⌋ ≤ roundHalfEven x := by
  unfold roundHalfEven
  split_ifs <;> omega

omit [IsStrictOrderedRing K] in
lemma roundHalfEven_le_floor (x : K) : roundHalfEven x ≤ ⌊x⌋ + 1 := by
  unfold roundHalfEven
  split_ifs <;> omega

lemma roundHalfEven_mono {x y : K} (h : x ≤ y) : roundHalfEven x ≤ roundHalfEven y := by
  rcases (Int.floor_le_floor h).lt_or_eq with hlt | heq
  · have hx := roundHalfEven_le_floor x
    have hy := floor_le_roundHalfEven y
    omega
  · have hf : Int.fract x ≤ Int.fract y := by
      rw [Int.fract, Int.fract, heq]
      exact sub_le_sub_right h _
    unfold roundHalfEven
    rw [heq]
    split_ifs with h₁ h₂ h₃ h₄ h₅ h₆ h₇ <;>
      first | omega | exact absurd hf (not_le.mpr (by linarith))

lemma roundTo_mono (digits : ℕ) {x y : K} (h : x ≤ y) : roundTo digits x ≤ roundTo digits y := by
  have hpos : (0 : K) < 10 ^ digits := by positivity
  exact div_le_div_of_nonneg_right
    (Int.cast_le.mpr (roundHalfEven_mono (mul_le_mul_of_nonneg_right h hpos.le))) hpos.le

lemma roundTo_zero (digits : ℕ) : roundTo digits (0 : K) = 0 := by
  simp [roundTo, roundHalfEven]

lemma roundTo_nonneg (digits : ℕ) {x : K} (h : 0 ≤ x) : 0 ≤ roundTo digits x :=
  roundTo_zero (K := K) digits ▸ roundTo_mono digits h

end CommitReplay.DecimalRounding
