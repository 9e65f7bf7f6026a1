import Mathlib.Algebra.BigOperators.Group.List.Basic
import Mathlib.Algebra.Order.BigOperators.Group.List
import Mathlib.Algebra.Order.Field.Basic
import Mathlib.Tactic.Linarith
import Mathlib.Tactic.Ring

/-! A weighted mean of the values that are known, and whose values it moves with. -/
namespace CommitReplay.WeightedShares

section Mean

variable {K : Type*}

/-- The pairs whose value is known. -/
def known (pairs : List (Option K × ℕ)) : List (K × ℕ) :=
  pairs.filterMap fun p => p.1.map fun v => (v, p.2)

/-- What the known values weigh together. -/
def totalWeight (pairs : List (Option K × ℕ)) : ℕ := ((known pairs).map Prod.snd).sum

/-- The mean by weight of the known values, their plain mean when none of them weighs anything. -/
def weightedMean [Field K] (pairs : List (Option K × ℕ)) : Option K :=
  if (known pairs).isEmpty then none
  else if totalWeight pairs = 0 then
    some (((known pairs).map Prod.fst).sum / (known pairs).length)
  else some (((known pairs).map fun v => v.1 * (v.2 : K)).sum / totalWeight pairs)

/-- The pair weighs in the mean: it is known, and its weight is not lost beside the others'. -/
def Weighs (pairs : List (Option K × ℕ)) (p : Option K × ℕ) : Prop :=
  p.1.isSome ∧ (0 < p.2 ∨ totalWeight pairs = 0)

instance (pairs : List (Option K × ℕ)) (p : Option K × ℕ) : Decidable (Weighs pairs p) :=
  inferInstanceAs (Decidable (_ ∧ _))

/-- What one pair counts for in the mean of `pairs`. -/
def share (pairs : List (Option K × ℕ)) (w : ℕ) : ℕ := if totalWeight pairs = 0 then 1 else w

lemma weighs_iff {pairs : List (Option K × ℕ)} {p : Option K × ℕ} :
    Weighs pairs p ↔ p.1.isSome ∧ 0 < share pairs p.2 := by
  unfold Weighs share
  split_ifs with h <;> simp [h]

@[simp] lemma known_nil : known ([] : List (Option K × ℕ)) = [] := rfl

lemma known_cons_none (w : ℕ) (pairs : List (Option K × ℕ)) :
    known ((none, w) :: pairs) = known pairs := rfl

lemma known_cons_some (v : K) (w : ℕ) (pairs : List (Option K × ℕ)) :
    known ((some v, w) :: pairs) = (v, w) :: known pairs := rfl

lemma mem_known {pairs : List (Option K × ℕ)} {v : K × ℕ} :
    v ∈ known pairs ↔ (some v.1, v.2) ∈ pairs := by
  rw [known, List.mem_filterMap]
  constructor
  · rintro ⟨⟨_ | u, w⟩, hp, hv⟩
    · cases hv
    · obtain rfl := Option.some.inj hv
      exact hp
  · exact fun h => ⟨_, h, rfl⟩

/-- Where a value is known one weighs in the mean. -/
lemma exists_weighs {pairs : List (Option K × ℕ)} (h : known pairs ≠ []) :
    ∃ p ∈ pairs, Weighs pairs p := by
  by_cases ht : totalWeight pairs = 0
  · obtain ⟨v, hv⟩ := List.exists_mem_of_ne_nil _ h
    exact ⟨_, mem_known.mp hv, rfl, .inr ht⟩
  · obtain ⟨w, hw, hpos⟩ := List.exists_mem_ne_zero_of_sum_ne_zero ht
    obtain ⟨v, hv, rfl⟩ := List.mem_map.mp hw
    exact ⟨_, mem_known.mp hv, rfl, .inl (Nat.pos_of_ne_zero hpos)⟩

lemma Weighs.known_ne {pairs : List (Option K × ℕ)} {p : Option K × ℕ} (h : Weighs pairs p)
    (hp : p ∈ pairs) : known pairs ≠ [] := by
  obtain ⟨v, hv⟩ := Option.isSome_iff_exists.mp h.1
  have hmem : (some v, p.2) ∈ pairs := by rwa [← hv]
  exact List.ne_nil_of_mem (mem_known (v := (v, p.2)) |>.mpr hmem)

variable [Field K]

/-- The mean is one quotient, whichever way it is weighed. -/
lemma weightedMean_eq {pairs : List (Option K × ℕ)} (h : known pairs ≠ []) :
    weightedMean pairs = some (((known pairs).map fun v => v.1 * (share pairs v.2 : K)).sum /
      (((known pairs).map fun v => share pairs v.2).sum : ℕ)) := by
  have he : (known pairs).isEmpty = false := by simpa [List.isEmpty_iff] using h
  rw [weightedMean, he, if_neg (by simp)]
  by_cases ht : totalWeight pairs = 0
  · simp [share, ht]
  · rw [if_neg ht]
    simp only [share, if_neg ht]
    rfl

lemma weightedMean_eq_none {pairs : List (Option K × ℕ)} :
    weightedMean pairs = none ↔ known pairs = [] := by
  refine ⟨fun h => ?_, fun h => by simp [weightedMean, h]⟩
  by_contra hne
  rw [weightedMean_eq hne] at h
  cases h

end Mean

section Variation

variable {K : Type*} {pairs pairs' : List (Option K × ℕ)}

/-- The same values are known, with the same weights. -/
def SameShape (p p' : Option K × ℕ) : Prop := p.2 = p'.2 ∧ p.1.isSome = p'.1.isSome

lemma weights_of_sameShape (h : List.Forall₂ SameShape pairs pairs') :
    (known pairs).map Prod.snd = (known pairs').map Prod.snd := by
  induction h with
  | nil => rfl
  | @cons p p' _ _ hp _ ih =>
    obtain ⟨v, w⟩ := p
    obtain ⟨v', w'⟩ := p'
    obtain ⟨rfl, hsome⟩ : w = w' ∧ v.isSome = v'.isSome := hp
    cases v <;> cases v' <;> cases hsome
    · exact ih
    · rw [known_cons_some, known_cons_some, List.map_cons, List.map_cons, ih]

lemma totalWeight_of_sameShape (h : List.Forall₂ SameShape pairs pairs') :
    totalWeight pairs = totalWeight pairs' := congrArg List.sum (weights_of_sameShape h)

lemma share_of_sameShape (h : List.Forall₂ SameShape pairs pairs') (w : ℕ) :
    share pairs w = share pairs' w := by
  rw [share, share, totalWeight_of_sameShape h]

lemma shares_of_sameShape (h : List.Forall₂ SameShape pairs pairs') :
    (known pairs).map (fun v => share pairs v.2) =
      (known pairs').map fun v => share pairs' v.2 := by
  have hw := congrArg (List.map (share pairs)) (weights_of_sameShape h)
  simp only [List.map_map] at hw
  simpa only [share_of_sameShape h, Function.comp_def] using hw

lemma known_eq_nil_of_sameShape (h : List.Forall₂ SameShape pairs pairs') :
    known pairs = [] ↔ known pairs' = [] := by
  have hw := congrArg List.length (weights_of_sameShape h)
  rw [List.length_map, List.length_map] at hw
  rw [← List.length_eq_zero_iff, ← List.length_eq_zero_iff, hw]

variable [Field K]

lemma sum_known (pairs : List (Option K × ℕ)) (c : ℕ → K) :
    ((known pairs).map fun v => v.1 * c v.2).sum =
      (pairs.map fun p => p.1.elim 0 fun v => v * c p.2).sum := by
  induction pairs with
  | nil => rfl
  | cons p pairs ih =>
    obtain ⟨_ | v, w⟩ := p
    · simpa [known_cons_none] using ih
    · simpa [known_cons_some] using ih

/-- A mean stays as it is while what weighs in it does. -/
lemma weightedMean_congr (h : List.Forall₂
    (fun p p' => SameShape p p' ∧ (Weighs pairs p → p.1 = p'.1)) pairs pairs') :
    weightedMean pairs = weightedMean pairs' := by
  have hshape : List.Forall₂ SameShape pairs pairs' := h.imp fun _ _ hp => hp.1
  by_cases hk : known pairs = []
  · rw [weightedMean_eq_none.mpr hk,
      weightedMean_eq_none.mpr ((known_eq_nil_of_sameShape hshape).mp hk)]
  · rw [weightedMean_eq hk, weightedMean_eq ((known_eq_nil_of_sameShape hshape).not.mp hk),
      shares_of_sameShape hshape]
    have hsum : (pairs.map fun p => p.1.elim 0 fun v => v * (share pairs p.2 : K)) =
        pairs'.map fun p => p.1.elim 0 fun v => v * (share pairs' p.2 : K) := by
      refine List.forall₂_eq_eq_eq ▸ List.forall₂_map_left_iff.mpr (List.forall₂_map_right_iff.mpr
        (h.imp fun p p' hp => ?_))
      obtain ⟨⟨hw, hsome⟩, hval⟩ := hp
      rw [← hw, ← share_of_sameShape hshape]
      by_cases hweighs : Weighs pairs p
      · rw [hval hweighs]
      · rw [weighs_iff, not_and] at hweighs
        cases hv : p.1 with
        | none =>
          have hnone : p'.1 = none := by simpa [hv] using hsome
          rw [hnone]
        | some v =>
          have hzero : share pairs p.2 = 0 := by
            have := hweighs (by rw [hv]; rfl)
            omega
          cases p'.1 <;> simp [hzero]
    rw [sum_known _ fun w => (share pairs w : K), sum_known _ fun w => (share pairs' w : K), hsum]

end Variation

section Order

variable {K ε : Type*} [Field K] [LinearOrder K] [IsStrictOrderedRing K]
  {es : List ε} {f g : ε → Option K × ℕ}

/-- A mean grows when a value that weighs in it grows and none falls. -/
lemma weightedMean_ne_of_lt (hshape : ∀ e ∈ es, SameShape (f e) (g e))
    (hle : ∀ e ∈ es, ∀ v ∈ (f e).1, ∀ v' ∈ (g e).1, v ≤ v')
    (hlt : ∃ e ∈ es, Weighs (es.map f) (f e) ∧ ∀ v ∈ (f e).1, ∀ v' ∈ (g e).1, v < v') :
    weightedMean (es.map f) ≠ weightedMean (es.map g) := by
  have hsame : List.Forall₂ SameShape (es.map f) (es.map g) :=
    List.forall₂_map_left_iff.mpr (List.forall₂_map_right_iff.mpr
      (List.forall₂_same.mpr hshape))
  obtain ⟨e, he, hweighs, hgrows⟩ := hlt
  obtain ⟨hsome, hpos⟩ := weighs_iff.mp hweighs
  obtain ⟨v, hv⟩ := Option.isSome_iff_exists.mp hsome
  have hmem : (v, (f e).2) ∈ known (es.map f) :=
    List.mem_filterMap.mpr ⟨f e, List.mem_map_of_mem he, by rw [hv]; rfl⟩
  have hk := List.ne_nil_of_mem hmem
  rw [weightedMean_eq hk, weightedMean_eq ((known_eq_nil_of_sameShape hsame).not.mp hk),
    ← shares_of_sameShape hsame]
  simp only [← share_of_sameShape hsame]
  have hden : 0 < ((known (es.map f)).map fun v => share (es.map f) v.2).sum :=
    lt_of_lt_of_le hpos (List.single_le_sum (by simp) _ (List.mem_map.mpr ⟨_, hmem, rfl⟩))
  have hnum : ((known (es.map f)).map fun v => v.1 * (share (es.map f) v.2 : K)).sum <
      ((known (es.map g)).map fun v => v.1 * (share (es.map f) v.2 : K)).sum := by
    rw [sum_known _ fun w => (share (es.map f) w : K), sum_known _ fun w => (share (es.map f) w : K),
      List.map_map, List.map_map]
    refine List.sum_lt_sum _ _ (fun d hd => ?_) ⟨e, he, ?_⟩
    · obtain ⟨hw, hs⟩ := hshape d hd
      have hvals := hle d hd
      simp only [Function.comp_apply, ← hw]
      cases hf : (f d).1 with
      | none =>
        have hg : (g d).1 = none := by simpa [hf] using hs
        rw [hg]
      | some v =>
        obtain ⟨v', hg⟩ := Option.isSome_iff_exists.mp (hs ▸ by rw [hf]; rfl : (g d).1.isSome)
        rw [hg]
        exact mul_le_mul_of_nonneg_right (hvals v hf v' hg) (Nat.cast_nonneg _)
    · obtain ⟨hw, hs⟩ := hshape e he
      obtain ⟨v', hv'⟩ := Option.isSome_iff_exists.mp (hs ▸ hsome)
      simp only [Function.comp_apply, ← hw, hv, hv', Option.elim_some]
      exact mul_lt_mul_of_pos_right (hgrows v hv v' hv') (Nat.cast_pos.mpr hpos)
  intro heq
  have hquot := div_lt_div_of_pos_right hnum (Nat.cast_pos (α := K).mpr hden)
  exact hquot.ne (Option.some.inj heq)

end Order

end CommitReplay.WeightedShares
