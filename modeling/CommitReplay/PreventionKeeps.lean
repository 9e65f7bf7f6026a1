import CommitReplay.PreventionRule
import CommitReplay.BinomialTails

/-! How rarely a lever that does not help is kept: over exact rationals, whatever the schedule of the
looks. -/
namespace CommitReplay.PreventionKeeps

open CommitReplay.BinomialTails CommitReplay.PreventionRule

section Bars

variable {p p0 α : ℚ}

lemma binomCdf_eq (k n : ℕ) (p : ℚ) : binomCdf k n p = if n ≤ k then 1 else min 1 (tail p n k) := rfl

/-- The most hits whose tail is within `α` is short of all, and its tail is within `α`. -/
lemma tail_le_of_binomCdf_le (hα : α < 1) {k n : ℕ} (h : binomCdf k n p0 ≤ α) : tail p0 n k ≤ α := by
  rw [binomCdf_eq] at h
  split_ifs at h with hkn
  · exact absurd (h.trans_lt hα) (lt_irrefl _)
  · rcases min_le_iff.mp h with h1 | h1
    · exact absurd (h1.trans_lt hα) (lt_irrefl _)
    · exact h1

/-- So few of the first `n` outcomes are hits that a look at them keeps, at the rate before. -/
def few (p0 α : ℚ) (n : ℕ) (o : List Bool) : Bool := binomCdf ((o.take n).count true) n p0 ≤ α

/-- The chance of few hits is no larger where the true rate is no smaller. -/
lemma sum_few_le (h₀ : 0 ≤ p0) (hp : p0 ≤ p) (h₁ : p ≤ 1) (hα₀ : 0 ≤ α) (hα : α < 1) {N n : ℕ}
    (hn : n ≤ N) :
    ∑ o : Fin N → Bool, (if few p0 α n (List.ofFn o) then weight p (List.ofFn o) else 0) ≤ α := by
  let K := Nat.findGreatest (fun k => binomCdf k n p0 ≤ α) n
  have hcount : ∀ o : Fin N → Bool, ((List.ofFn o).take n).count true ≤ n := fun o =>
    List.count_le_length.trans (List.length_take_le n _)
  by_cases hnone : ∀ o : Fin N → Bool, ¬few p0 α n (List.ofFn o) = true
  · rw [Finset.sum_eq_zero fun o _ => if_neg (hnone o)]
    exact hα₀
  · obtain ⟨o, ho⟩ := not_forall_not.mp hnone
    have hK : binomCdf K n p0 ≤ α :=
      Nat.findGreatest_spec (P := fun k => binomCdf k n p0 ≤ α) (hcount o) (of_decide_eq_true ho)
    calc ∑ o : Fin N → Bool, (if few p0 α n (List.ofFn o) then weight p (List.ofFn o) else 0)
        ≤ headMass p N n K := by
          refine Finset.sum_le_sum fun o _ => ?_
          by_cases hk : few p0 α n (List.ofFn o) = true
          · have hle : ((List.ofFn o).take n).count true ≤ K :=
              Nat.le_findGreatest (hcount o) (of_decide_eq_true hk)
            rw [if_pos hk, if_pos hle]
          · rw [if_neg hk]
            split_ifs
            · exact weight_nonneg (h₀.trans hp) h₁ _
            · exact le_rfl
      _ = tail p n K := headMass_eq_tail hn K
      _ ≤ tail p0 n K := tail_anti h₀ hp h₁ n K
      _ ≤ α := tail_le_of_binomCdf_le hα hK

/-- Two chances to have few hits. -/
lemma sum_few_or_le (h₀ : 0 ≤ p0) (hp : p0 ≤ p) (h₁ : p ≤ 1) (hα₀ : 0 ≤ α) (hα : α < 1)
    {N n n' : ℕ} (hn : n ≤ N) (hn' : n' ≤ N) :
    ∑ o : Fin N → Bool, (if few p0 α n (List.ofFn o) || few p0 α n' (List.ofFn o)
      then weight p (List.ofFn o) else 0) ≤ 2 * α := by
  calc ∑ o : Fin N → Bool, (if few p0 α n (List.ofFn o) || few p0 α n' (List.ofFn o)
        then weight p (List.ofFn o) else 0)
      ≤ ∑ o : Fin N → Bool, ((if few p0 α n (List.ofFn o) then weight p (List.ofFn o) else 0) +
          if few p0 α n' (List.ofFn o) then weight p (List.ofFn o) else 0) := by
        refine Finset.sum_le_sum fun o _ => ?_
        have hw := weight_nonneg (h₀.trans hp) h₁ (List.ofFn o)
        cases few p0 α n (List.ofFn o) <;> cases few p0 α n' (List.ofFn o) <;> simp [hw]
    _ ≤ 2 * α := by
        rw [Finset.sum_add_distrib]
        linarith [sum_few_le h₀ hp h₁ hα₀ hα hn, sum_few_le h₀ hp h₁ hα₀ hα hn']

end Bars

section Schedules

variable (ρ : Arithmetic ℚ) (change : Change) (signature : String) (capability : Bool)

/-- What a schedule of calls records, each over the decisions recorded before it. -/
def recorded (calls : List (Measurement ℚ)) : List (Decision ℚ) :=
  calls.foldl (fun done m => done ++ dueDecisions ρ change signature m done capability) []

/-- A schedule on which a keep is recorded. -/
def keeps (calls : List (Measurement ℚ)) : Bool :=
  (recorded ρ change signature capability calls).any (·.verdict = .keep)

/-- A measurement of the lever at some time of the outcomes: its attempts recurred as they tell. -/
structure Sees (f : Frozen ℚ) (o : List Bool) (m : Measurement ℚ) : Prop where
  frozen : m.toFrozen = f
  flags : m.flags.take o.length = o.take m.exposedN

variable {ρ change signature capability} {f : Frozen ℚ} {o : List Bool}

/-- A keep that is recorded was due at some call. -/
lemma exists_keptAt {calls : List (Measurement ℚ)} (h : keeps ρ change signature capability calls = true) :
    ∃ m ∈ calls, ∃ n, (n = m.decisiveN ∨ n = 2 * m.decisiveN) ∧ n ≤ m.exposedN ∧
      keptAt ρ m n = true := by
  obtain ⟨d, hd, hkeep⟩ := List.any_eq_true.mp h
  have hkeep : d.verdict = .keep := of_decide_eq_true hkeep
  suffices ∀ done, d ∈ calls.foldl (fun done m =>
      done ++ dueDecisions ρ change signature m done capability) done → d ∈ done ∨
      ∃ m ∈ calls, ∃ n, (n = m.decisiveN ∨ n = 2 * m.decisiveN) ∧ n ≤ m.exposedN ∧
        keptAt ρ m n = true from (this [] hd).resolve_left List.not_mem_nil
  clear h hd
  induction calls with
  | nil => exact fun _ hd => .inl hd
  | cons m calls ih =>
    intro done hd
    rcases ih _ hd with hd | ⟨m', hm', hkept⟩
    · rcases List.mem_append.mp hd with hd | hd
      · exact .inl hd
      · exact .inr ⟨m, List.mem_cons_self, keptAt_of_mem_dueDecisions hd hkeep⟩
    · exact .inr ⟨m', List.mem_cons_of_mem _ hm', hkept⟩

/-- What a measurement counts among its first attempts is what the outcomes tell. -/
lemma Sees.hits_eq {m : Measurement ℚ} (h : Sees f o m) {n : ℕ} (hn : n ≤ o.length)
    (hle : n ≤ m.exposedN) : hits m.flags n = (o.take n).count true := by
  have htake := congrArg (List.take n) h.flags
  rw [List.take_take, List.take_take, min_eq_left hn, min_eq_left hle] at htake
  rw [hits, htake]

/-- On outcomes where some schedule keeps, a look at its first attempts does. -/
lemma few_of_keeps {ρ : Arithmetic ℚ} (hdet : f.deterministic = false) (hlen : o.length = 2 * f.decisiveN)
    {calls : List (Measurement ℚ)} (hcalls : ∀ m ∈ calls, Sees f o m)
    (h : keeps ρ.exact change signature capability calls = true) :
    (few f.p0 (25 / 1000) f.decisiveN o || few f.p0 (25 / 1000) (2 * f.decisiveN) o) = true := by
  obtain ⟨m, hm, n, hn, hle, hkept⟩ := exists_keptAt h
  have hsees := hcalls m hm
  have hdn : m.decisiveN = f.decisiveN := congrArg Frozen.decisiveN hsees.frozen
  have hd : m.deterministic = false := (congrArg Frozen.deterministic hsees.frozen).trans hdet
  have hp0 : m.p0 = f.p0 := congrArg Frozen.p0 hsees.frozen
  rw [hdn] at hn
  have hfew : few f.p0 (25 / 1000) n o = true := by
    rw [keptAt, hd, if_neg Bool.false_ne_true, hsees.hits_eq (by omega) hle, hp0] at hkept
    exact hkept
  rcases hn with rfl | rfl
  · rw [hfew, Bool.true_or]
  · rw [hfew, Bool.or_true]

end Schedules

/-- Of a lever whose class recurs no less than before, the outcomes on which some schedule of looks keeps
it weigh no more than the two looks allow. -/
theorem sum_keeps_le (ρ : Arithmetic ℚ) (change : Change) (signature : String) (capability : Bool)
    (f : Frozen ℚ) (hdet : f.deterministic = false) (h₀ : 0 ≤ f.p0) {p : ℚ} (hp : f.p0 ≤ p) (h₁ : p ≤ 1)
    (calls : (Fin (2 * f.decisiveN) → Bool) → List (Measurement ℚ))
    (hcalls : ∀ o, ∀ m ∈ calls o, Sees f (List.ofFn o) m) :
    ∑ o : Fin (2 * f.decisiveN) → Bool with keeps ρ.exact change signature capability (calls o) = true,
      p ^ (List.ofFn o).count true * (1 - p) ^ (List.ofFn o).count false ≤ 2 * alphaLook ρ.exact := by
  calc ∑ o with keeps ρ.exact change signature capability (calls o) = true,
        p ^ (List.ofFn o).count true * (1 - p) ^ (List.ofFn o).count false
      ≤ ∑ o : Fin (2 * f.decisiveN) → Bool, (if few f.p0 (25 / 1000) f.decisiveN (List.ofFn o) ||
          few f.p0 (25 / 1000) (2 * f.decisiveN) (List.ofFn o) then weight p (List.ofFn o) else 0) := by
        rw [Finset.sum_filter]
        refine Finset.sum_le_sum fun o _ => ?_
        by_cases hk : keeps ρ.exact change signature capability (calls o) = true
        · rw [if_pos hk, if_pos (few_of_keeps hdet (List.length_ofFn) (hcalls o) hk)]
          exact le_rfl
        · rw [if_neg hk]
          split_ifs
          · exact weight_nonneg (h₀.trans hp) h₁ _
          · exact le_rfl
    _ ≤ 2 * (25 / 1000) := sum_few_or_le h₀ hp h₁ (by norm_num) (by norm_num) (by omega) le_rfl
    _ = 2 * alphaLook ρ.exact := rfl

section Sample

lemma sampleDecisive_pos : 0 < decisiveMin := by decide

/-- A lever of a class that recurred in every second attempt before it. -/
def sampleContext : Frozen ℚ where
  signature := "target_red:python:AssertionError"
  p0 := 1 / 2
  decisiveN := decisiveMin
  deterministic := false
  outageShareBefore := 0
  cleanBefore := 1 / 2
  noncleanBefore := 1 / 2
  nontargetBefore := 1 / 10
  decisive_pos := sampleDecisive_pos

/-- The lever measured when its attempts recurred as the outcomes tell. -/
def sampleMeasured (o : List Bool) : Measurement ℚ :=
  { toFrozen := sampleContext, toShown := ⟨0, 0, 0, 0, 0⟩, exposed := o.map fun b => ⟨b, !b, "row", ""⟩ }

lemma sees_sampleMeasured (o : List Bool) : Sees sampleContext o (sampleMeasured o) where
  frozen := rfl
  flags := by simp [sampleMeasured, Measurement.exposedN, Measurement.flags, Function.comp_def]

/-- One look at the end, at a class that recurs no less than before. -/
theorem sum_keeps_le_sample :
    ∑ o : Fin (2 * sampleContext.decisiveN) → Bool with
        keeps sampleArithmetic.exact sampleChange "target_red:python:AssertionError" false
          [sampleMeasured (List.ofFn o)] = true,
      (3 / 5) ^ (List.ofFn o).count true * (1 - 3 / 5) ^ (List.ofFn o).count false ≤
        2 * alphaLook sampleArithmetic.exact :=
  sum_keeps_le sampleArithmetic sampleChange _ false sampleContext rfl (by norm_num [sampleContext])
    (by norm_num [sampleContext]) (by norm_num) (fun o => [sampleMeasured (List.ofFn o)])
    fun o m hm => by
      obtain rfl := List.mem_singleton.mp hm
      exact sees_sampleMeasured _

end Sample

end CommitReplay.PreventionKeeps
