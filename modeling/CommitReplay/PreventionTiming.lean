import CommitReplay.PreventionRule
import Mathlib.Algebra.BigOperators.Intervals
import Mathlib.Tactic.NormNum

/-! When the loop looks at a lever: a look after every attempt against one look after all of them. -/
namespace CommitReplay.PreventionTiming

open CommitReplay.PreventionRule

variable {R : Type} [LinearOrder R] (ρ : Arithmetic R) (change : Change) (signature : String)
  (f : Frozen R) (attempts : List Attempt) (shown : ℕ → Shown) (capability : Bool)

section Runs

/-- The change measured after its first `i` attempts. -/
def measured (i : ℕ) : Measurement R := { toFrozen := f, toShown := shown i, exposed := attempts.take i }

/-- One look over the decisions recorded so far. -/
def tick (done : List (Decision R)) (i : ℕ) : List (Decision R) :=
  done ++ dueDecisions ρ change signature (measured f attempts shown i) done capability

/-- What is recorded by a look after each of the first `i` attempts. -/
def ticked : ℕ → List (Decision R)
  | 0 => []
  | i + 1 => tick ρ change signature f attempts shown capability (ticked i) (i + 1)

end Runs

section Prefixes

variable {f attempts shown} {i n : ℕ}

/-- The change measured on every attempt. -/
def whole (f : Frozen R) (attempts : List Attempt) : Measurement R :=
  { toFrozen := f, toShown := ⟨0, 0, 0, 0, 0⟩, exposed := attempts }

omit [LinearOrder R] in
lemma exposedN_measured (h : i ≤ attempts.length) : (measured f attempts shown i).exposedN = i := by
  simp [measured, Measurement.exposedN, Measurement.flags, h]

omit [LinearOrder R] in
lemma hits_flags_measured (h : n ≤ i) :
    hits (measured f attempts shown i).flags n = hits (whole f attempts).flags n := by
  simp only [hits, Measurement.flags, measured, whole, ← List.map_take, List.take_take, min_eq_left h]

omit [LinearOrder R] in
lemma hits_cleanFlags_measured (h : n ≤ i) :
    hits (measured f attempts shown i).cleanFlags n = hits (whole f attempts).cleanFlags n := by
  simp only [hits, Measurement.cleanFlags, measured, whole, ← List.map_take, List.take_take,
    min_eq_left h]

lemma harmful_measured (h : n ≤ i) :
    harmful ρ (measured f attempts shown i) n = harmful ρ (whole f attempts) n := by
  unfold harmful
  rw [hits_flags_measured h, hits_cleanFlags_measured h]
  rfl

lemma keptAt_measured (h : n ≤ i) :
    keptAt ρ (measured f attempts shown i) n = keptAt ρ (whole f attempts) n := by
  unfold keptAt
  rw [hits_flags_measured h]
  rfl

/-- A payload about the first attempts does not tell how many came after them. -/
lemma decided_measured (h : n ≤ i) (look : Look) (verdict : Verdict) (detail : Detail R) :
    decided ρ change signature (measured f attempts shown i) n look verdict detail =
      decided ρ change signature (whole f attempts) n look verdict detail := by
  have hrefs : (measured f attempts shown i).exposedRefs.take n = (whole f attempts).exposedRefs.take n := by
    simp only [Measurement.exposedRefs, measured, whole, ← List.map_take, List.take_take, min_eq_left h]
  unfold decided stats
  rw [hits_flags_measured h, hits_cleanFlags_measured h, hrefs]
  rfl

end Prefixes

section Fresh

variable {ρ change signature} {m : Measurement R}

/-- What a look adds to the looks already recorded. -/
def fresh (ρ : Arithmetic R) (change : Change) (signature : String) (m : Measurement R)
    (looked : List (Decision R)) : List (Decision R) :=
  if looked.any (·.verdict.ends) || looked.any (·.verdict = .keep) then []
  else (look ρ change signature m (looked.map Decision.look)).out

/-- A recorded decision is one of the looks, or one of the events after a keep. -/
def Recorded (done : List (Decision R)) : Prop := ∀ d ∈ done, isLook d = true ∨ isEvent d = true

omit [LinearOrder R] in
lemma Recorded.any_verdict {done : List (Decision R)} (h : Recorded done) {p : Verdict → Bool}
    (hp : ∀ v, p v = true → v ≠ .closed ∧ v ≠ .reopened ∧ v ≠ .displaced) :
    (done.filter isLook).any (fun d => p d.verdict) = done.any fun d => p d.verdict := by
  rw [Bool.eq_iff_iff, List.any_eq_true, List.any_eq_true]
  constructor
  · rintro ⟨d, hd, hv⟩
    exact ⟨d, List.mem_of_mem_filter hd, hv⟩
  · rintro ⟨d, hd, hv⟩
    refine ⟨d, List.mem_filter.mpr ⟨hd, (h d hd).resolve_right fun he => ?_⟩, hv⟩
    obtain ⟨hc, hr, hx⟩ := hp _ hv
    simp [isEvent, hc, hr, hx] at he

omit [LinearOrder R] in
lemma mem_looks_filter (done : List (Decision R)) {l : Look}
    (hl : l = .harm ∨ l = .first ∨ l = .second) :
    l ∈ (done.filter isLook).map Decision.look ↔ l ∈ done.map Decision.look := by
  simp only [List.mem_map, List.mem_filter]
  constructor
  · rintro ⟨d, ⟨hd, -⟩, rfl⟩
    exact ⟨d, hd, rfl⟩
  · rintro ⟨d, hd, rfl⟩
    refine ⟨d, ⟨hd, ?_⟩, rfl⟩
    rcases hl with h | h | h <;> simp [isLook, h]

/-- Of the looks recorded only the three a call may record again are asked for. -/
lemma look_filter (done : List (Decision R)) :
    look ρ change signature m (done.map Decision.look) =
      look ρ change signature m ((done.filter isLook).map Decision.look) := by
  simp only [look, secondLook, mem_looks_filter done (.inl rfl),
    mem_looks_filter done (.inr (.inl rfl)), mem_looks_filter done (.inr (.inr rfl))]

lemma filter_afterKeep (done : List (Decision R)) :
    (afterKeep ρ change signature m done).filter isLook = [] :=
  List.filter_eq_nil_iff.mpr fun d hd => by simp [(mem_afterKeep hd).1]

lemma recorded_afterKeep (done : List (Decision R)) : Recorded (afterKeep ρ change signature m done) :=
  fun _ hd => .inr (mem_afterKeep hd).2

/-- What a call records of the looks depends on the looks recorded, and on nothing else recorded. -/
lemma filter_dueDecisions (hforce : change.state = "in_force") (hwhy : inconclusive ρ m = "")
    {done : List (Decision R)} (hdone : Recorded done) :
    (dueDecisions ρ change signature m done false).filter isLook =
      fresh ρ change signature m (done.filter isLook) ∧
    Recorded (dueDecisions ρ change signature m done false) := by
  have hends : (done.filter isLook).any (·.verdict.ends) = done.any (·.verdict.ends) :=
    hdone.any_verdict (p := Verdict.ends) fun v hv => by cases v <;> simp_all [Verdict.ends]
  have hkeep : (done.filter isLook).any (·.verdict = .keep) = done.any (·.verdict = .keep) :=
    hdone.any_verdict (p := fun v => v = .keep) fun v hv => by simp_all
  unfold dueDecisions fresh
  rw [hends, hkeep, if_neg (by simp [hforce]), ← look_filter]
  by_cases he : done.any (·.verdict.ends) = true
  · simp [he, Recorded]
  by_cases hk : done.any (·.verdict = .keep) = true
  · simp only [he, hk, hwhy, ne_eq, not_true_eq_false, if_false, if_true, List.nil_append,
      Bool.or_true, List.append_nil]
    exact ⟨filter_afterKeep _, recorded_afterKeep _⟩
  · have hout : ((look ρ change signature m (done.map Decision.look)).out).filter isLook =
        (look ρ change signature m (done.map Decision.look)).out :=
      List.filter_eq_self.mpr fun d hd => (fits_look d hd).isLook
    simp only [he, hk, hwhy, ne_eq, not_true_eq_false, if_false, Bool.or_self, Bool.false_eq_true]
    split_ifs
    · rw [List.filter_append, filter_afterKeep, hout, List.append_nil]
      refine ⟨rfl, fun d hd => ?_⟩
      rcases List.mem_append.mp hd with hd | hd
      · exact .inl (fits_look d hd).isLook
      · exact recorded_afterKeep _ d hd
    · exact ⟨hout, fun d hd => .inl (fits_look d hd).isLook⟩

end Fresh

section Planned

variable {ρ change signature f attempts shown} {i : ℕ}

/-- The decision of a look at the first `n` attempts. -/
def lookAt (ρ : Arithmetic R) (change : Change) (signature : String) (f : Frozen R)
    (attempts : List Attempt) (n : ℕ) (look : Look) (verdict : Verdict) : Decision R :=
  decided ρ change signature (whole f attempts) n look verdict .none

/-- What the second look decides. -/
def secondVerdict (ρ : Arithmetic R) (m : Measurement R) : Verdict :=
  if harmful ρ m (2 * m.decisiveN) then .harm
  else if keptAt ρ m (2 * m.decisiveN) then .keep
  else .retire

/-- What one call over the first `i` attempts records of the looks, with nothing recorded before. -/
def planned (ρ : Arithmetic R) (change : Change) (signature : String) (f : Frozen R)
    (attempts : List Attempt) (i : ℕ) : List (Decision R) :=
  let n := f.decisiveN
  let w := whole f attempts
  let at_ := lookAt ρ change signature f attempts
  if harmAt ≤ i ∧ harmful ρ w harmAt then [at_ harmAt .harm .harm]
  else if i < n then []
  else if harmful ρ w n then [at_ n .first .harm]
  else if keptAt ρ w n then [at_ n .first .keep]
  else if i < 2 * n then [at_ n .first .continue_]
  else [at_ n .first .continue_, at_ (2 * n) .second (secondVerdict ρ w)]

lemma secondLook_measured (hi : i ≤ attempts.length)
    (hheld : withheld ρ (measured f attempts shown i) = "") {looks : List Look}
    (hlooks : .second ∉ looks) (out : List (Decision R)) :
    (secondLook ρ change signature (measured f attempts shown i) looks out).out =
      if i < 2 * f.decisiveN then out
      else out ++ [lookAt ρ change signature f attempts (2 * f.decisiveN) .second
        (secondVerdict ρ (whole f attempts))] := by
  have hn : (measured f attempts shown i).decisiveN = f.decisiveN := rfl
  have hw : (whole f attempts).decisiveN = f.decisiveN := rfl
  simp only [secondLook, secondVerdict, exposedN_measured hi, hn, hw, hheld, hlooks, lookAt]
  by_cases hdue : i < 2 * f.decisiveN
  · rw [if_neg (by omega), if_pos hdue]
  · have hle : 2 * f.decisiveN ≤ i := by omega
    simp only [if_neg hdue, harmful_measured ρ hle, keptAt_measured ρ hle,
      decided_measured ρ change signature hle, hle, not_false_eq_true, and_self, if_true, ne_eq,
      not_true_eq_false, if_false]
    split_ifs <;> rfl

/-- One call with nothing recorded before. -/
lemma fresh_nil (hi : i ≤ attempts.length) (hheld : withheld ρ (measured f attempts shown i) = "") :
    fresh ρ change signature (measured f attempts shown i) [] =
      planned ρ change signature f attempts i := by
  have hn : (measured f attempts shown i).decisiveN = f.decisiveN := rfl
  simp only [fresh, look, planned, List.any_nil, Bool.or_self, Bool.false_eq_true, if_false, List.map_nil,
    List.not_mem_nil, not_false_eq_true, true_and, and_true, exposedN_measured hi, hn, hheld, ne_eq,
    not_true_eq_false]
  by_cases hharm : harmAt ≤ i ∧ harmful ρ (whole f attempts) harmAt = true
  · rw [if_pos hharm, if_pos ⟨hharm.1, by rw [harmful_measured ρ hharm.1]; exact hharm.2⟩,
      decided_measured ρ change signature hharm.1]
    rfl
  · have hharm' : ¬(harmAt ≤ i ∧ harmful ρ (measured f attempts shown i) harmAt = true) :=
      fun h => hharm ⟨h.1, (harmful_measured ρ h.1).symm.trans h.2⟩
    rw [if_neg hharm, if_neg hharm']
    by_cases hdue : i < f.decisiveN
    · rw [if_pos hdue, if_neg (by omega), secondLook_measured hi hheld (by simp), if_pos (by omega)]
    · have hle : f.decisiveN ≤ i := by omega
      rw [if_neg hdue, if_pos hle, harmful_measured ρ hle, keptAt_measured ρ hle]
      simp only [decided_measured ρ change signature hle]
      split_ifs with h1 h2 h3
      · rfl
      · rfl
      · rw [secondLook_measured hi hheld (by simp), if_pos h3]
        rfl
      · rw [secondLook_measured hi hheld (by simp), if_neg h3]
        rfl

/-- The first ten attempts of a lever that is decided on fewer were not harmful. -/
def HarmInTime (ρ : Arithmetic R) (f : Frozen R) (attempts : List Attempt) (i : ℕ) : Prop :=
  ¬(f.decisiveN < harmAt ∧ harmAt ≤ i ∧ harmful ρ (whole f attempts) harmAt = true)

lemma HarmInTime.of_succ (h : HarmInTime ρ f attempts (i + 1)) : HarmInTime ρ f attempts i :=
  fun hi => h ⟨hi.1, hi.2.1.trans (Nat.le_succ i), hi.2.2⟩

lemma fresh_of_ends {m : Measurement R} {looked : List (Decision R)} {d : Decision R} (hd : d ∈ looked)
    (hends : d.verdict.ends = true ∨ d.verdict = .keep) :
    fresh ρ change signature m looked = [] := by
  refine if_pos ?_
  rw [Bool.or_eq_true, List.any_eq_true, List.any_eq_true]
  exact hends.imp (fun h => ⟨d, hd, h⟩) fun h => ⟨d, hd, decide_eq_true h⟩

lemma secondVerdict_ends (m : Measurement R) :
    (secondVerdict ρ m).ends = true ∨ secondVerdict ρ m = .keep := by
  unfold secondVerdict
  split_ifs
  · exact .inl rfl
  · exact .inr rfl
  · exact .inl rfl

/-- A call after the first look went on adds the second one when it is due. -/
lemma fresh_continue (hi : i ≤ attempts.length)
    (hheld : withheld ρ (measured f attempts shown i) = "")
    (hharm : ¬(harmAt ≤ i ∧ harmful ρ (whole f attempts) harmAt = true)) :
    fresh ρ change signature (measured f attempts shown i)
      [lookAt ρ change signature f attempts
        f.decisiveN .first .continue_] =
      if i < 2 * f.decisiveN then []
      else [lookAt ρ change signature f attempts (2 * f.decisiveN) .second
        (secondVerdict ρ (whole f attempts))] := by
  have hharm' : ¬(harmAt ≤ i ∧ harmful ρ (measured f attempts shown i) harmAt = true) :=
    fun h => hharm ⟨h.1, (harmful_measured ρ h.1).symm.trans h.2⟩
  have hgo : fresh ρ change signature (measured f attempts shown i)
      [lookAt ρ change signature f attempts
        f.decisiveN .first .continue_] =
      (look ρ change signature (measured f attempts shown i) [.first]).out := rfl
  rw [hgo]
  simp only [look, exposedN_measured hi, List.mem_singleton, not_true_eq_false, and_false, if_false,
    reduceCtorEq, not_false_eq_true, true_and, if_neg hharm']
  rw [secondLook_measured hi hheld (by simp)]
  rfl

/-- A call after one more attempt adds what one call over all of them records beyond the last. -/
lemma planned_succ (hi : i + 1 ≤ attempts.length)
    (hheld : withheld ρ (measured f attempts shown (i + 1)) = "")
    (hharm : HarmInTime ρ f attempts (i + 1)) :
    planned ρ change signature f attempts i ++
      fresh ρ change signature (measured f attempts shown (i + 1))
        (planned ρ change signature f attempts i) = planned ρ change signature f attempts (i + 1) := by
  by_cases hdone : harmAt ≤ i ∧ harmful ρ (whole f attempts) harmAt = true
  · have hdone' := And.intro (hdone.1.trans (Nat.le_succ i)) hdone.2
    simp only [planned, if_pos hdone, if_pos hdone']
    rw [fresh_of_ends (List.mem_singleton_self _) (.inl rfl), List.append_nil]
  by_cases hdue : i < f.decisiveN
  · have hnil : planned ρ change signature f attempts i = [] := by
      simp only [planned, if_neg hdone, if_pos hdue]
    rw [hnil, List.nil_append, fresh_nil hi hheld]
  · -- the harm look is over, or else it comes due with a look of a smaller window behind it
    have hdone' : ¬(harmAt ≤ i + 1 ∧ harmful ρ (whole f attempts) harmAt = true) := by
      rintro ⟨hle, hh⟩
      have hten : harmAt = i + 1 := le_antisymm hle (by
        by_contra hlt
        exact hdone ⟨by omega, hh⟩)
      exact hharm ⟨by omega, hle, hh⟩
    simp only [planned, if_neg hdone, if_neg hdone', if_neg hdue,
      if_neg (show ¬i + 1 < f.decisiveN by omega)]
    split_ifs with h1 h2 h3 h4 h4
    · rw [fresh_of_ends (List.mem_singleton_self _) (.inl rfl), List.append_nil]
    · rw [fresh_of_ends (List.mem_singleton_self _) (.inr rfl), List.append_nil]
    · rw [fresh_continue hi hheld hdone', if_pos h4, List.append_nil]
    · rw [fresh_continue hi hheld hdone', if_neg h4]
      rfl
    · omega
    · rw [fresh_of_ends (List.mem_cons_of_mem _ (List.mem_singleton_self _)) (secondVerdict_ends _),
        List.append_nil]

end Planned

section Ticked

variable {ρ change signature f attempts shown} {i j : ℕ}

/-- No measurement of the run is inconclusive, and none is withheld. -/
def Plain (ρ : Arithmetic R) (f : Frozen R) (attempts : List Attempt) (shown : ℕ → Shown) : Prop :=
  ∀ i ≤ attempts.length, inconclusive ρ (measured f attempts shown i) = "" ∧
    withheld ρ (measured f attempts shown i) = ""

variable (signature) in
lemma recorded_ticked (hforce : change.state = "in_force") (hplain : Plain ρ f attempts shown)
    (hi : i ≤ attempts.length) :
    Recorded (ticked ρ change signature f attempts shown false i) := by
  induction i with
  | zero => exact fun _ hd => absurd hd List.not_mem_nil
  | succ i ih =>
    have hdone := ih (by omega)
    intro d hd
    rcases List.mem_append.mp hd with hd | hd
    · exact hdone d hd
    · exact (filter_dueDecisions hforce (hplain _ hi).1 hdone).2 d hd

variable (signature) in
/-- A run whose harm look comes in time has recorded what one call would. -/
lemma filter_ticked (hforce : change.state = "in_force") (hplain : Plain ρ f attempts shown)
    (hi : i ≤ attempts.length) (hharm : HarmInTime ρ f attempts i) :
    (ticked ρ change signature f attempts shown false i).filter isLook =
      planned ρ change signature f attempts i := by
  induction i with
  | zero =>
    have hpos := f.decisive_pos
    simp [ticked, planned, harmAt, hpos]
  | succ i ih =>
    have hdone := recorded_ticked signature hforce hplain (show i ≤ _ by omega)
    rw [ticked, tick, List.filter_append,
      (filter_dueDecisions hforce (hplain _ hi).1 hdone).1, ih (by omega) hharm.of_succ]
    exact planned_succ hi (hplain _ hi).2 hharm

/-- One call over all of them. -/
lemma filter_dueDecisions_nil (hforce : change.state = "in_force")
    (hplain : Plain ρ f attempts shown) (hi : i ≤ attempts.length) :
    (dueDecisions ρ change signature (measured f attempts shown i) [] false).filter isLook =
      planned ρ change signature f attempts i := by
  rw [(filter_dueDecisions hforce (hplain i hi).1 fun _ hd => absurd hd List.not_mem_nil).1]
  exact fresh_nil hi (hplain i hi).2

lemma ticked_prefix_of_le (hij : i ≤ j) :
    ticked ρ change signature f attempts shown capability i <+:
      ticked ρ change signature f attempts shown capability j := by
  induction j, hij using Nat.le_induction with
  | base => exact List.prefix_rfl
  | succ j hij ih => exact ih.trans (List.prefix_append _ _)

/-- A lever decided on fewer attempts than the harm look has had its first look before it. -/
lemma ticked_ne (hforce : change.state = "in_force") (hplain : Plain ρ f attempts shown)
    (hharm : ¬HarmInTime ρ f attempts attempts.length) :
    (ticked ρ change signature f attempts shown false attempts.length).filter isLook ≠
      planned ρ change signature f attempts attempts.length := by
  obtain ⟨hfew, hten, hh⟩ := not_not.mp hharm
  have hle : f.decisiveN ≤ attempts.length := by omega
  have hfirst := filter_ticked signature hforce hplain hle fun h => by
    have := h.1.trans_le h.2.1
    omega
  obtain ⟨d, hd, hlook⟩ : ∃ d ∈ planned ρ change signature f attempts f.decisiveN,
      d.look = .first := by
    simp only [planned, lt_irrefl, if_false]
    rw [if_neg fun h => absurd (hfew.trans_le h.1) (lt_irrefl _)]
    split_ifs <;> exact ⟨_, List.mem_cons_self, rfl⟩
  intro heq
  rw [← hfirst] at hd
  have hmem := ((ticked_prefix_of_le false hle).filter isLook).subset hd
  rw [heq, planned] at hmem
  simp only [if_pos (And.intro hten hh)] at hmem
  rw [List.mem_singleton.mp hmem] at hlook
  cases hlook

lemma dueDecisions_eq_nil (h : capability = true ∨ change.state ≠ "in_force") (m : Measurement R)
    (done : List (Decision R)) : dueDecisions ρ change signature m done capability = [] := by
  rw [dueDecisions, if_pos (by simpa using h)]

lemma ticked_eq_nil (h : capability = true ∨ change.state ≠ "in_force") (i : ℕ) :
    ticked ρ change signature f attempts shown capability i = [] := by
  induction i with
  | zero => rfl
  | succ i ih => rw [ticked, tick, ih, dueDecisions_eq_nil capability h, List.append_nil]

end Ticked

/-- A look after every attempt and one look after all of them record the same of the looks exactly where
no lever decided on fewer than ten attempts was harmful on the first ten. -/
theorem ticked_eq_dueDecisions_iff (hplain : Plain ρ f attempts shown) :
    (ticked ρ change signature f attempts shown capability attempts.length).filter isLook =
        (dueDecisions ρ change signature (measured f attempts shown attempts.length) []
          capability).filter isLook ↔
      capability = true ∨ change.state ≠ "in_force" ∨ HarmInTime ρ f attempts attempts.length := by
  by_cases hidle : capability = true ∨ change.state ≠ "in_force"
  · rw [ticked_eq_nil capability hidle, dueDecisions_eq_nil capability hidle]
    exact iff_of_true rfl (or_assoc.mp (.inl hidle))
  · rw [not_or, not_not] at hidle
    obtain ⟨hcap, hforce⟩ := hidle
    obtain rfl : capability = false := Bool.not_eq_true _ ▸ hcap
    rw [filter_dueDecisions_nil hforce hplain le_rfl]
    constructor
    · exact fun heq => .inr (.inr (by_contra fun hharm => ticked_ne hforce hplain hharm heq))
    · rintro (h | h | h)
      · cases h
      · exact absurd hforce h
      · exact filter_ticked signature hforce hplain le_rfl h

section Sample

lemma sample_decisive_pos : 0 < deterministicN := by decide

/-- A deterministic lever of a class that recurred in every second attempt before it. -/
def sampleFrozen : Frozen ℚ where
  signature := "lint:E501"
  p0 := 1 / 2
  decisiveN := deterministicN
  deterministic := true
  outageShareBefore := 0
  cleanBefore := 1 / 2
  noncleanBefore := 1 / 2
  nontargetBefore := 0
  decisive_pos := sample_decisive_pos

/-- Ten attempts, in each of which the class recurred. -/
def sampleAttempts : List Attempt := List.replicate 10 ⟨true, false, "row", "lint:E501"⟩

lemma plain_sample : Plain sampleArithmetic sampleFrozen sampleAttempts fun _ => ⟨0, 0, 0, 0, 0⟩ :=
  fun _ _ => ⟨rfl, rfl⟩

lemma not_harmInTime_sample : ¬HarmInTime sampleArithmetic sampleFrozen sampleAttempts 10 := by
  refine not_not.mpr ⟨by decide, by decide, ?_⟩
  norm_num [harmful, sampleArithmetic, sampleFrozen, sampleAttempts, whole, Measurement.flags,
    Measurement.cleanFlags, hits, harmAt, alphaHarm, sampleSf, Finset.sum_filter,
    Finset.sum_range_succ]

/-- At once the lever does harm; looked at after each attempt it is tried again and retired. -/
theorem ticked_ne_dueDecisions_sample :
    Plain sampleArithmetic sampleFrozen sampleAttempts (fun _ => ⟨0, 0, 0, 0, 0⟩) ∧
      (ticked sampleArithmetic sampleChange "lint:E501" sampleFrozen sampleAttempts
          (fun _ => ⟨0, 0, 0, 0, 0⟩) false 10).filter isLook ≠
        (dueDecisions sampleArithmetic sampleChange "lint:E501"
          (measured sampleFrozen sampleAttempts (fun _ => ⟨0, 0, 0, 0, 0⟩) 10) [] false).filter isLook := by
  refine ⟨plain_sample, ?_⟩
  rw [filter_dueDecisions_nil rfl plain_sample (by decide)]
  exact ticked_ne rfl plain_sample not_harmInTime_sample

/-- The condition at the sample. -/
theorem ticked_eq_dueDecisions_sample :
    (ticked sampleArithmetic sampleChange "lint:E501" sampleFrozen sampleAttempts
        (fun _ => ⟨0, 0, 0, 0, 0⟩) false sampleAttempts.length).filter isLook =
      (dueDecisions sampleArithmetic sampleChange "lint:E501"
        (measured sampleFrozen sampleAttempts (fun _ => ⟨0, 0, 0, 0, 0⟩) sampleAttempts.length) []
        false).filter isLook ↔
      false = true ∨ sampleChange.state ≠ "in_force" ∨
        HarmInTime sampleArithmetic sampleFrozen sampleAttempts sampleAttempts.length :=
  ticked_eq_dueDecisions_iff _ _ _ _ _ _ _ plain_sample

end Sample

end CommitReplay.PreventionTiming
