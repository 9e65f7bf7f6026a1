import CommitReplay.ReadingHierarchy

/-! Of a ledger, a reserved reading reads only the rows stamped with its reservations: any other row
moves nothing but the count of attempts that were never read. -/
namespace CommitReplay.ReservedDecides

open CommitReplay.PythonText CommitReplay.JsonText CommitReplay.JsonRoundTrip
open CommitReplay.ContextArms CommitReplay.RowChecks CommitReplay.LookRule
open CommitReplay.ReadingRows CommitReplay.ReadingRecord CommitReplay.ReadingArms
open CommitReplay.ReadingReserved CommitReplay.ReadingReplay CommitReplay.ReadingHierarchy

section Bare

/-- An arm without its count of attempts never read. -/
def bareArm (a : ArmReading) : ArmReading := { a with duplicateCommits := 0 }

def bareArms (arms : Arms) : Arms := arms.map fun p => (p.1, bareArm p.2)

def bareClimb (s : Climb) : Climb := { s with arms := bareArms s.arms }

def bareOutcome (o : ReadingOutcome N) : ReadingOutcome N := { o with arms := bareArms o.arms }

@[simp] lemma state_bareArm (a : ArmReading) : (bareArm a).state = a.state := rfl

lemma lookup_bareArms (arms : Arms) (arm : String) :
    (bareArms arms).lookup arm = (arms.lookup arm).map bareArm := by
  induction arms with
  | nil => rfl
  | cons p arms ih =>
    simp only [bareArms, List.map_cons] at ih ⊢
    rw [lookup_cons_ite, ih]
    obtain ⟨j, b⟩ := p
    rw [lookup_cons_ite]
    split_ifs <;> rfl

lemma armAt_bareArms (arms : Arms) (arm : String) :
    armAt (bareArms arms) arm = (armAt arms arm).map bareArm := by
  unfold armAt
  rw [lookup_bareArms]
  cases arms.lookup arm <;> rfl

lemma assign_bareArms (arm : String) (a : ArmReading) (arms : Arms) :
    assign arm (bareArm a) (bareArms arms) = bareArms (assign arm a arms) := by
  induction arms with
  | nil => rfl
  | cons p arms ih =>
    simp only [bareArms, List.map_cons, assign] at ih ⊢
    split_ifs
    · rfl
    · rw [ih, List.map_cons]

lemma step_bareClimb (s : Climb) (arm : String) (a : ArmReading) :
    (bareClimb s).step arm (bareArm a) = (s.step arm a).map bareClimb := by
  unfold Climb.step
  simp only [bareClimb, armAt_bareArms, assign_bareArms, state_bareArm]
  split_ifs
  · cases armAt s.arms s.stoppedAt with
    | error e => rfl
    | ok b =>
      exact congrArg (fun arms => Except.ok { s with arms }) (assign_bareArms arm
        { a with stoppedBy := s.stoppedAt, waiting := !stops b.state } s.arms)
  · rfl
  · rfl

variable {read : String → ℤ → Except ReadingError ArmReading}

lemma climb_bareClimb (s : Climb) (hierarchy : List String) :
    climb (fun arm n => (read arm n).map bareArm) (bareClimb s) hierarchy =
      (climb read s hierarchy).map bareClimb := by
  induction hierarchy generalizing s with
  | nil => rfl
  | cons arm hierarchy ih =>
    simp only [climb, List.foldlM_cons] at ih ⊢
    cases read arm 0 with
    | error e => rfl
    | ok a =>
      simp only [Except.map, bind, Except.bind, step_bareClimb]
      cases s.step arm a with
      | error e => rfl
      | ok next => exact ih next

lemma readDescriptive_bareArms (arms : Arms) (descriptive : List (String × ℤ)) :
    readDescriptive (fun arm n => (read arm n).map bareArm) (bareArms arms) descriptive =
      (readDescriptive read arms descriptive).map bareArms := by
  induction descriptive generalizing arms with
  | nil => rfl
  | cons d descriptive ih =>
    simp only [readDescriptive, List.foldlM_cons] at ih ⊢
    cases read d.1 d.2 with
    | error e => rfl
    | ok a =>
      simp only [Except.map, bind, Except.bind, pure, Except.pure, assign_bareArms]
      exact ih _

lemma stateAt_bareArms (arms : Arms) (chain : List String) (stoppedAt : String) :
    stateAt (bareArms arms) chain stoppedAt = stateAt arms chain stoppedAt := by
  unfold stateAt
  rw [armAt_bareArms]
  split_ifs
  · rfl
  · cases armAt arms stoppedAt <;> rfl

/-- The hierarchy, the standard and the state do not read the counts left out. -/
lemma evaluateWith_bareArm (r : Reading N) :
    evaluateWith (fun arm n => (read arm n).map bareArm) r =
      (evaluateWith read r).map bareOutcome := by
  have hclimb : climb (fun arm n => (read arm n).map bareArm) ⟨[], [], ""⟩ r.hierarchy =
      (climb read ⟨[], [], ""⟩ r.hierarchy).map bareClimb := climb_bareClimb ⟨[], [], ""⟩ r.hierarchy
  have hdesc : ∀ arms descriptive,
      readDescriptive (fun arm n => (read arm n).map bareArm) (bareArms arms) descriptive =
        (readDescriptive read arms descriptive).map bareArms := readDescriptive_bareArms
  generalize (fun arm n => (read arm n).map bareArm) = read' at hclimb hdesc ⊢
  unfold evaluateWith
  rw [hclimb]
  cases climb read ⟨[], [], ""⟩ r.hierarchy with
  | error e => rfl
  | ok climbed =>
    simp only [Except.map, bind, Except.bind, bareClimb, hdesc]
    cases readDescriptive read climbed.arms r.descriptive with
    | error e => rfl
    | ok arms =>
      simp only [stateAt_bareArms]
      cases lastCertifying climbed.chain with
      | error e => rfl
      | ok standard =>
        simp only [pure, Except.pure]
        split_ifs
        · rfl
        · rfl
        · cases stateAt arms climbed.chain climbed.stoppedAt <;> rfl

lemma verdictFor_bareOutcome (o : ReadingOutcome N) (arm : String) :
    verdictFor (some (bareOutcome o)) arm = verdictFor (some o) arm := by
  simp only [verdictFor, bareOutcome, lookup_bareArms, armAt_bareArms]
  cases o.arms.lookup arm with
  | none => rfl
  | some a =>
    simp only [Option.map_some, bareArm]
    cases armAt o.arms a.stoppedBy <;> rfl

end Bare

section Reserved

variable {F N : Type} [PyFloat F] {parseTs : String → Option ℤ}

/-- The rows stamped with the event of one of a reading's reservations. -/
def reservedRows (r : Reading N) (rows : List (Row F)) : List (Row F) :=
  rows.filter fun row => row.labelStr "reservation" ≠ "" &&
    row.labelStr "reservation" ∈ (r.reservations.getD []).map Reservation.eventId

variable {r : Reading N} {rows rows' : List (Row F)}

omit [PyFloat F] in
lemma stamped_reservedRows {res : Reservation} (hres : res ∈ r.reservations.getD []) :
    stamped res (reservedRows r rows) = stamped res rows := by
  unfold stamped reservedRows
  split_ifs with hevent
  · rfl
  · rw [List.filter_filter]
    refine List.filter_congr fun row _ => ?_
    by_cases hrow : row.labelStr "reservation" = res.eventId
    · simp only [hrow, ne_eq, hevent, not_false_eq_true, decide_true, Bool.true_and,
        decide_eq_true_eq]
      exact List.mem_map.mpr ⟨res, hres, rfl⟩
    · simp [hrow]

lemma reservation_mem {arm commit : String} {res : Reservation}
    (h : r.reservation arm commit = some res) : res ∈ r.reservations.getD [] :=
  List.mem_of_find?_eq_some h

omit [PyFloat F] in
lemma stamped_perm (hperm : (reservedRows r rows).Perm (reservedRows r rows'))
    {res : Reservation} (hres : res ∈ r.reservations.getD []) :
    (stamped res rows).Perm (stamped res rows') := by
  have hstamped : stamped res (reservedRows r rows') = stamped res rows' :=
    stamped_reservedRows hres
  rw [← stamped_reservedRows hres, ← hstamped]
  unfold stamped
  split_ifs
  · exact List.Perm.nil
  · exact hperm.filter _

/-- Two orders of one list are one list, or both have two rows and more. -/
lemma eq_or_two_of_perm {α : Type} {xs ys : List α} (h : xs.Perm ys) :
    xs = ys ∨ ∃ x x' xs' y y' ys', xs = x :: x' :: xs' ∧ ys = y :: y' :: ys' := by
  match xs, ys, h with
  | [], ys, h => exact .inl (List.nil_perm.mp h).symm
  | [x], ys, h => exact .inl (List.singleton_perm.mp h)
  | x :: x' :: xs', [], h => exact absurd h.length_eq (by simp)
  | x :: x' :: xs', [y], h => exact absurd h.length_eq (by simp)
  | x :: x' :: xs', y :: y' :: ys', _ => exact .inr ⟨x, x', xs', y, y', ys', rfl, rfl⟩

lemma reservedVerdict_perm {arm : String} {res : Reservation} (h : rows.Perm rows') :
    reservedVerdict parseTs r arm (some res) rows =
      reservedVerdict parseTs r arm (some res) rows' := by
  have hfound : (reservedCandidates r res rows).Perm (reservedCandidates r res rows') := h.filter _
  unfold reservedVerdict
  rcases eq_or_two_of_perm hfound with he | ⟨x, x', xs, y, y', ys, hx, hy⟩
  · simp only [he]
  · simp only [hx, hy]

/-- A commit of a reserved reading is read the same. -/
lemma readReserved_perm (parseTs : String → Option ℤ)
    (hperm : (reservedRows r rows).Perm (reservedRows r rows'))
    (arm commit : String) :
    readReserved parseTs r arm rows commit = readReserved parseTs r arm rows' commit := by
  unfold readReserved
  cases hres : r.reservation arm commit with
  | none => rfl
  | some res =>
    have hmine := stamped_perm hperm (reservation_mem hres)
    simp only [Option.map_some, Option.getD_some]
    rw [reservedVerdict_perm hmine]
    rcases eq_or_two_of_perm (hmine.filter (wroteRow r res)) with he | ⟨x, x', xs, y, y', ys, hx, hy⟩
    · simp only [reservedCandidates, he]
    · simp only [reservedCandidates, hx, hy]

omit [PyFloat F] in
/-- The attempts of an arm are always found: an arm that is not the reading's has no commits. -/
lemma armAttempts_isOk (parseTs : String → Option ℤ) (harms : ∀ arm ∈ r.arms, isArm arm = true) (arm : String)
    (rows : List (Row F)) (limit : ℤ) :
    ∃ attempts, armAttempts parseTs r arm rows (enrolledCommits r arm limit) = .ok attempts := by
  have hread : ∃ read, ((rows.filter (rowUnit r · ∈ enrolledCommits r arm limit)).mapM fun row => do
      return (row, ← armAttempt parseTs r arm row)) = .ok read := by
    refine mapM_isOk fun row hrow => ?_
    have harm : arm ∈ r.arms := by
      by_contra hn
      simp [enrolledCommits, hn] at hrow
    obtain ⟨miss, hmiss⟩ := scopeMiss_isOk parseTs r (harms arm harm) row
    unfold armAttempt
    split_ifs
    · exact ⟨_, rfl⟩
    · exact ⟨_, rfl⟩
    · exact ⟨_, by rw [hmiss]; rfl⟩
  obtain ⟨read, hread⟩ := hread
  exact ⟨_, by simp only [armAttempts, hread]; rfl⟩

/-- An arm of a reserved reading is read the same, but for its count of attempts never read. -/
lemma armReserved_perm (harms : ∀ arm ∈ r.arms, isArm arm = true)
    (hperm : (reservedRows r rows).Perm (reservedRows r rows')) (arm : String) (limit : ℤ) :
    (armReserved parseTs r arm rows limit).map bareArm =
      (armReserved parseTs r arm rows' limit).map bareArm := by
  obtain ⟨attempts, hattempts⟩ := armAttempts_isOk parseTs harms arm rows limit
  obtain ⟨attempts', hattempts'⟩ := armAttempts_isOk parseTs harms arm rows' limit
  simp only [armReserved, hattempts, hattempts', bind, Except.bind,
    funext (readReserved_perm parseTs hperm arm)]
  cases (enrolledCommits r arm limit).mapM (readReserved parseTs r arm rows') with
  | error e => rfl
  | ok commits =>
    simp only
    cases armLook (commits.map CommitReading.outcome) r.rule (descriptiveCount r arm limit)
      r.prospective <;> rfl

/-- Only the reserved rows decide a reserved reading: over two ledgers with the same rows stamped
by its reservations, in any order and among any others, the outcome differs in the counts of
attempts never read at most, and the verdict of every arm is the same. -/
theorem reserved_rows_decide (hreserved : r.reserved = true)
    (harms : ∀ arm ∈ r.arms, isArm arm = true)
    (hperm : (reservedRows r rows).Perm (reservedRows r rows')) :
    (evaluate parseTs r rows).map bareOutcome = (evaluate parseTs r rows').map bareOutcome ∧
      ∀ arm, (do verdictFor (some (← evaluate parseTs r rows)) arm) =
        (do verdictFor (some (← evaluate parseTs r rows')) arm) := by
  have hread : ∀ rows : List (Row F), (evaluate parseTs r rows).map bareOutcome =
      evaluateWith (fun arm n => (armReserved parseTs r arm rows n).map bareArm) r := fun rows => by
    rw [evaluateWith_bareArm]
    simp only [evaluate, armReading, hreserved, if_true]
  have hbare : (evaluate parseTs r rows).map bareOutcome =
      (evaluate parseTs r rows').map bareOutcome := by
    rw [hread, hread]
    congr 1
    funext arm n
    exact armReserved_perm harms hperm arm n
  refine ⟨hbare, fun arm => ?_⟩
  cases ho : evaluate parseTs r rows with
  | error e =>
    cases ho' : evaluate parseTs r rows' with
    | error e' =>
      rw [ho, ho'] at hbare
      exact congrArg Except.error (Except.error.inj hbare)
    | ok o' => simp [ho, ho', Except.map] at hbare
  | ok o =>
    cases ho' : evaluate parseTs r rows' with
    | error e' => simp [ho, ho', Except.map] at hbare
    | ok o' =>
      rw [ho, ho'] at hbare
      show verdictFor (some o) arm = verdictFor (some o') arm
      rw [← verdictFor_bareOutcome o, ← verdictFor_bareOutcome o', Except.ok.inj hbare]

/-- A reserved reading of one commit, and the row its reserved attempt wrote. -/
def oneReserved : Reading ℚ where
  toBody := { sampleReading.toBody with attemptRule := attemptRuleReserved, pool := ["a"] }
  readingId := "rdg_2"
  enrolled := []
  admitted := none
  registeredEventId := 1
  reservations := some [⟨"S1@m", "a", "run_1", "ev_1", 2, 0, "t", true⟩]
  poolDrift := []

def reservedRow : Row Whole :=
  { sampleRow "a" with
    val
      | .runId => .str "run_1"
      | f => (sampleRow "a").val f
    labels := [("builder_executor", .str "docker"), ("claim", .str "0"),
      ("context_arm", .str "S1@m"), ("posture_class", .str "docker/x/sealed"),
      ("reservation", .str "ev_1"), ("treatment", .str "t")] }

theorem reserved_rows_decide_oneReserved :
    (evaluate sampleTs oneReserved [sampleRow "a", reservedRow]).map bareOutcome =
      (evaluate sampleTs oneReserved [reservedRow, sampleRow "b"]).map bareOutcome :=
  (reserved_rows_decide rfl (by decide)
    (show (reservedRows oneReserved [sampleRow "a", reservedRow]).Perm
        (reservedRows oneReserved [reservedRow, sampleRow "b"]) from
      List.Perm.refl [reservedRow])).1

end Reserved

end CommitReplay.ReservedDecides
