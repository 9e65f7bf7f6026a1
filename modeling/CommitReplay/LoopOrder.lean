import CommitReplay.ReadingArms
import CommitReplay.ReadingRuns
import CommitReplay.SharedOrder
import CommitReplay.TransitionRuns

/-! The runs of one loop arm, each admitted against the reservations it finds and then reserving
its commits one by one beside the others: the commits reserved are always the first of the arm's. -/
namespace CommitReplay.LoopOrder

open CommitReplay.JsonValue CommitReplay.JsonText CommitReplay.JsonRoundTrip
open CommitReplay.RowChecks CommitReplay.ReadingRows CommitReplay.ReadingRecord
open CommitReplay.ReadingRuns CommitReplay.SharedOrder CommitReplay.TransitionRuns

def loopArm : String := "A0+L"

/-- The reservations in the order they were made, and what each run of the arm has yet to do. -/
structure Reserving where
  reservations : List Reservation
  runs : List (List String)

inductive Event (F : Type)
  | admission (run : Run F)
  | reserve (i : ℕ) (stamp : Reservation)
  | halt (i : ℕ)
  | elsewhere (res : Reservation)

section System

variable {F N : Type} [PyFloat F] (isPrintable : Char → Bool) (r : Reading N)
  (registeredEventId : ℤ)

/-- The reading with the reservations there are. -/
def Reserving.reading (s : Reserving) : Reading N :=
  withReservations r s.reservations registeredEventId

def Reserving.holds (s : Reserving) (arm unit : String) : Bool :=
  s.reservations.any fun res => res.arm = arm && res.taskId = unit

def Reserving.taken (s : Reserving) : List String :=
  (s.reservations.filter (·.arm = loopArm)).map Reservation.taskId

/-- The commits a run files on the loop arm when it is not refused, and `none` otherwise. -/
def admitted (r : Reading N) (run : Run F) : Option (List String) :=
  match readingRunRefusal isPrintable r run with
  | some none =>
    if !r.prospective && replayArm isPrintable r run = some loopArm then taskIds isPrintable run
    else none
  | _ => none

/-- One step of one run, or of a run of another arm; a commit has one reservation on an arm. -/
def step (s : Reserving) : Event F → Reserving
  | .admission run =>
    match admitted isPrintable (s.reading r registeredEventId) run with
    | some tasks => { s with runs := s.runs ++ [tasks] }
    | none => s
  | .reserve i stamp =>
    match s.runs[i]? with
    | some (commit :: rest) =>
      { reservations := if s.holds loopArm commit then s.reservations
          else s.reservations ++ [{ stamp with arm := loopArm, taskId := commit }]
        runs := s.runs.set i rest }
    | _ => s
  | .halt i => { s with runs := s.runs.set i [] }
  | .elsewhere res =>
    if res.arm = loopArm ∨ s.holds res.arm res.taskId then s
    else { s with reservations := s.reservations ++ [res] }

end System

section Reservations

lemma holds_loopArm {s : Reserving} {commit : String} :
    s.holds loopArm commit = true ↔ commit ∈ s.taken := by
  simp [Reserving.holds, Reserving.taken, and_assoc]

/-- A commit has a reservation on an arm in what is kept when it had one, or is given one. -/
lemma exists_keepFirst (kept : List Reservation) (res : Reservation) (arm unit : String) :
    (∃ k ∈ keepFirst kept res, k.arm = arm ∧ k.taskId = unit) ↔
      (∃ k ∈ kept, k.arm = arm ∧ k.taskId = unit) ∨ (res.arm = arm ∧ res.taskId = unit) := by
  unfold keepFirst
  cases hk : kept.find? fun k => k.arm = res.arm && k.taskId = res.taskId with
  | none => simp [or_and_right, exists_or]
  | some k =>
    have hsame : k.arm = res.arm ∧ k.taskId = res.taskId := by simpa using List.find?_some hk
    have hin : (res.arm = arm ∧ res.taskId = unit) →
        ∃ k ∈ kept, k.arm = arm ∧ k.taskId = unit := by
      rintro ⟨rfl, rfl⟩
      exact ⟨k, List.mem_of_find?_eq_some hk, hsame⟩
    rw [or_iff_left_of_imp hin]
    have hunit : ∀ x : Reservation, x.arm = res.arm ∧ x.taskId = res.taskId →
        (res.arm = arm ∧ res.taskId = unit ↔ x.arm = arm ∧ x.taskId = unit) := by
      rintro x ⟨ha, ht⟩
      rw [ha, ht]
    simp only
    split_ifs
    · simp only [List.mem_map, exists_exists_and_eq_and]
      refine exists_congr fun x => and_congr_right fun _ => ?_
      split_ifs with hx
      · exact hunit x hx
      · rfl
    · rfl

lemma exists_foldl_keepFirst (reservations kept : List Reservation) (arm unit : String) :
    (∃ k ∈ reservations.foldl keepFirst kept, k.arm = arm ∧ k.taskId = unit) ↔
      (∃ k ∈ kept, k.arm = arm ∧ k.taskId = unit) ∨
        ∃ k ∈ reservations, k.arm = arm ∧ k.taskId = unit := by
  induction reservations generalizing kept with
  | nil => simp
  | cons res reservations ih => simp [ih, exists_keepFirst, or_assoc]

variable {N : Type} {r : Reading N} {registeredEventId : ℤ}

/-- The reading holds the reservations that were made. -/
lemma mem_reservedOn (hr : r.reserved = true) (s : Reserving) (commit : String) :
    commit ∈ reservedOn (s.reading r registeredEventId) loopArm ↔ commit ∈ s.taken := by
  have h := exists_foldl_keepFirst s.reservations [] loopArm commit
  simpa [reservedOn, Reserving.reading, withReservations, hr, Reserving.taken, and_assoc] using h

lemma enrolledCommits_reading (s : Reserving) (arm : String) :
    enrolledCommits (s.reading r registeredEventId) arm 0 = enrolledCommits r arm 0 := by
  refine enrolledCommits_eq_of_body ?_ arm 0
  unfold Reserving.reading withReservations
  split_ifs <;> rfl

lemma reserved_reading (hr : r.reserved = true) (s : Reserving) :
    (s.reading r registeredEventId).reserved = true := by
  unfold Reserving.reading withReservations
  rw [if_pos hr]
  exact hr

end Reservations

section Admission

variable {F N : Type} [PyFloat F] {isPrintable : Char → Bool} {r : Reading N} {run : Run F}

lemma armId_base_ne (base : ContextArms.Base) : armId ⟨base, "", "", "", false⟩ false ≠ loopArm := by
  cases base <;> decide

/-- A run of the loop arm has the loop on: no arm with the loop off has its identifier. -/
lemma loopOn_of_replayArm (h : replayArm isPrintable r run = some loopArm) : loopOn run = true := by
  unfold replayArm at h
  split_ifs at h with hreasons hnamed
  all_goals
    obtain ⟨shape, -, harm⟩ := Option.map_eq_some_iff.mp h
    by_contra hoff
    rw [Bool.not_eq_true] at hoff
    rw [hoff] at harm
  · unfold armId at harm
    split_ifs at harm
    · have hhead := congrArg (fun s => s.toList.head?) harm
      simp [ContextArms.ContextArm.withLoop, ContextArms.ContextArm.id, loopArm] at hhead
    · exact absurd harm (by decide)
  · exact armId_base_ne shape.2 harm

/-- A run that is not refused has no reason against it. -/
lemma runReasons_of_not_refused (hr : r.reserved = true)
    (h : readingRunRefusal isPrintable r run = some none) :
    ∃ arm, runReasons isPrintable r run = some ([], arm) := by
  unfold readingRunRefusal at h
  rw [hr] at h
  obtain ⟨⟨reasons, arm⟩, hrun, hnone⟩ := Option.map_eq_some_iff.mp h
  refine ⟨arm, ?_⟩
  by_cases hreasons : reasons = []
  · rw [hrun, hreasons]
  · simp [hreasons] at hnone

/-- The order of a run's commits is checked once its arm is known to be the loop arm. -/
lemma loopOrderReason_of_armReasons (hon : loopOn run = true)
    (h : armReasons isPrintable r run loopArm = some []) :
    loopOrderReason isPrintable r loopArm run = some none := by
  by_cases harm : loopArm ∈ r.arms
  · simp only [armReasons, harm, not_true_eq_false, if_false, hon, if_true] at h
    obtain ⟨why, hwhy, hnone⟩ := Option.map_eq_some_iff.mp h
    cases why with
    | none => exact hwhy
    | some why => simp at hnone
  · simp [armReasons, harm] at h

/-- A run admitted on the loop arm files its commits in order. -/
theorem filedInOrder_of_admitted (hr : r.reserved = true) {tasks : List String}
    (h : admitted isPrintable r run = some tasks) :
    filedInOrder (enrolledCommits r loopArm 0) (reservedOn r loopArm) tasks = true := by
  unfold admitted at h
  split at h
  case h_2 => simp at h
  case h_1 hrefusal =>
    split_ifs at h with harm
    simp only [Bool.and_eq_true, Bool.not_eq_true', decide_eq_true_eq] at harm
    obtain ⟨hforward, harm⟩ := harm
    obtain ⟨arm, hreasons⟩ := runReasons_of_not_refused hr hrefusal
    simp only [runReasons, hforward, harm, Bool.false_eq_true, if_false] at hreasons
    obtain ⟨reasons, hreasons, hnil⟩ := Option.map_eq_some_iff.mp hreasons
    simp only [Prod.mk.injEq, List.append_eq_nil_iff] at hnil
    rw [hnil.1.2] at hreasons
    have horder := loopOrderReason_of_armReasons (loopOn_of_replayArm harm) hreasons
    simp only [loopOrderReason, h, Option.bind_eq_bind, Option.bind_some] at horder
    by_contra hnot
    rw [if_neg hnot] at horder
    simp at horder

end Admission

section Run

variable {F N : Type} [PyFloat F] {isPrintable : Char → Bool} {r : Reading N}
  {registeredEventId : ℤ}

/-- The items taken of the order and the plans of the runs. -/
def Reserving.shared (s : Reserving) : Shared String := ⟨s.taken, s.runs⟩

lemma left_eq_of_mem {taken reserved : List String} (h : ∀ c, c ∈ reserved ↔ c ∈ taken)
    (xs : List String) : xs.filter (· ∉ reserved) = left taken xs :=
  left_congr h xs

/-- Each step is a step of workers that share the arm's order, or changes nothing of theirs. -/
theorem shared_step (hr : r.reserved = true) (s : Reserving) (e : Event F) :
    (step isPrintable r registeredEventId s e).shared = s.shared ∨
      ∃ a, (step isPrintable r registeredEventId s e).shared =
        SharedOrder.step (enrolledCommits r loopArm 0) s.shared a := by
  cases e with
  | admission run =>
    simp only [step]
    cases htasks : admitted isPrintable (s.reading r registeredEventId) run with
    | none => exact .inl rfl
    | some tasks =>
      refine .inr ⟨.file tasks, ?_⟩
      have horder := filedInOrder_of_admitted (reserved_reading hr s) htasks
      rw [enrolledCommits_reading] at horder
      simp only [filedInOrder, Bool.and_eq_true, decide_eq_true_eq] at horder
      have hplan : left s.taken tasks <+: left s.taken (enrolledCommits r loopArm 0) := by
        rw [← left_congr (mem_reservedOn hr s), ← left_congr (mem_reservedOn hr s)]
        exact List.prefix_iff_eq_take.mpr horder.2
      exact (if_pos hplan).symm
  | reserve i stamp =>
    cases hi : s.runs[i]? with
    | none => simp [step, hi]
    | some plan =>
      cases plan with
      | nil => simp [step, hi]
      | cons commit rest =>
        refine .inr ⟨.advance i, ?_⟩
        simp only [step, hi]
        by_cases hc : commit ∈ s.taken
        · rw [step_advance_taken hi hc, if_pos (holds_loopArm.mpr hc)]
          rfl
        · rw [step_advance_fresh hi hc, if_neg (holds_loopArm.not.mpr hc)]
          simp [Reserving.shared, Reserving.taken]
  | halt i => exact .inr ⟨.stop i, rfl⟩
  | elsewhere res =>
    simp only [step]
    split_ifs with h
    · exact .inl rfl
    · have harm : res.arm ≠ loopArm := fun he => h (.inl he)
      left
      simp [Reserving.shared, Reserving.taken, harm]

/-- Whatever the runs and however their steps fall, the commits reserved on the loop arm are the
first of those it enrols. -/
theorem loop_reserved_in_order (hr : r.reserved = true) (events : List (Event F)) :
    ∃ n, ∀ commit, commit ∈ (runFrom (step isPrintable r registeredEventId) ⟨[], []⟩ events).taken ↔
      commit ∈ (enrolledCommits r loopArm 0).take n := by
  have hstart : InStep (enrolledCommits r loopArm 0) (Reserving.shared ⟨[], []⟩) :=
    ⟨⟨0, by simp [Reserving.shared, Reserving.taken]⟩, by simp [Reserving.shared]⟩
  have hrun : InStep (enrolledCommits r loopArm 0)
      (runFrom (step isPrintable r registeredEventId) ⟨[], []⟩ events).shared := by
    refine Along.preserves (I := fun s : Reserving => InStep (enrolledCommits r loopArm 0) s.shared)
      (P := fun _ _ => True) (fun s e h _ => ?_) (along_of_forall fun _ _ _ => trivial) hstart
    rcases shared_step hr s e with he | ⟨a, ha⟩
    · rwa [he]
    · rw [ha]
      exact h.step a
  exact hrun.initial

end Run

section Sample

def loopReading : Reading ℚ :=
  { ReadingArms.sampleReading with
    attemptRule := attemptRuleReserved
    descriptive := [("A0+L", 3)] }

/-- A blind run of the loop arm on the reading's own cell. -/
def loopRun (tasks : List String) : Run Whole where
  kind := "blind"
  mode := "blind"
  builder := loopReading.cell.get "builder"
  model := loopReading.cell.get "model"
  provider := loopReading.cell.get "provider"
  ladder := [.str "r1"]
  params := [("task_ids", .arr (tasks.map .str))]

def blankReservation : Reservation := ⟨"", "", "", "", 0, 0, "", false⟩

/-- The second run passes over a commit of the first, and the first over one of the second; a run
that would begin further on is refused. -/
def loopEvents : List (Event Whole) :=
  [.admission (loopRun ["a", "b", "c"]), .reserve 0 blankReservation, .admission (loopRun ["c"]),
    .admission (loopRun ["a", "b"]), .reserve 1 blankReservation, .reserve 1 blankReservation,
    .reserve 0 blankReservation, .halt 0]

theorem loop_reserved_in_order_sample :
    (runFrom (step (fun _ => false) loopReading 1) ⟨[], []⟩ loopEvents).taken = ["a", "b"] ∧
      ∃ n, ∀ commit,
        commit ∈ (runFrom (step (fun _ => false) loopReading 1) ⟨[], []⟩ loopEvents).taken ↔
          commit ∈ (enrolledCommits loopReading loopArm 0).take n :=
  ⟨by rfl, loop_reserved_in_order (by decide) loopEvents⟩

end Sample

end CommitReplay.LoopOrder
