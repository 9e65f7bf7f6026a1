import CommitReplay.RowChecks
import Mathlib.Algebra.Order.BigOperators.Group.List

/-! A run of tasks over a ladder of rungs: what each attempt leaves in the ledger, and what the summary counts. -/
namespace CommitReplay.RunCounts

open CommitReplay.PythonText CommitReplay.RowChecks

section Records

def environmentPrefix : Text := "environment:".toList

/-- `is_environment_error`. -/
def isEnvironmentError (error : Text) : Bool := startsWith error environmentPrefix

/-- What a grade says of an attempt; a clean one is neither disqualified nor has it an error. -/
structure GradeResult where
  clean : Bool
  disqualified : Bool
  error : Text
  refused : clean = true → disqualified = false ∧ error = []

/-- What the counts read of a row; `trial` is the `i` of its `r{i}`. -/
structure GradeRow where
  trial : ℕ
  clean : Bool
  disqualified : Bool
  error : Text
  refused : clean = true → disqualified = false ∧ error = []

/-- The error of a row: the grader's own wins, and the builder's shows on a row that is not clean. -/
def rowError (result : GradeResult) (builderError : Text) : Text :=
  if result.error ≠ [] then result.error else if result.clean then [] else builderError

lemma rowError_refused (result : GradeResult) (builderError : Text) (h : result.clean = true) :
    result.disqualified = false ∧ rowError result builderError = [] := by
  obtain ⟨hdisq, herror⟩ := result.refused h
  exact ⟨hdisq, by simp [rowError, herror, h]⟩

/-- `row_from`. -/
def rowFrom (trial : ℕ) (result : GradeResult) (builderError : Text) : GradeRow :=
  ⟨trial, result.clean, result.disqualified, rowError result builderError, rowError_refused result builderError⟩

def needsEvidence : Text := " — a clean row needs its evidence (no pack ⇒ no Q1)".toList

lemma demoted_refused (row : GradeRow) (why : Text) (h : false = true) :
    row.disqualified = false ∧ why ++ needsEvidence = [] :=
  absurd h Bool.false_ne_true

/-- `_demoted`: the row as a failure of the instrument. -/
def demoted (row : GradeRow) (why : Text) : GradeRow :=
  ⟨row.trial, false, row.disqualified, why ++ needsEvidence, demoted_refused row why⟩

/-- The row that the ledger appends; `missing` is why it has no evidence for it, if it has none. -/
def appendRow (row : GradeRow) (missing : Option Text) : GradeRow :=
  match missing with
  | some why => if row.clean then demoted row why else row
  | none => row

end Records

section Tasks

/-- The reserver's answer before the first attempt. -/
inductive ReserveResult
  | ok
  | skip (reason : Text)
  | halt (reason : Text)

/-- What a task meets on its way up the ladder, each answer by the number of the rung it is given on. An error of these
is a `SandboxUnavailable`; the builder's own failure is part of its answer. -/
structure Answers where
  stop : Bool
  context : Except Text Unit
  admission : ℕ → Except Text Text
  prepare : ℕ → Except Text Unit
  reserve : Except Text ReserveResult
  build : ℕ → Text → Except Text Text
  grade : ℕ → Except Text GradeResult
  climb : ℕ → Except Text Bool
  keep : ℕ → Except Text (Option Text)
  finish : ℕ → Except Text Unit

/-- An attempt whose row is in the ledger. -/
structure Attempt where
  rung : ℕ
  result : GradeResult
  builderError : Text
  missing : Option Text

def Attempt.row (a : Attempt) : GradeRow := appendRow (rowFrom a.rung a.result a.builderError) a.missing

/-- What comes after an attempt: another rung, no other, or a `SandboxUnavailable` after its row is written. -/
inductive Next
  | climb
  | done
  | raised (why : Text)

/-- How a rung ends. -/
inductive RungEnd
  | raised (why : Text)
  | halted (reason : Text)
  | skipped (reason : Text)
  | appended (attempt : Attempt) (next : Next)

/-- How a task ends: its attempts in order, and what cut them short. -/
structure TaskEnd where
  attempts : List Attempt
  halted : Text
  skipped : Text
  raised : Option Text

def TaskEnd.cons (a : Attempt) (e : TaskEnd) : TaskEnd := { e with attempts := a :: e.attempts }

variable (w : Answers)

/-- The gate of the climb is asked where there is a rung left and the attempt does not end the ladder by itself. -/
def decision (i : ℕ) (last : Bool) (result : GradeResult) : Except Text (Option Bool) :=
  if last = false ∧ result.clean = false ∧ result.disqualified = false then (w.climb i).map some else .ok none

def reserved (i : ℕ) : Except Text ReserveResult := if i = 1 then w.reserve else .ok .ok

/-- What comes after the row of an attempt. -/
def next (i : ℕ) (result : GradeResult) (climb : Option Bool) : Next :=
  match w.finish i with
  | .error why => .raised why
  | .ok () =>
    if result.clean || result.disqualified then .done
    else if isEnvironmentError result.error then .done
    else if climb = some false then .done
    else .climb

/-- From a worktree that is ready to the row of the attempt. -/
def attempt (i : ℕ) (rung : Text) (last : Bool) : Except Text RungEnd := do
  let builderError ← w.build i rung
  let result ← w.grade i
  let climb ← decision w i last result
  let missing ← w.keep i
  .ok (.appended ⟨i, result, builderError, missing⟩ (next w i result climb))

def afterReserve (i : ℕ) (rung : Text) (last : Bool) : ReserveResult → Except Text RungEnd
  | .skip reason => .ok (.skipped reason)
  | .halt reason => .ok (.halted reason)
  | .ok => attempt w i rung last

def afterAdmit (i : ℕ) (rung : Text) (last : Bool) (halted : Text) : Except Text RungEnd :=
  if halted ≠ [] then .ok (.halted halted)
  else do
    w.prepare i
    let answer ← reserved w i
    afterReserve w i rung last answer

/-- One rung of the ladder. -/
def climbRung (i : ℕ) (rung : Text) (last : Bool) : RungEnd :=
  match w.admission i >>= afterAdmit w i rung last with
  | .error why => .raised why
  | .ok ended => ended

/-- The ladder of a task from its rung `i` on. -/
def climbLadder (i : ℕ) : List Text → TaskEnd
  | [] => ⟨[], [], [], none⟩
  | rung :: rest =>
    match climbRung w i rung rest.isEmpty with
    | .raised why => ⟨[], [], [], some why⟩
    | .halted reason => ⟨[], reason, [], none⟩
    | .skipped reason => ⟨[], [], reason, none⟩
    | .appended a .climb => (climbLadder (i + 1) rest).cons a
    | .appended a .done => ⟨[a], [], [], none⟩
    | .appended a (.raised why) => ⟨[a], [], [], some why⟩

/-- `run_task`. -/
def runTask (ladder : List Text) : TaskEnd :=
  match w.context with
  | .error why => ⟨[], [], [], some why⟩
  | .ok () => climbLadder w 1 ladder

namespace TaskEnd

variable (e : TaskEnd)

def rows : List GradeRow := e.attempts.map Attempt.row

/-- The grade of the last attempt. -/
def clean : Bool := e.attempts.getLast?.any (·.result.clean)

def disqualified : Bool := e.attempts.getLast?.any (·.result.disqualified)

/-- The task's outcome reaches the counts. -/
def counted : Bool := e.raised.isNone && e.skipped.isEmpty

end TaskEnd

end Tasks

section Run

structure RunSummary where
  tasks : ℕ
  clean : ℕ
  disqualified : ℕ
  errors : ℕ
  firstPassClean : ℕ
  rows : ℕ
  stoppedReason : Text
deriving DecidableEq

def RunSummary.zero : RunSummary := ⟨0, 0, 0, 0, 0, 0, []⟩

/-- What an outcome adds to the counts. -/
def RunSummary.add (s : RunSummary) (e : TaskEnd) : RunSummary where
  tasks := if e.attempts ≠ [] ∨ e.halted = [] then s.tasks + 1 else s.tasks
  clean := s.clean + e.clean.toNat
  disqualified := s.disqualified + e.disqualified.toNat
  errors := s.errors + e.rows.countP (·.error ≠ [])
  firstPassClean := s.firstPassClean + (e.rows.head?.any (·.clean)).toNat
  rows := s.rows + e.attempts.length
  stoppedReason := s.stoppedReason

/-- What a run returns, and how the tasks it began have ended. -/
structure Run where
  summary : RunSummary
  ends : List TaskEnd

def Run.cons (e : TaskEnd) (r : Run) : Run := { r with ends := e :: r.ends }

def cancelled : Text := "cancelled".toList

def sandboxUnavailable : Text := "sandbox unavailable: ".toList

variable (ladder : List Text)

def runFrom (s : RunSummary) : List Answers → Run
  | [] => ⟨s, []⟩
  | w :: rest =>
    if w.stop then ⟨{ s with stoppedReason := cancelled }, []⟩
    else
      let e := runTask w ladder
      match e.raised with
      | some why => ⟨{ s with stoppedReason := sandboxUnavailable ++ why }, [e]⟩
      | none =>
        if e.skipped ≠ [] then (runFrom s rest).cons e
        else if e.halted ≠ [] then ⟨{ s.add e with stoppedReason := e.halted }, [e]⟩
        else (runFrom (s.add e) rest).cons e

/-- `run`, on the answers that its tasks meet. -/
def run (tasks : List Answers) : Run := runFrom ladder .zero tasks

/-- The rows that a run has appended. -/
def Run.rows (r : Run) : List GradeRow := r.ends.flatMap TaskEnd.rows

end Run

section Attempts

variable {w : Answers} {a : Attempt} {i : ℕ}

lemma row_trial (a : Attempt) : a.row.trial = a.rung := by
  unfold Attempt.row appendRow
  split
  · split_ifs <;> rfl
  · rfl

lemma row_disqualified (a : Attempt) : a.row.disqualified = a.result.disqualified := by
  unfold Attempt.row appendRow
  split
  · split_ifs <;> rfl
  · rfl

/-- A row is clean where the grade is and the ledger has the evidence for it. -/
lemma row_clean (a : Attempt) : a.row.clean = true ↔ a.result.clean = true ∧ a.missing = none := by
  unfold Attempt.row appendRow
  cases hmissing : a.missing with
  | none => simp [rowFrom]
  | some why =>
    dsimp only
    split_ifs with hclean
    · simp [demoted]
    · simpa [rowFrom] using hclean

/-- An attempt that does not end its ladder by what the grader has said. -/
def Retried (a : Attempt) : Prop :=
  a.result.clean = false ∧ a.result.disqualified = false ∧ isEnvironmentError a.result.error = false

lemma retried_of_next {climb : Option Bool} (h : next w i a.result climb = .climb) : Retried a := by
  unfold next at h
  split at h
  · cases h
  · split_ifs at h with hends henv
    obtain ⟨hclean, hdisq⟩ := Bool.or_eq_false_iff.mp (Bool.eq_false_of_not_eq_true hends)
    exact ⟨hclean, hdisq, Bool.eq_false_of_not_eq_true henv⟩

lemma attempt_ok {rung : Text} {last : Bool} {ended : RungEnd} (h : attempt w i rung last = .ok ended) :
    ∃ a n, ended = .appended a n ∧ a.rung = i ∧ (n = .climb → Retried a) := by
  obtain ⟨builderError, -, h⟩ := bind_eq_ok.mp h
  obtain ⟨result, -, h⟩ := bind_eq_ok.mp h
  obtain ⟨climb, -, h⟩ := bind_eq_ok.mp h
  obtain ⟨missing, -, h⟩ := bind_eq_ok.mp h
  exact ⟨⟨i, result, builderError, missing⟩, _, (Except.ok.inj h).symm, rfl, fun hn => retried_of_next hn⟩

/-- What a rung can come to. -/
lemma climbRung_cases (w : Answers) (i : ℕ) (rung : Text) (last : Bool) :
    (∃ why, climbRung w i rung last = .raised why) ∨ (∃ reason, climbRung w i rung last = .halted reason) ∨
    (i = 1 ∧ ∃ reason, climbRung w i rung last = .skipped reason) ∨
    ∃ a n, climbRung w i rung last = .appended a n ∧ a.rung = i ∧ (n = .climb → Retried a) := by
  unfold climbRung
  cases hrun : w.admission i >>= afterAdmit w i rung last with
  | error why => exact .inl ⟨why, rfl⟩
  | ok ended =>
    refine .inr ?_
    obtain ⟨halted, -, hadmit⟩ := bind_eq_ok.mp hrun
    unfold afterAdmit at hadmit
    split_ifs at hadmit with hhalted
    · exact .inl ⟨halted, Except.ok.inj hadmit ▸ rfl⟩
    obtain ⟨u, -, hadmit⟩ := bind_eq_ok.mp hadmit
    obtain ⟨answer, hanswer, hafter⟩ := bind_eq_ok.mp hadmit
    cases answer with
    | ok => exact .inr (.inr (attempt_ok hafter))
    | halt reason => exact .inl ⟨reason, Except.ok.inj hafter ▸ rfl⟩
    | skip reason =>
      refine .inr (.inl ⟨?_, reason, Except.ok.inj hafter ▸ rfl⟩)
      by_contra hi
      rw [reserved, if_neg hi] at hanswer
      cases hanswer

/-- The attempts of a task are numbered from a rung on, and none follows one that ends the ladder. -/
structure Climbs (i : ℕ) (attempts : List Attempt) : Prop where
  rungs : attempts.map Attempt.rung = List.range' i attempts.length
  retried : attempts.Pairwise fun a _ => Retried a

lemma climbs_nil (i : ℕ) : Climbs i [] := ⟨rfl, .nil⟩

lemma Climbs.cons {l : List Attempt} (h : Climbs (i + 1) l) (hrung : a.rung = i) (ha : Retried a) :
    Climbs i (a :: l) := by
  refine ⟨?_, List.pairwise_cons.mpr ⟨fun _ _ => ha, h.retried⟩⟩
  rw [List.map_cons, h.rungs, hrung]
  rfl

lemma climbs_climbLadder (w : Answers) (i : ℕ) (ladder : List Text) : Climbs i (climbLadder w i ladder).attempts := by
  induction ladder generalizing i with
  | nil => exact climbs_nil i
  | cons rung rest ih =>
    rw [climbLadder]
    obtain ⟨why, he⟩ | ⟨reason, he⟩ | ⟨-, reason, he⟩ | ⟨a, n, he, hrung, hretried⟩ :=
      climbRung_cases w i rung rest.isEmpty
    · rw [he]
      exact climbs_nil i
    · rw [he]
      exact climbs_nil i
    · rw [he]
      exact climbs_nil i
    · have hone : Climbs i [a] := ⟨congrArg (fun r => [r]) hrung, List.pairwise_singleton _ _⟩
      rw [he]
      cases n with
      | climb => exact (ih (i + 1)).cons hrung (hretried rfl)
      | done => exact hone
      | raised why => exact hone

lemma skipped_climbLadder {ladder : List Text} (hi : 1 < i) : (climbLadder w i ladder).skipped = [] := by
  induction ladder generalizing i with
  | nil => rfl
  | cons rung rest ih =>
    rw [climbLadder]
    obtain ⟨why, he⟩ | ⟨reason, he⟩ | ⟨hone, reason, he⟩ | ⟨a, n, he, -⟩ := climbRung_cases w i rung rest.isEmpty
    · rw [he]
    · rw [he]
    · omega
    · rw [he]
      cases n with
      | climb => exact ih (by omega)
      | done => rfl
      | raised why => rfl

lemma climbs_runTask (w : Answers) (ladder : List Text) : Climbs 1 (runTask w ladder).attempts := by
  unfold runTask
  split
  · exact climbs_nil 1
  · exact climbs_climbLadder w 1 ladder

/-- A task is skipped before its first attempt. -/
lemma attempts_of_skipped {ladder : List Text} (h : (runTask w ladder).skipped ≠ []) :
    (runTask w ladder).attempts = [] := by
  unfold runTask at h ⊢
  split at h
  · exact absurd rfl h
  cases ladder with
  | nil => rfl
  | cons rung rest =>
    rw [climbLadder] at h ⊢
    obtain ⟨why, he⟩ | ⟨reason, he⟩ | ⟨-, reason, he⟩ | ⟨a, n, he, -⟩ := climbRung_cases w 1 rung rest.isEmpty
    · rw [he]
    · rw [he]
    · rw [he]
    · rw [he] at h
      cases n with
      | climb => exact absurd (skipped_climbLadder (by omega)) h
      | done => exact absurd rfl h
      | raised why => exact absurd rfl h

end Attempts

section Counts

variable {ladder : List Text} {e : TaskEnd}

/-- The attempt that no other may follow is the last one. -/
lemma Climbs.getLast?_eq {i : ℕ} {l : List Attempt} (h : Climbs i l) {a : Attempt} (ha : a ∈ l) (hr : ¬ Retried a) :
    l.getLast? = some a := by
  obtain ⟨front, back, rfl⟩ := List.append_of_mem ha
  cases back with
  | nil => simp
  | cons b back =>
    have hpair := (List.pairwise_append.mp h.retried).2.1
    exact absurd ((List.pairwise_cons.mp hpair).1 b List.mem_cons_self) hr

lemma Climbs.clean_iff (h : Climbs 1 e.attempts) : e.clean = true ↔ ∃ a ∈ e.attempts, a.result.clean = true := by
  simp only [TaskEnd.clean, Option.any_eq_true]
  constructor
  · rintro ⟨a, hlast, hclean⟩
    exact ⟨a, List.mem_of_getLast? hlast, hclean⟩
  · rintro ⟨a, ha, hclean⟩
    exact ⟨a, h.getLast?_eq ha fun hr => absurd (hr.1.symm.trans hclean) Bool.false_ne_true, hclean⟩

lemma Climbs.head_clean (h : Climbs 1 e.attempts) :
    (e.rows.head?.any (·.clean)).toNat = e.rows.countP fun row => row.clean && row.trial = 1 := by
  unfold TaskEnd.rows
  have hrungs := h.rungs
  cases hattempts : e.attempts with
  | nil => rfl
  | cons a l =>
    rw [hattempts] at hrungs
    obtain ⟨ha, hl⟩ := List.cons.inj hrungs
    have hrest : (l.map Attempt.row).countP (fun row => row.clean && row.trial = 1) = 0 := by
      refine List.countP_eq_zero.mpr fun row hrow => ?_
      obtain ⟨b, hb, rfl⟩ := List.mem_map.mp hrow
      have hmem : b.rung ∈ List.range' 2 l.length := hl ▸ List.mem_map_of_mem hb
      have htwo := (List.mem_range'_1.mp hmem).1
      rw [row_trial]
      simp only [Bool.and_eq_true, decide_eq_true_eq, not_and]
      omega
    rw [List.map_cons, List.countP_cons, hrest, List.head?_cons, Option.any_some, row_trial, ha]
    cases a.row.clean <;> rfl

lemma rows_disqualified (e : TaskEnd) : e.rows.getLast?.any (·.disqualified) = e.disqualified := by
  simp only [TaskEnd.rows, TaskEnd.disqualified, List.getLast?_map, Option.any_map, row_disqualified]

/-- What a task comes to in the run: the run stops before it, its outcome does not reach the counts, or it does; in the
last two the run goes on or stops. -/
lemma runFrom_cons_cases (ladder : List Text) (s : RunSummary) (w : Answers) (rest : List Answers) :
    (∃ why, runFrom ladder s (w :: rest) = ⟨{ s with stoppedReason := why }, []⟩) ∨
    ((runTask w ladder).counted = false ∧ ((∃ why, runFrom ladder s (w :: rest) =
        ⟨{ s with stoppedReason := why }, [runTask w ladder]⟩) ∨
      runFrom ladder s (w :: rest) = (runFrom ladder s rest).cons (runTask w ladder))) ∨
    ((runTask w ladder).counted = true ∧ ((∃ why, runFrom ladder s (w :: rest) =
        ⟨{ s.add (runTask w ladder) with stoppedReason := why }, [runTask w ladder]⟩) ∨
      runFrom ladder s (w :: rest) = (runFrom ladder (s.add (runTask w ladder)) rest).cons (runTask w ladder))) := by
  rw [runFrom]
  by_cases hstop : w.stop = true
  · exact .inl ⟨cancelled, if_pos hstop⟩
  rw [if_neg hstop]
  refine .inr ?_
  dsimp only
  cases hraised : (runTask w ladder).raised with
  | some why => exact .inl ⟨by simp [TaskEnd.counted, hraised], .inl ⟨_, rfl⟩⟩
  | none =>
    by_cases hskip : (runTask w ladder).skipped = []
    · have hcount : (runTask w ladder).counted = true := by simp [TaskEnd.counted, hraised, hskip]
      refine .inr ⟨hcount, ?_⟩
      rw [if_neg (not_not.mpr hskip)]
      by_cases hhalt : (runTask w ladder).halted = []
      · exact .inr (if_neg (not_not.mpr hhalt))
      · exact .inl ⟨_, if_pos hhalt⟩
    · exact .inl ⟨by simp [TaskEnd.counted, hskip], .inr (if_pos hskip)⟩

/-- The ends of a run are those of its tasks. -/
lemma mem_ends {s : RunSummary} {tasks : List Answers} (he : e ∈ (runFrom ladder s tasks).ends) :
    ∃ w ∈ tasks, e = runTask w ladder := by
  induction tasks generalizing s with
  | nil => cases he
  | cons w rest ih =>
    have hcons : ∀ s', e ∈ ((runFrom ladder s' rest).cons (runTask w ladder)).ends →
        ∃ w' ∈ w :: rest, e = runTask w' ladder := by
      intro s' hmem
      obtain rfl | hmem := List.mem_cons.mp hmem
      · exact ⟨w, List.mem_cons_self, rfl⟩
      · obtain ⟨w', hw', he⟩ := ih hmem
        exact ⟨w', List.mem_cons_of_mem w hw', he⟩
    obtain ⟨why, h⟩ | ⟨-, ⟨why, h⟩ | h⟩ | ⟨-, ⟨why, h⟩ | h⟩ := runFrom_cons_cases ladder s w rest
    · rw [h] at he
      cases he
    · rw [h] at he
      exact ⟨w, List.mem_cons_self, List.mem_singleton.mp he⟩
    · exact hcons _ (h ▸ he)
    · rw [h] at he
      exact ⟨w, List.mem_cons_self, List.mem_singleton.mp he⟩
    · exact hcons _ (h ▸ he)

/-- A count of the summary is the sum of what the outcomes that reach it add. -/
lemma summary_eq {p : RunSummary → ℕ} {f : TaskEnd → ℕ} (hadd : ∀ s e, p (s.add e) = p s + f e)
    (hstop : ∀ s why, p { s with stoppedReason := why } = p s) (ladder : List Text) (s : RunSummary)
    (tasks : List Answers) : p (runFrom ladder s tasks).summary =
      p s + ((runFrom ladder s tasks).ends.map fun e => if e.counted then f e else 0).sum := by
  induction tasks generalizing s with
  | nil => rfl
  | cons w rest ih =>
    obtain ⟨why, h⟩ | ⟨hcount, ⟨why, h⟩ | h⟩ | ⟨hcount, ⟨why, h⟩ | h⟩ := runFrom_cons_cases ladder s w rest
    · rw [h]
      exact hstop s why
    · rw [h]
      simp [hstop, hcount]
    · rw [h]
      simp [Run.cons, ih, hcount]
    · rw [h]
      simp [hstop, hadd, hcount]
    · rw [h]
      simp [Run.cons, ih, hadd, hcount, Nat.add_assoc]

end Counts

section Result

variable {ladder : List Text} {tasks : List Answers}

/-- The summary counts the rows that the run has appended. -/
structure Counted (r : Run) : Prop where
  rows : r.summary.rows = r.rows.length
  firstPassClean : r.summary.firstPassClean = r.rows.countP fun row => row.clean && row.trial = 1
  clean : r.summary.clean = r.ends.countP fun e => e.rows.any (·.clean)
  disqualified : r.summary.disqualified = r.ends.countP fun e => e.rows.getLast?.any (·.disqualified)
  errors : r.summary.errors = r.rows.countP (·.error ≠ [])

/-- The rows of each task are `r1`, `r2`, … without gaps, and none follows a clean row, a disqualified row, or one for
which the grader has recorded an error of the environment. -/
def InOrder (r : Run) : Prop :=
  ∀ e ∈ r.ends, e.rows.map GradeRow.trial = List.range' 1 e.rows.length ∧ e.attempts.Pairwise fun a _ =>
    a.row.clean = false ∧ a.row.disqualified = false ∧ isEnvironmentError a.result.error = false

/-- No task of the run is cut short by a `SandboxUnavailable` after a row of it is written, and the ledger has the
evidence for each clean attempt. -/
structure Unbroken (r : Run) : Prop where
  raised : ∀ e ∈ r.ends, e.raised.isSome = true → e.attempts = []
  evidence : ∀ e ∈ r.ends, ∀ a ∈ e.attempts, a.result.clean = true → a.missing = none

lemma climbs_of_mem {e : TaskEnd} (he : e ∈ (run ladder tasks).ends) : Climbs 1 e.attempts := by
  obtain ⟨w, -, rfl⟩ := mem_ends he
  exact climbs_runTask w ladder

lemma inOrder_run (ladder : List Text) (tasks : List Answers) : InOrder (run ladder tasks) := by
  intro e he
  have hclimbs := climbs_of_mem he
  refine ⟨?_, hclimbs.retried.imp fun {a b} h => ?_⟩
  · rw [TaskEnd.rows, List.map_map, List.length_map, ← hclimbs.rungs]
    exact List.map_congr_left fun a _ => row_trial a
  · obtain ⟨hclean, hdisq, henv⟩ := h
    refine ⟨Bool.eq_false_of_not_eq_true fun hc => ?_, (row_disqualified a).trans hdisq, henv⟩
    exact absurd (hclean.symm.trans ((row_clean a).mp hc).1) Bool.false_ne_true

/-- Only the end of a task that a `SandboxUnavailable` has cut short keeps rows from the counts. -/
lemma attempts_of_not_counted (h : ∀ e ∈ (run ladder tasks).ends, e.raised.isSome = true → e.attempts = [])
    {e : TaskEnd} (he : e ∈ (run ladder tasks).ends) (hcount : e.counted = false) : e.attempts = [] := by
  cases hraised : e.raised with
  | some why => exact h e he (by rw [hraised]; rfl)
  | none =>
    obtain ⟨w, -, rfl⟩ := mem_ends he
    refine attempts_of_skipped fun hskip => ?_
    simp [TaskEnd.counted, hraised, hskip] at hcount

/-- Where every row reaches the counts, a count of the summary is the sum over the tasks. -/
lemma summary_eq_sum {p : RunSummary → ℕ} {f : TaskEnd → ℕ} (hadd : ∀ s e, p (s.add e) = p s + f e)
    (hstop : ∀ s why, p { s with stoppedReason := why } = p s) (hzero : p .zero = 0)
    (hnil : ∀ e : TaskEnd, e.attempts = [] → f e = 0)
    (h : ∀ e ∈ (run ladder tasks).ends, e.raised.isSome = true → e.attempts = []) :
    p (run ladder tasks).summary = ((run ladder tasks).ends.map f).sum := by
  have hsum := summary_eq hadd hstop ladder .zero tasks
  rw [hzero, Nat.zero_add] at hsum
  refine hsum.trans (congrArg List.sum (List.map_congr_left fun e he => ?_))
  split_ifs with hcount
  · rfl
  · exact (hnil e (attempts_of_not_counted h he (Bool.eq_false_of_not_eq_true hcount))).symm

lemma length_rows (r : Run) : r.rows.length = (r.ends.map fun e => e.attempts.length).sum := by
  rw [Run.rows, List.length_flatMap]
  exact congrArg List.sum (List.map_congr_left fun e _ => List.length_map _)

lemma countP_eq_sum (p : TaskEnd → Bool) (l : List TaskEnd) : l.countP p = (l.map fun e => (p e).toNat).sum := by
  induction l with
  | nil => rfl
  | cons e l ih =>
    rw [List.countP_cons, ih, List.map_cons, List.sum_cons, Nat.add_comm]
    cases p e <;> rfl

/-- Sums that agree, of which one is nowhere over the other, agree at each summand. -/
lemma eq_of_sum_eq {α : Type*} {f g : α → ℕ} {l : List α} (hle : ∀ x ∈ l, f x ≤ g x)
    (h : (l.map f).sum = (l.map g).sum) {x : α} (hx : x ∈ l) : f x = g x := by
  by_contra hne
  exact (List.sum_lt_sum f g hle ⟨x, hx, lt_of_le_of_ne (hle x hx) hne⟩).ne h

lemma any_rows_clean {e : TaskEnd} : e.rows.any (·.clean) = true ↔
    ∃ a ∈ e.attempts, a.result.clean = true ∧ a.missing = none := by
  simp only [TaskEnd.rows, List.any_map, List.any_eq_true, Function.comp_apply, row_clean]

lemma Climbs.rows_clean_le {e : TaskEnd} (h : Climbs 1 e.attempts) :
    (e.rows.any (·.clean)).toNat ≤ e.clean.toNat := by
  refine Bool.toNat_le_toNat fun hrows => ?_
  obtain ⟨a, ha, hclean, -⟩ := any_rows_clean.mp hrows
  exact h.clean_iff.mpr ⟨a, ha, hclean⟩

/-- The outcome of a task is clean as its rows are, exactly when the ledger has the evidence for its clean attempt. -/
lemma Climbs.rows_clean_eq_iff {e : TaskEnd} (h : Climbs 1 e.attempts) :
    (e.rows.any (·.clean)).toNat = e.clean.toNat ↔ ∀ a ∈ e.attempts, a.result.clean = true → a.missing = none := by
  constructor
  · intro heq a ha hclean
    have he : e.clean = true := h.clean_iff.mpr ⟨a, ha, hclean⟩
    rw [he] at heq
    obtain ⟨b, hb, hbclean, hmissing⟩ := any_rows_clean.mp (Bool.toNat_eq_one.mp heq)
    have hlast : ∀ {c : Attempt}, c ∈ e.attempts → c.result.clean = true → e.attempts.getLast? = some c :=
      fun hc hcclean => h.getLast?_eq hc fun hr => absurd (hr.1.symm.trans hcclean) Bool.false_ne_true
    obtain rfl := Option.some.inj ((hlast ha hclean).symm.trans (hlast hb hbclean))
    exact hmissing
  · intro hevidence
    refine congrArg Bool.toNat (Bool.eq_iff_iff.mpr (any_rows_clean.trans (Iff.trans ?_ h.clean_iff.symm)))
    exact exists_congr fun a => and_congr_right fun ha => and_iff_left_of_imp (hevidence a ha)

/-- A run leaves the rows of its tasks in order, and its summary counts them exactly when no task is cut short after a
row of it is written, and no clean attempt is without its evidence. -/
theorem counted_iff (ladder : List Text) (tasks : List Answers) :
    InOrder (run ladder tasks) ∧ (Counted (run ladder tasks) ↔ Unbroken (run ladder tasks)) := by
  refine ⟨inOrder_run ladder tasks, ?_⟩
  have hclean (h : ∀ e ∈ (run ladder tasks).ends, e.raised.isSome = true → e.attempts = []) :
      (run ladder tasks).summary.clean = ((run ladder tasks).ends.map fun e => e.clean.toNat).sum :=
    summary_eq_sum (p := RunSummary.clean) (fun _ _ => rfl) (fun _ _ => rfl) rfl
      (fun e he => by simp [TaskEnd.clean, he]) h
  constructor
  · intro hcounted
    have hraised : ∀ e ∈ (run ladder tasks).ends, e.raised.isSome = true → e.attempts = [] := by
      intro e he hsome
      have hsum := summary_eq (p := RunSummary.rows) (fun _ _ => rfl) (fun _ _ => rfl) ladder .zero tasks
      have hrows := hsum.symm.trans (hcounted.rows.trans (length_rows _))
      rw [RunSummary.zero, Nat.zero_add] at hrows
      have hle : ∀ e ∈ (run ladder tasks).ends, (if e.counted then e.attempts.length else 0) ≤ e.attempts.length := by
        intro e _
        split_ifs
        · exact le_rfl
        · exact Nat.zero_le _
      have hlength := eq_of_sum_eq hle hrows he
      have hcount : e.counted = false := by simp [TaskEnd.counted, Option.isNone_eq_false_iff.mpr hsome]
      rw [hcount] at hlength
      exact List.eq_nil_of_length_eq_zero hlength.symm
    refine ⟨hraised, fun e he => (climbs_of_mem he).rows_clean_eq_iff.mp ?_⟩
    have hsums := (hcounted.clean.symm.trans (hclean hraised)).symm
    rw [countP_eq_sum] at hsums
    exact eq_of_sum_eq (fun e he => (climbs_of_mem he).rows_clean_le) hsums.symm he
  · rintro ⟨hraised, hevidence⟩
    refine ⟨?_, ?_, ?_, ?_, ?_⟩
    · rw [length_rows]
      exact summary_eq_sum (p := RunSummary.rows) (fun _ _ => rfl) (fun _ _ => rfl) rfl
        (fun e he => by rw [he]; rfl) hraised
    · rw [Run.rows, List.countP_flatMap]
      refine (summary_eq_sum (p := RunSummary.firstPassClean) (fun _ _ => rfl) (fun _ _ => rfl) rfl
        (fun e he => by simp [TaskEnd.rows, he]) hraised).trans ?_
      exact congrArg List.sum (List.map_congr_left fun e he => (climbs_of_mem he).head_clean)
    · rw [hclean hraised, countP_eq_sum]
      exact congrArg List.sum (List.map_congr_left fun e he =>
        ((climbs_of_mem he).rows_clean_eq_iff.mpr (hevidence e he)).symm)
    · rw [countP_eq_sum]
      refine (summary_eq_sum (p := RunSummary.disqualified) (fun _ _ => rfl) (fun _ _ => rfl) rfl
        (fun e he => by simp [TaskEnd.disqualified, he]) hraised).trans ?_
      exact congrArg List.sum (List.map_congr_left fun e _ => congrArg Bool.toNat (rows_disqualified e).symm)
    · rw [Run.rows, List.countP_flatMap]
      exact summary_eq_sum (p := RunSummary.errors) (fun _ _ => rfl) (fun _ _ => rfl) rfl
        (fun e he => by simp [TaskEnd.rows, he]) hraised

lemma failed_refused (h : false = true) : false = false ∧ ([] : Text) = [] := absurd h Bool.false_ne_true

/-- An attempt that fails its target. -/
def failed : GradeResult := ⟨false, false, [], failed_refused⟩

def dockerGone : Text := "docker: not found".toList

/-- A task whose first attempt fails, and whose second finds the sandbox gone. -/
def lostSandbox : Answers where
  stop := false
  context := .ok ()
  admission _ := .ok []
  prepare i := if i = 1 then .ok () else .error dockerGone
  reserve := .ok .ok
  build _ _ := .ok []
  grade _ := .ok failed
  climb _ := .ok true
  keep _ := .ok none
  finish _ := .ok ()

def twoRungs : List Text := ["local".toList, "frontier".toList]

/-- The row of the first attempt is in the ledger, and the summary has no row. -/
theorem not_counted_lostSandbox : (run twoRungs [lostSandbox]).rows.map GradeRow.trial = [1] ∧
    (run twoRungs [lostSandbox]).summary.rows = 0 ∧ ¬ Counted (run twoRungs [lostSandbox]) := by
  refine ⟨rfl, rfl, fun h => ?_⟩
  exact absurd h.rows (by decide)

end Result

end CommitReplay.RunCounts
