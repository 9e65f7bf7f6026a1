import CommitReplay.ReadingForward

/-! The arm of a reserved reading: a commit is decided by the attempt reserved for it before its
build and by no other row, so no commit leaves the pool and nothing is run again. -/
namespace CommitReplay.ReadingReserved

open CommitReplay.JsonText CommitReplay.RowChecks CommitReplay.LookRule CommitReplay.ReadingRows
open CommitReplay.ReadingRecord CommitReplay.ReadingArms CommitReplay.ReadingForward

/-- What a reserved attempt says of its commit. A miss has its reason, and a row the arm cannot read
where it is out of scope. -/
inductive Verdict
  | hit | miss (reason : Reason) | pending | fault (scope : ScopeMiss)
deriving DecidableEq, Repr

namespace Verdict

def outcome : Verdict → Option Bool
  | hit => some true
  | miss _ => some false
  | pending | fault _ => none

def reason : Verdict → Option Reason
  | hit => none
  | miss why => some why
  | pending => some .pending
  | fault _ => some .scopeFault

def scope : Verdict → Option ScopeMiss
  | fault scope => some scope
  | hit | miss _ | pending => none

end Verdict

variable {F N : Type} [PyFloat F] (parseTs : String → Option ℤ)

section Attempt

variable (r : Reading N) (arm : String) (res : Reservation) (row : Row F)

/-- The pool unit a row attempts: a forward reading's ticket, or the commit. -/
def rowUnit : String := if r.prospective then row.labelStr "item_id" else row.str .taskId

/-- The reserved attempt wrote the row: its run, its commit, rung `r1`, its event and its claim. -/
def wroteRow : Bool :=
  !row.imported && row.str .runId = res.runId && rowUnit r row = res.taskId && row.firstRung &&
    res.eventId ≠ "" && row.labelStr "reservation" = res.eventId &&
    row.labelStr "claim" = toString res.claim

/-- Where the row is not one of the arm's, the verdict that says so. -/
def scopeVerdict : Except ReadingError (Option Verdict) :=
  if r.prospective then
    if row.labelStr "acceptance_id" ≠ enrolledRecord r res.taskId then .ok (some (.miss .notGraded))
    else
      match forwardMiss parseTs r arm row with
      | none => .ok none
      | some .checksArm => .ok (some (.fault .checksArm))
      | some .notCounted => .ok (some (.miss .notGraded))
  else do
    match ← scopeMiss parseTs r arm row with
    | none => return none
    | some .unsealed => return some (.fault .unsealed)
    | some .checksArm => return some (.fault .checksArm)
    | some _ => return some (.miss .outOfScope)

/-- The checks a row in scope is read by, each with the miss it names. -/
def checks : List (Bool × Reason) :=
  [(r.registeredEventId < res.eventSeqId, .beforeRegistration),
    (!row.hasFailureKind "harness", .harness), (!row.hasFailureKind "outage", .outage),
    (!row.goldRed, .goldRed), (!row.lintCouldChange, .lintDisabled),
    (res.treatment ≠ "" && row.labelStr "treatment" = res.treatment, .treatmentMismatch),
    (!row.disqualified, .disqualified), (row.clean, .miss)]

/-- The checks of a forward reading after them. -/
def forwardChecks : List (Bool × Reason) :=
  if r.prospective then
    [(row.heldOutResult = "pass", .heldOut), (!otherCell r row, .otherCell)]
  else []

def checksVerdict : Verdict :=
  match (checks r res row ++ forwardChecks r row).find? (!·.1) with
  | some (_, why) => .miss why
  | none => .hit

/-- The verdict of the one row a reserved attempt wrote. -/
def rowVerdict : Except ReadingError Verdict :=
  if admittedRun r row = false then .ok (.miss .notAdmitted)
  else return (← scopeVerdict parseTs r arm res row).getD (checksVerdict r res row)

end Attempt

def reservedCandidates (r : Reading N) (res : Reservation) (rows : List (Row F)) : List (Row F) :=
  rows.filter (wroteRow r res)

def reservedVerdict (r : Reading N) (arm : String) (res : Option Reservation) (rows : List (Row F)) :
    Except ReadingError Verdict :=
  match res with
  | none => .ok .pending
  | some res =>
    if r.reservationsUnread || r.admissionsUnread then .ok .pending
    else
      match reservedCandidates r res rows with
      | [] => .ok (if res.settled then .miss .unobserved else .pending)
      | [row] => rowVerdict parseTs r arm res row
      | _ :: _ :: _ => .ok (.miss .duplicate)

/-- The rows stamped with the reservation's event. -/
def stamped (res : Reservation) (rows : List (Row F)) : List (Row F) :=
  if res.eventId = "" then [] else rows.filter (·.labelStr "reservation" = res.eventId)

def readReserved (r : Reading N) (arm : String) (rows : List (Row F)) (commit : String) :
    Except ReadingError CommitReading := do
  let res := r.reservation arm commit
  let mine := (res.map (stamped · rows)).getD []
  let verdict ← reservedVerdict parseTs r arm res mine
  let found := (res.map (reservedCandidates r · mine)).getD []
  let rowHash :=
    match found with
    | [row] => if verdict = .pending then "" else row.rowHash
    | _ => ""
  return ⟨commit, r.changeOf commit, verdict.outcome, none, rowHash, verdict.reason, verdict.scope⟩

section Duplicates

/-- An attempt the arm could have read. -/
def armAttempt (r : Reading N) (arm : String) (row : Row F) : Except ReadingError Bool :=
  if admittedRun r row = false then .ok false
  else if r.prospective then .ok (forwardAttempt parseTs r row)
  else return (← scopeMiss parseTs r arm row) = none

/-- The arm's attempts of its commits, whether they decide one or not. -/
def armAttempts (r : Reading N) (arm : String) (rows : List (Row F)) (commits : List String) :
    Except ReadingError (List (Row F)) := do
  let read ← (rows.filter (rowUnit r · ∈ commits)).mapM fun row => do
    return (row, ← armAttempt parseTs r arm row)
  return (read.filter Prod.snd).map Prod.fst

/-- The attempts of a decided commit that did not decide it. -/
def unreadAttempts (r : Reading N) (arm : String) (attempts : List (Row F)) (c : CommitReading) : ℕ :=
  if c.reason = some .pending then 0
  else
    attempts.countP fun row =>
      rowUnit r row = c.commit && !(r.reservation arm c.commit).any (wroteRow r · row)

end Duplicates

def armReserved (r : Reading N) (arm : String) (rows : List (Row F)) (limit : ℤ) :
    Except ReadingError ArmReading := do
  let enrolled := enrolledCommits r arm limit
  let attempts ← armAttempts parseTs r arm rows enrolled
  let commits ← enrolled.mapM (readReserved parseTs r arm rows)
  let outcomes := commits.map CommitReading.outcome
  let n := descriptiveCount r arm limit
  let look ← armLook outcomes r.rule n r.prospective
  return { arm, look, commits, descriptive := n ≠ 0, stoppedBy := "", waiting := false, limit := n
           scopeFaults := (commits.filter (·.reason = some .scopeFault)).map CommitReading.commit
           unsealedDropped := commits.countP (·.scope = some .unsealed)
           duplicateCommits := (commits.map (unreadAttempts r arm attempts)).sum }

variable {parseTs}

/-- What a reserved arm is, once read. -/
lemma armReserved_spec {r : Reading N} {arm : String} {rows : List (Row F)} {limit : ℤ}
    {a : ArmReading} (h : armReserved parseTs r arm rows limit = .ok a) :
    (enrolledCommits r arm limit).mapM (readReserved parseTs r arm rows) = .ok a.commits ∧
      armLook (a.commits.map CommitReading.outcome) r.rule (descriptiveCount r arm limit)
        r.prospective = .ok a.look ∧ a.stoppedBy = "" := by
  obtain ⟨attempts, -, h⟩ := bind_eq_ok.mp h
  obtain ⟨commits, hcommits, h⟩ := bind_eq_ok.mp h
  obtain ⟨look, hlook, h⟩ := bind_eq_ok.mp h
  obtain rfl := Except.ok.inj h
  exact ⟨hcommits, hlook, rfl⟩

end CommitReplay.ReadingReserved
