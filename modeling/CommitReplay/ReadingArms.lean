import CommitReplay.ReadingRecord

/-! The rows one arm of a reading reads, and how it reads each of its commits. -/
namespace CommitReplay.ReadingArms

open CommitReplay.PythonText CommitReplay.JsonText CommitReplay.ContextArms CommitReplay.RowChecks
open CommitReplay.JsonRoundTrip CommitReplay.GradeRows CommitReplay.LookRule
open CommitReplay.ReadingRows CommitReplay.ReadingRecord

/-- Why a row is not one an arm reads. -/
inductive ScopeMiss
  | imported | otherReading | beforeRegistration | notHeldOut | posture | checksArm | unsealed
deriving DecidableEq, Repr

/-- Why a row is not one a forward reading counts. -/
inductive ForwardMiss
  | notCounted | checksArm
deriving DecidableEq, Repr

/-- Why a commit left the pool. -/
inductive Left
  | sameChange | harness | goldNotClean | lintDisabled | unobserved | otherCell | heldOutError
  | notGraded
deriving DecidableEq, Repr

/-- Why a commit is not a hit. -/
inductive Reason
  | pending | unobserved | duplicate | notAdmitted | notGraded | scopeFault | outOfScope
  | beforeRegistration | harness | outage | goldRed | lintDisabled | treatmentMismatch
  | disqualified | miss | heldOut | otherCell
deriving DecidableEq, Repr

/-- One commit as an arm reads it. -/
structure CommitReading where
  commit : String
  change : String
  outcome : Option Bool
  left : Option Left
  rowHash : String
  reason : Option Reason
  scope : Option ScopeMiss
deriving DecidableEq, Repr

structure ArmReading where
  arm : String
  look : LookState
  commits : List CommitReading
  descriptive : Bool
  stoppedBy : String
  waiting : Bool
  limit : ℤ
  scopeFaults : List String
  unsealedDropped : ℕ
  duplicateCommits : ℕ
deriving DecidableEq, Repr

/-- The state of an arm: stopped or waiting behind another, undecided by a row it cannot read,
descriptive, or as its look stands. -/
def ArmReading.state (a : ArmReading) : ArmState :=
  if a.stoppedBy ≠ "" then (if a.waiting then .waiting else .stopped)
  else if a.scopeFaults ≠ [] then .undecided
  else if a.descriptive then .descriptive
  else a.look.state

/-- The commits of an arm that did not leave the pool. -/
def ArmReading.kept (a : ArmReading) : List CommitReading := a.commits.filter (·.left = none)

def ArmReading.countedCommits (a : ArmReading) : List String :=
  if a.limit ≠ 0 then
    ((pyTake a.limit a.kept).filter (·.outcome ≠ none)).map CommitReading.commit
  else (a.kept.take a.look.counted).map CommitReading.commit

/-- How an arm's outcomes are looked at: a descriptive arm's are tallied. -/
def armLook (outcomes : List (Option Bool)) (rule : String) (limit : ℤ) (openPool : Bool) :
    Except ReadingError LookState :=
  if limit ≠ 0 then .ok (descriptiveLook outcomes limit) else lookState outcomes rule openPool

section Scope

variable {F N : Type}
/- `_parse_ts`: the instant a time stamp names. -/
variable (parseTs : String → Option ℤ)

/-- The row was written by a run the reading may count. -/
def admittedRun (r : Reading N) (row : Row F) : Bool :=
  r.campaignId = "" || row.str .runId ∈ r.admitted.getD []

/-- Graded strictly after the registration. -/
def gradedAfter (r : Reading N) (row : Row F) : Bool :=
  match parseTs r.registeredAt, parseTs (row.str .created) with
  | some registered, some created => registered < created
  | _, _ => false

/-- `_scope_miss`: `none` for a row that is one of the arm's. -/
def scopeMiss (r : Reading N) (arm : String) (row : Row F) :
    Except ReadingError (Option ScopeMiss) :=
  if row.imported then .ok (some .imported)
  else if row.str .repo ≠ r.repo ∨ row.contextArm ≠ arm ∨ row.str .apparatusVersion ≠ r.apparatus ∨
      row.taxonomy ≠ r.taxonomy ∨ row.cell ≠ r.cell ∨ row.firstRung = false then
    .ok (some .otherReading)
  else if gradedAfter parseTs r row = false then .ok (some .beforeRegistration)
  else
    match parseArm arm with
    | none => .error .armOutsideGrammar
    | some a =>
      if a.prospectiveOnly && !row.heldOutGraded then .ok (some .notHeldOut)
      else if !a.prospectiveOnly && row.postureClass ≠ r.postureClass then .ok (some .posture)
      else if row.checksArm ≠ r.checksArm then .ok (some .checksArm)
      else if a.prospectiveOnly || row.sealed then .ok none
      else .ok (some .unsealed)

/-- `_forward_attempt`: a factory attempt of a ticket, whatever it was graded on. -/
def forwardAttempt (r : Reading N) (row : Row F) : Bool :=
  !row.imported && row.str .repo = r.repo && row.str .processStep = "factory" && row.firstRung &&
    gradedAfter parseTs r row

def forwardMiss (r : Reading N) (arm : String) (row : Row F) : Option ForwardMiss :=
  if row.imported = true ∨ row.str .repo ≠ r.repo ∨ row.str .processStep ≠ "factory" ∨
      row.contextArm ≠ arm ∨ row.str .apparatusVersion ≠ r.apparatus ∨
      row.taxonomy ≠ r.taxonomy ∨ row.firstRung = false ∨ row.heldOutGraded = false then
    some .notCounted
  else if gradedAfter parseTs r row = false then some .notCounted
  else if row.checksArm ≠ r.checksArm then some .checksArm
  else none

/-- What a row of an arm is: of the reading's repository, cell, apparatus, class set and checks arm,
a first attempt graded here after the registration; and, but for the arm of held-out tests, in the
reading's posture class with its builder sealed. -/
structure InScope (r : Reading N) (arm : String) (row : Row F) : Prop where
  notImported : row.imported = false
  repo : row.str .repo = r.repo
  contextArm : row.contextArm = arm
  apparatus : row.str .apparatusVersion = r.apparatus
  taxonomy : row.taxonomy = r.taxonomy
  cell : row.cell = r.cell
  firstRung : row.firstRung = true
  after : ∃ registered created, parseTs r.registeredAt = some registered ∧
    parseTs (row.str .created) = some created ∧ registered < created
  checksArm : row.checksArm = r.checksArm
  sealed : ∀ a, parseArm arm = some a → a.prospectiveOnly = false →
    row.postureClass = r.postureClass ∧ row.sealed = true

variable {parseTs}

lemma gradedAfter_eq_true {r : Reading N} {row : Row F} (h : gradedAfter parseTs r row = true) :
    ∃ registered created, parseTs r.registeredAt = some registered ∧
      parseTs (row.str .created) = some created ∧ registered < created := by
  unfold gradedAfter at h
  split at h
  · rename_i registered created hr hc
    exact ⟨registered, created, hr, hc, of_decide_eq_true h⟩
  · cases h

lemma inScope_of_scopeMiss {r : Reading N} {arm : String} {row : Row F}
    (h : scopeMiss parseTs r arm row = .ok none) : InScope parseTs r arm row := by
  unfold scopeMiss at h
  by_cases hi : row.imported = true
  · rw [if_pos hi] at h
    cases h
  by_cases ho : row.str .repo ≠ r.repo ∨ row.contextArm ≠ arm ∨
      row.str .apparatusVersion ≠ r.apparatus ∨ row.taxonomy ≠ r.taxonomy ∨ row.cell ≠ r.cell ∨
      row.firstRung = false
  · rw [if_neg hi, if_pos ho] at h
    cases h
  by_cases ha : gradedAfter parseTs r row = false
  · rw [if_neg hi, if_neg ho, if_pos ha] at h
    cases h
  rw [if_neg hi, if_neg ho, if_neg ha] at h
  push Not at ho
  obtain ⟨hrepo, harm, happ, htax, hcell, hrung⟩ := ho
  have hafter := gradedAfter_eq_true (by simpa using ha)
  split at h
  · cases h
  · rename_i a hparse
    split_ifs at h with h₁ h₂ h₃ h₄ <;> cases h
    refine ⟨by simpa using hi, hrepo, harm, happ, htax, hcell, by simpa using hrung, hafter,
      not_not.mp h₃, fun a' ha' hp => ?_⟩
    obtain rfl : a = a' := Option.some.inj (hparse.symm.trans ha')
    rw [hp] at h₂ h₄
    exact ⟨by simpa using h₂, by simpa using h₄⟩

lemma isArm_of_scopeMiss {r : Reading N} {arm : String} {row : Row F}
    (h : scopeMiss parseTs r arm row = .ok none) : isArm arm = true := by
  cases hp : parseArm arm with
  | none =>
    simp only [scopeMiss, hp] at h
    split_ifs at h <;> cases h
  | some p => simp [isArm, hp]

/-- An arm of the grammar has an answer for every row. -/
lemma scopeMiss_isOk (parseTs : String → Option ℤ) (r : Reading N) {arm : String} (harm : isArm arm = true) (row : Row F) :
    ∃ miss, scopeMiss parseTs r arm row = .ok miss := by
  obtain ⟨p, hp⟩ := Option.isSome_iff_exists.mp harm
  simp only [scopeMiss, hp]
  split_ifs <;> exact ⟨_, rfl⟩

end Scope

section Sample

/-- A reading of a sample is what its evaluation says. -/
lemma exists_ok_of_map_toOption {ε α β : Type} {x : Except ε α} {f : α → β} {b : β}
    (h : x.toOption.map f = some b) : ∃ a, x = .ok a ∧ f a = b := by
  cases x with
  | error e => cases h
  | ok a => exact ⟨a, rfl, Option.some.inj h⟩

/-- The instants of a registration and of a row graded a day later. -/
def sampleTs (ts : String) : Option ℤ :=
  if ts = "2026-01-01T00:00:00Z" then some 0
  else if ts = "2026-01-02T00:00:00Z" then some 86400 else none

/-- A clean attempt of a commit on the arm `S1@m`, sealed. -/
def sampleRow (commit : String) : Row Whole where
  val
    | .taskId => .str commit
    | .clean => .bool true
    | .trial => .str "r1"
    | .created => .str "2026-01-02T00:00:00Z"
    | f => (plainFields commit "").val f
  labels := [("builder_executor", .str "docker"), ("context_arm", .str "S1@m"),
    ("posture_class", .str "docker/x/sealed")]
  rowHash := commit

def samplePool : List String := "abcdefghijklmnopqrst".toList.map String.singleton

def sampleReading : Reading ℚ where
  schema := "crb.reading.v1"
  repo := (sampleRow "").str .repo
  cell := (sampleRow "").cell
  apparatus := "2.2"
  taxonomy := ""
  postureClass := "docker/x/sealed"
  checksArm := "off"
  hierarchy := ["S1@m"]
  descriptive := []
  rule := "look.v1"
  spend := 21 / 1000
  budget := 5 / 100
  authorModel := "m"
  poolSha256 := ""
  changes := .empty
  maxReruns := 1
  poolRule := "all"
  orgClass := ""
  promotes := ""
  budgetCell := ""
  hypothesis := ""
  smallestEffect := none
  campaignId := ""
  attemptRule := ""
  budgetProfile := ""
  lintDigest := ""
  poolPostureId := ""
  poolQualifications := .empty
  pool := samplePool
  registeredAt := "2026-01-01T00:00:00Z"
  actor := "a"
  readingId := "rdg_1"
  enrolled := []
  admitted := none
  registeredEventId := 0
  reservations := none
  poolDrift := []

end Sample

end CommitReplay.ReadingArms
