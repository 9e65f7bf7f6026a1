import CommitReplay.ReadingRows

/-! The record of a registered reading, and what is read into it later: the tickets a forward
reading enrolled, the runs its campaign admitted, and the attempts reserved for its commits. -/
namespace CommitReplay.ReadingRecord

open CommitReplay.ReadingRows CommitReplay.LookRule

variable {N : Type}

/-- What a reading registers, without who registered it and when, and without its pool's list. Its numbers
are of the type the file's numbers are read as. -/
structure Content (N : Type) where
  schema : String
  repo : String
  cell : Dict
  apparatus : String
  taxonomy : String
  postureClass : String
  checksArm : String
  hierarchy : List String
  descriptive : List (String × ℤ)
  rule : String
  spend : N
  budget : N
  authorModel : String
  poolSha256 : String
  changes : Dict
  maxReruns : ℤ
  poolRule : String
  orgClass : String
  promotes : String
  budgetCell : String
  hypothesis : String
  smallestEffect : Option N
  campaignId : String
  attemptRule : String
  budgetProfile : String
  lintDigest : String
  poolPostureId : String
  poolQualifications : Dict
deriving DecidableEq

/-- The registered body, which its identifier is the digest of. -/
structure Body (N : Type) extends Content N where
  pool : List String
  registeredAt : String
  actor : String
deriving DecidableEq

/-- The attempt reserved for one commit on one arm, before its build. -/
structure Reservation where
  arm : String
  taskId : String
  runId : String
  eventId : String
  eventSeqId : ℤ
  claim : ℤ
  treatment : String
  settled : Bool
deriving DecidableEq

structure Reading (N : Type) extends Body N where
  readingId : String
  enrolled : List (String × String)
  admitted : Option (List String)
  registeredEventId : ℤ
  reservations : Option (List Reservation)
  poolDrift : List Dict

def attemptRuleLegacy : String := "first_observed.v0"

def attemptRuleReserved : String := "reserved.v1"

def poolRuleCalibration : String := "calibration-builds"

/-- A reserved reading of a pool frozen at registration pins the pool to its records. -/
def pinsPool (attemptRule poolRule : String) : Bool :=
  attemptRule = attemptRuleReserved && poolRule ≠ poolRuleCalibration

/-- What the constructor makes of a body: the legacy rule has no name, a legacy reading no profile
and no lint digest, and only a pinned pool a posture and records. -/
def Body.normalize (b : Body N) : Body N :=
  let attemptRule := if b.attemptRule = attemptRuleLegacy then "" else b.attemptRule
  let pinned := pinsPool attemptRule b.poolRule
  { b with
    attemptRule := attemptRule
    budgetProfile := if attemptRule = "" then "" else b.budgetProfile
    lintDigest := if attemptRule = "" then "" else b.lintDigest
    poolPostureId := if pinned then b.poolPostureId else ""
    poolQualifications := if pinned then b.poolQualifications else Dict.empty }

def cellFields : List String :=
  ["process_step", "capability_class", "size", "language", "builder", "model", "provider"]

def canonicalCellKey (cell : Dict) : String := "|".intercalate (cellFields.map cell.get)

def readingCellKey (cell : Dict) (orgClass : String) : String :=
  if orgClass = "" then canonicalCellKey cell else canonicalCellKey cell ++ "|" ++ orgClass

namespace Reading

variable (r : Reading N)

def cellKey : String := readingCellKey r.cell r.orgClass

/-- What one error budget is kept per: for a forward reading, the cell of its ceiling. -/
def budgetKey : String × String × String × String :=
  (r.repo, if r.budgetCell = "" then r.cellKey else r.budgetCell, r.apparatus, r.taxonomy)

def admissionsUnread : Bool := r.campaignId ≠ "" && r.admitted.isNone

def reserved : Bool := r.attemptRule = attemptRuleReserved

def reservationsUnread : Bool :=
  r.reserved && (r.reservations.isNone || r.registeredEventId ≤ 0)

/-- A forward reading, whose pool is the calibration builds enrolled after registration. -/
def prospective : Bool := r.poolRule = poolRuleCalibration

def arms : List String := r.hierarchy ++ r.descriptive.map Prod.fst

/-- The reservation kept for a commit on an arm. -/
def reservation (arm unit : String) : Option Reservation :=
  (r.reservations.getD []).find? fun res => res.arm = arm && res.taskId = unit

/-- `reading.changes.get(commit) or commit`. -/
def changeOf (commit : String) : String :=
  if r.changes.get commit = "" then commit else r.changes.get commit

end Reading

section ReadIn

/-- The first of two reservations of one commit on one arm, by the order of their events. -/
def keepFirst (kept : List Reservation) (res : Reservation) : List Reservation :=
  match kept.find? fun k => k.arm = res.arm && k.taskId = res.taskId with
  | none => kept ++ [res]
  | some k =>
    if res.eventSeqId < k.eventSeqId then
      kept.map fun k => if k.arm = res.arm ∧ k.taskId = res.taskId then res else k
    else kept

def withReservations (r : Reading N) (reservations : List Reservation) (registeredEventId : ℤ) :
    Reading N :=
  if r.reserved then
    { r with reservations := some (reservations.foldl keepFirst []), registeredEventId }
  else r

def withAdmissions (r : Reading N) (runIds : List String) : Reading N :=
  if r.campaignId = "" then r else { r with admitted := some (runIds.filter (· ≠ "")) }

end ReadIn

section Enrolment

/-- `out[:n]` with Python's reading of a negative bound. -/
def pyTake {α : Type} (n : ℤ) (xs : List α) : List α :=
  if 0 ≤ n then xs.take n.toNat else xs.take (xs.length - (-n).toNat)

def descriptiveCount (r : Reading N) (arm : String) (limit : ℤ) : ℤ :=
  if limit ≠ 0 then limit
  else if arm ∈ r.hierarchy then 0
  else (r.descriptive.reverse.lookup arm).getD 0

/-- The commits of a pool whose change is not an earlier one's. -/
def distinctChanges (r : Reading N) (seen : List String) : List String → List String
  | [] => []
  | commit :: pool =>
    if r.changeOf commit ∈ seen then distinctChanges r seen pool
    else commit :: distinctChanges r (r.changeOf commit :: seen) pool

/-- The commits an arm of a reserved reading reads, fixed at registration. -/
def enrolledCommits (r : Reading N) (arm : String) (limit : ℤ) : List String :=
  if arm ∉ r.arms then []
  else
    let out := distinctChanges r [] r.pool
    let n := descriptiveCount r arm limit
    if n = 0 then out else pyTake n out

/-- What is enrolled was fixed at registration. -/
lemma enrolledCommits_eq_of_body {r r' : Reading N} (h : r'.toBody = r.toBody) (arm : String)
    (limit : ℤ) : enrolledCommits r' arm limit = enrolledCommits r arm limit := by
  have hchange : r'.changeOf = r.changeOf := by
    funext commit
    simp only [Reading.changeOf, h]
  have hdistinct : ∀ pool seen, distinctChanges r' seen pool = distinctChanges r seen pool := by
    intro pool
    induction pool with
    | nil => exact fun _ => rfl
    | cons commit pool ih =>
      intro seen
      simp only [distinctChanges, hchange, ih]
  have harms : r'.arms = r.arms := by simp only [Reading.arms, h]
  have hcount : descriptiveCount r' arm limit = descriptiveCount r arm limit := by
    unfold descriptiveCount
    rw [h]
  unfold enrolledCommits
  rw [harms, hcount, hdistinct, h]

end Enrolment

end CommitReplay.ReadingRecord
