import CommitReplay.CampaignLine
import CommitReplay.KeyedGroups

/-! What the store says of a campaign's runs: the reservations of their readings, the attempts that
spent with no row to place them against, and what each run has spent. A dollar figure is exact. -/
namespace CommitReplay.CampaignStore

open CommitReplay.KeyedTable CommitReplay.KeyedGroups CommitReplay.RunQueue
open CommitReplay.CampaignLine (Spending)

/-- A value of a payload that is not a text. -/
inductive Value
  | null
  | bool (b : Bool)
  | num (x : ℚ)
deriving DecidableEq, Repr

/-- What the events below carry, each key an empty text or `null` where it is not given. -/
structure Payload where
  runId : String := ""
  trial : String := ""
  rung : String := ""
  treatment : String := ""
  claim : Value := .null
  holdUsd : Value := .null
  costUsd : Value := .null
  costKnown : Value := .null
  capUsd : Value := .null
  s1 : Value := .null
  commits : Value := .null
  headroomUsd : Value := .null

structure Event where
  id : ℕ
  action : String
  stage : String
  traceId : String
  stepId : String
  taskId : String
  eventId : String
  costUsd : Option ℚ
  payload : Payload

/-- A run, with the reading it is filed under. -/
structure RunEntry where
  id : String
  status : Status
  reclaims : ℤ
  readingId : String

/-- A ledger row, as far as a tally reads it. -/
structure Row where
  runId : String
  taskId : String
  processStep : String
  itemId : String
  trial : String
  costUsd : ℚ
  costKnown : Bool
  imported : Bool

/-- The tables, the events and the rows in the order of their ids. -/
structure Store where
  events : List Event
  runs : Table RunEntry.id
  rows : List Row

def readingReservedAction : String := "reading.reserved"
def campaignAdmitted : String := "campaign.admitted"
def authorAttempt : String := "author.attempt"
def buildDone : String := "build.done"
def buildStage : String := "build"
def rungR1 : String := "r1"
def processFactory : String := "factory"

/-- Python's `int` of a number. -/
def truncate (x : ℚ) : ℤ := if 0 ≤ x then ⌊x⌋ else ⌈x⌉

/-- `_claim_of`. -/
def claimOf : Value → ℤ
  | .num x => truncate x
  | _ => -1

/-- `_usd_of`. -/
def usdOf : Value → Option ℚ
  | .num x => some x
  | _ => none

/-- `float(value or 0.0)`. -/
def floatOf : Value → ℚ
  | .num x => x
  | .bool true => 1
  | _ => 0

def truthy : Value → Bool
  | .num x => x ≠ 0
  | .bool b => b
  | .null => false

def active (status : Status) : Bool := status = .queued || status = .running

/-- What a reservation names a row's attempt by. -/
def reservationUnit (row : Row) : String :=
  if row.processStep = processFactory then row.itemId else row.taskId

/-- One `reading.reserved` event as the store loads it. -/
structure Reservation where
  arm : String
  taskId : String
  runId : String
  eventId : String
  eventSeqId : ℕ
  claim : ℤ
  treatment : String
  holdUsd : Option ℚ
  settled : Bool

section Reading

variable (s : Store)

/-- A run's reservation is settled: the run is missing, over, or reclaimed past the claim. -/
def isSettled (runId : String) (claim : ℤ) : Bool :=
  match s.runs.get? runId with
  | none => true
  | some run => !active run.status || decide (claim < run.reclaims)

def Reservation.ofEvent (ev : Event) : Reservation where
  arm := ev.stepId
  taskId := ev.taskId
  runId := ev.payload.runId
  eventId := ev.eventId
  eventSeqId := ev.id
  claim := claimOf ev.payload.claim
  treatment := ev.payload.treatment
  holdUsd := usdOf ev.payload.holdUsd
  settled := isSettled s ev.payload.runId (claimOf ev.payload.claim)

/-- The reservation events of some readings. -/
def reservedEvents (readingIds : List String) : List Event :=
  s.events.filter fun ev => ev.action = readingReservedAction ∧ ev.traceId ∈ readingIds

/-- What a reservation is of: its reading, arm and commit. -/
def reservedKey (ev : Event) : String × String × String := (ev.traceId, ev.stepId, ev.taskId)

def reservationsOf (readingIds : List String) : List Reservation :=
  (firsts reservedKey (reservedEvents s (readingIds.filter (· ≠ "")))).map (Reservation.ofEvent s)

/-- An attempt of a run that spent with no row of its run to place it against. -/
structure UnplacedAttempt where
  runId : String
  taskId : String
  trial : String
  rung : String
  costUsd : Option ℚ
  reservationEventId : String
  readingId : String

/-- `_attempt_cost`. -/
def attemptCost (ev : Event) : Option ℚ :=
  if ev.payload.costKnown = .bool false then none
  else match ev.costUsd with
    | some x => some x
    | none => usdOf ev.payload.costUsd

/-- The builds of some runs. -/
def builds (ids : List String) : List Event :=
  s.events.filter fun ev => ev.traceId ∈ ids ∧ ev.action = buildDone ∧ ev.stage = buildStage ∧
    ev.taskId ≠ ""

def buildKey (ev : Event) : String × String × String := (ev.traceId, ev.taskId, ev.payload.trial)

/-- The rows that some runs wrote, an imported one not among them. -/
def rowsOfRuns (ids : List String) : List Row :=
  s.rows.filter fun r => r.runId ∈ ids ∧ r.imported = false

def rowKey (r : Row) : String × String × String := (r.runId, reservationUnit r, r.trial)

/-- `rowed[key]`. -/
def rowed (ids : List String) (k : String × String × String) : ℕ :=
  (group rowKey (rowsOfRuns s ids) k).length

/-- `reading_of`, of the runs that exist. -/
def readingOf (ids : List String) (runId : String) : String :=
  if runId ∈ ids then ((s.runs.get? runId).map RunEntry.readingId).getD "" else ""

/-- The reservations of these runs, under their readings. -/
def reservationsOfRuns (ids : List String) : List Reservation :=
  (reservationsOf s (ids.map (readingOf s ids))).filter fun res =>
    res.runId ∈ ids ∧ (s.runs.get? res.runId).isSome

def reservationKey (res : Reservation) : String × String := (res.runId, res.taskId)

/-- `reserved.get(key)`: of two under one key the later stands. -/
def reservedAt (ids : List String) (k : String × String) : Option Reservation :=
  (group reservationKey (reservationsOfRuns s ids) k).getLast?

/-- `ended`. -/
def ended (runId : String) : Bool :=
  match s.runs.get? runId with
  | none => true
  | some run => !active run.status

/-- The reservation that a key's builds were made under. -/
def buildReservation (ids : List String) (k : String × String × String) : Option Reservation :=
  if k.2.2 = rungR1 then reservedAt s ids (k.1, k.2.1) else none

/-- The builds of one key beyond its rows, once they are settled. -/
def unplacedBuilds (ids : List String) (k : String × String × String) : List UnplacedAttempt :=
  let events := group buildKey (builds s ids) k
  let res := buildReservation s ids k
  if ended s k.1 || res.any (·.settled) then
    (events.take (events.length - rowed s ids k)).map fun ev =>
      ⟨k.1, k.2.1, k.2.2, ev.payload.rung, attemptCost ev, (res.map (·.eventId)).getD "",
        if res.isSome then readingOf s ids k.1 else ""⟩
  else []

/-- A settled reservation that was neither built nor rowed. -/
def unplacedReservation (ids : List String) (k : String × String) : List UnplacedAttempt :=
  match reservedAt s ids k with
  | none => []
  | some res =>
    if res.settled ∧ (k.1, k.2, rungR1) ∉ keysOf buildKey (builds s ids) ∧
        rowed s ids (k.1, k.2, rungR1) = 0 then
      [⟨k.1, k.2, rungR1, "", res.holdUsd, res.eventId, readingOf s ids k.1⟩]
    else []

def unplacedAttempts (runIds : List String) : List UnplacedAttempt :=
  let ids := runIds.filter (· ≠ "")
  (keysOf buildKey (builds s ids)).flatMap (unplacedBuilds s ids) ++
    (keysOf reservationKey (reservationsOfRuns s ids)).flatMap (unplacedReservation s ids)

end Reading

section Members

/-- `Spend`: what a run has spent, on attempts and on authoring. -/
structure Spend where
  spent : ℚ
  dearest : ℚ
  unknown : ℕ
  dearestAuthoring : ℚ

def Spend.ofRows (rows : List Row) : Spend where
  spent := (rows.map (·.costUsd)).sum
  dearest := (rows.map (·.costUsd)).foldl max 0
  unknown := rows.countP (!·.costKnown)
  dearestAuthoring := 0

/-- A call's cost: the event's column, else its payload's figure. -/
def callCost (ev : Event) : ℚ :=
  match ev.costUsd with
  | some x => x
  | none => floatOf ev.payload.costUsd

def Spend.withAuthoring (spend : Spend) (calls : List Event) : Spend where
  spent := spend.spent + (calls.map callCost).sum
  dearest := spend.dearest
  unknown := spend.unknown + calls.countP fun ev => ev.payload.costKnown ≠ .bool true
  dearestAuthoring := (calls.map callCost).foldl max spend.dearestAuthoring

/-- `MemberRun` as the store fills it. -/
structure Member extends Spending where
  runId : String
  status : Option Status
  capUsd : ℚ
  s1 : Bool
  commits : ℤ
  headroomUsd : ℚ

def Member.spentUsd (m : Member) : ℚ := m.rowsUsd + m.authoringUsd + m.unrowedUsd

variable (s : Store)

/-- The admissions of a campaign that name a run. -/
def admissions (campaignId : String) : List Payload :=
  ((s.events.filter fun ev => ev.traceId = campaignId ∧ ev.action = campaignAdmitted).map
    (·.payload)).filter (·.runId ≠ "")

def authorCalls (ids : List String) (runId : String) : List Event :=
  s.events.filter fun ev => ev.traceId ∈ ids ∧ ev.action = authorAttempt ∧ ev.traceId = runId

/-- What one of the runs has spent. -/
def spendingOf (ids : List String) (runId : String) : Spending :=
  let rows := (rowsOfRuns s ids).filter (·.runId = runId)
  let own := Spend.ofRows rows
  let total := own.withAuthoring (authorCalls s ids runId)
  let lost := (unplacedAttempts s ids).filter (·.runId = runId)
  { commitsDone := (keysOf (·.taskId) rows).length
    rowsUsd := own.spent
    dearestRowUsd := own.dearest
    rowsUnknown := own.unknown
    authoringUsd := total.spent - own.spent
    dearestAuthorUsd := total.dearestAuthoring
    authorsUnknown := total.unknown - own.unknown
    unrowedUsd := (lost.filterMap (·.costUsd)).sum
    unrowed := lost.length
    unrowedUnknown := lost.countP (·.costUsd.isNone) }

def members (campaignId : String) : List Member :=
  let admitted := admissions s campaignId
  let ids := admitted.map (·.runId)
  admitted.map fun a =>
    { spendingOf s ids a.runId with
      runId := a.runId
      status := (s.runs.get? a.runId).map RunEntry.status
      capUsd := floatOf a.capUsd
      s1 := truthy a.s1
      commits := truncate (floatOf a.commits)
      headroomUsd := floatOf a.headroomUsd }

end Members

end CommitReplay.CampaignStore
