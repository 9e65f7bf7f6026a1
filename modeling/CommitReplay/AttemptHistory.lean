import CommitReplay.CampaignStore
import CommitReplay.TransitionRuns

/-! The history of one run: what it reserves, builds and rows, attempt after attempt, and what the
store then says of its spend. -/
namespace CommitReplay.AttemptHistory

open CommitReplay.KeyedTable CommitReplay.KeyedGroups CommitReplay.RunQueue
open CommitReplay.TransitionRuns CommitReplay.CampaignStore

/-- The run, the reading it is filed under and the arm it attempts. -/
structure Context where
  runId : String
  readingId : String
  arm : String
  named : runId ≠ ""

/-- An attempt that reached a reservation or a build: the claim and the hold it was reserved with,
what it cost once built, and whether it has its row. -/
structure Attempt where
  unit : String
  trial : String
  reserved : Option (ℤ × Option ℚ)
  built : Option (Option ℚ)
  rowed : Bool
deriving DecidableEq, Repr

/-- What an attempt without a row is charged: its cost, or its hold when it was never built. -/
def Attempt.charge (a : Attempt) : Option ℚ :=
  match a.built with
  | some cost => cost
  | none => a.reserved.bind (·.2)

/-- The store, beside the attempts that are over and the one that is open. -/
structure State where
  store : Store
  past : List Attempt
  current : Option Attempt

def State.attempts (s : State) : List Attempt := s.past ++ s.current.toList

/-- The attempts of one unit and trial, in order. -/
def State.attemptsAt (s : State) (unit trial : String) : List Attempt :=
  s.attempts.filter fun a => a.unit = unit ∧ a.trial = trial

inductive Label
  | claim
  | reserve (unit eventId treatment : String) (hold : Option ℚ)
  | build (unit trial rung : String) (figure : ℚ) (known : Bool)
  | append (row : Row)
  | author (figure : ℚ) (known : Bool)
  /-- The run is taken back: it is queued again, or failed when that happened too often. -/
  | reclaim (abandoned : Bool)
  | finish (status : Status)

namespace Context

variable (x : Context)

/-- The claims the run has lost so far. -/
def reclaims (s : Store) : ℤ := ((s.runs.get? x.runId).map RunEntry.reclaims).getD 0

def status (s : Store) : Option Status := (s.runs.get? x.runId).map RunEntry.status

def emit (ev : Event) (s : Store) : Store :=
  { s with events := s.events ++ [{ ev with id := s.events.length }] }

/-- The event of a reservation. -/
def reservedEvent (unit eventId treatment : String) (hold : Option ℚ) (claim : ℤ) : Event where
  id := 0
  action := readingReservedAction
  stage := "system"
  traceId := x.readingId
  stepId := x.arm
  taskId := unit
  eventId := eventId
  costUsd := none
  payload :=
    { runId := x.runId, trial := rungR1, treatment := treatment, claim := .num claim
      holdUsd := (hold.map .num).getD .null }

/-- The event of a build's end. -/
def builtEvent (unit trial rung : String) (figure : ℚ) (known : Bool) : Event where
  id := 0
  action := buildDone
  stage := buildStage
  traceId := x.runId
  stepId := ""
  taskId := unit
  eventId := ""
  costUsd := some figure
  payload :=
    { trial := trial, rung := rung, costUsd := .num figure, costKnown := .bool known }

/-- The event of an author's call. -/
def authorEvent (figure : ℚ) (known : Bool) : Event where
  id := 0
  action := authorAttempt
  stage := "author"
  traceId := x.runId
  stepId := ""
  taskId := ""
  eventId := ""
  costUsd := some figure
  payload := { costUsd := .num figure, costKnown := .bool known }

/-- A change of the run's entry. -/
def onRun (f : RunEntry → RunEntry) (hf : ∀ r, (f r).id = r.id) (s : Store) : Store :=
  { s with runs := s.runs.modify x.runId f hf }

def step (s : State) : Label → State
  | .claim => { s with store := x.onRun (fun r => { r with status := .running }) (fun _ => rfl) s.store }
  | .reserve unit eventId treatment hold =>
    { s with
      store := emit (x.reservedEvent unit eventId treatment hold (x.reclaims s.store)) s.store
      current := some ⟨unit, rungR1, some (x.reclaims s.store, hold), none, false⟩ }
  | .build unit trial rung figure known =>
    let cost := if known then some figure else none
    { s with
      store := emit (x.builtEvent unit trial rung figure known) s.store
      current := some (match s.current with
        | some a => { a with built := some cost }
        | none => ⟨unit, trial, none, some cost, false⟩) }
  | .append row =>
    { store := { s.store with rows := s.store.rows ++ [row] }
      past := s.past ++ (s.current.map fun a => { a with rowed := true }).toList
      current := none }
  | .author figure known => { s with store := emit (x.authorEvent figure known) s.store }
  | .reclaim abandoned =>
    { store := x.onRun (fun r => { r with
        status := if abandoned then .failed else .queued, reclaims := r.reclaims + 1 })
        (fun _ => rfl) s.store
      past := s.attempts
      current := none }
  | .finish status =>
    { store := x.onRun (fun r => { r with status := status }) (fun _ => rfl) s.store
      past := s.attempts
      current := none }

/-- The steps of a history. One attempt is open at a time. A unit is reserved once on the arm, under
the run's current claim; what has a row is not attempted again, nor at `r1` what is reserved. -/
def Allowed (s : State) : Label → Prop
  | .claim => x.status s.store = some .queued
  | .reserve unit _ _ hold =>
    x.status s.store = some .running ∧ s.current = none ∧ unit ≠ "" ∧ x.readingId ≠ "" ∧
      (∀ ev ∈ s.store.events, ev.action = readingReservedAction →
        reservedKey ev ≠ (x.readingId, x.arm, unit)) ∧
      (∀ a ∈ s.attemptsAt unit rungR1, a.rowed = false) ∧ ∀ h ∈ hold, 0 ≤ h
  | .build unit trial _ figure _ =>
    x.status s.store = some .running ∧ unit ≠ "" ∧ 0 ≤ figure ∧
      match s.current with
      | some a => a.unit = unit ∧ a.trial = trial ∧ a.built = none
      | none => ∀ a ∈ s.attemptsAt unit trial, a.rowed = false ∧ a.reserved = none
  | .append row =>
    x.status s.store = some .running ∧ 0 ≤ row.costUsd ∧
      ∃ a, s.current = some a ∧ a.built.isSome ∧ row.imported = false ∧
        rowKey row = (x.runId, a.unit, a.trial)
  | .author figure _ => x.status s.store = some .running ∧ 0 ≤ figure
  | .reclaim _ => x.status s.store = some .running
  | .finish status => (∃ st, x.status s.store = some st ∧ active st = true) ∧ active status = false

/-- The run is queued, and nothing of it is in the store yet. -/
structure Fresh (s : State) : Prop where
  run : ∃ r, s.store.runs.get? x.runId = some r ∧ r.readingId = x.readingId ∧ r.status = .queued
  events : ∀ ev ∈ s.store.events, ev.traceId = x.runId → ev.action ≠ buildDone ∧
    ev.action ≠ authorAttempt
  reservations : ∀ ev ∈ s.store.events, ev.action = readingReservedAction →
    ev.payload.runId ≠ x.runId
  rows : ∀ r ∈ s.store.rows, r.runId = x.runId → r.imported = true
  past : s.past = []
  current : s.current = none

end Context

end CommitReplay.AttemptHistory
