import CommitReplay.Interleavings
import CommitReplay.DecimalRounding
import CommitReplay.IntakeRecords

/-! A repository's intake lease, one row of a table, and the tracker as a pass that holds the lease may
use it. -/
namespace CommitReplay.IntakeLeases

open CommitReplay.PythonText CommitReplay.DecimalRounding CommitReplay.Interaction
open CommitReplay.IntakeRecords

/-- A token drawn for each lease: no two parties share one. -/
abbrev Holder := ℕ

/-- A moment as the row stores it, in microseconds. -/
abbrev Stamp := ℤ

def iso (ts : ℚ) : Stamp := roundHalfEven (ts * 10 ^ 6)

def epoch (stamp : Stamp) : ℚ := stamp / 10 ^ 6

structure WorkerRow where
  hostname : Holder
  started : Stamp
  heartbeat : Stamp
  heartbeatS : ℚ
deriving DecidableEq

/-- A note the loop owes a ticket: its text, and the address it links. -/
structure Note where
  itemId : Text
  key : Text
  url : Text
  text : Text
deriving DecidableEq

structure Move where
  itemId : Text
  key : Text
  outcome : Text
  state : Text
deriving DecidableEq

/-- Each is one step of a party: a statement on the lease's row, a call of the tracker, or a call of
the rest of the deployment. -/
inductive Op
  | clock
  | getRow | insertRow (row : WorkerRow) | takeRow (hostname : Holder) (heartbeat : Stamp) (row : WorkerRow)
  | stampRow (hostname : Holder) (heartbeat : Stamp) | deleteRow (hostname : Holder)
  | consented | commitSwitch
  | entered | read (key : Text) | comment (key text marker : Text) | label (key value : Text)
  | transition (key state : Text) | link (key url : Text)
  | monotonic | events | cachedRow (key : Text) | backlog | classSet | assess (item : BacklogItem)
  | runActive | register (item : BacklogItem) | append (event : Event) | writeView | notes | moves
deriving DecidableEq

/-- Insertions answer whether the row was free, updates whether they found the row. -/
abbrev Op.Ans : Op → Type
  | clock | monotonic => ℚ
  | getRow => Option WorkerRow
  | insertRow _ | takeRow .. | stampRow .. | consented | cachedRow _ | runActive => Bool
  | entered => List TicketRef
  | read _ => Ticket
  | events => List Event
  | backlog => Option (List BacklogItem)
  | classSet => Text
  | assess _ => Assessment
  | register _ => Text
  | notes => List Note × List Note
  | moves => List Move
  | deleteRow _ | commitSwitch | comment .. | label .. | transition .. | link .. | append _
  | writeView => Unit

/-- An exception of a call: the tracker's, with its reason, the file system's, or another. -/
inductive Fault
  | trackerError (reason : Text)
  | osError
  | other
deriving DecidableEq

abbrev face : Interface := ⟨Op, Op.Ans, Fault⟩

/-- The code of a refusal. -/
abbrev Refusal := Text

/-- What a pass's tracker and its budget remember. -/
structure Locals where
  lost : Bool := false
  announced : Bool := false
  fired : Bool := false

abbrev Step (α : Type) := Prog face Refusal Locals α

def ask (op : Op) : Step op.Ans := Prog.call (I := face) op

/-- A statement under a condition. -/
def ifThen (b : Bool) (p : Step Unit) : Step Unit := if b then p else pure ()

/-- `except TrackerError`; other exceptions go on. -/
def catching {α : Type} (p : Step α) (handler : Text → Step α) : Step α :=
  p.attempt fun e =>
    match e with
    | .raised (.trackerError reason) => handler reason
    | e => .halt e

def raiseTracker {α : Type} (reason : Text) : Step α := Prog.raise (I := face) (.trackerError reason)

section Lease

variable (holder : Holder)

/-- `DbLease.acquire`: the row is read, and then inserted, or taken over where it was too old. -/
def acquire (ttlS : ℚ) : Step Bool := do
  let now ← ask .clock
  match ← ask .getRow with
  | none => ask (.insertRow ⟨holder, iso now, iso now, ttlS⟩)
  | some row =>
    if now - epoch row.heartbeat ≤ row.heartbeatS then pure false
    else ask (.takeRow row.hostname row.heartbeat ⟨holder, iso now, iso now, ttlS⟩)

/-- `DbLease.renew`. -/
def renew : Step Bool := do
  let now ← ask .clock
  ask (.stampRow holder (iso now))

/-- `DbLease.release`. -/
def release : Step Unit := ask (.deleteRow holder)

end Lease

section Fence

variable (holder : Holder)

def reasonLeaseLost : Text := "lease_lost".toList

def lose : Step Unit := do
  Prog.modify fun s => { s with lost := true, announced := true }
  raiseTracker reasonLeaseLost

/-- `_hold`: once lost, it raises without asking the store. -/
def hold : Step Unit := do
  let s ← Prog.get
  if s.lost then lose
  else do
    let held ← renew holder
    if held then pure () else lose

/-- `_held_after_write`: the write is applied, so a lost lease is marked and not raised. -/
def heldAfterWrite : Step Unit := do
  let s ← Prog.get
  if s.lost then pure ()
  else do
    let held ← renew holder
    if held then pure () else Prog.modify fun s => { s with lost := true }

/-- A verb that reads. -/
def fencedRead (op : Op) : Step op.Ans := do
  hold holder
  let answer ← ask op
  hold holder
  pure answer

/-- A verb that writes. -/
def fencedWrite (op : Op) : Step Unit := do
  hold holder
  let _ ← ask op
  heldAfterWrite holder

namespace Fenced

def entered : Step (List TicketRef) := fencedRead holder .entered

def read (key : Text) : Step Ticket := fencedRead holder (.read key)

def comment (key text marker : Text) : Step Unit := fencedWrite holder (.comment key text marker)

def label (key value : Text) : Step Unit := fencedWrite holder (.label key value)

def transition (key state : Text) : Step Unit := fencedWrite holder (.transition key state)

def link (key url : Text) : Step Unit := fencedWrite holder (.link key url)

end Fenced

end Fence

end CommitReplay.IntakeLeases
