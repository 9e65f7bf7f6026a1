import CommitReplay.JsonlLedger
import CommitReplay.JsonQuotes
import CommitReplay.PythonRepr
import CommitReplay.Redaction

/-! The factory's evidence: one event a governed step, its payload redacted whenever an event is
constructed, on a chain of hashes kept in memory or as the lines of a file. -/
namespace CommitReplay.FactoryEvents

open CommitReplay.PythonText CommitReplay.JsonValue CommitReplay.JsonText CommitReplay.JsonRoundTrip
open CommitReplay.GradeRows CommitReplay.JsonlTail CommitReplay.JsonlLedger CommitReplay.Redaction
open CommitReplay.JsonQuotes

inductive EventKind
  | backlogFrozen | backlogEvolved | gapSignoff | readiness | route | redProof | redRefused | build
  | delivery | deliveryUpdated | deliveryRefused | deliveryMerged | deliveryClosed | verdict | edit
  | checkpoint | itemOutcome | probeWaived | entryRefused | calibrationFunded | calibrationClaimed
  | acceptanceGraded | acceptanceNotGraded | intakePolled | intakeRead | intakeFeedback
  | intakeRegistered | intakeQueued | intakeDelivered | intakeTransitioned | intakeStopped
  | intakeAwaiting
deriving DecidableEq, Repr

namespace EventKind

def all : List EventKind := [.backlogFrozen, .backlogEvolved, .gapSignoff, .readiness, .route,
  .redProof, .redRefused, .build, .delivery, .deliveryUpdated, .deliveryRefused, .deliveryMerged,
  .deliveryClosed, .verdict, .edit, .checkpoint, .itemOutcome, .probeWaived, .entryRefused,
  .calibrationFunded, .calibrationClaimed, .acceptanceGraded, .acceptanceNotGraded, .intakePolled,
  .intakeRead, .intakeFeedback, .intakeRegistered, .intakeQueued, .intakeDelivered,
  .intakeTransitioned, .intakeStopped, .intakeAwaiting]

def text : EventKind → String
  | .backlogFrozen => "backlog.frozen"
  | .backlogEvolved => "backlog.evolved"
  | .gapSignoff => "gap.signoff"
  | .readiness => "readiness.assessed"
  | .route => "route.decided"
  | .redProof => "red.proved"
  | .redRefused => "red.refused"
  | .build => "build.graded"
  | .delivery => "delivery.opened"
  | .deliveryUpdated => "delivery.updated"
  | .deliveryRefused => "delivery.refused"
  | .deliveryMerged => "delivery.merged"
  | .deliveryClosed => "delivery.closed"
  | .verdict => "review.verdict"
  | .edit => "edit.permitted"
  | .checkpoint => "horizon.checkpoint"
  | .itemOutcome => "item.outcome"
  | .probeWaived => "review.probe_waived"
  | .entryRefused => "entry.refused"
  | .calibrationFunded => "calibration.funded"
  | .calibrationClaimed => "calibration.claimed"
  | .acceptanceGraded => "acceptance.graded"
  | .acceptanceNotGraded => "acceptance.not_graded"
  | .intakePolled => "intake.polled"
  | .intakeRead => "intake.read"
  | .intakeFeedback => "intake.feedback.posted"
  | .intakeRegistered => "intake.registered"
  | .intakeQueued => "intake.queued"
  | .intakeDelivered => "intake.delivered"
  | .intakeTransitioned => "intake.transitioned"
  | .intakeStopped => "intake.stopped"
  | .intakeAwaiting => "intake.awaiting_approval"

def ofText (s : String) : Option EventKind := all.find? fun k => k.text = s

lemma ofText_text (k : EventKind) : ofText k.text = some k := by
  cases k <;> rfl

end EventKind

inductive EventError
  | noKind | unknownKind (kind : String)
  /-- A field of another type than it is declared with, which no writer of events gives. -/
  | untyped
  | unreadableLine | lastWithoutHash
  | prevHashMismatch (n : ℕ) (kind : EventKind) | rowHashMismatch (n : ℕ) (kind : EventKind)
deriving DecidableEq, Repr

variable {F : Type}

/-- A dictionary of JSON values, in key order throughout. -/
abbrev Payload (F : Type) := { ps : List (String × Json F) // Canonical (.obj ps) }

namespace Payload

def of (ps : List (String × Json F)) : Payload F :=
  ⟨ofPairs (normalFields ps), by
    have h := canonical_normal (.obj ps)
    rwa [normal] at h⟩

def get (p : Payload F) (k : String) : Option (Json F) := p.1.lookup k

/-- A payload built from pairs of distinct keys holds each of them. -/
lemma get_of {ps : List (String × Json F)} (hn : (ps.map Prod.fst).Nodup) {k : String} {v : Json F}
    (h : (k, v) ∈ ps) : (of ps).get k = some (normal v) := by
  have hkeys : ((normalFields ps).map Prod.fst).Nodup := by
    rw [normalFields_eq, List.map_map]
    exact hn
  have hmem : (k, normal v) ∈ normalFields ps := by
    rw [normalFields_eq]
    exact List.mem_map_of_mem (f := fun p : String × Json F => (p.1, normal p.2)) h
  exact lookup_ofPairs_of_mem hkeys hmem

/-- `_redact_value` of a payload: the strings at any depth, and no key. -/
def redact (isWide : Char → Bool) (p : Payload F) : Payload F :=
  ⟨mapStringsFields (Redaction.redact isWide) p.1, by
    have h := canonical_mapStrings (Redaction.redact isWide) p.2
    rwa [mapStrings] at h⟩

end Payload

def factoryEvidenceSchema : String := "crb.factory.evidence.v1"

structure FactoryEvent (F : Type) where
  kind : EventKind
  itemId : String
  payload : Payload F
  actor : String
  repo : String
  created : String
  schema : String
  eventId : String
  prevHash : String
  rowHash : String
  named : eventId ≠ ""

namespace FactoryEvent

section Constructor

variable (isWide : Char → Bool)

/-- The constructor: it redacts the payload and names an event that has no name. -/
def make (uuid : Uuid) (kind : EventKind) (itemId : String) (payload : Payload F)
    (actor repo created schema eventId prevHash rowHash : String) : FactoryEvent F where
  kind := kind
  itemId := itemId
  payload := payload.redact isWide
  actor := actor
  repo := repo
  created := created
  schema := schema
  eventId := if eventId = "" then uuid.1 else eventId
  prevHash := prevHash
  rowHash := rowHash
  named := by
    split_ifs with h
    · exact uuid.2
    · exact h

/-- The event constructed again from its own fields. -/
def reread (e : FactoryEvent F) : FactoryEvent F := { e with payload := e.payload.redact isWide }

lemma make_self (uuid : Uuid) (e : FactoryEvent F) :
    make isWide uuid e.kind e.itemId e.payload e.actor e.repo e.created e.schema e.eventId
      e.prevHash e.rowHash = e.reread isWide := by
  simp only [make, if_neg e.named, reread]

end Constructor

section Hashing

/-- `body()`: every field but the row's own hash. -/
def bodyItems (e : FactoryEvent F) : List (String × Json F) :=
  [("kind", .str e.kind.text), ("item_id", .str e.itemId), ("payload", .obj e.payload.1),
    ("actor", .str e.actor), ("repo", .str e.repo), ("created", .str e.created),
    ("schema", .str e.schema), ("event_id", .str e.eventId), ("prev_hash", .str e.prevHash)]

def body (e : FactoryEvent F) : Json F := .obj (ofPairs e.bodyItems)

def items (e : FactoryEvent F) : List (String × Json F) :=
  e.bodyItems ++ [("row_hash", .str e.rowHash)]

def toDict (e : FactoryEvent F) : Json F := .obj (ofPairs e.items)

variable [PyFloat F] (sha256 : Sha256) (isWide : Char → Bool)

def computeHash (e : FactoryEvent F) : String := sha256.hex (canonicalJson e.body)

/-- A copy on the chain after `prev`; copying constructs the event again. -/
def chained (prev : String) (e : FactoryEvent F) : FactoryEvent F :=
  let copy := { e.reread isWide with prevHash := prev }
  { copy with rowHash := copy.computeHash sha256 }

def verifyHash (e : FactoryEvent F) : Bool := e.rowHash ≠ "" && e.rowHash = e.computeHash sha256

end Hashing

section Fields

variable [PyFloat F] (sha256 : Sha256) (isWide : Char → Bool) (prev : String) (e : FactoryEvent F)

omit [PyFloat F] in
@[simp] lemma kind_reread : (e.reread isWide).kind = e.kind := rfl

omit [PyFloat F] in
@[simp] lemma itemId_reread : (e.reread isWide).itemId = e.itemId := rfl

omit [PyFloat F] in
@[simp] lemma eventId_reread : (e.reread isWide).eventId = e.eventId := rfl

omit [PyFloat F] in
@[simp] lemma payload_reread : (e.reread isWide).payload = e.payload.redact isWide := rfl

@[simp] lemma kind_chained : (e.chained sha256 isWide prev).kind = e.kind := rfl

@[simp] lemma itemId_chained : (e.chained sha256 isWide prev).itemId = e.itemId := rfl

@[simp] lemma eventId_chained : (e.chained sha256 isWide prev).eventId = e.eventId := rfl

@[simp] lemma payload_chained :
    (e.chained sha256 isWide prev).payload = e.payload.redact isWide := rfl

end Fields

section Reading

variable (isWide : Char → Bool) (now : String) (uuid : Uuid)

/-- A field that is a string, or its default. -/
def strItem (d : List (String × Json F)) (k default : String) : Except EventError String :=
  match d.lookup k with
  | none => .ok default
  | some (.str s) => .ok s
  | some _ => .error .untyped

def kindItem (d : List (String × Json F)) : Except EventError EventKind :=
  match d.lookup "kind" with
  | none => .error .noKind
  | some (.str s) => ((EventKind.ofText s).map .ok).getD (.error (.unknownKind s))
  | some _ => .error .untyped

def payloadItem (d : List (String × Json F)) : Except EventError (Payload F) :=
  match d.lookup "payload" with
  | none => .ok (Payload.of [])
  | some (.obj ps) => .ok (Payload.of ps)
  | some _ => .error .untyped

/-- `from_dict`: unknown keys are ignored, missing ones have their defaults. -/
def fromDict (d : List (String × Json F)) : Except EventError (FactoryEvent F) := do
  let kind ← kindItem d
  let payload ← payloadItem d
  return make isWide uuid kind (← strItem d "item_id" "") payload (← strItem d "actor" "")
    (← strItem d "repo" "") (← strItem d "created" now)
    (← strItem d "schema" factoryEvidenceSchema) (← strItem d "event_id" "")
    (← strItem d "prev_hash" "") (← strItem d "row_hash" "")

end Reading

end FactoryEvent

end CommitReplay.FactoryEvents
