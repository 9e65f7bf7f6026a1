import CommitReplay.PythonText

/-! What the intake reads and writes: tickets, the drafts made of them, and the events of its chain, from
which it tells what has been read and what a ticket became. -/
namespace CommitReplay.IntakeRecords

open CommitReplay.PythonText

structure TicketRef where
  key : Text
  revision : Text
deriving DecidableEq

/-- `contentRevision` is the digest of what a person wrote on the ticket, `body` is what they wrote. -/
structure Ticket where
  key : Text
  revision : Text
  author : Text
  contentRevision : Text
  body : Text
deriving DecidableEq

/-- What a draft says of the work: its class and size, the facts and the acceptance criteria. -/
structure Stated where
  capabilityClass : Text
  sizeEstimate : Text
  structuralFacts : List Text
  acceptanceCriteria : List Text
deriving DecidableEq

structure BacklogItem where
  id : Text
  stated : Stated
  supersedes : Text
  ticket : Text
  revision : Text
  contentRevision : Text
deriving DecidableEq

/-- What the gates of this moment make of a draft: the feedback and its label, and whether it is ready. -/
structure Assessment where
  text : Text
  marker : Text
  label : Text
  labelOnceRegistered : Text
  notBuilt : Text
  readyToRegister : Bool
deriving DecidableEq

inductive Kind
  | stopped (step reason : Text)
  | feedback (label : Text)
  | awaiting (item : BacklogItem) (revision contentRevision labelOnceRegistered notBuilt : Text)
  | queued
  | registered (how supersedes approvedBy : Text)
  | read (revision contentRevision : Text) (ready awaitingRegistration : Bool)
  | polled
  | delivered (url : Text)
  | transitioned (outcome state : Text)
deriving DecidableEq

/-- An event of the intake on the chain, of an item, a tracker and a ticket's key. -/
structure Event where
  itemId : Text
  tracker : Text
  key : Text
  kind : Kind
deriving DecidableEq

namespace Kind

def isRead : Kind → Bool
  | read .. => true
  | _ => false

def isRegistered : Kind → Bool
  | registered .. => true
  | _ => false

def isAwaiting : Kind → Bool
  | awaiting .. => true
  | _ => false

end Kind

section Chain

variable (events : List Event) (tracker key : Text)

/-- The newest event of a kind for a ticket. -/
def latest (kind : Kind → Bool) : Option Event :=
  events.reverse.find? fun e => kind e.kind && e.tracker = tracker && e.key = key

/-- This revision was the last one read, and the pass was done with it. -/
def alreadyHandled (revision : Text) : Bool :=
  match latest events tracker key Kind.isRead with
  | some ⟨_, _, _, .read r _ _ awaitingRegistration⟩ => r = revision && !awaitingRegistration
  | _ => false

/-- The item a ticket was last registered as. -/
def itemForTicket : Text :=
  match latest events tracker key Kind.isRegistered with
  | some e => e.itemId
  | none => []

end Chain

/-- What a deployment makes of a ticket: the item's id and its revision's part of one, and what a class set
makes it say. -/
structure Desk where
  tracker : Text
  itemIdFor : Text → Option Text
  revisionPart : Text → Text
  describe : Text → Ticket → Stated

/-- The content moved since the item was registered; an item without a digest goes by the revision. -/
def isEvolution (previous : BacklogItem) (ticket : Ticket) : Bool :=
  if previous.contentRevision ≠ [] then previous.contentRevision ≠ ticket.contentRevision
  else previous.revision ≠ ticket.revision

/-- `draft_from`: a key that no id can be made of is refused. -/
def draftFrom (desk : Desk) (classes : Text) (ticket : Ticket) (previous : Option BacklogItem) :
    Option BacklogItem := do
  let baseId ← desk.itemIdFor ticket.key
  let item : BacklogItem :=
    ⟨baseId, desk.describe classes ticket, [], ticket.key, ticket.revision, ticket.contentRevision⟩
  match previous with
  | none => some item
  | some p =>
    if isEvolution p ticket then
      some { item with id := baseId ++ ".r".toList ++ desk.revisionPart ticket.revision, supersedes := p.id }
    else some { item with id := p.id }

/-- The item an id stands for on the backlog. -/
def itemAt (backlog : List BacklogItem) (id : Text) : Option BacklogItem := backlog.find? (·.id = id)

end CommitReplay.IntakeRecords
