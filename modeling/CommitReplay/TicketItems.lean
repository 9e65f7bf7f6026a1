import CommitReplay.BacklogRecord
import CommitReplay.Slugs
import CommitReplay.TransitionRuns

/-! One ticket becomes one draft backlog item: the id it gets, the digest of its content, and the draft that
names its item again, makes its first one, or supersedes it. -/
namespace CommitReplay.TicketItems

open CommitReplay.PythonText CommitReplay.JsonValue CommitReplay.JsonText CommitReplay.GradeRows
open CommitReplay.SlotReadiness (ItemKind Tier)
open CommitReplay.BacklogRecord CommitReplay.Slugs

section Ids

def idMaxLen : ℕ := 64

/-- The characters outside `_ID_ILLEGAL`. -/
def isLegal (c : Char) : Bool := c.isLower || c.isDigit || c = '.' || c = '_' || c = '-'

def isEdge (c : Char) : Bool := c = '-' || c = '.'

def stripEdges (s : Text) : Text := (s.dropWhile isEdge).rdropWhile isEdge

/-- `_ID_ILLEGAL.sub("-", text.lower())`. -/
def sanitise (text : Text) : Text := collapse isLegal '-' false (lower text)

def keySlug (key : Text) : Text := stripEdges (sanitise key)

/-- The slug of a tracker and a key's slug. -/
def slugOf (tracker keySlug : Text) : Text := stripEdges (sanitise (tracker ++ '-' :: keySlug))

inductive DraftError
  | noCharacters (key : Text)
  | notUsable (key : Text)
  | backlog (e : BacklogError)
deriving DecidableEq

variable (sha256 : Sha256)

def hexdigest (n : ℕ) (text : Text) : Text := (sha256.hex text).toList.take n

/-- What an id that has to be shortened is. -/
def shortened (tracker key slug : Text) : Text :=
  (slug.take (idMaxLen - 9)).rdropWhile isEdge ++ '-' :: hexdigest sha256 8 (tracker ++ '-' :: key)

def itemIdFor (tracker key : Text) : Except DraftError Text :=
  if keySlug key = [] then .error (.noCharacters key)
  else
    let slug := slugOf tracker (keySlug key)
    if ¬ slug.head?.any Char.isAlphanum then .error (.notUsable key)
    else if slug.length ≤ idMaxLen then .ok slug
    else .ok (shortened sha256 tracker key slug)

end Ids

section Tickets

/-- A ticket, as far as a draft of it reads it; its key is more than white space. -/
structure Ticket (F : Type) where
  key : Text
  title : String
  body : String
  acceptanceCriteria : List String
  type : String
  tags : List String
  points : Option F
  revision : Text
  links : List String
  url : String
  state : String
  keyed : strip key ≠ []

def stateLabels : List Text :=
  ["crb:needs-info".toList, "crb:ready".toList, "crb:not-deliverable".toList, "crb:queued".toList]

variable {F : Type} (casefold : Text → Text)

def isStateLabel (tag : String) : Bool := casefold (strip tag.toList) ∈ stateLabels

/-- The tags without the product's own state labels. -/
def contentTags (ticket : Ticket F) : List String := ticket.tags.filter fun t => ¬ isStateLabel casefold t

variable [PyFloat F]

/-- What a draft is made of, its keys in order as they are printed. -/
def contentOf (ticket : Ticket F) : Json F :=
  .obj [("acceptance_criteria", .arr (ticket.acceptanceCriteria.map .str)), ("body", .str ticket.body),
    ("points", ticket.points.elim .null .float),
    ("tags", .arr (((contentTags casefold ticket).insertionSort (· ≤ ·)).map .str)),
    ("title", .str ticket.title), ("type", .str ticket.type), ("url", .str ticket.url)]

def encoded (ticket : Ticket F) : Text := dumps [' '] (contentOf casefold ticket)

variable (sha256 : Sha256)

def contentRevision (ticket : Ticket F) : Text := hexdigest sha256 16 (encoded casefold ticket)

end Tickets

section Drafts

/-- What the classification of a ticket, its size, kind and level, and its fact lines come to. -/
structure Reading where
  kind : ItemKind
  capabilityClass : String
  size : Option Tier
  level : Level
  facts : List String
  prose : List String

structure Draft where
  item : BacklogItem
  isEvolution : Bool

/-- The record a draft is made under: its tracker, and how a ticket's words are read. -/
structure Desk (F : Type) where
  tracker : Text
  casefold : Text → Text
  sha256 : Sha256
  read : Ticket F → Reading

variable {F : Type} [PyFloat F] (desk : Desk F)

def label (item : BacklogItem) (name : String) : String := (item.labels.lookup name).getD ""

/-- An item without a digest goes by the revision. -/
def isEvolution (ticket : Ticket F) (previous : BacklogItem) : Bool :=
  if label previous "content_revision" ≠ "" then
    label previous "content_revision" ≠ .ofList (contentRevision desk.casefold desk.sha256 ticket)
  else label previous "revision" ≠ .ofList ticket.revision

def labelsOf (ticket : Ticket F) : List (String × String) :=
  [("tracker", .ofList desk.tracker), ("ticket", .ofList ticket.key), ("revision", .ofList ticket.revision),
    ("content_revision", .ofList (contentRevision desk.casefold desk.sha256 ticket)), ("source", "intake")] ++
    (if ticket.url = "" then [] else [("url", ticket.url)]) ++
    (if contentTags desk.casefold ticket = [] then []
      else [("tags", ", ".intercalate (contentTags desk.casefold ticket))])

/-- What an evolution's id has behind the ticket's own. -/
def suffix (revision : Text) : Text := '.' :: 'r' :: sanitise revision

def titleOf (ticket : Ticket F) : String :=
  if ticket.title = "" then .ofList (desk.tracker ++ ' ' :: ticket.key) else ticket.title

def fieldsOf (ticket : Ticket F) (id supersedes registered : String) : ItemFields where
  id := id
  title := titleOf desk ticket
  kind := (desk.read ticket).kind
  description := ticket.body
  acceptanceCriteria := (desk.read ticket).prose
  capabilityClass := (desk.read ticket).capabilityClass
  sizeEstimate := (desk.read ticket).size
  structuralFacts := (desk.read ticket).facts
  level := (desk.read ticket).level
  supersedes := supersedes
  registered := registered
  labels := labelsOf desk ticket

/-- `BacklogItem(...)`. -/
def build (f : ItemFields) : Except DraftError BacklogItem :=
  match h : f.postInit with
  | .error e => .error (.backlog e)
  | .ok () => .ok ⟨f, h⟩

/-- Whether a ticket supersedes its item, and the id it gets. -/
def named (baseId : Text) (ticket : Ticket F) (previous : Option BacklogItem) : Bool × String :=
  match previous with
  | none => (false, .ofList baseId)
  | some p =>
    if isEvolution desk ticket p then (true, .ofList (baseId ++ suffix ticket.revision)) else (false, p.id)

def draftFrom (ticket : Ticket F) (previous : Option BacklogItem) (registered : String) :
    Except DraftError Draft := do
  let baseId ← itemIdFor desk.sha256 desk.tracker ticket.key
  let (evolves, id) := named desk baseId ticket previous
  let supersedes := if evolves then previous.elim "" (·.id) else ""
  let item ← build (fieldsOf desk ticket id supersedes registered)
  return ⟨item, evolves⟩

end Drafts

end CommitReplay.TicketItems
