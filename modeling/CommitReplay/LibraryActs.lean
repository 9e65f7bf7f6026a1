import CommitReplay.LibraryEntries
import CommitReplay.OrderedItems

/-! The acts on a library's entries, the rule each is checked against, the fold of what was accepted into
the state of each entry, and the entries whose file has changed. -/
namespace CommitReplay.LibraryActs

open CommitReplay.PythonText CommitReplay.PythonRepr CommitReplay.JsonValue CommitReplay.JsonText
open CommitReplay.GradeRows CommitReplay.RowChecks CommitReplay.LibraryEntries CommitReplay.OrderedItems
open CommitReplay.ClassSets (trim isPerson)

variable {F : Type}

section Acts

inductive ActKind
  | propose | sponsor | sign | stale | revoke | retire
deriving DecidableEq, Repr

def ActKind.name : ActKind → String
  | .propose => "propose"
  | .sponsor => "sponsor"
  | .sign => "sign"
  | .stale => "stale"
  | .revoke => "revoke"
  | .retire => "retire"

/-- One append to the library's ledger. Its own hash is taken over the rest and left out. -/
structure LibraryAct (F : Type) where
  actId : String
  schema : String
  repo : String
  entryId : String
  version : String
  act : ActKind
  actor : String
  created : String
  body : List (String × Json F)
  prevHash : String

/-- `hashed`, its fields in the order they are listed. -/
def LibraryAct.hashed (a : LibraryAct F) : Json F :=
  .obj [("act_id", .str a.actId), ("schema", .str a.schema), ("repo", .str a.repo),
    ("entry_id", .str a.entryId), ("version", .str a.version), ("act", .str a.act.name),
    ("actor", .str a.actor), ("created", .str a.created), ("body", .obj a.body),
    ("prev_hash", .str a.prevHash)]

end Acts

section States

inductive Status
  | proposed | signed | stale | retired | revoked
deriving DecidableEq, Repr

/-- `FINAL_STATUSES`. -/
def Status.final : Status → Bool
  | .retired | .revoked => true
  | _ => false

structure Staleness where
  headCommit : String
  path : String
  digest : String
  at_ : String
deriving DecidableEq, Repr

structure Retirement where
  actor : String
  by_ : String
  reason : String
  readingId : String
  at_ : String
deriving DecidableEq, Repr

structure Revocation where
  actor : String
  reason : String
  at_ : String
deriving DecidableEq, Repr

/-- Where one entry stands. Its effect on a builder is unmeasured throughout and left out. -/
structure EntryState (F : Type) (isWide : Char → Bool) where
  entry : LibraryEntry F isWide
  status : Status
  proposedAt : String
  sponsor : String
  sponsoredAt : String
  approver : String
  signedAt : String
  acknowledgedDigest : String
  stale : Option Staleness
  retired : Option Retirement
  revoked : Option Revocation
  acts : ℕ

inductive Refusal
  | samePerson | notAPerson | noSponsor | alreadySponsored | versionMismatch | notSignable
  | unknownEntry | unchanged | final | notFromAFile | notChanged | reasonMissing | readingMissing
  | readingInvalid | credential | producersUnresolved | rowsUnknown | sameActor
  /-- The acts no longer fold, or a proposal is not its entry. -/
  | integrity
  /-- The proposal's entry does not exist. -/
  | invalid
deriving DecidableEq, Repr

variable {isWide : Char → Bool}

/-- `_signed_against`: the digests the entry vouches for, never the empty one. -/
def EntryState.signedAgainst (s : EntryState F isWide) : List String :=
  [s.entry.provenance.digest, s.acknowledgedDigest].filter (· ≠ "")

end States

section Rule

variable [PyFloat F] (isWide isPrintable : Char → Bool) (sha256 : Sha256)

/-- The people among the producers a signature names. -/
def producersOf (actors : List (Json F)) : List String :=
  (actors.map (pyStr isPrintable)).filter isPerson

/-- `_need_independent_of_rows`, for an entry learned from rows. -/
def needIndependentOfRows (act : LibraryAct F) : Except Refusal Unit :=
  match act.body.lookup "row_actors", act.body.lookup "rows_missing" with
  | some (.arr actors), some (.arr missing) =>
    if missing ≠ [] then .error .rowsUnknown
    else if act.actor ∈ producersOf isPrintable actors then .error .sameActor
    else .ok ()
  | _, _ => .error .producersUnresolved

/-- A proposal's state; its proposer is its sponsor where it is a person. -/
def proposed {isWide : Char → Bool} (entry : LibraryEntry F isWide) (created : String) (acts : ℕ) :
    EntryState F isWide :=
  let sponsor := if isPerson entry.proposedBy then entry.proposedBy else ""
  { entry := entry
    status := .proposed
    proposedAt := created
    sponsor := sponsor
    sponsoredAt := if sponsor = "" then "" else created
    approver := ""
    signedAt := ""
    acknowledgedDigest := ""
    stale := none
    retired := none
    revoked := none
    acts := acts + 1 }

/-- `_apply_propose`. -/
def applyPropose (state : Option (EntryState F isWide)) (act : LibraryAct F) :
    Except Refusal (EntryState F isWide) :=
  match (dictAt act.body "entry").bind (LibraryEntry.fromDict isPrintable isWide) with
  | none => .error .invalid
  | some entry =>
    if entry.entryId ≠ act.entryId ∨ entry.repo ≠ act.repo ∨ entry.version sha256 ≠ act.version then
      .error .integrity
    else if act.actor ≠ entry.proposedBy then .error .notAPerson
    else if state.any fun s => !s.status.final && s.entry.version sha256 = entry.version sha256 then
      .error .unchanged
    else .ok (proposed entry act.created (state.elim 0 (·.acts)))

/-- A sponsor's act. -/
def applySponsor (s : EntryState F isWide) (act : LibraryAct F) : Except Refusal (EntryState F isWide) :=
  if !isPerson act.actor then .error .notAPerson
  else if act.version ≠ s.entry.version sha256 then .error .versionMismatch
  else if s.sponsor ≠ "" then .error .alreadySponsored
  else .ok { s with sponsor := act.actor, sponsoredAt := act.created, acts := s.acts + 1 }

/-- A signature's state. A stale entry's acknowledges the file as it now reads at head. -/
def signed {isWide : Char → Bool} (s : EntryState F isWide) (act : LibraryAct F) : EntryState F isWide :=
  let now := s.stale.elim "" (·.digest)
  { s with
    status := .signed
    approver := act.actor
    signedAt := act.created
    acknowledgedDigest := if now = "" then s.acknowledgedDigest else now
    stale := none
    acts := s.acts + 1 }

/-- A signature. -/
def applySign (s : EntryState F isWide) (act : LibraryAct F) : Except Refusal (EntryState F isWide) :=
  if !isPerson act.actor then .error .notAPerson
  else if act.version ≠ s.entry.version sha256 then .error .versionMismatch
  else if s.status ≠ .proposed ∧ s.status ≠ .stale then .error .notSignable
  else if s.sponsor = "" then .error .noSponsor
  else if act.actor = s.sponsor then .error .samePerson
  else if s.entry.provenance.kind = .rows then
    (needIndependentOfRows isPrintable act).map fun _ => signed s act
  else .ok (signed s act)

def LibraryAct.digest (act : LibraryAct F) : String := textAt isPrintable act.body "digest"

/-- A file that changed. -/
def applyStale (s : EntryState F isWide) (act : LibraryAct F) : Except Refusal (EntryState F isWide) :=
  let digest := act.digest isPrintable
  let head := textAt isPrintable act.body "head_commit"
  if s.entry.provenance.kind ≠ .file then .error .notFromAFile
  else if (digest ≠ "" ∧ !isHash digest) ∨ (head ≠ "" ∧ !isSha head) then .error .readingInvalid
  else if digest ∈ s.signedAgainst ∨ (s.status = .stale ∧ s.stale.any (·.digest = digest)) then
    .error .notChanged
  else .ok { s with
    status := .stale
    stale := some ⟨head, s.entry.provenance.path, digest, act.created⟩
    acts := s.acts + 1 }

def applyRevoke (s : EntryState F isWide) (act : LibraryAct F) : Except Refusal (EntryState F isWide) :=
  let reason := trim (textAt isPrintable act.body "reason")
  if !isPerson act.actor then .error .notAPerson
  else if reason = "" then .error .reasonMissing
  else .ok { s with
    status := .revoked
    revoked := some ⟨act.actor, reason, act.created⟩
    acts := s.acts + 1 }

/-- A retirement, a person's or the measurement's. -/
def applyRetire (s : EntryState F isWide) (act : LibraryAct F) : Except Refusal (EntryState F isWide) :=
  let reason := trim (textAt isPrintable act.body "reason")
  let stated := pyStr isPrintable ((act.body.lookup "by").getD (.str "person"))
  let reading := trim (textAt isPrintable act.body "reading_id")
  let by_ := if stated = "measurement" then stated else "person"
  if stated = "measurement" ∧ (act.actor ≠ "system:library-arm" ∨ reading = "") then
    .error .readingMissing
  else if stated ≠ "measurement" ∧ !isPerson act.actor then .error .notAPerson
  else if reason = "" then .error .reasonMissing
  else .ok { s with
    status := .retired
    retired := some ⟨act.actor, by_, reason, reading, act.created⟩
    acts := s.acts + 1 }

/-- The entry's state after an act. -/
def apply (state : Option (EntryState F isWide)) (act : LibraryAct F) :
    Except Refusal (EntryState F isWide) :=
  if carriesCredential isWide act.hashed then .error .credential
  else match act.act, state with
    | .propose, _ => applyPropose isWide isPrintable sha256 state act
    | _, none => .error .unknownEntry
    | kind, some s =>
      if s.status.final then .error .final
      else match kind with
        | .sponsor => applySponsor isWide sha256 s act
        | .sign => applySign isWide isPrintable sha256 s act
        | .stale => applyStale isWide isPrintable s act
        | .revoke => applyRevoke isWide isPrintable s act
        | _ => applyRetire isWide isPrintable s act

end Rule

section Fold

variable [PyFloat F] (isWide isPrintable : Char → Bool) (sha256 : Sha256)

/-- Entry id → state, in the order the entries came. -/
abbrev States (F : Type) (isWide : Char → Bool) := List (String × EntryState F isWide)

/-- One act of the fold; an act that no longer applies is an error. -/
def foldStep (states : States F isWide) (act : LibraryAct F) : Except Refusal (States F isWide) :=
  ((apply isWide isPrintable sha256 (states.lookup act.entryId) act).mapError fun _ => .integrity).map
    (setItem act.entryId · states)

/-- `fold`. -/
def fold (acts : List (LibraryAct F)) : Except Refusal (States F isWide) :=
  acts.foldlM (foldStep isWide isPrintable sha256) []

end Fold

section Freshness

variable {isWide : Char → Bool}

/-- `_judged`: a proposed or signed entry read from a file. -/
def judged (s : EntryState F isWide) : Bool :=
  s.entry.provenance.kind = .file && (s.status = .proposed || s.status = .signed)

/-- The file of a path at head: `none` where it was not read, and the empty digest where there is none. -/
abbrev Heads := List (String × Option String)

def Heads.now (heads : Heads) (path : String) : Option String := (heads.lookup path).map (·.getD "")

/-- `stale_candidates`. -/
def staleCandidates (states : List (EntryState F isWide)) (heads : Heads) :
    List (EntryState F isWide × String) :=
  states.filterMap fun s =>
    if judged s then
      match heads.now s.entry.provenance.path with
      | some now => if now ∈ s.signedAgainst then none else some (s, now)
      | none => none
    else none

end Freshness

end CommitReplay.LibraryActs
