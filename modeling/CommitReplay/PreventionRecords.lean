import CommitReplay.FactoryEvents
import CommitReplay.JsonlObjects

/-! The prevention loop's records and the file they are kept in. A record is redacted and its
reason cut whenever it is constructed: when it is made, when it is chained and when it is read. -/
namespace CommitReplay.PreventionRecords

open CommitReplay.PythonText CommitReplay.JsonValue CommitReplay.JsonText CommitReplay.JsonRoundTrip
open CommitReplay.RowChecks CommitReplay.GradeRows CommitReplay.JsonlTail CommitReplay.JsonlObjects
open CommitReplay.FactoryEvents CommitReplay.Redaction

inductive RecordKind
  | switched | applied | decided | reverted | proposed | registered | linked
deriving DecidableEq, Repr

namespace RecordKind

/-- `RECORD_KINDS`. -/
def all : List RecordKind :=
  [.switched, .applied, .decided, .reverted, .proposed, .registered, .linked]

def text : RecordKind → String
  | .switched => "switched"
  | .applied => "applied"
  | .decided => "decided"
  | .reverted => "reverted"
  | .proposed => "proposed"
  | .registered => "registered"
  | .linked => "linked"

def ofText (s : String) : Option RecordKind := all.find? fun k => k.text = s

lemma ofText_text (k : RecordKind) : ofText k.text = some k := by
  cases k <;> rfl

end RecordKind

inductive PreventionError
  | unknownKind (kind : String)
  /-- A list where a dictionary is declared, which no writer of records gives. -/
  | untyped
  | unreadableLine | lastWithoutHash
  | chainBroken (n : ℕ) (recordId : String) | hashMismatch (n : ℕ) (recordId : String)
deriving DecidableEq, Repr

variable {F : Type}

abbrev Rules := { rs : List (String × String) // KeySorted rs }

def recordSchema : String := "crb.prevention.record.v1"

structure PreventionRecord (F : Type) where
  kind : RecordKind
  repo : String
  payload : Payload F
  actor : String
  onBehalfOf : String
  reason : String
  created : String
  rules : Rules
  schema : String
  recordId : String
  prevHash : String
  rowHash : String
  named : recordId ≠ ""

section Constructor

variable [PyFloat F] (sha256 : Sha256) (isWide : Char → Bool)

/-- `redact(str(reason))[:1000]`. -/
def cutReason (reason : String) : String :=
  .ofList ((redactText isWide reason.toList).take 1000)

/-- `_json_native`. -/
def jsonNative (v : Json F) : Option (Json F) := loads (canonicalJson v)

/-- A payload is JSON-native already. -/
lemma jsonNative_payload (p : Payload F) : jsonNative (.obj p.1) = some (.obj p.1) := by
  have h : loads (canonicalJson (.obj p.1) ++ []) = some (.obj p.1) :=
    loads_dumps (List.forall_mem_nil _) p.2 (List.forall_mem_nil _)
  rwa [List.append_nil] at h

/-- The id of a record that is given none. -/
def recordIdOf (kind : RecordKind) (repo created : String) (payload : Payload F) : String :=
  .ofList ((sha256.hex (['\x1f'].intercalate [kind.text.toList, repo.toList, created.toList,
    canonicalJson (.obj payload.1)])).toList.take 16)

lemma recordIdOf_ne (kind : RecordKind) (repo created : String) (payload : Payload F) :
    recordIdOf sha256 kind repo created payload ≠ "" := by
  intro h
  have hlen := congrArg (fun s : String => s.toList.length) h
  simp only [recordIdOf, String.toList_ofList, List.length_take, (sha256.isHex _).1] at hlen
  simp at hlen

namespace PreventionRecord

def make (kind : RecordKind) (repo : String) (payload : Payload F)
    (actor onBehalfOf reason created : String) (rules : Rules)
    (schema recordId prevHash rowHash : String) : PreventionRecord F where
  kind := kind
  repo := repo
  payload := payload.redact isWide
  actor := actor
  onBehalfOf := onBehalfOf
  reason := cutReason isWide reason
  created := created
  rules := rules
  schema := schema
  recordId := if recordId = "" then
      recordIdOf sha256 kind repo created (payload.redact isWide)
    else recordId
  prevHash := prevHash
  rowHash := rowHash
  named := by
    split_ifs with h
    · exact recordIdOf_ne sha256 kind repo created _
    · exact h

/-- The record constructed again from its own fields. -/
def reread (r : PreventionRecord F) : PreventionRecord F :=
  { r with payload := r.payload.redact isWide, reason := cutReason isWide r.reason }

omit [PyFloat F] in
@[simp] lemma payload_reread (r : PreventionRecord F) :
    (r.reread isWide).payload = r.payload.redact isWide := rfl

omit [PyFloat F] in
@[simp] lemma reason_reread (r : PreventionRecord F) :
    (r.reread isWide).reason = cutReason isWide r.reason := rfl

lemma make_self (r : PreventionRecord F) : make sha256 isWide r.kind r.repo r.payload r.actor
    r.onBehalfOf r.reason r.created r.rules r.schema r.recordId r.prevHash r.rowHash =
      r.reread isWide := by
  simp only [make, if_neg r.named, reread]

/-- The fields a record brings with it. -/
def ownItems (r : PreventionRecord F) : List (String × Json F) :=
  [("schema", .str r.schema), ("kind", .str r.kind.text), ("repo", .str r.repo),
    ("record_id", .str r.recordId), ("created", .str r.created), ("actor", .str r.actor),
    ("on_behalf_of", .str r.onBehalfOf), ("reason", .str r.reason), ("payload", .obj r.payload.1),
    ("rules", .obj (r.rules.1.map fun p => (p.1, .str p.2)))]

/-- `body()`: every field but the row's own hash. -/
def bodyItems (r : PreventionRecord F) : List (String × Json F) :=
  r.ownItems ++ [("prev_hash", .str r.prevHash)]

def body (r : PreventionRecord F) : Json F := .obj (ofPairs r.bodyItems)

def items (r : PreventionRecord F) : List (String × Json F) :=
  r.bodyItems ++ [("row_hash", .str r.rowHash)]

def toDict (r : PreventionRecord F) : Json F := .obj (ofPairs r.items)

def computeHash (r : PreventionRecord F) : String := sha256.hex (canonicalJson r.body)

/-- A copy on the chain after `prev`; copying constructs the record again. -/
def chained (prev : String) (r : PreventionRecord F) : PreventionRecord F :=
  let copy := { r.reread isWide with prevHash := prev }
  { copy with rowHash := copy.computeHash sha256 }

def verifyHash (r : PreventionRecord F) : Bool :=
  r.rowHash ≠ "" && r.rowHash = r.computeHash sha256

end PreventionRecord

end Constructor

section Reading

variable [PyFloat F] (sha256 : Sha256) (isWide isPrintable : Char → Bool)

/-- `str(d.get(key, default))`. -/
def textItem (d : List (String × Json F)) (key default : String) : String :=
  PythonRepr.pyStr isPrintable ((d.lookup key).getD (.str default))

/-- `dict(d.get(key) or {})`. -/
def dictItem (d : List (String × Json F)) (key : String) :
    Except PreventionError (List (String × Json F)) :=
  match (d.lookup key).filter truthy with
  | none => .ok []
  | some (.obj ps) => .ok ps
  | some _ => .error .untyped

/-- `{str(k): str(v) for k, v in rules.items()}`. -/
def rulesOf (ps : List (String × Json F)) : Rules :=
  ⟨ofPairs (ps.map fun p => (p.1, PythonRepr.pyStr isPrintable p.2)), keySorted_ofPairs _⟩

/-- `from_dict`. -/
def PreventionRecord.fromDict (v : Json F) : Except PreventionError (PreventionRecord F) :=
  match v with
  | .obj d => do
    let payload ← dictItem d "payload"
    let rules ← dictItem d "rules"
    let kind := textItem isPrintable d "kind" ""
    match RecordKind.ofText kind with
    | none => .error (.unknownKind kind)
    | some kind =>
      return make sha256 isWide kind (textItem isPrintable d "repo" "") (Payload.of payload)
        (textItem isPrintable d "actor" "") (textItem isPrintable d "on_behalf_of" "")
        (textItem isPrintable d "reason" "") (textItem isPrintable d "created" "")
        (rulesOf isPrintable rules) (textItem isPrintable d "schema" recordSchema)
        (textItem isPrintable d "record_id" "") (textItem isPrintable d "prev_hash" "")
        (textItem isPrintable d "row_hash" "")
  | _ => .error .unreadableLine

/-- `verify_records`, from the hash `prev` and the count `n` on. -/
def verifyRecords : String → ℕ → List (PreventionRecord F) → Except PreventionError ℕ
  | _, n, [] => .ok n
  | prev, n, r :: rs =>
    if r.prevHash ≠ prev then .error (.chainBroken n r.recordId)
    else if !r.verifyHash sha256 then .error (.hashMismatch n r.recordId)
    else verifyRecords r.rowHash (n + 1) rs

end Reading

section Files

variable [PyFloat F] (sha256 : Sha256) (isWide isPrintable : Char → Bool)

/-- `_last_hash`. -/
def lastHashOf (file : Bytes) : Except PreventionError String :=
  match jsonlLastLine file with
  | [] => .ok genesisHash
  | last => match loads last with
    | some (.obj d : Json F) =>
      match textItem isPrintable d "row_hash" "" with
      | "" => .error .lastWithoutHash
      | h => .ok h
    | _ => .error .unreadableLine

/-- `append`, with the record it returns. -/
def append (file : Bytes) (r : PreventionRecord F) :
    Except PreventionError (Bytes × PreventionRecord F) := do
  let last ← lastHashOf (F := F) isPrintable file
  let chained := r.chained sha256 isWide last
  return (file ++ utf8Encode (dumps [' '] chained.toDict ++ ['\n']), chained)

/-- One `append` after another, with the records they return. -/
def appendEach (given : List (PreventionRecord F)) :
    Except PreventionError (Bytes × List (PreventionRecord F)) :=
  given.foldlM (fun s r => do
    let (file, chained) ← append sha256 isWide isPrintable s.1 r
    return (file, s.2 ++ [chained])) ([], [])

/-- `records()`. -/
def records (file : Bytes) : Except PreventionError (List (PreventionRecord F)) :=
  match utf8Decode file with
  | none => .error .unreadableLine
  | some text => do
    let out ← readLines .unreadableLine (PreventionRecord.fromDict sha256 isWide isPrintable)
      (universalNewlines text)
    let _ ← verifyRecords sha256 genesisHash 0 out
    return out

end Files

end CommitReplay.PreventionRecords
