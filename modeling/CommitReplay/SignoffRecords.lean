import CommitReplay.FactoryStores
import CommitReplay.RoutingRule
import CommitReplay.StrippedText
import CommitReplay.TailLedger

/-! The records of the sign-off ledger. A record's note is redacted whenever the record is
constructed: when it is made, stamped, chained and read; the statement of its attestation when
that is made and when it is read. -/
namespace CommitReplay.SignoffRecords

open CommitReplay.PythonText CommitReplay.JsonValue CommitReplay.JsonText CommitReplay.JsonRoundTrip
open CommitReplay.RowChecks CommitReplay.GradeRows CommitReplay.JsonlObjects CommitReplay.TailLedger
open CommitReplay.FactoryEvents CommitReplay.Redaction
open CommitReplay.RoutingRule (CellKey)

inductive SignoffError
  | noTask | noRow | noStatement
  | noRepo | noClass | noVerifier
  | unknownKind (kind : String) | unknownTier (tier : String) | unknownArm (arm : String)
  /-- `SignoffRefused`, with its code. -/
  | refused (code : String)
  /-- A value of another type than its field is declared with, which no writer of records gives. -/
  | untyped (field : String)
  | unreadableLine | lastWithoutHash
  | prevMismatch (n : ℕ) (recordId : String) | hashMismatch (n : ℕ) (recordId : String)
deriving DecidableEq, Repr

section Texts

variable (isWide : Char → Bool)

/-- `redact(s.strip())`. -/
def redactStripped (s : String) : String := .ofList (redactText isWide (strip s.toList))

/-- A text that is not blank stays so. -/
lemma strip_redactStripped {s : String} (h : strip s.toList ≠ []) :
    strip (redactStripped isWide s).toList ≠ [] := by
  rw [redactStripped, String.toList_ofList]
  rcases @redactText_eq_or_mem isWide (strip s.toList) with he | hm
  · rw [he, StrippedText.strip_strip]
    exact h
  · exact strip_ne_nil hm (by decide)

end Texts

/-- The approver's statement that they read one accepted row. -/
structure Attestation where
  reviewedTaskId : String
  reviewedRowHash : String
  statement : String
  attestedAt : String
  task_named : reviewedTaskId ≠ ""
  row_named : reviewedRowHash ≠ ""
  stated : strip statement.toList ≠ []

namespace Attestation

variable (isWide : Char → Bool)

def make (reviewedTaskId reviewedRowHash statement attestedAt : String) :
    Except SignoffError Attestation :=
  if ht : reviewedTaskId = "" then .error .noTask
  else if hr : reviewedRowHash = "" then .error .noRow
  else if hs : strip statement.toList = [] then .error .noStatement
  else .ok {
    reviewedTaskId := reviewedTaskId
    reviewedRowHash := reviewedRowHash
    statement := redactStripped isWide statement
    attestedAt := attestedAt
    task_named := ht
    row_named := hr
    stated := strip_redactStripped isWide hs }

/-- The attestation constructed again, at a time. -/
def restated (attestedAt : String) (a : Attestation) : Attestation :=
  { a with
    statement := redactStripped isWide a.statement
    stated := strip_redactStripped isWide a.stated
    attestedAt := attestedAt }

/-- The attestation constructed again from what was stored of it. -/
def reread (now : String) (a : Attestation) : Attestation :=
  a.restated isWide (if a.attestedAt = "" then now else a.attestedAt)

lemma make_self (a : Attestation) (attestedAt : String) :
    make isWide a.reviewedTaskId a.reviewedRowHash a.statement attestedAt =
      .ok (a.restated isWide attestedAt) := by
  simp only [make, dif_neg a.task_named, dif_neg a.row_named, dif_neg a.stated, restated]

variable {F : Type} [PyFloat F]

def items (a : Attestation) : List (String × Json F) :=
  [("reviewed_task_id", .str a.reviewedTaskId), ("reviewed_row_hash", .str a.reviewedRowHash),
    ("statement", .str a.statement), ("at", .str a.attestedAt)]

def toDict (a : Attestation) : Json F := .obj (ofPairs a.items)

variable (isPrintable : Char → Bool) (now : String)

/-- `str(d.get(key, ""))`. -/
def textItem (d : List (String × Json F)) (key : String) : String :=
  PythonRepr.pyStr isPrintable ((d.lookup key).getD (.str ""))

def fromDict (d : List (String × Json F)) : Except SignoffError Attestation :=
  make isWide (textItem isPrintable d "reviewed_task_id") (textItem isPrintable d "reviewed_row_hash")
    (textItem isPrintable d "statement")
    (match (d.lookup "at").filter truthy with
      | some v => PythonRepr.pyStr isPrintable v
      | none => now)

omit [PyFloat F] in
lemma items_nodup (a : Attestation) : (a.items.map (Prod.fst (β := Json F))).Nodup := by
  simp [items]

/-- What was stored is what is read, constructed once more. -/
theorem fromDict_items (a : Attestation) :
    fromDict (F := F) isWide isPrintable now (ofPairs a.items) = .ok (a.reread isWide now) := by
  have htext : ∀ {k v : String}, (k, Json.str (F := F) v) ∈ a.items →
      textItem isPrintable (ofPairs (a.items (F := F))) k = v := by
    intro k v h
    have hk := lookup_ofPairs_of_mem (a.items_nodup (F := F)) h
    rw [textItem, hk]
    rfl
  have hat : (ofPairs (a.items (F := F))).lookup "at" = some (.str a.attestedAt) := by
    have hk := lookup_ofPairs_of_mem (a.items_nodup (F := F)) (p := ("at", .str a.attestedAt))
      (by simp [items])
    exact hk
  rw [fromDict, hat, @htext "reviewed_task_id" a.reviewedTaskId (by simp [items]),
    @htext "reviewed_row_hash" a.reviewedRowHash (by simp [items]),
    @htext "statement" a.statement (by simp [items]), make_self]
  refine congrArg (fun attestedAt => Except.ok (a.restated isWide attestedAt)) ?_
  by_cases hempty : a.attestedAt = ""
  · rw [if_pos hempty, hempty]
    rfl
  · have htruthy : truthy (F := F) (.str a.attestedAt) = true := by
      simpa [truthy] using hempty
    rw [if_neg hempty, Option.filter_some, if_pos htruthy]
    rfl

end Attestation

/-- The fields of the evidence snapshot that nothing reads back but the ledger itself. -/
inductive Stamp
  | verifiedAt | nAtSignoff | pointAtSignoff | ciLowAtSignoff | oracleStrengthAtSignoff | policyVersion
  | routeAtSignoff | routeReasonCode | controlsVerdict | controlsRunId | controlsK | controlsTotal
  | controlsEscapes | nTasksAtSignoff | taskCleanAtSignoff | taskCiLowAtSignoff | taskCiHighAtSignoff
  | oracleScoredTasks | oracleShare | controlsApparatus
deriving DecidableEq, Repr

namespace Stamp

def all : List Stamp := [.verifiedAt, .nAtSignoff, .pointAtSignoff, .ciLowAtSignoff,
  .oracleStrengthAtSignoff, .policyVersion, .routeAtSignoff, .routeReasonCode, .controlsVerdict,
  .controlsRunId, .controlsK, .controlsTotal, .controlsEscapes, .nTasksAtSignoff,
  .taskCleanAtSignoff, .taskCiLowAtSignoff, .taskCiHighAtSignoff, .oracleScoredTasks, .oracleShare,
  .controlsApparatus]

lemma mem_all (f : Stamp) : f ∈ all := by cases f <;> decide

def name : Stamp → String
  | .verifiedAt => "verified_at"
  | .nAtSignoff => "n_at_signoff"
  | .pointAtSignoff => "point_at_signoff"
  | .ciLowAtSignoff => "ci_low_at_signoff"
  | .oracleStrengthAtSignoff => "oracle_strength_at_signoff"
  | .policyVersion => "policy_version"
  | .routeAtSignoff => "route_at_signoff"
  | .routeReasonCode => "route_reason_code"
  | .controlsVerdict => "controls_verdict"
  | .controlsRunId => "controls_run_id"
  | .controlsK => "controls_k"
  | .controlsTotal => "controls_total"
  | .controlsEscapes => "controls_escapes"
  | .nTasksAtSignoff => "n_tasks_at_signoff"
  | .taskCleanAtSignoff => "task_clean_at_signoff"
  | .taskCiLowAtSignoff => "task_ci_low_at_signoff"
  | .taskCiHighAtSignoff => "task_ci_high_at_signoff"
  | .oracleScoredTasks => "oracle_scored_tasks"
  | .oracleShare => "oracle_share"
  | .controlsApparatus => "controls_apparatus"

variable {F : Type} [PyFloat F]

/-- The value of a field that a record does not name. -/
def default (now : String) : Stamp → Json F
  | .verifiedAt => .str now
  | .policyVersion | .routeAtSignoff | .routeReasonCode | .controlsVerdict | .controlsRunId
  | .controlsApparatus => .str ""
  | .nAtSignoff | .controlsK | .controlsTotal | .controlsEscapes | .nTasksAtSignoff
  | .taskCleanAtSignoff | .oracleScoredTasks => .int 0
  | .pointAtSignoff | .ciLowAtSignoff | .taskCiLowAtSignoff | .oracleShare => .float PyFloat.zero
  | .taskCiHighAtSignoff => .float (PyFloat.ofText "1.0".toList)
  | .oracleStrengthAtSignoff => .null

end Stamp

section Constants

def apparatusVersion : String := "2.4"

def wildcard : String := "*"

def verifierKinds : List String := ["oidc", "local", "service"]

def earnedTiers : List String := ["human-verified", "ab-confirmed"]

def arms : List String := ["off", "fmt", "api", "fmt,api"]

def signoffSchema : String := "crb.signoff.v5"

def v1BodyFields : List String := ["repo", "capability_class", "verifier", "size", "language",
  "builder", "model", "provider", "process_step", "tier", "note", "revoked", "verified_at",
  "n_at_signoff", "point_at_signoff", "false_q1_at_signoff", "apparatus_version", "schema",
  "record_id", "prev_hash"]

def v2BodyFields : List String := v1BodyFields ++ ["ci_low_at_signoff", "oracle_strength_at_signoff",
  "policy_version", "policy_thresholds", "route_at_signoff", "route_reason_code", "controls_verdict",
  "controls_run_id", "controls_k", "controls_total", "controls_escapes", "attestation"]

def v3BodyFields : List String := v2BodyFields ++ ["verifier_kind"]

def v4BodyFields : List String := v3BodyFields ++ ["checks_arm", "posture_class"]

/-- Whether a field is hashed in a record of a schema. -/
def isHashed (schema field : String) : Bool :=
  if schema = "crb.signoff.v1" then field ∈ v1BodyFields
  else if schema = "crb.signoff.v2" then field ∈ v2BodyFields
  else if schema = "crb.signoff.v3" then field ∈ v3BodyFields
  else if schema = "crb.signoff.v4" then field ∈ v4BodyFields
  else field ≠ "row_hash"

end Constants

variable {F : Type}

/-- The fields that the constructor checks. -/
structure Signing where
  repo : String
  scope : CellKey
  verifier : String
  tier : String
  revoked : Bool
  falseQ1AtSignoff : ℤ
  verifierKind : String
  checksArm : String
deriving DecidableEq, Repr

/-- The first check that fails. -/
def Signing.refusal (s : Signing) : Option SignoffError :=
  if s.repo = "" then some .noRepo
  else if s.scope.capabilityClass = "" ∨ s.scope.capabilityClass = wildcard then some .noClass
  else if s.verifier = "" then some .noVerifier
  else if s.verifierKind ≠ "" ∧ s.verifierKind ∉ verifierKinds then some (.unknownKind s.verifierKind)
  else if s.tier ∉ earnedTiers then some (.unknownTier s.tier)
  else if s.checksArm ≠ "" ∧ s.checksArm ∉ arms then some (.unknownArm s.checksArm)
  else if 0 < s.falseQ1AtSignoff ∧ !s.revoked then some (.refused "false_q1")
  else none

/-- What holds of the fields the constructor lets through. -/
structure Signing.Accepted (s : Signing) : Prop where
  repo : s.repo ≠ ""
  capabilityClass : s.scope.capabilityClass ≠ "" ∧ s.scope.capabilityClass ≠ wildcard
  verifier : s.verifier ≠ ""
  verifierKind : s.verifierKind = "" ∨ s.verifierKind ∈ verifierKinds
  tier : s.tier ∈ earnedTiers
  checksArm : s.checksArm = "" ∨ s.checksArm ∈ arms
  falseQ1 : s.falseQ1AtSignoff ≤ 0 ∨ s.revoked = true

theorem Signing.refusal_eq_none_iff (s : Signing) : s.refusal = none ↔ s.Accepted := by
  constructor
  · intro h
    simp only [refusal] at h
    split_ifs at h with h1 h2 h3 h4 h5 h6 h7
    exact ⟨h1, not_or.mp h2, h3, by simpa [or_iff_not_imp_left] using h4, h5,
      by simpa [or_iff_not_imp_left] using h6, by simpa [or_iff_not_imp_left] using h7⟩
  · intro h
    rw [refusal, if_neg h.repo, if_neg (not_or.mpr h.capabilityClass), if_neg h.verifier,
      if_neg fun hk => hk.2 (h.verifierKind.resolve_left hk.1), if_neg (not_not.mpr h.tier),
      if_neg fun hk => hk.2 (h.checksArm.resolve_left hk.1), if_neg]
    rintro ⟨hpos, hrev⟩
    rcases h.falseQ1 with hq | hq
    · omega
    · simp [hq] at hrev

/-- The fields of a record, before its constructor has seen them. -/
structure Fields (F : Type) extends Signing where
  note : String
  apparatusVersion : String
  policyThresholds : Payload F
  attestation : Option Attestation
  postureClass : String
  contextArm : String
  taxonomy : String
  readingId : String
  schema : String
  recordId : String
  prevHash : String
  rowHash : String
  stamp : Stamp → Json F
  stamp_inOrder : ∀ f, Canonical (stamp f)

namespace Fields

/-- The fields that hold a text. -/
def textItems (f : Fields F) : List (String × String) :=
  [("repo", f.repo), ("capability_class", f.scope.capabilityClass), ("verifier", f.verifier),
    ("size", f.scope.size), ("language", f.scope.language), ("builder", f.scope.builder),
    ("model", f.scope.model), ("provider", f.scope.provider),
    ("process_step", f.scope.processStep), ("tier", f.tier), ("note", f.note),
    ("apparatus_version", f.apparatusVersion), ("verifier_kind", f.verifierKind),
    ("checks_arm", f.checksArm), ("posture_class", f.postureClass), ("context_arm", f.contextArm),
    ("taxonomy", f.taxonomy), ("reading_id", f.readingId), ("schema", f.schema),
    ("record_id", f.recordId)]

variable [PyFloat F]

/-- The fields a record brings to the ledger. -/
def ownItems (f : Fields F) : List (String × Json F) :=
  f.textItems.map (fun p => (p.1, .str p.2)) ++
    [("revoked", .bool f.revoked), ("false_q1_at_signoff", .int f.falseQ1AtSignoff),
      ("policy_thresholds", .obj f.policyThresholds.1),
      ("attestation", f.attestation.elim .null Attestation.toDict)] ++
    Stamp.all.map fun k => (k.name, f.stamp k)

/-- `to_dict`. -/
def items (f : Fields F) : List (String × Json F) := hashed f.ownItems f.prevHash f.rowHash

/-- `body()`: the fields that the record's schema hashes. -/
def body (f : Fields F) : Json F :=
  .obj (ofPairs (f.items.filter fun p => isHashed f.schema p.1))

def computeHash (sha256 : Sha256) (f : Fields F) : String := sha256.hex (canonicalJson f.body)

end Fields

/-- A record that exists: its constructor's checks passed. -/
structure SignoffRecord (F : Type) extends Fields F where
  accepted : toSigning.Accepted
  named : recordId ≠ ""

namespace SignoffRecord

variable (isWide : Char → Bool)

/-- The constructor; `uuid` is for a record without an id. -/
def make (uuid : Uuid) (f : Fields F) : Except SignoffError (SignoffRecord F) :=
  match h : f.toSigning.refusal with
  | some e => .error e
  | none => .ok { f with
      note := redact isWide f.note
      recordId := if f.recordId = "" then uuid.1 else f.recordId
      accepted := f.refusal_eq_none_iff.mp h
      named := by
        split_ifs with hid
        · exact uuid.2
        · exact hid }

lemma make_of_accepted (uuid : Uuid) (f : Fields F) (h : f.toSigning.Accepted) :
    ∃ r, make isWide uuid f = .ok r := by
  rw [make]
  split
  · rename_i e he
    rw [f.refusal_eq_none_iff.mpr h] at he
    cases he
  · exact ⟨_, rfl⟩

/-- A copy of a record, constructed again. -/
def again (r : SignoffRecord F) : SignoffRecord F := { r with note := redact isWide r.note }

lemma make_self (uuid : Uuid) (r : SignoffRecord F) :
    make isWide uuid r.toFields = .ok (r.again isWide) := by
  rw [make]
  split
  · rename_i e he
    rw [r.toSigning.refusal_eq_none_iff.mpr r.accepted] at he
    cases he
  · simp only [if_neg r.named, again]

variable [PyFloat F] (sha256 : Sha256)

/-- A copy with other hashes. -/
def withHashes (r : SignoffRecord F) (prevHash rowHash : String) : SignoffRecord F :=
  { r with
    prevHash := prevHash
    rowHash := rowHash }

omit [PyFloat F] in
@[simp] lemma withHashes_withHashes (r : SignoffRecord F) (prev row prev' row' : String) :
    (r.withHashes prev row).withHashes prev' row' = r.withHashes prev' row' := rfl

def withAttestation (r : SignoffRecord F) (attestation : Option Attestation) : SignoffRecord F :=
  { r with attestation := attestation }

/-- `chained`: the copy on the chain after `prevHash`. -/
def chained (prevHash : String) (r : SignoffRecord F) : SignoffRecord F :=
  let copy := (r.again isWide).withHashes prevHash r.rowHash
  copy.withHashes prevHash (copy.computeHash sha256)

lemma rowHash_chained (prevHash : String) (r : SignoffRecord F) :
    (r.chained isWide sha256 prevHash).rowHash =
      ((r.again isWide).withHashes prevHash r.rowHash).computeHash sha256 := rfl

/-- The record constructed again from what was stored of it. -/
def reread (now : String) (r : SignoffRecord F) : SignoffRecord F :=
  (r.again isWide).withAttestation (r.attestation.map (·.reread isWide now))

end SignoffRecord

section Reading

variable [PyFloat F] (isWide isPrintable : Char → Bool) (now : String) (uuid : Uuid)

/-- A field that holds a text; one without a default must be there. -/
def textField (d : List (String × Json F)) (k : String) (default : Option String) :
    Except SignoffError String :=
  match d.lookup k with
  | some (.str s) => .ok s
  | none => default.elim (.error (.untyped k)) .ok
  | some _ => .error (.untyped k)

def boolField (d : List (String × Json F)) (k : String) : Except SignoffError Bool :=
  match d.lookup k with
  | some (.bool b) => .ok b
  | none => .ok false
  | _ => .error (.untyped k)

def intField (d : List (String × Json F)) (k : String) : Except SignoffError ℤ :=
  match d.lookup k with
  | some (.int n) => .ok n
  | none => .ok 0
  | _ => .error (.untyped k)

/-- The attestation, where a dictionary is stored. -/
def attestationField (d : List (String × Json F)) : Except SignoffError (Option Attestation) :=
  match d.lookup "attestation" with
  | some (.obj a) => some <$> Attestation.fromDict isWide isPrintable now a
  | _ => .ok none

/-- The thresholds, where a dictionary is stored. -/
def thresholdsField (d : List (String × Json F)) : Payload F :=
  match d.lookup "policy_thresholds" with
  | some (.obj ps) => Payload.of ps
  | _ => Payload.of []

/-- `from_dict`. -/
def SignoffRecord.fromDict : Json F → Except SignoffError (SignoffRecord F)
  | .obj d => do
    let repo ← textField d "repo" none
    let capabilityClass ← textField d "capability_class" none
    let verifier ← textField d "verifier" none
    let size ← textField d "size" (some wildcard)
    let language ← textField d "language" (some wildcard)
    let builder ← textField d "builder" (some wildcard)
    let model ← textField d "model" (some wildcard)
    let provider ← textField d "provider" (some wildcard)
    let processStep ← textField d "process_step" (some wildcard)
    let tier ← textField d "tier" (some "human-verified")
    let note ← textField d "note" (some "")
    let apparatusVersion ← textField d "apparatus_version" (some SignoffRecords.apparatusVersion)
    let verifierKind ← textField d "verifier_kind" (some "")
    let checksArm ← textField d "checks_arm" (some "")
    let postureClass ← textField d "posture_class" (some "")
    let contextArm ← textField d "context_arm" (some "")
    let taxonomy ← textField d "taxonomy" (some "")
    let readingId ← textField d "reading_id" (some "")
    let schema ← textField d "schema" (some signoffSchema)
    let recordId ← textField d "record_id" (some "")
    let prevHash ← textField d "prev_hash" (some "")
    let rowHash ← textField d "row_hash" (some "")
    let revoked ← boolField d "revoked"
    let falseQ1AtSignoff ← intField d "false_q1_at_signoff"
    let attestation ← attestationField isWide isPrintable now d
    make isWide uuid {
      repo := repo
      scope := ⟨processStep, capabilityClass, size, language, builder, model, provider⟩
      verifier := verifier
      tier := tier
      revoked := revoked
      falseQ1AtSignoff := falseQ1AtSignoff
      verifierKind := verifierKind
      checksArm := checksArm
      note := note
      apparatusVersion := apparatusVersion
      policyThresholds := thresholdsField d
      attestation := attestation
      postureClass := postureClass
      contextArm := contextArm
      taxonomy := taxonomy
      readingId := readingId
      schema := schema
      recordId := recordId
      prevHash := prevHash
      rowHash := rowHash
      stamp := fun f => normal ((d.lookup f.name).getD (f.default now))
      stamp_inOrder := fun _ => canonical_normal _ }
  | _ => .error .unreadableLine

omit [PyFloat F] in
lemma itemKeys_nodup : (["repo", "capability_class", "verifier", "size", "language", "builder",
    "model", "provider", "process_step", "tier", "note", "apparatus_version", "verifier_kind",
    "checks_arm", "posture_class", "context_arm", "taxonomy", "reading_id", "schema", "record_id",
    "revoked", "false_q1_at_signoff", "policy_thresholds", "attestation"] ++ Stamp.all.map Stamp.name ++
    ["prev_hash", "row_hash"]).Nodup := by
  simp [Stamp.all, Stamp.name]

omit [PyFloat F] in
lemma items_nodup (f : Fields F) : (f.items.map Prod.fst).Nodup := by
  have h := itemKeys_nodup
  simpa only [Fields.items, hashed, Fields.ownItems, Fields.textItems, List.map_append, List.map_map,
    Function.comp_def, List.map_cons, List.map_nil, List.cons_append, List.nil_append,
    List.append_assoc] using h

omit [PyFloat F] in
lemma lookup_items {f : Fields F} {k : String} {v : Json F} (h : (k, v) ∈ f.items) :
    (ofPairs f.items).lookup k = some v := by
  have hk := lookup_ofPairs_of_mem (items_nodup f) h
  exact hk

omit [PyFloat F] in
lemma textField_items {f : Fields F} {k v : String} (default : Option String)
    (h : (k, v) ∈ f.textItems ++ [("prev_hash", f.prevHash), ("row_hash", f.rowHash)]) :
    textField (ofPairs f.items) k default = .ok v := by
  have hmem : (k, Json.str v) ∈ f.items := by
    rw [Fields.items, hashed, Fields.ownItems]
    rcases List.mem_append.mp h with h | h
    · simp only [List.mem_append, List.mem_map]
      exact .inl (.inl (.inl ⟨(k, v), h, rfl⟩))
    · simp only [List.mem_append]
      exact .inr (by simpa using h)
  have hk := lookup_items hmem
  rw [textField, hk]

omit [PyFloat F] in
lemma thresholdsField_items (f : Fields F) :
    thresholdsField (ofPairs f.items) = f.policyThresholds := by
  have hk := @lookup_items F f "policy_thresholds" (.obj f.policyThresholds.1) (by
    simp [Fields.items, hashed, Fields.ownItems])
  rw [thresholdsField, hk]
  exact FactoryStores.payload_of f.policyThresholds

lemma attestationField_items (f : Fields F) :
    attestationField isWide isPrintable now (ofPairs f.items) =
      .ok (f.attestation.map (·.reread isWide now)) := by
  have hk := @lookup_items F f "attestation" (f.attestation.elim .null Attestation.toDict) (by
    simp [Fields.items, hashed, Fields.ownItems])
  rw [attestationField, hk]
  cases f.attestation with
  | none => rfl
  | some a =>
    rw [Option.elim_some, Attestation.toDict]
    dsimp only
    rw [Attestation.fromDict_items]
    rfl

lemma stamp_items (f : Fields F) (k : Stamp) :
    normal (((ofPairs f.items).lookup k.name).getD (k.default now)) = f.stamp k := by
  have hk := @lookup_items F f k.name (f.stamp k) (by
    simp only [Fields.items, hashed, Fields.ownItems, List.mem_append, List.mem_map]
    exact .inl (.inr ⟨k, k.mem_all, rfl⟩))
  rw [hk]
  exact normal_of_canonical (f.stamp_inOrder k)

/-- What was stored is what is read, constructed once more. -/
theorem fromDict_items (r : SignoffRecord F) :
    SignoffRecord.fromDict isWide isPrintable now uuid (.obj (ofPairs r.items)) =
      .ok (r.reread isWide now) := by
  have htext := @textField_items F r.toFields
  have hrevoked : boolField (ofPairs r.items) "revoked" = .ok r.revoked := by
    have hk := @lookup_items F r.toFields "revoked" (.bool r.revoked) (by
      simp [Fields.items, hashed, Fields.ownItems])
    rw [boolField, hk]
  have hfalse : intField (ofPairs r.items) "false_q1_at_signoff" = .ok r.falseQ1AtSignoff := by
    have hk := @lookup_items F r.toFields "false_q1_at_signoff" (.int r.falseQ1AtSignoff) (by
      simp [Fields.items, hashed, Fields.ownItems])
    rw [intField, hk]
  have hmem : ∀ p ∈ r.textItems, ∀ default, textField (ofPairs r.items) p.1 default = .ok p.2 :=
    fun p hp default => htext default (List.mem_append_left _ hp)
  simp only [Fields.textItems, List.forall_mem_cons] at hmem
  obtain ⟨hrepo, hclass, hverifier, hsize, hlanguage, hbuilder, hmodel, hprovider, hstep, htier, hnote,
    hversion, hkind, harm, hposture, hcontext, htaxonomy, hreading, hschema, hid, -⟩ := hmem
  rw [SignoffRecord.fromDict, hrepo, hclass, hverifier, hsize, hlanguage, hbuilder, hmodel, hprovider,
    hstep, htier, hnote, hversion, hkind, harm, hposture, hcontext, htaxonomy, hreading, hschema, hid,
    htext _ (k := "prev_hash") (v := r.prevHash) (by simp),
    htext _ (k := "row_hash") (v := r.rowHash) (by simp), hrevoked, hfalse, attestationField_items,
    thresholdsField_items]
  simp only [bind, Except.bind, stamp_items]
  exact (r.withAttestation (r.attestation.map (·.reread isWide now))).make_self isWide uuid

end Reading

end CommitReplay.SignoffRecords
