import CommitReplay.JsonText
import CommitReplay.ContextArms
import CommitReplay.FailureKind

/-! The content of a grade row, and the checks a row runs on it when it is constructed. A field
holds any JSON value, since a row may be built from any stored object; the checks read it as the
program does, by truth, identity and equality, and raise where a string is needed. -/
namespace CommitReplay.RowChecks

open CommitReplay.PythonText CommitReplay.JsonValue CommitReplay.JsonText
open CommitReplay.ContextArms CommitReplay.FailureKind

/-- The fields of a row but for its labels and the two hashes of the chain. -/
inductive Field
  | repo | taskId | clean | testsUnmodified | targetGreen | noNewFailures | sourceChanged |
  repoLintClean | capabilityClass | size | language | pool | mode | processStep | builder | model
  | provider | runId | trial | actor | created | disqualified | dqReason | error |
  newFailuresCount | attempts | costUsd | tokensIn | tokensOut | latencyS | oracleStrength |
  goldClean | evidencePackHash | apparatusVersion | beltSet | provenance | schema | rowId
deriving DecidableEq, Repr

def Field.name : Field → String
  | .repo => "repo"
  | .taskId => "task_id"
  | .clean => "clean"
  | .testsUnmodified => "tests_unmodified"
  | .targetGreen => "target_green"
  | .noNewFailures => "no_new_failures"
  | .sourceChanged => "source_changed"
  | .repoLintClean => "repo_lint_clean"
  | .capabilityClass => "capability_class"
  | .size => "size"
  | .language => "language"
  | .pool => "pool"
  | .mode => "mode"
  | .processStep => "process_step"
  | .builder => "builder"
  | .model => "model"
  | .provider => "provider"
  | .runId => "run_id"
  | .trial => "trial"
  | .actor => "actor"
  | .created => "created"
  | .disqualified => "disqualified"
  | .dqReason => "dq_reason"
  | .error => "error"
  | .newFailuresCount => "new_failures_count"
  | .attempts => "attempts"
  | .costUsd => "cost_usd"
  | .tokensIn => "tokens_in"
  | .tokensOut => "tokens_out"
  | .latencyS => "latency_s"
  | .oracleStrength => "oracle_strength"
  | .goldClean => "gold_clean"
  | .evidencePackHash => "evidence_pack_hash"
  | .apparatusVersion => "apparatus_version"
  | .beltSet => "belt_set"
  | .provenance => "provenance"
  | .schema => "schema"
  | .rowId => "row_id"

def Field.all : List Field :=
  [.repo, .taskId, .clean, .testsUnmodified, .targetGreen, .noNewFailures, .sourceChanged,
    .repoLintClean, .capabilityClass, .size, .language, .pool, .mode, .processStep, .builder,
    .model, .provider, .runId, .trial, .actor, .created, .disqualified, .dqReason, .error,
    .newFailuresCount, .attempts, .costUsd, .tokensIn, .tokensOut, .latencyS, .oracleStrength,
    .goldClean, .evidencePackHash, .apparatusVersion, .beltSet, .provenance, .schema, .rowId]

lemma Field.mem_all (f : Field) : f ∈ Field.all := by
  cases f <;> decide

/-- The types the class declares. -/
inductive PyType
  | str | bool | optBool | int | float | optFloat
deriving DecidableEq, Repr

def Field.type : Field → PyType
  | .clean | .disqualified => .bool
  | .testsUnmodified | .targetGreen | .noNewFailures | .sourceChanged | .repoLintClean | .goldClean => .optBool
  | .newFailuresCount | .attempts | .tokensIn | .tokensOut => .int
  | .costUsd | .latencyS => .float
  | .oracleStrength => .optFloat
  | _ => .str

section Values

variable {F : Type} [PyFloat F]

def PyType.has : PyType → Json F → Bool
  | .str, .str _ | .bool, .bool _ | .optBool, .bool _ | .optBool, .null | .int, .int _ |
    .float, .float _ | .optFloat, .float _ | .optFloat, .null => true
  | _, _ => false

/-- `bool(v)`. -/
def truthy : Json F → Bool
  | .null => false
  | .bool b => b
  | .int n => n ≠ 0
  | .float x => !PyFloat.isZero x
  | .str s => s ≠ ""
  | .arr xs => !xs.isEmpty
  | .obj ps => !ps.isEmpty

def isNone : Json F → Bool
  | .null => true
  | _ => false

/-- `v is b` for one of the two boolean values. -/
def isBool (b : Bool) : Json F → Bool
  | .bool c => b = c
  | _ => false

/-- `v == s` for a string. -/
def eqStr (s : String) : Json F → Bool
  | .str t => s = t
  | _ => false

/-- `b == v` for a boolean, which a number can equal. -/
def eqBool (b : Bool) : Json F → Bool
  | .bool c => b = c
  | .int n => n = if b then 1 else 0
  | .float x => if b then PyFloat.isOne x else PyFloat.isZero x
  | _ => false

end Values

inductive PyException
  | falseQ1Violation | valueError | ledgerIntegrityError | misattributionViolation | typeError
  | attributeError | integrityError | attemptSettled
deriving DecidableEq, Repr

/-- Why a row is refused: one case for each place that raises. -/
inductive Refusal
  | missingField (f : Field)
  | labelsNotMapping
  | notString
  | notSized
  | notNumber
  | trialTooLong
  | unknownBeltSet
  | unrecordedBelt5
  | cleanWithFailedBelt
  | cleanDisqualifiedOrError
  | cleanWithoutPack
  | cleanApiUnstable
  | unknownFailureKind
  | failureKindAgainstClean
  | failureKindAgainstDisqualified
  | unknownOutageCause
  | outageCauseBelowV2
  | outageCauseWithoutOutage
  | costKnownNotBoolean
  | beltSetAgainstApparatus
  | v3LegacyWithBelt4
  | missingPosture
  | unwitnessedBlame
  | v2LabelBelowV2
  | missingFailureKind
  | missingOutageCause
  | missingLintReason
  | lintNotRequested
  | lintStatusAgainstBelt5
  | contextArmOutsideGrammar
  | contextArmAgainstStep
  | taxonomyOutsideGrammar
  | goldNotClean
  | missingChangeId
  | missingExecutor
  | lastRowWithoutHash
  | unreadableLine
  | insertRefused
  | noSuchRun
  | attemptSettled
  | prevHashMismatch (row : ℕ)
  | rowHashMismatch (row : ℕ)
deriving DecidableEq, Repr

def Refusal.exception : Refusal → PyException
  | .missingField _ | .labelsNotMapping | .notSized | .notNumber => .typeError
  | .notString => .attributeError
  | .trialTooLong | .unknownBeltSet | .unrecordedBelt5 | .unknownFailureKind
  | .failureKindAgainstDisqualified | .unknownOutageCause | .outageCauseBelowV2
  | .outageCauseWithoutOutage | .costKnownNotBoolean | .unreadableLine => .valueError
  | .insertRefused => .integrityError
  | .noSuchRun | .attemptSettled => .attemptSettled
  | .cleanWithFailedBelt | .cleanDisqualifiedOrError | .cleanWithoutPack | .cleanApiUnstable
  | .failureKindAgainstClean => .falseQ1Violation
  | .missingPosture | .unwitnessedBlame => .misattributionViolation
  | _ => .ledgerIntegrityError

def refuseIf (c : Bool) (why : Refusal) : Except Refusal Unit := if c then .error why else .ok ()

@[simp] lemma refuseIf_eq_ok {c : Bool} {why : Refusal} {u : Unit} :
    refuseIf c why = .ok u ↔ c = false := by
  cases c <;> simp [refuseIf]

/-- A step that ran through ran its first part through. -/
lemma bind_eq_ok {ε α β : Type} {x : Except ε α} {f : α → Except ε β} {b : β} :
    (x >>= f) = .ok b ↔ ∃ a, x = .ok a ∧ f a = .ok b := by
  cases x with
  | error e => simp [bind, Except.bind]
  | ok a => simp [bind, Except.bind]

section Reading

variable {F : Type} [PyFloat F]

/-- The string methods a check calls exist on strings only. -/
def asStr : Json F → Except Refusal String
  | .str s => .ok s
  | _ => .error .notString

def pyLen : Json F → Except Refusal ℕ
  | .str s => .ok s.toList.length
  | .arr xs => .ok xs.length
  | .obj ps => .ok ps.length
  | _ => .error .notSized

/-- `v > 0`. -/
def pyPositive : Json F → Except Refusal Bool
  | .bool b => .ok b
  | .int n => .ok (0 < n)
  | .float x => .ok (PyFloat.isPositive x)
  | _ => .error .notNumber

end Reading

/-- A row's own content, without its place in a chain. -/
structure RowFields (F : Type) where
  val : Field → Json F
  labels : List (String × Json F)

namespace RowFields

variable {F : Type} [PyFloat F] (r : RowFields F)

/-- `labels.get(k)`, which is `None` for a missing key and for a stored `None`. -/
def label (k : String) : Option (Json F) := (r.labels.lookup k).filter fun v => !isNone v

/-- `labels.get(k, "")`. -/
def labelOr (k : String) : Json F := (r.labels.lookup k).getD (.str "")

/-- `k in labels`. -/
def hasLabel (k : String) : Bool := (r.labels.lookup k).isSome

/-- A field and a label as text, for the readers of rows of the declared types. -/
def str (f : Field) : String :=
  match r.val f with
  | .str s => s
  | _ => ""

def labelStr (k : String) : String :=
  match r.label k with
  | some (.str s) => s
  | _ => ""

def beltSet : Option BeltSet := beltSets.find? fun b => eqStr b.name (r.val .beltSet)

def belt : Belt → Json F
  | .testsUnmodified => r.val .testsUnmodified
  | .targetGreen => r.val .targetGreen
  | .noNewFailures => r.val .noNewFailures
  | .sourceChanged => r.val .sourceChanged
  | .repoLintClean => r.val .repoLintClean

def recordedBelts : List Belt := (r.beltSet.map FailureKind.recordedBelts).getD []

def beltsAllTrue : Bool :=
  (r.recordedBelts.filter (· ∈ coreBelts)).all (fun b => isBool true (r.belt b)) &&
    (r.recordedBelts.filter (· ∉ coreBelts)).all fun b => !isBool false (r.belt b)

/-- Every core belt was recorded and held. -/
def coreBeltsHeld : Bool :=
  coreBelts.all fun b => b ∈ r.recordedBelts && isBool true (r.belt b)

def lintOnly : Bool :=
  Belt.repoLintClean ∈ r.recordedBelts && isBool false (r.val .repoLintClean) && r.coreBeltsHeld

def apiOnly : Bool := eqLabel "api_stable" "false" && r.coreBeltsHeld
where
  eqLabel (k s : String) : Bool := (r.label k).any fun v => eqStr s v || isBool false v

def isV2 : Except Refusal Bool := do
  let version ← asStr (r.val .apparatusVersion)
  return isV2Apparatus version

/-- The kind read from the row's own fields, by the rule its apparatus is read by. -/
def derivedKind (v2 : Bool) : Except Refusal String := do
  if truthy (r.val .clean) then return ""
  if truthy (r.val .disqualified) then return "disqualified"
  let error ← asStr (r.val .error)
  -- the builder's error is read only when the row's own is no protocol violation
  let builderError ←
    if startsWith error.toList protocolPrefix then pure "" else asStr (r.labelOr "builder_error")
  let stopReason := match r.labelOr "stop_reason" with
    | .str s => s
    | _ => ""
  let o : Outcome := ⟨false, false, error, builderError, stopReason, r.lintOnly, r.apiOnly⟩
  return if v2 then deriveFailureKind o else deriveFailureKindV1 o

/-- Why the row is not clean: the pinned label, or the derived kind. -/
def failureKind : Except Refusal (Json F) := do
  let v2 ← r.isV2
  match r.label "failure_kind" with
  | some pinned =>
    if !v2 && eqStr "harness" pinned then
      let error ← asStr (r.val .error)
      return if isOutageErrorV1 error.toList then .str "outage" else pinned
    else return pinned
  | none =>
    let kind ← r.derivedKind v2
    return .str kind

def isMeasured : Bool := eqStr "measured" (r.val .provenance)

def carriesPosture : Except Refusal Bool := do
  let version ← asStr (r.val .apparatusVersion)
  return r.isMeasured && atLeast (parseApparatusVersion version) (2, 3)

def carriesClassification : Except Refusal Bool := do
  if !r.isMeasured then return false
  r.isV2

def assertClean : Except Refusal Unit := do
  if truthy (r.val .clean) then
    refuseIf (!r.beltsAllTrue) .cleanWithFailedBelt
    refuseIf (truthy (r.val .disqualified) || truthy (r.val .error)) .cleanDisqualifiedOrError
    refuseIf (!truthy (r.val .evidencePackHash)) .cleanWithoutPack
    refuseIf ((r.label "api_stable").any (eqStr "false")) .cleanApiUnstable

def assertFailureKindLabel : Except Refusal Unit :=
  match r.label "failure_kind" with
  | none => .ok ()
  | some kind => do
    refuseIf (!failureKinds.any fun k => eqStr k kind) .unknownFailureKind
    refuseIf (eqBool (truthy kind) (r.val .clean)) .failureKindAgainstClean
    refuseIf (!eqBool (eqStr "disqualified" kind) (r.val .disqualified))
      .failureKindAgainstDisqualified

def outageCauses : List String := ["auth", "provider"]

def assertOutageCauseLabel : Except Refusal Unit :=
  match r.label "outage_cause" with
  | none => .ok ()
  | some cause => do
    refuseIf (!outageCauses.any fun c => eqStr c cause) .unknownOutageCause
    let v2 ← r.isV2
    refuseIf (!v2) .outageCauseBelowV2
    let kind ← r.failureKind
    refuseIf (!eqStr "outage" kind) .outageCauseWithoutOutage

def assertCostKnownLabel : Except Refusal Unit :=
  match r.label "cost_known" with
  | none => .ok ()
  | some ck => refuseIf (!(eqStr "true" ck || eqStr "false" ck)) .costKnownNotBoolean

def assertBeltSetMatchesApparatus : Except Refusal Unit := do
  let provenance ← asStr (r.val .provenance)
  let version ← asStr (r.val .apparatusVersion)
  refuseIf (!(expectedBeltSets version provenance).any fun b => eqStr b.name (r.val .beltSet))
    .beltSetAgainstApparatus
  refuseIf (eqStr BeltSet.v3Legacy.name (r.val .beltSet) && !isNone (r.val .sourceChanged))
    .v3LegacyWithBelt4

def postureLabels : List String := ["posture_id", "posture_class", "qualification_id"]

def blameControls : List String :=
  ["gold_green", "env_probe", "no_source", "lint_gold_ok", "api_diff"]

def assertPostureAndWitness : Except Refusal Unit := do
  if ← r.carriesPosture then
    refuseIf (postureLabels.any fun k => !truthy (r.labelOr k)) .missingPosture
    let kind ← r.failureKind
    if modelFailureKinds.any fun k => eqStr k kind then
      refuseIf (!blameControls.any fun b => eqStr b (r.labelOr "blame_control")) .unwitnessedBlame

def v2OnlyLabels : List String :=
  ["lint_reason", "change_id", "context_arm", "taxonomy", "outage_cause"]

/-- `(v or "").strip()` of a label read with the default `""`. -/
def labelOrText (k : String) : Except Refusal String :=
  if truthy (r.labelOr k) then asStr (r.labelOr k) else .ok ""

def assertLintReason : Except Refusal Unit :=
  match r.label "lint_reason" with
  | none => .error .missingLintReason
  | some reason => do
    refuseIf (eqStr "not_requested" reason) .lintNotRequested
    let status := match reason with
      | .str s => s
      | _ => ""
    refuseIf (lintStatusViolation status (isNone (r.val .repoLintClean))
      (isBool false (r.val .repoLintClean)) (truthy (r.val .clean))) .lintStatusAgainstBelt5

def assertContextArm : Except Refusal Unit := do
  let arm ← r.labelOrText "context_arm"
  match parseArm arm with
  | none => .error .contextArmOutsideGrammar
  | some a => refuseIf ((eqStr "replay" (r.val .processStep) && a.base = .S2) ||
      (eqStr "factory" (r.val .processStep) && !a.certifies)) .contextArmAgainstStep

def assertOwnClassification : Except Refusal Unit := do
  let v2 ← r.isV2
  refuseIf (!v2 && v2OnlyLabels.any r.hasLabel) .v2LabelBelowV2
  if ← r.carriesClassification then
    refuseIf (!r.hasLabel "failure_kind") .missingFailureKind
    let kind ← r.failureKind
    refuseIf (eqStr "outage" kind && !r.hasLabel "outage_cause") .missingOutageCause
    r.assertLintReason
    r.assertContextArm
    let taxonomy ← r.labelOrText "taxonomy"
    refuseIf (!isClassSetVersion taxonomy) .taxonomyOutsideGrammar
    if eqStr "replay" (r.val .processStep) then
      refuseIf (!isBool true (r.val .goldClean)) .goldNotClean
      refuseIf (!truthy (r.labelOr "change_id")) .missingChangeId

/-- The gate at construction, which the ledger runs again before it chains a row. -/
def assertInvariants : Except Refusal Unit := do
  r.assertClean
  r.assertFailureKindLabel
  r.assertOutageCauseLabel
  r.assertCostKnownLabel
  r.assertBeltSetMatchesApparatus
  r.assertPostureAndWitness
  r.assertOwnClassification

def trialMaxLen : ℕ := 16

/-- `__post_init__` after it has copied the labels and given the row an identifier. -/
def postInit : Except Refusal Unit := do
  let n ← pyLen (r.val .trial)
  refuseIf (trialMaxLen < n) .trialTooLong
  refuseIf (r.beltSet = none) .unknownBeltSet
  refuseIf (r.beltSet ≠ some .v5 && !isNone (r.val .repoLintClean)) .unrecordedBelt5
  r.assertInvariants

def imported : Bool :=
  (r.label "imported").any (eqStr "true") || r.hasLabel "source_row_hash"

/-- At write only: a measured replay row of this deployment says where its builder ran. -/
def assertExecutorRecorded : Except Refusal Unit := do
  if !eqStr "replay" (r.val .processStep) then return ()
  if !(← r.carriesClassification) then return ()
  refuseIf (!(r.imported || r.hasLabel "builder_executor")) .missingExecutor

/-- Whether `cost_usd` is a measurement. -/
def costKnown : Except Refusal Bool :=
  match r.label "cost_known" with
  | some pinned => .ok (eqStr "true" pinned)
  | none => do
    if ← pyPositive (r.val .costUsd) then return true
    if ← pyPositive (r.val .tokensIn) then return true
    if ← pyPositive (r.val .tokensOut) then return true
    if truthy (r.val .builder) then
      let provenance ← asStr (r.val .provenance)
      return !startsWith provenance.toList "imported:".toList
    return false

/-- The declared types hold of every field and label. -/
def Typed : Prop :=
  (∀ f : Field, f.type.has (r.val f) = true) ∧ ∀ p ∈ r.labels, PyType.str.has p.2 = true

/-- Its dictionaries are in key order. -/
def InOrder : Prop :=
  (∀ f, Canonical (r.val f)) ∧ KeySorted r.labels ∧ ∀ p ∈ r.labels, Canonical p.2

end RowFields

end CommitReplay.RowChecks
