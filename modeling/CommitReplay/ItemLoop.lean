import CommitReplay.Interaction
import CommitReplay.ContextArms
import CommitReplay.ContextStandard
import CommitReplay.ReviewVerdicts
import CommitReplay.FactoryGrants

/-! One backlog item through the factory's loop: readiness and the entry gate, the RED proof, the
build, the review, its reworks and the delivery, as calls on the collaborators of a run. -/
namespace CommitReplay.ItemLoop

open CommitReplay.PythonText CommitReplay.JsonValue CommitReplay.JsonText CommitReplay.GradeRows
open CommitReplay.FactoryEvents CommitReplay.FactoryGrants CommitReplay.Interaction
open CommitReplay.SlotReadiness CommitReplay.ContextStandard CommitReplay.ReviewVerdicts
open CommitReplay.ContextArms (ContextArm)

section Data

inductive Status
  | notReady | routedHuman | noOracle | notRed | notClean | disqualified | deliveryFailed | accepted
  | rejected | reworkExhausted | oracleNeedsStrengthening | oracleNotScoreable | noProvenStandard
  | needsContext | unsignedCell | granularize | notLicensed | sizeExceedsLicence | cellNotLicensed
  | calibrationBuild | blocked | error
deriving DecidableEq, Repr

def Status.text : Status → String
  | .notReady => "not_ready"
  | .routedHuman => "routed_human"
  | .noOracle => "no_oracle"
  | .notRed => "not_red"
  | .notClean => "not_clean"
  | .disqualified => "disqualified"
  | .deliveryFailed => "delivery_failed"
  | .accepted => "accepted"
  | .rejected => "rejected"
  | .reworkExhausted => "rework_exhausted"
  | .oracleNeedsStrengthening => "oracle_needs_strengthening"
  | .oracleNotScoreable => "oracle_not_scoreable"
  | .noProvenStandard => "no_proven_standard"
  | .needsContext => "needs_context"
  | .unsignedCell => "unsigned_cell"
  | .granularize => "granularize"
  | .notLicensed => "not_licensed"
  | .sizeExceedsLicence => "size_exceeds_licence"
  | .cellNotLicensed => "cell_not_licensed"
  | .calibrationBuild => "calibration_build"
  | .blocked => "blocked_on_dependency"
  | .error => "error"

/-- `_ENTRY_STATUS`. -/
def entryStatus : Stop → Option Status
  | .unsized => some .routedHuman
  | .granularize => some .granularize
  | .noProvenStandard => some .noProvenStandard
  | .needsContext => some .needsContext
  | .unsignedCell => some .unsignedCell
  | .notLicensed => some .notLicensed
  | _ => none

/-- A builder, or a test author, with its model and its provider. -/
structure Rung where
  builder : String
  model : String
  provider : String
deriving DecidableEq

/-- `author_label` and `reviewer_label`. -/
def Rung.label (r : Rung) : String := r.builder ++ ":" ++ r.model

structure AuthoredTest where
  path : String
  content : String
  author : String
deriving DecidableEq

def AuthoredTest.operatorAuthored (t : AuthoredTest) : Bool :=
  startsWith t.author.toList "operator:".toList

structure RedProof where
  testSha256 : String
  author : String
deriving DecidableEq

/-- One graded attempt: `size` is the tier of the churn built, `builtBy` the builder its evidence
pack names. -/
structure BuildResult where
  packHash : String
  rung : String
  clean : Bool
  disqualified : Bool
  oracleSha256 : String
  size : Tier
  builtBy : Option Rung
deriving DecidableEq

structure BuildArgs where
  oracle : AuthoredTest
  proof : RedProof
  trialPrefix : String
  arm : String
  calibration : Bool
  heldOut : Option String
  grant : String
deriving DecidableEq

/-- The capability map's decision for a cell; `falseQ1` is what `int` makes of its count, and `none`
where the count cannot be read. -/
structure RouteDecision where
  route : String
  reason : String
  reasonCode : String
  falseQ1 : Option ℤ
  policyVersion : String
deriving DecidableEq

structure DeliveryResult where
  itemId : String
  branch : String
  base : String
  commitSha : String
  prUrl : String
  prNumber : ℤ
  packHash : String
  bodySha256 : String
  created : String
  repository : String
  updated : Bool
  commentError : String
deriving DecidableEq

structure DeliverArgs where
  build : BuildResult
  previous : Option DeliveryResult
  reworkN : ℕ
  afterVerdict : String
  verdict : Verdict
  route : RouteDecision
  waivers : List String
  licenceLine : String
deriving DecidableEq

end Data

section Collaborators

/-- What a collaborator may raise, by the handlers the loop has for it. -/
inductive Exn
  | sandboxUnavailable
  | notRed (message : String)
  | deliveryError (message : String)
  | other (name message : String)
deriving DecidableEq

/-- `type(exc).__name__: exc`. -/
def Exn.text : Exn → String
  | .sandboxUnavailable => "SandboxUnavailable: "
  | .notRed m => "NotRed: " ++ m
  | .deliveryError m => "DeliveryError: " ++ m
  | .other name m => name ++ ": " ++ m

/-- What the loop appends to the evidence. -/
inductive Record
  | readiness (r : Readiness)
  | route (hint : RouteHint) (reason code : String)
  | entryRefused (entry : Entry)
  | calibrationClaimed (grant : String)
  | acceptanceNotGraded (grant why : String)
  | redProof (proof : RedProof)
  | redRefused (reason : String)
  | verdict (v : ReviewVerdict)
  | edit (packHash : String)
  | delivery (d : DeliveryResult)
  | deliveryUpdated (d : DeliveryResult) (rework : ℕ) (afterVerdict : String)
  | deliveryRefused (reason code packHash : String)
  | deliveryOutcome (prNumber : ℤ) (verdict : Verdict) (reason : String)
  | itemOutcome (status : Status) (builds : ℕ) (verdict : String) (delivered : Bool) (reworks : ℕ)
    (error calibrationEvent : String)

/-- A call of one run on a collaborator: the trace of events, the evidence and its readings (the
chain as `append_if` holds it under its lock among them), the map, the standards, the override, the
authors, the builders, the probes, the reviewer and the forge. -/
inductive Op
  | emit (action : String)
  | record (r : Record)
  | gapSignoffs
  | eventsFor
  | lockedEvents
  | outcomeFor (prNumber : ℤ)
  | overrideBy
  | routeFor (size : Option Tier)
  | standardFor (cell : CellRef)
  | heldOut
  | authorTest
  | proveRed (oracle : AuthoredTest)
  | buildLadder (args : BuildArgs)
  | runProbe (name : String) (build : BuildResult) (proof : RedProof)
  | assessReview (build : BuildResult) (results : List ProbeResult)
  | reworkTest (v : ReviewVerdict) (oracle : AuthoredTest)
  | closeBuild (build : BuildResult)
  | deliver (args : DeliverArgs)
  | closePullRequest (pr : DeliveryResult) (verdict : Verdict) (reason : String)

variable (F : Type)

/-- What a call answers. -/
@[reducible] def Op.Ans : Op → Type
  | .emit _ => Unit
  | .record _ => String
  | .gapSignoffs => List GapSignoff
  | .eventsFor => List (FactoryEvent F)
  | .lockedEvents => List (FactoryEvent F)
  | .outcomeFor _ => Option (FactoryEvent F)
  | .overrideBy => String
  | .routeFor _ => Option RouteDecision
  | .standardFor _ => Option Standard
  | .heldOut => Option String × String
  | .authorTest => AuthoredTest
  | .proveRed _ => RedProof
  | .buildLadder _ => List BuildResult
  | .runProbe .. => ProbeResult
  | .assessReview .. => ReviewOpinion
  | .reworkTest .. => Option AuthoredTest
  | .closeBuild _ => Unit
  | .deliver _ => DeliveryResult
  | .closePullRequest .. => Unit

abbrev face : Interface := ⟨Op, Op.Ans F, Exn⟩

/-- `_Stop`: the status an item ends with. -/
structure Stopped where
  status : Status
  readiness : Option Readiness
  error : String

/-- The variables of `run_item`, which its handlers and its end read. -/
structure Locals where
  readiness : Option Readiness
  proof : Option RedProof
  builds : List BuildResult
  verdicts : List ReviewVerdict
  delivery : Option DeliveryResult
  reworks : ℕ
  keep : List BuildResult
  entry : Entry

def Locals.init : Locals := ⟨none, none, [], [], none, 0, [], Entry.blank⟩

abbrev Item := Prog (face F) Stopped Locals

end Collaborators

section Spec

/-- `FactorySpec`, with what the deployment makes of texts and numbers: the pricing table's name of
a model and its view of two identities, what is printable, the hash, the head of a text that is kept
(`redact_and_cap_head`), and `int` of a float. -/
structure FactorySpec (F : Type) where
  ladder : List Rung
  reviewer : Rung
  probes : List String
  testAuthor : Option Rung
  hasGapLedger : Bool
  deliver : Bool
  actor : String
  maxRework : ℕ
  hasReworkTest : Bool
  hasRouteDecision : Bool
  deliverOverrideBy : String
  hasOverrideSeam : Bool
  requireSignedCell : Bool
  agreementPassed : Bool
  keepWorkspaces : Bool
  canonicalModel : String → String
  distinctIdentity : String → String → Bool
  isPrintable : Char → Bool
  sha256 : Sha256
  head : String → String
  truncate : F → Option ℤ

end Spec

section Calls

variable {F : Type}

def ask (op : Op) : Item F (Op.Ans F op) := @Prog.call (face F) _ _ op

/-- An event on the trace. -/
def say (action : String) : Item F Unit := ask (.emit action)

/-- An event on the evidence; its identifier. -/
def note (r : Record) : Item F String := ask (.record r)

def whenever (c : Bool) (p : Item F Unit) : Item F Unit := if c then p else pure ()

/-- `raise _Stop(status, error=..)`. -/
def endWith {α : Type} (status : Status) (error : String) : Item F α :=
  Prog.stop ⟨status, none, error⟩

variable [PyFloat F] (s : FactorySpec F) (item : BacklogItem)

def signoffs : Item F (List GapSignoff) :=
  if s.hasGapLedger then ask .gapSignoffs else pure []

/-- `_map_route` of the item's class in a size; without a map nobody measured it. -/
def mapRoute (size : Option Tier) : Item F (Option RouteDecision) :=
  if s.hasRouteDecision then ask (.routeFor size) else pure none

def stripped (text : String) : String := .ofList (strip text.toList)

/-- `_override_by`: the live seam where there is one, else what the run was given. -/
def overrideBy : Item F String := do
  let by_ ← if s.hasOverrideSeam then ask .overrideBy else pure s.deliverOverrideBy
  return stripped by_

inductive OverrideRefusal
  | falseQ1 | sameActor
deriving DecidableEq

/-- The honesty floor: a cell that does not ship, or shows or may show a false-Q1 row. -/
def showsFalseQ1 (route : Option RouteDecision) : Bool :=
  match route with
  | none => false
  | some r => r.route = "do_not_ship" || r.reasonCode = "false_q1" ||
      (r.falseQ1.map fun n => decide (0 < n)).getD true

/-- `_override_refusal`. -/
def overrideRefusal (route : Option RouteDecision) (by_ : String) : Option OverrideRefusal :=
  if by_ = "" then none
  else if showsFalseQ1 route then some .falseQ1
  else if s.actor ≠ "" ∧ by_ = s.actor then some .sameActor
  else none

/-- `_OVERRIDE_REFUSED_WHY`. -/
def OverrideRefusal.why (by_ : String) : OverrideRefusal → String
  | .falseQ1 => "false-Q1 = 0 is the honesty floor: no override lifts anything on a cell with a " ++
      "false-Q1 row (the override by " ++ by_ ++ " was refused)"
  | .sameActor => "the override was named by this run's own actor " ++ by_ ++
      "; a second approver grants it (ADR-0016's two-person rule), so it was refused"

def mapRoutes : List Tier → Item F (List (Option RouteDecision))
  | [] => pure []
  | size :: sizes => do
    let r ← mapRoute s (some size)
    let rs ← mapRoutes sizes
    return r :: rs

/-- `_override_refusal_over_read_cells`. -/
def overrideRefusalOverReadCells (by_ : String) : Item F (Option OverrideRefusal) :=
  if by_ = "" then pure none
  else do
    let own ← mapRoute s item.sizeEstimate
    let larger ← mapRoutes s (match item.sizeEstimate with
      | none => []
      | some size => (sizesToRead size s.agreementPassed).filter (· ≠ size))
    let refusals := (own :: larger).map fun r => overrideRefusal s r by_
    return if some .falseQ1 ∈ refusals then some .falseQ1
      else if some .sameActor ∈ refusals then some .sameActor
      else none

/-- `str(payload.get(key, ""))`. -/
def textField (key : String) (p : Payload F) : String :=
  match p.get key with
  | none => ""
  | some v => PythonRepr.pyStr s.isPrintable v

/-- `_calibration`: the item's unspent grant. -/
def calibration : Item F (Option Calibration) := do
  let events ← (ask .eventsFor : Item F (List (FactoryEvent F)))
  return (waitingGrant s.isPrintable events item.id).map fun e =>
    ⟨textField s "approver" e.payload, textField s "reason" e.payload, e.eventId⟩

end Calls

end CommitReplay.ItemLoop
