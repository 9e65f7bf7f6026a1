import CommitReplay.ItemLoop
import CommitReplay.EgressProxy

/-! The steps of the factory's loop over one item, in the order they are taken. -/
namespace CommitReplay.ItemSteps

open CommitReplay.PythonText CommitReplay.JsonValue CommitReplay.JsonText CommitReplay.RowChecks
open CommitReplay.FactoryEvents CommitReplay.FactoryGrants CommitReplay.Interaction
open CommitReplay.SlotReadiness CommitReplay.ContextStandard CommitReplay.ReviewVerdicts
open CommitReplay.ItemLoop
open CommitReplay.ContextArms (ContextArm)

variable {F : Type} [PyFloat F] (s : FactorySpec F) (item : BacklogItem)

section EntryGate

/-- `_stop_entry`: the gate's stop is on the record before any spend. -/
def stopEntry {α : Type} (r : Readiness) (entry : Entry) : Item F α := do
  let _ ← note (.entryRefused entry)
  let _ ← note (.route .human entry.reason ((entry.code.map Stop.text).getD ""))
  say "entry.refused"
  match entry.code.bind entryStatus with
  | none => Prog.raise (.other "KeyError" ((entry.code.map Stop.text).getD ""))
  | some status => Prog.stop ⟨status, some r, entry.reason⟩

/-- The cell of the item's class in a size, as an organisation's class set has it. -/
def itemCell (size : Tier) : CellRef :=
  ⟨item.capabilityClass, some size, "", "", "", "", item.taxonomy, item.orgClass⟩

def readStandards : List Tier → Item F (List Read)
  | [] => pure []
  | size :: sizes => do
    let standard ← (ask (.standardFor (itemCell item size)) : Item F (Option Standard))
    let read ← readStandards sizes
    return (size, standard) :: read

/-- The name a model goes by, or the model itself. -/
def canonicalName (model : String) : String :=
  if s.canonicalModel model = "" then model else s.canonicalModel model

/-- `author.split(":", 1)[-1]`. -/
def authorModel (author : String) : String :=
  .ofList (if ':' ∈ author.toList then (author.toList.dropWhile (· ≠ ':')).drop 1
    else author.toList)

/-- `_s1_author`: who would write the item's test. -/
def s1Author (authored : Option AuthoredTest) : Option String :=
  match authored.filter fun t => !t.operatorAuthored with
  | some t => some (canonicalName s (authorModel t.author))
  | none => s.testAuthor.map fun a => canonicalName s a.model

def ticketOf (r : Readiness) (authored : Option AuthoredTest) : Ticket where
  capabilityClass := item.capabilityClass
  missingSlots := r.blockingGaps.map (·.name)
  personTest := authored.any AuthoredTest.operatorAuthored
  author := s1Author s authored

/-- `decide`: `gate_for` of the item under a grant and an override. -/
def decideEntry (r : Readiness) (authored : Option AuthoredTest) (by_ : String)
    (grant : Option Calibration) : Item F Entry :=
  match sizeStop item.sizeEstimate s.agreementPassed with
  | .inl stop => pure stop
  | .inr size => do
    let standard ← (ask (.standardFor (itemCell item size)) : Item F (Option Standard))
    let larger ← readStandards item (largerToRead size s.agreementPassed)
    return decideRead (ticketOf s item r authored) (size, standard) larger grant
      s.requireSignedCell by_

/-- `claim_calibration`: the check and the append under the store's lock. -/
def claimCalibration (grant : String) : Item F Bool := do
  let events ← (ask .lockedEvents : Item F (List (FactoryEvent F)))
  if grant ∈ spentGrants s.isPrintable events then return false
  else do
    let _ ← note (.calibrationClaimed grant)
    return true

/-- An override that may not lift anything is on the record, and then nobody named it. -/
def admittedOverride (r : Readiness) : Item F String := do
  let by_ ← overrideBy s
  match ← overrideRefusalOverReadCells s item by_ with
  | none => return by_
  | some refused => do
    let _ ← note (.route r.routeHint ("override refused — " ++ refused.why by_)
      (match refused with | .falseQ1 => "false_q1" | .sameActor => "same_actor"))
    say "delivery.override_refused"
    return ""

/-- `licensing_rungs`, as far as the loop asks: whether a rung's own cell licenses the arm. -/
def anyRungLicensed (arm : String) : List Rung → Item F Bool
  | [] => pure false
  | rung :: rungs => do
    let standard ← (ask (.standardFor ⟨item.capabilityClass, item.sizeEstimate, rung.builder,
      rung.model, arm, rung.provider, "", ""⟩) : Item F (Option Standard))
    let later ← anyRungLicensed arm rungs
    return licensesArm standard arm || later

def rungText (r : Rung) : String :=
  if r.provider = "" then r.builder ++ ":" ++ r.model
  else r.builder ++ ":" ++ r.model ++ "@" ++ r.provider

def notLicensedEntry (entry : Entry) : Entry :=
  ⟨some .notLicensed, "delivery is on and no rung of this run's ladder (" ++
    commaJoined (s.ladder.map rungText) ++ ") holds a licence for " ++ entry.arm ++ " in the " ++
    item.capabilityClass ++ " " ++ sizeName item.sizeEstimate ++
    " cell for its own builder, model and provider: not built", Stop.notLicensed.text, [],
    entry.standard, entry.cells, none, ""⟩

/-- What ends an item that is not the factory's to build. -/
def routeToPerson (r : Readiness) : Item F Unit := do
  let _ ← note (.route .human r.reason "")
  say "route.decided"
  Prog.stop ⟨.routedHuman, some r, ""⟩

def noteLifted (r : Readiness) (entry : Entry) : Item F Unit :=
  whenever (entry.overrideBy ≠ "") (do
    let _ ← note (.route r.routeHint
      ("sign-off clause lifted by " ++ entry.overrideBy ++ " for this run") "")
    say "delivery.override")

def refuseUnready (r : Readiness) : Item F Unit :=
  whenever (!r.ready) (do
    let _ ← note (.route .human r.reason "")
    say "readiness.refused"
    Prog.stop ⟨.notReady, some r, ""⟩)

/-- The claim of the entry's grant, and the entry decided again without it where it is lost. -/
def claimFor (r : Readiness) (authored : Option AuthoredTest) (by_ : String) (entry : Entry) :
    Item F Unit :=
  match entry.calibration with
  | none => pure ()
  | some grant => do
    let claimed ← claimCalibration s grant.eventId
    whenever (!claimed) (do
      let refused ← decideEntry s item r authored by_ none
      stopEntry r refused)

/-- Where delivery is on, an item nobody on the ladder is licensed for is not built. -/
def requireLicensedRung (r : Readiness) (entry : Entry) : Item F Unit :=
  whenever (s.deliver && entry.calibration.isNone) (do
    let licensed ← anyRungLicensed item entry.arm s.ladder
    whenever (!licensed) (stopEntry r (notLicensedEntry s item entry)))

def noteCalibration (r : Readiness) (entry : Entry) : Item F Unit :=
  whenever entry.calibration.isSome (do
    let _ ← note (.route r.routeHint entry.reason Stop.calibrationBuild.text)
    say "calibration.started")

/-- The part of `_assess` after the decision to enter. -/
def admission (r : Readiness) (authored : Option AuthoredTest) (by_ : String) (entry : Entry) :
    Item F (Option RouteDecision) := do
  noteLifted r entry
  refuseUnready r
  claimFor s item r authored by_ entry
  let route ← mapRoute s item.sizeEstimate
  let _ ← note (.route r.routeHint r.reason "")
  say "route.decided"
  requireLicensedRung s item r entry
  noteCalibration r entry
  return route

/-- `_assess`. -/
def assessItem (authored : Option AuthoredTest) :
    Item F (Readiness × Option RouteDecision × Entry) := do
  let signed ← signoffs s
  let r := assess s.isPrintable item signed
  let _ ← note (.readiness r)
  say "readiness.assessed"
  whenever (item.kind = .operator) (routeToPerson r)
  whenever (r.routeHint = .human && r.ready) (routeToPerson r)
  let by_ ← admittedOverride s item r
  let grant ← calibration s item
  let entry ← decideEntry s item r authored by_ grant
  whenever (!entry.enters) (stopEntry r entry)
  let route ← admission s item r authored by_ entry
  return (r, route, entry)

end EntryGate

section Oracle

/-- `_arm_base`. -/
def armBase (entry : Entry) (authored : Option AuthoredTest) : String :=
  match entry.calibration, entry.standard.filter Standard.licenses with
  | none, some standard => standard.base
  | _, _ => if authored.any AuthoredTest.operatorAuthored then baseS2 else baseS1

/-- `context_arm_for`, which refuses an arm outside the grammar. -/
def contextArmFor (base author : String) (plusL : Bool) : Item F String :=
  let arm : ContextArm := ⟨if base = baseS1 then .S1 else if base = baseS2 then .S2 else .S3,
    if base = baseS1 then author else "", "", "", plusL⟩
  if arm.wellFormed then pure arm.id
  else Prog.raise (.other "ValueError" ("context arm " ++ arm.id ++ " is outside the grammar"))

/-- The test author's own test, or no oracle. -/
def authoredOracle (r : Readiness) (plusL : Bool) : Item F (AuthoredTest × String) := do
  match s.testAuthor with
  | none => do
    let _ ← note (.redRefused "no authored test and no test author configured")
    Prog.stop ⟨.noOracle, some r, ""⟩
  | some author => do
    say "author.start"
    let test ← (ask .authorTest : Item F AuthoredTest)
    whenever (r.routeHint ≠ .testFirst) (say "author.done")
    let arm ← contextArmFor baseS1 (canonicalName s author.model) plusL
    return (test, arm)

/-- `_oracle`: the test the arm is measured with, and the arm. -/
def oracleFor (r : Readiness) (authored : Option AuthoredTest) (entry : Entry) :
    Item F (AuthoredTest × String) :=
  let plusL := entry.calibration.isNone && entry.standard.any Standard.plusL
  match authored with
  | none => authoredOracle s r plusL
  | some test =>
    if armBase entry authored = baseS2 then do
      let arm ← contextArmFor baseS2 "" plusL
      return (test, arm)
    else if test.operatorAuthored then do
      let _ ← note (.route r.routeHint ("a person's test on an S1 cell is kept as a held-out " ++
        "acceptance test: the builder never sees it") "")
      say "author.held_out"
      authoredOracle s r plusL
    else do
      let arm ← contextArmFor baseS1 (canonicalName s (authorModel test.author)) plusL
      return (test, arm)

end Oracle

section Building

/-- `_prove`: a refused RED proof is on the record and ends the item. -/
def prove (r : Readiness) (oracle : AuthoredTest) : Item F RedProof := do
  let proof ← (ask (.proveRed oracle) : Item F RedProof).attempt fun e =>
    match e with
    | .raised (.notRed message) => do
      let _ ← note (.redRefused message)
      Prog.stop ⟨.notRed, some r, message⟩
    | e => Prog.halt e
  let _ ← note (.redProof proof)
  return proof

/-- The build and the grade of its last attempt, which a build not worth a review ends. -/
def built (args : BuildArgs) : Item F BuildResult := do
  let results : List BuildResult ← ask (.buildLadder args)
  Prog.modify fun l => { l with builds := l.builds ++ results }
  match results.getLast? with
  | none => Prog.raise (.other "IndexError" "list index out of range")
  | some final => do
    Prog.modify fun l => { l with keep := l.keep ++ [final] }
    whenever final.disqualified (endWith .disqualified "")
    whenever (!final.clean) (endWith .notClean "")
    return final

/-- `_probe_waiver`: the newest waiver bound to these bytes that the run's own actor did not give. -/
def probeWaiver (testSha256 : String) :
    List (FactoryEvent F) → Option ProbeWaiver → Item F (Option ProbeWaiver)
  | [], found => pure found
  | e :: events, found =>
    let w : ProbeWaiver := ⟨textField s "approver" e.payload, textField s "reason" e.payload,
      textField s "test_sha256" e.payload, e.eventId⟩
    if !w.appliesTo testSha256 then probeWaiver testSha256 events found
    else if s.actor ≠ "" ∧ w.approver = s.actor then do
      let _ ← note (.route .human ("probe waiver refused — " ++ w.approver ++ " queued this run; " ++
        "the strength probe is waived by a second approver (ADR-0016's two-person rule)")
        "waiver_refused")
      say "review.waiver_refused"
      probeWaiver testSha256 events found
    else probeWaiver testSha256 events (some w)

def assertDistinctIdentity (author other : String) : Item F Unit :=
  if s.distinctIdentity author other then pure ()
  else Prog.raise (.other "SameIdentityError" other)

def runProbes (build : BuildResult) (proof : RedProof) (waiver : Option ProbeWaiver) :
    List String → Item F (List ProbeResult)
  | [] => pure []
  | name :: names => do
    let result ← (ask (.runProbe name build proof) : Item F ProbeResult)
    say "review.probe"
    let results ← runProbes build proof waiver names
    return underWaiver waiver build.oracleSha256 result :: results

/-- The verdict on a build before it is on the record. -/
def formVerdict (final : BuildResult) (proof : RedProof) : Item F ReviewVerdict := do
  let events ← (ask .eventsFor : Item F (List (FactoryEvent F)))
  let waiver ← probeWaiver s final.oracleSha256 (events.filter (·.kind = .probeWaived)) none
  assertDistinctIdentity s final.rung s.reviewer.label
  assertDistinctIdentity s proof.author s.reviewer.label
  say "review.start"
  let results ← runProbes final proof waiver s.probes
  let opinion ← (ask (.assessReview final results) : Item F ReviewOpinion)
  return verdictOf item.id s.reviewer.label final.rung proof.author final.packHash "" results opinion

/-- `_review`: the verdict is recorded before this returns. -/
def reviewed (final : BuildResult) (proof : RedProof) : Item F ReviewVerdict := do
  let v ← formVerdict s item final proof
  let eventId ← note (.verdict v)
  say "review.verdict"
  say "review.recorded"
  Prog.modify fun l => { l with verdicts := l.verdicts ++ [{ v with eventId }] }
  return { v with eventId }

end Building

section OpenPullRequests

/-- `int(payload.get("pr_number", 0) or 0)`. -/
def prNumber (p : Payload F) : Option ℤ :=
  match p.get "pr_number" with
  | none => some 0
  | some v =>
    if truthy v then
      match v with
      | .int n => some n
      | .bool _ => some 1
      | .float x => s.truncate x
      | .str t => EgressProxy.int t.toList
      | _ => none
    else some 0

/-- `_open_delivery`: the newest delivery whose pull request has no recorded outcome. -/
def openDelivery : Item F (Option DeliveryResult) :=
  if s.deliver then do
    let events ← (ask .eventsFor : Item F (List (FactoryEvent F)))
    match (events.filter fun e => e.kind = .delivery ∨ e.kind = .deliveryUpdated).getLast? with
    | none => return none
    | some latest =>
      match prNumber s latest.payload with
      | none => Prog.raise (.other "ValueError" "pr_number")
      | some number =>
        if number ≤ 0 then return none
        else do
          let outcome ← (ask (.outcomeFor number) : Item F (Option (FactoryEvent F)))
          let field := fun key => textField s key latest.payload
          return if outcome.isSome then none else some
            ⟨item.id, field "branch", field "base", field "commit_sha", field "pr_url", number,
              field "pack_hash", field "body_sha256", field "created", field "repository", false, ""⟩
  else pure none

/-- Whether the pull request was closed. -/
def tryClose (pr : DeliveryResult) (verdict : Verdict) (reason : String) : Item F Bool :=
  ((ask (.closePullRequest pr verdict reason) : Item F Unit) >>= fun _ => pure true).attempt
    fun _ => do
      say "delivery.close_failed"
      return false

/-- `_withdraw`: the pull request is closed, naming the verdict; a failure to close is an event on
the trace and no more. -/
def withdraw (openPr : Option DeliveryResult) (v : ReviewVerdict) (why : String) : Item F Unit :=
  match openPr with
  | none => pure ()
  | some pr => do
    let kinds := ((v.findings.filter fun f => f.severity = .major ∨ f.severity = .blocking).map
      (·.kind)).eraseDups.insertionSort (· ≤ ·)
    let reason := (if kinds = [] then "" else "finding(s) " ++ commaJoined kinds ++ " — ") ++ why
    let closed ← tryClose pr v.verdict reason
    whenever closed (do
      let _ ← note (.deliveryOutcome pr.prNumber v.verdict reason)
      say "delivery.closed")

def hashHead (oracle : AuthoredTest) : String :=
  .ofList ((s.sha256.hex oracle.content.toList).toList.take 12)

/-- `_require_scoreable`. -/
def requireScoreable (v : ReviewVerdict) (oracle : AuthoredTest) (openPr : Option DeliveryResult) :
    Item F Unit :=
  match unscoreable v with
  | none => pure ()
  | some probe => do
    let reason := "the strength probe could not score the authored test (" ++ s.head probe.detail ++
      "): register a superseding item whose test exercises the changed lines, or ask an approver " ++
      "to waive the probe for this test's exact bytes (sha256 " ++ hashHead s oracle ++ ")"
    let _ ← note (.route .human reason Status.oracleNotScoreable.text)
    say "route.decided"
    withdraw openPr v reason
    endWith .oracleNotScoreable reason

/-- `_refuse_rework`. -/
def refuseRework (v : ReviewVerdict) (why : String) (openPr : Option DeliveryResult) :
    Item F Unit := do
  let reason := "the reviewer found the oracle weak (" ++ s.head ((weakOracleFinding v).getD "") ++
    ") and " ++ why ++ ": strengthen the test and register a superseding item"
  let _ ← note (.route .human reason "")
  say "route.decided"
  say "rework.refused"
  withdraw openPr v reason
  endWith .oracleNeedsStrengthening reason

end OpenPullRequests

section Delivery

/-- `_licence_line`. -/
def licenceLine (standard : Option Standard) (by_ : String) : String :=
  if standardSigned standard then
    "**signed cell** — the cell's proven standard (`" ++ (standard.map (·.arm)).getD "" ++
      "`) carries an active sign-off"
  else if by_ ≠ "" then
    "**unsigned cell** — opened under a per-run override of the sign-off clause by approver `" ++
      by_ ++ "`, not a human attestation of the cell"
  else "**unsigned cell** — this deployment does not require a signed cell " ++
    "(`CRB_FACTORY__REQUIRE_SIGNED_CELL=false`)"

/-- `_waiver_notes`. -/
def waiverNotes (v : ReviewVerdict) : List String :=
  ((v.probes.flatMap (·.findings)).filter (·.kind = findingProbeWaived)).map (·.detail)

/-- The cell of the delivered change: its measured size, who built it and the arm it carried. -/
def deliveredCell (final : BuildResult) (arm : String) : CellRef :=
  let rung := final.rung.toList
  let named : Rung := ⟨.ofList (splitHead ':' rung), .ofList ((rung.dropWhile (· ≠ ':')).drop 1), ""⟩
  let by_ := final.builtBy.getD named
  ⟨item.capabilityClass, some final.size, by_.builder, by_.model, arm, by_.provider, "", ""⟩

/-- The override that lifted the clause at entry, or the one there is now. -/
def liftedBy (entryOverride : String) : Item F String :=
  if entryOverride = "" then overrideBy s else pure entryOverride

/-- `_delivered_cell_sign_off`: who lifts the sign-off clause at the delivered cell, if it has to be
lifted. -/
def deliveredCellSignOff (final : BuildResult) (lic : Licence) (route : Option RouteDecision)
    (entryOverride : String) : Item F String :=
  if !s.requireSignedCell || standardSigned lic.standard then pure ""
  else do
    let by_ ← liftedBy s entryOverride
    let refused := overrideRefusal s route by_
    if by_ ≠ "" ∧ refused = none then do
      whenever (entryOverride = "") (say "delivery.override")
      return by_
    else do
      let reason := "the delivered change's own cell (" ++ item.capabilityClass ++ " " ++
        lic.measured.name ++ ") has a proven standard (" ++
        (lic.standard.map (·.arm)).getD "none" ++ ") but no active sign-off" ++
        (if some lic.measured = lic.estimate then "" else "; the item was estimated " ++
          sizeName lic.estimate ++ ", and only the cells its estimate reads were checked at entry") ++
        ": no pull request. A second person signs the cell, or a second approver's named " ++
        "override licenses this one run (it lifts only the sign-off)" ++
        (match refused with
          | none => ""
          | some r => " — override refused: " ++ r.why by_)
      let _ ← note (.deliveryRefused reason Stop.unsignedCell.text final.packHash)
      say "delivery.unsigned"
      endWith .unsignedCell reason

/-- The route gate's refusal. -/
def withheld (final : BuildResult) (route : Option RouteDecision) :
    Item F (Option DeliveryResult) := do
  let resized := some final.size ≠ item.sizeEstimate
  let larger := item.sizeEstimate.all fun e => e.rank < final.size.rank
  let why := match route with
    | none => "no capability-map route for the item's cell — nothing measured licenses delivery"
    | some r => "the cell routes " ++ r.route ++ " (" ++
        (if r.reasonCode = "" then r.reason else r.reasonCode) ++ ")"
  let why := if resized then "the change measures " ++ final.size.name ++
      " where the item was estimated " ++ sizeName item.sizeEstimate ++ ", and the (" ++
      item.capabilityClass ++ ", " ++ final.size.name ++ ") cell licenses no delivery: " ++ why
    else why
  let code := if resized && larger then Stop.sizeExceedsLicence.text
    else (route.map (·.reasonCode)).getD ""
  let _ ← note (.deliveryRefused ("route gate: " ++ why) code final.packHash)
  say "delivery.withheld"
  return none

/-- The push and the pull request, and what is recorded of them. -/
def push (args : DeliverArgs) : Item F (Option DeliveryResult) := do
  let d ← (ask (.deliver args) : Item F DeliveryResult).attempt fun e =>
    match e with
    | .raised (.deliveryError message) => do
      let _ ← note (.deliveryRefused message "" args.build.packHash)
      say "delivery.error"
      endWith .deliveryFailed message
    | e => Prog.halt e
  if d.updated then do
    let _ ← note (.deliveryUpdated d args.reworkN args.afterVerdict)
    say "delivery.updated"
    whenever (d.commentError ≠ "") (say "delivery.comment_failed")
    return some d
  else do
    let _ ← note (.delivery d)
    say "delivery.opened"
    return some d

/-- The route of the measured size: read again where the item was estimated another. -/
def measuredRoute (final : BuildResult) (route : Option RouteDecision) :
    Item F (Option RouteDecision) :=
  if some final.size ≠ item.sizeEstimate then mapRoute s (some final.size) else pure route

/-- `_deliver`: the licence of the delivered change, the route gate and the sign-off clause, and
then the push. -/
def deliverFinal (final : BuildResult) (route : Option RouteDecision) (v : ReviewVerdict)
    (previous : Option DeliveryResult) (reworkN : ℕ) (afterVerdict arm entryOverride : String) :
    Item F (Option DeliveryResult) :=
  if !v.accepted || v.packHash ≠ final.packHash then
    Prog.raise (.deliveryError "delivery refused: only an accepted, reviewed build is delivered")
  else if !s.deliver then do
    let _ ← note (.deliveryRefused "delivery is opt-in and OFF — built and graded locally only" ""
      final.packHash)
    say "delivery.skipped"
    return none
  else do
    let cell := deliveredCell item final arm
    let standard ← (ask (.standardFor cell) : Item F (Option Standard))
    let lic := ownCellLicence cell item.sizeEstimate final.size standard
    whenever (!lic.licensed) (do
      let _ ← note (.deliveryRefused lic.reason ((lic.code.map Stop.text).getD "") final.packHash)
      say "delivery.unlicensed"
      endWith (if lic.code = some .sizeExceedsLicence then .sizeExceedsLicence
        else .cellNotLicensed) lic.reason)
    let route ← measuredRoute s item final route
    match route with
    | none => withheld item final none
    | some r =>
      if r.route ≠ "deliver" then withheld item final (some r)
      else do
        let by_ ← deliveredCellSignOff s item final lic (some r) entryOverride
        push ⟨final, previous, reworkN, afterVerdict, v.verdict, r, waiverNotes v,
          licenceLine lic.standard by_⟩

end Delivery

section Run

/-- What `_assess` leaves for the run, and the item's open pull request. -/
structure Started where
  readiness : Readiness
  route : Option RouteDecision
  entry : Entry
  openPr : Option DeliveryResult

/-- The open pull request of an item that is built for delivery. -/
def openFor (entry : Entry) : Item F (Option DeliveryResult) :=
  if entry.calibration.isSome then pure none else openDelivery s item

def start (authored : Option AuthoredTest) : Item F Started := do
  let (readiness, route, entry) ← assessItem s item authored
  Prog.modify fun l => { l with readiness := some readiness, entry := entry }
  let openPr ← openFor s item entry
  return ⟨readiness, route, entry, openPr⟩

/-- A build with its verdict and the test both are of. -/
structure Round where
  oracle : AuthoredTest
  proof : RedProof
  final : BuildResult
  verdict : ReviewVerdict

/-- The RED proof, the build and the review of one round. -/
def playRound (st : Started) (oracle : AuthoredTest) (trialPrefix arm : String)
    (heldOut : Option String) (grant : String) : Item F Round := do
  let proof ← prove st.readiness oracle
  Prog.modify fun l => { l with proof := some proof }
  let final ← built ⟨oracle, proof, trialPrefix, arm, st.entry.calibration.isSome, heldOut, grant⟩
  let verdict ← reviewed s item final proof
  requireScoreable s verdict oracle st.openPr
  return ⟨oracle, proof, final, verdict⟩

def noAuthor : String := "this deployment has no test author"
def sameOracle : String := "the test author returned the same oracle"

def askRework (round : Round) : Item F (Option AuthoredTest) :=
  if s.hasReworkTest then ask (.reworkTest round.verdict round.oracle) else pure none

/-- The rework's test, or the stop of one that would be built against the same test. -/
def reworkOracle (st : Started) (round : Round) (n : ℕ) : Item F AuthoredTest := do
  let wantsStronger := (weakOracleFinding round.verdict).isSome
  whenever (wantsStronger && !s.hasReworkTest) (refuseRework s round.verdict noAuthor st.openPr)
  Prog.modify fun l => { l with reworks := n }
  let _ ← note (.edit round.final.packHash)
  say "rework.start"
  ask (.closeBuild round.final)
  let edited ← askRework s round
  whenever (wantsStronger && edited.all fun t => s.sha256.hex t.content.toList =
    s.sha256.hex round.oracle.content.toList) (refuseRework s round.verdict sameOracle st.openPr)
  return edited.getD round.oracle

/-- The reworks, of which `left` more are allowed. -/
def reworkLoop (st : Started) (arm : String) : ℕ → Round → Item F Round
  | 0, round => pure round
  | left + 1, round =>
    if round.verdict.reworkRequired then do
      let n := s.maxRework - left
      let oracle ← reworkOracle s st round n
      let next ← playRound s item st oracle ("w" ++ toString n ++ "r") arm none ""
      reworkLoop st arm left next
    else pure round

/-- What becomes of the last round. -/
def finish (st : Started) (arm : String) (round : Round) : Item F Status :=
  if round.verdict.accepted then
    match st.entry.calibration with
    | some grant => do
      let _ ← note (.deliveryRefused ("a calibration build (funded by " ++ grant.approver ++
        ") never opens a pull request: its row is a measurement of the arm")
        Stop.calibrationBuild.text round.final.packHash)
      say "calibration.built"
      return .calibrationBuild
    | none => do
      let l ← Prog.get
      let before := ((l.verdicts.dropLast.getLast?).map fun v => v.verdict.text).getD ""
      let delivery ← deliverFinal s item round.final st.route round.verdict st.openPr l.reworks
        before arm st.entry.overrideBy
      Prog.modify fun l => { l with delivery := delivery }
      return .accepted
  else do
    let status : Status := if round.verdict.reworkRequired then .reworkExhausted else .rejected
    withdraw st.openPr round.verdict ("the review of this run's rebuild ended " ++ status.text ++
      ": " ++ round.verdict.summary)
    return status

/-- The held-out tests a build's first attempt is graded on, asked for on an `S2` arm only. -/
def heldOutFor (st : Started) (arm : String) : Item F (Option String) :=
  if baseOf arm = baseS2 then do
    let (held, why) ← (ask .heldOut : Item F (Option String × String))
    match held, st.entry.calibration with
    | none, some grant => do
      let _ ← note (.acceptanceNotGraded grant.eventId why)
      return none
    | held, _ => return held
  else pure none

/-- An entered item: its first round, its reworks and its end. -/
def proceed (authored : Option AuthoredTest) (st : Started) : Item F Status := do
  let (oracle, arm) ← oracleFor s st.readiness authored st.entry
  let held ← heldOutFor st arm
  let grant := (st.entry.calibration.map (·.eventId)).getD ""
  let first ← playRound s item st oracle "r" arm held grant
  let last ← reworkLoop s item st arm s.maxRework first
  finish s item st arm last

/-- The handlers of `run_item`. -/
def handle (e : Halt (face F) Stopped) : Item F (Status × String) :=
  match e with
  | .stopped b => do
    Prog.modify fun l => { l with readiness := b.readiness.or l.readiness }
    return (b.status, b.error)
  | .raised .sandboxUnavailable => Prog.raise .sandboxUnavailable
  | .raised e => do
    say "item.error"
    return (.error, e.text)

def closeBuilds : List BuildResult → Item F Unit
  | [] => pure ()
  | b :: bs => do
    ask (.closeBuild b)
    closeBuilds bs

def closeKept : Item F Unit := do
  let l ← Prog.get
  whenever (!s.keepWorkspaces) (closeBuilds l.keep)

structure ItemOutcome where
  status : Status
  locals : Locals
  error : String

/-- `run_item`. -/
def runItem (authored : Option AuthoredTest) : Item F ItemOutcome := do
  say "item.start"
  let (status, error) ← (((start s item authored >>= proceed s item authored) >>= fun status =>
    pure (status, "")).attempt handle).ensuring (closeKept s)
  let l ← Prog.get
  let _ ← note (.itemOutcome status l.builds.length
    ((l.verdicts.getLast?.map fun v => v.verdict.text).getD "") l.delivery.isSome l.reworks error
    (if l.builds = [] then "" else (l.entry.calibration.map (·.eventId)).getD ""))
  say "item.done"
  return ⟨status, l, error⟩

end Run

end CommitReplay.ItemSteps
