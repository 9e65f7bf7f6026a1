import CommitReplay.ItemSteps

/-! Which calls each step of the loop may make. -/
namespace CommitReplay.ItemCalls

open CommitReplay.PythonText CommitReplay.JsonValue CommitReplay.JsonText CommitReplay.RowChecks
open CommitReplay.FactoryEvents CommitReplay.GradeRows CommitReplay.JsonRoundTrip
open CommitReplay.Interaction CommitReplay.SlotReadiness CommitReplay.ContextStandard
open CommitReplay.ReviewVerdicts CommitReplay.ItemLoop CommitReplay.ItemSteps

/-- The calls that matter beyond what they answer: a grant claimed, a test written, proved and built
against, a verdict, a push and a close. -/
inductive Kind
  | routine | claim | author | prove | build | verdict | deliver | close
deriving DecidableEq

@[reducible] def kindOf : Op → Kind
  | .record (.calibrationClaimed _) => .claim
  | .record (.verdict _) => .verdict
  | .authorTest => .author
  | .proveRed _ => .prove
  | .buildLadder _ => .build
  | .deliver _ => .deliver
  | .closePullRequest .. => .close
  | _ => .routine

variable {F : Type} {α β : Type} {K : List Kind}

/-- The verdict a call put on the record. -/
def recordedVerdict : Call (face F) → Option ReviewVerdict
  | ⟨.record (.verdict v), .ok _⟩ => some v
  | _ => none

/-- The calls of a run, in the order they were made. -/
def runCalls [PyFloat F] (s : FactorySpec F) (item : BacklogItem) (authored : Option AuthoredTest)
    (w : World (face F)) : List (Call (face F)) :=
  (runItem s item authored w Locals.init []).2.2

/-- The step makes calls of these kinds only. -/
def Only (K : List Kind) (p : Item F α) : Prop := Makes (fun c => kindOf c.op ∈ K) p

section Rules

variable {p : Item F α}

lemma Only.does (hp : Only K p) : Does p fun n _ => ∀ c ∈ n, kindOf c.op ∈ K := hp

@[grind ←] lemma Only.pure (a : α) : Only K (pure a : Item F α) := Makes.pure a

@[grind ←] lemma Only.stop (b : Stopped) : Only K (Prog.stop b : Item F α) := Makes.halt _

@[grind ←] lemma Only.raise (e : Exn) : Only K (Prog.raise e : Item F α) :=
  Makes.halt (.raised e : Halt (face F) Stopped)

@[grind ←] lemma Only.halt (e : Halt (face F) Stopped) : Only K (Prog.halt e : Item F α) := Makes.halt e

@[grind ←] lemma Only.endWith (status : Status) (error : String) :
    Only K (endWith status error : Item F α) := Makes.halt _

@[grind ←] lemma Only.modify (f : Locals → Locals) : Only K (Prog.modify f : Item F Unit) :=
  Makes.modify f

@[grind ←] lemma Only.get : Only K (Prog.get : Item F Locals) := Makes.get

@[grind ←] lemma Only.bind {f : α → Item F β} (hp : Only K p) (hf : ∀ a, Only K (f a)) :
    Only K (p >>= f) := Makes.bind hp hf

@[grind ←] lemma Only.attempt {handler : Halt (face F) Stopped → Item F α} (hp : Only K p)
    (hh : ∀ e, Only K (handler e)) : Only K (p.attempt handler) := Makes.attempt hp hh

@[grind ←] lemma Only.ask {op : Op} (h : kindOf op ∈ K) :
    @Only F (no_index (Op.Ans F op)) K (ask op) :=
  Makes.call fun _ => h

@[grind ←] lemma Only.say {action : String} (h : .routine ∈ K) : Only K (say action : Item F Unit) :=
  @Only.ask F K (.emit action) h

@[grind ←] lemma Only.note {r : Record} (h : kindOf (.record r) ∈ K) :
    Only K (note r : Item F String) := @Only.ask F K (.record r) h

lemma Only.ite {c : Prop} [Decidable c] {q : Item F α} (hp : Only K p) (hq : Only K q) :
    Only K (if c then p else q) := by
  split_ifs
  · exact hp
  · exact hq

@[grind ←] lemma Only.whenever {c : Bool} {p : Item F Unit} (hp : Only K p) :
    Only K (whenever c p) := Only.ite hp (Only.pure ())

end Rules

set_option linter.unusedSectionVars false

variable [PyFloat F] {s : FactorySpec F} {item : BacklogItem}

section Entry

@[grind ←] lemma signoffs_only (h : .routine ∈ K) : Only K (signoffs s : Item F _) := by
  grind [signoffs]

@[grind ←] lemma mapRoute_only {size : Option Tier} (h : .routine ∈ K) : Only K (mapRoute s size) := by
  grind [mapRoute]

@[grind ←] lemma mapRoutes_only {sizes : List Tier} (h : .routine ∈ K) :
    Only K (mapRoutes s sizes) := by
  induction sizes with
  | nil => exact Only.pure _
  | cons size sizes ih => grind [mapRoutes]

@[grind ←] lemma overrideBy_only (h : .routine ∈ K) : Only K (overrideBy s : Item F _) := by
  grind [overrideBy]

@[grind ←] lemma overrideRefusalOverReadCells_only {by_ : String} (h : .routine ∈ K) :
    Only K (overrideRefusalOverReadCells s item by_) := by
  grind [overrideRefusalOverReadCells]

@[grind ←] lemma calibration_only (h : .routine ∈ K) : Only K (calibration s item) := by
  grind [calibration]

@[grind ←] lemma stopEntry_only {r : Readiness} {entry : Entry} (h : .routine ∈ K) :
    Only K (stopEntry r entry : Item F α) := by
  unfold stopEntry
  cases entry.code.bind entryStatus <;> grind

@[grind ←] lemma readStandards_only {sizes : List Tier} (h : .routine ∈ K) :
    Only K (readStandards item sizes : Item F _) := by
  induction sizes with
  | nil => exact Only.pure _
  | cons size sizes ih => grind [readStandards]

@[grind ←] lemma decideEntry_only {r : Readiness} {authored : Option AuthoredTest} {by_ : String}
    {grant : Option Calibration} (h : .routine ∈ K) :
    Only K (decideEntry s item r authored by_ grant) := by
  unfold decideEntry
  cases sizeStop item.sizeEstimate s.agreementPassed <;> grind

@[grind ←] lemma claimCalibration_only {grant : String} (h : .routine ∈ K) (hc : .claim ∈ K) :
    Only K (ItemSteps.claimCalibration s grant) := by
  grind [ItemSteps.claimCalibration]

@[grind ←] lemma admittedOverride_only {r : Readiness} (h : .routine ∈ K) :
    Only K (admittedOverride s item r) := by
  unfold admittedOverride
  refine Only.bind (by grind) fun by_ => Only.bind (by grind) fun refused => ?_
  cases refused <;> grind

@[grind ←] lemma anyRungLicensed_only {arm : String} {rungs : List Rung} (h : .routine ∈ K) :
    Only K (anyRungLicensed item arm rungs : Item F _) := by
  induction rungs with
  | nil => exact Only.pure _
  | cons rung rungs ih => grind [anyRungLicensed]

@[grind ←] lemma claimFor_only {r : Readiness} {authored : Option AuthoredTest} {by_ : String}
    {entry : Entry} (h : .routine ∈ K) (hc : .claim ∈ K) :
    Only K (claimFor s item r authored by_ entry) := by
  unfold claimFor
  cases entry.calibration <;> grind

@[grind ←] lemma requireLicensedRung_only {r : Readiness} {entry : Entry} (h : .routine ∈ K) :
    Only K (requireLicensedRung s item r entry) := by
  grind [requireLicensedRung]

@[grind ←] lemma admission_only {r : Readiness} {authored : Option AuthoredTest} {by_ : String}
    {entry : Entry} (h : .routine ∈ K) (hc : .claim ∈ K) :
    Only K (admission s item r authored by_ entry) := by
  unfold admission
  refine Only.bind (by grind [noteLifted]) fun _ => Only.bind (by grind [refuseUnready]) fun _ => ?_
  refine Only.bind (by grind) fun _ => Only.bind (by grind) fun route => ?_
  refine Only.bind (by grind) fun _ => Only.bind (by grind) fun _ => Only.bind (by grind) fun _ => ?_
  exact Only.bind (by grind [noteCalibration]) fun _ => Only.pure _

@[grind ←] lemma assessItem_only {authored : Option AuthoredTest} (h : .routine ∈ K)
    (hc : .claim ∈ K) : Only K (assessItem s item authored) := by
  unfold assessItem
  refine Only.bind (by grind) fun signed => Only.bind (by grind) fun _ => ?_
  refine Only.bind (by grind) fun _ => Only.bind (by grind [routeToPerson]) fun _ => ?_
  refine Only.bind (by grind [routeToPerson]) fun _ => Only.bind (by grind) fun by_ => ?_
  grind

end Entry

section Steps

@[grind ←] lemma openDelivery_only (h : .routine ∈ K) : Only K (openDelivery s item) := by
  unfold openDelivery
  refine Only.ite (Only.bind (by grind) fun events => ?_) (Only.pure _)
  cases (events.filter fun e => e.kind = .delivery ∨ e.kind = .deliveryUpdated).getLast? with
  | none => exact Only.pure _
  | some latest =>
    dsimp only
    cases prNumber s latest.payload <;> grind

@[grind ←] lemma start_only {authored : Option AuthoredTest} (h : .routine ∈ K) (hc : .claim ∈ K) :
    Only K (start s item authored) := by
  grind [start, openFor]

@[grind ←] lemma contextArmFor_only {base author : String} {plusL : Bool} :
    Only K (contextArmFor base author plusL : Item F _) := by
  exact Only.ite (Only.pure _) (Only.raise _)

@[grind ←] lemma authoredOracle_only {r : Readiness} {plusL : Bool} (h : .routine ∈ K)
    (ha : .author ∈ K) : Only K (authoredOracle s r plusL : Item F _) := by
  unfold authoredOracle
  cases s.testAuthor <;> grind

@[grind ←] lemma oracleFor_only {r : Readiness} {authored : Option AuthoredTest} {entry : Entry}
    (h : .routine ∈ K) (ha : .author ∈ K) : Only K (oracleFor s r authored entry : Item F _) := by
  unfold oracleFor
  cases authored with
  | none => grind
  | some test => refine Only.ite (by grind) (Only.ite (by grind) (by grind))

@[grind ←] lemma heldOutFor_only {st : Started} {arm : String} (h : .routine ∈ K) :
    Only K (heldOutFor st arm : Item F _) := by
  unfold heldOutFor
  refine Only.ite (Only.bind (by grind) fun answer => ?_) (Only.pure _)
  obtain ⟨held, why⟩ := answer
  cases held <;> cases st.entry.calibration <;> grind

@[grind ←] lemma prove_only {r : Readiness} {oracle : AuthoredTest} (h : .routine ∈ K)
    (hp : .prove ∈ K) : Only K (prove r oracle : Item F _) := by
  unfold prove
  refine Only.bind (Only.attempt (by grind) fun e => ?_) fun proof => by grind
  rcases e with (_ | _ | _ | _) | _ <;> grind

@[grind ←] lemma built_only {args : BuildArgs} (hb : .build ∈ K) : Only K (built args : Item F _) := by
  unfold built
  refine Only.bind (by grind) fun (results : List BuildResult) => ?_
  cases results.getLast? <;> grind

@[grind ←] lemma probeWaiver_only {sha : String} {events : List (FactoryEvent F)}
    {found : Option ProbeWaiver} (h : .routine ∈ K) : Only K (probeWaiver s sha events found) := by
  induction events generalizing found with
  | nil => exact Only.pure _
  | cons e events ih => grind [probeWaiver]

@[grind ←] lemma assertDistinctIdentity_only {author other : String} :
    Only K (assertDistinctIdentity s author other : Item F _) := by
  exact Only.ite (Only.pure _) (Only.raise _)

@[grind ←] lemma runProbes_only {build : BuildResult} {proof : RedProof} {waiver : Option ProbeWaiver}
    {names : List String} (h : .routine ∈ K) :
    Only K (runProbes build proof waiver names : Item F _) := by
  induction names with
  | nil => exact Only.pure _
  | cons name names ih => grind [runProbes]

@[grind ←] lemma formVerdict_only {final : BuildResult} {proof : RedProof} (h : .routine ∈ K) :
    Only K (formVerdict s item final proof) := by
  unfold formVerdict
  refine Only.bind (by grind) fun events => Only.bind (by grind) fun waiver => ?_
  refine Only.bind (by grind) fun _ => Only.bind (by grind) fun _ => Only.bind (by grind) fun _ => ?_
  grind

@[grind ←] lemma reviewed_only {final : BuildResult} {proof : RedProof} (h : .routine ∈ K)
    (hv : .verdict ∈ K) : Only K (reviewed s item final proof) := by
  grind [reviewed]

@[grind ←] lemma tryClose_only {pr : DeliveryResult} {verdict : Verdict} {reason : String}
    (h : .routine ∈ K) (hc : .close ∈ K) : Only K (tryClose pr verdict reason : Item F _) := by
  unfold tryClose
  exact Only.attempt (by grind) fun _ => by grind

@[grind ←] lemma withdraw_only {openPr : Option DeliveryResult} {v : ReviewVerdict} {why : String}
    (h : .routine ∈ K) (hc : .close ∈ K) : Only K (withdraw openPr v why : Item F _) := by
  cases openPr with
  | none => exact Only.pure _
  | some pr => exact Only.bind (by grind) fun closed => by grind

@[grind ←] lemma requireScoreable_only {v : ReviewVerdict} {oracle : AuthoredTest}
    {openPr : Option DeliveryResult} (h : .routine ∈ K) (hc : .close ∈ K) :
    Only K (requireScoreable s v oracle openPr : Item F _) := by
  unfold requireScoreable
  cases unscoreable v <;> grind

@[grind ←] lemma refuseRework_only {v : ReviewVerdict} {why : String}
    {openPr : Option DeliveryResult} (h : .routine ∈ K) (hc : .close ∈ K) :
    Only K (refuseRework s v why openPr : Item F _) := by
  grind [refuseRework]

@[grind ←] lemma deliveredCellSignOff_only {final : BuildResult} {lic : Licence}
    {route : Option RouteDecision} {entryOverride : String} (h : .routine ∈ K) :
    Only K (deliveredCellSignOff s item final lic route entryOverride : Item F _) := by
  grind [deliveredCellSignOff, liftedBy]

@[grind ←] lemma withheld_only {final : BuildResult} {route : Option RouteDecision}
    (h : .routine ∈ K) : Only K (withheld item final route : Item F _) := by
  unfold withheld
  exact Only.bind (by grind) fun _ => by grind

@[grind ←] lemma push_only {args : DeliverArgs} (h : .routine ∈ K) (hd : .deliver ∈ K) :
    Only K (push args : Item F _) := by
  unfold push
  refine Only.bind (Only.attempt (by grind) fun e => ?_) fun d => by grind
  rcases e with (_ | _ | _ | _) | _ <;> grind

@[grind ←] lemma deliverFinal_only {final : BuildResult} {route : Option RouteDecision}
    {v : ReviewVerdict} {previous : Option DeliveryResult} {n : ℕ}
    {before arm entryOverride : String} (h : .routine ∈ K) (hd : .deliver ∈ K) :
    Only K (deliverFinal s item final route v previous n before arm entryOverride) := by
  unfold deliverFinal
  refine Only.ite (Only.raise _) (Only.ite (by grind) ?_)
  refine Only.bind (by grind) fun standard => Only.bind (by grind) fun _ => ?_
  refine Only.bind (by grind [measuredRoute]) fun route => ?_
  cases route <;> grind

@[grind ←] lemma reworkOracle_only {st : Started} {round : Round} {n : ℕ} (h : .routine ∈ K)
    (hc : .close ∈ K) : Only K (reworkOracle s st round n : Item F _) := by
  unfold reworkOracle
  refine Only.bind (by grind) fun _ => Only.bind (by grind) fun _ => Only.bind (by grind) fun _ => ?_
  refine Only.bind (by grind) fun _ => Only.bind (by grind) fun _ => ?_
  refine Only.bind (by grind [askRework]) fun edited => ?_
  grind

@[grind ←] lemma handle_only {e : Halt (face F) Stopped} (h : .routine ∈ K) : Only K (handle e) := by
  rcases e with (_ | _ | _ | _) | _ <;> grind [handle]

@[grind ←] lemma closeBuilds_only {builds : List BuildResult} (h : .routine ∈ K) :
    Only K (closeBuilds builds : Item F _) := by
  induction builds with
  | nil => exact Only.pure _
  | cons b bs ih => grind [closeBuilds]

@[grind ←] lemma closeKept_only (h : .routine ∈ K) : Only K (closeKept s : Item F _) := by
  grind [closeKept]

/-- Every call is of one of the kinds. -/
lemma proceed_only {authored : Option AuthoredTest} {st : Started} (hK : ∀ k : Kind, k ∈ K) :
    Only K (proceed s item authored st) := by
  have hplay : ∀ {oracle trialPrefix arm held grant},
      Only K (playRound s item st oracle trialPrefix arm held grant) := by
    intro oracle trialPrefix arm held grant
    unfold playRound
    refine Only.bind (by grind) fun proof => Only.bind (by grind) fun _ => ?_
    exact Only.bind (by grind) fun final => by grind
  have hloop : ∀ {arm left round}, Only K (reworkLoop s item st arm left round) := by
    intro arm left
    induction left with
    | zero => exact fun {round} => Only.pure round
    | succ left ih =>
      intro round
      unfold reworkLoop
      refine Only.ite (Only.bind (by grind) fun oracle => Only.bind hplay fun next => ih) ?_
      exact Only.pure round
  unfold proceed
  refine Only.bind (by grind) fun oracle => Only.bind (by grind) fun held => ?_
  refine Only.bind hplay fun first => Only.bind hloop fun last => ?_
  unfold finish
  refine Only.ite ?_ (Only.bind (by grind) fun _ => Only.pure _)
  cases st.entry.calibration with
  | some grant => grind
  | none => exact Only.bind Only.get fun l => Only.bind (by grind) fun delivery => by grind

end Steps

section Sample

/-- A deployment with one builder, one reviewer and delivery on. -/
def sampleSpec : FactorySpec Whole where
  ladder := [⟨"cli", "builder", "vendor"⟩]
  reviewer := ⟨"cli", "reviewer", "other"⟩
  probes := ["red_reproduction"]
  testAuthor := none
  hasGapLedger := false
  deliver := true
  actor := "ann"
  maxRework := 1
  hasReworkTest := true
  hasRouteDecision := true
  deliverOverrideBy := ""
  hasOverrideSeam := false
  requireSignedCell := true
  agreementPassed := true
  keepWorkspaces := false
  canonicalModel := id
  distinctIdentity := fun a b => a != b
  isPrintable := fun _ => true
  sha256 := markDigest []
  head := id
  truncate := fun x => some x.value

def sampleItem : BacklogItem :=
  ⟨"item-1", "cover the parser", .code, "test.add", some .S,
    ["subject_under_test: parse", "behaviour_asserted: rejects an empty line"], "", ""⟩

def sampleTest : AuthoredTest := ⟨"tests/test_parse.py", "assert parse()", "operator:bob"⟩

def sampleStandard : Standard := ⟨"S2", true, "rdg_1", by decide⟩

def sampleBuild : BuildResult :=
  ⟨"pack-1", "cli:builder", true, false, "sha-1", .S, some ⟨"cli", "builder", "vendor"⟩⟩

lemma sampleDelivery_named : "e1" ≠ "" := by decide

/-- The chain's record of a pull request that an earlier run opened. -/
def sampleDelivery : FactoryEvent Whole :=
  ⟨.delivery, "item-1", Payload.of [("pr_number", .int 7)], "", "", "", "", "e1", "", "",
    sampleDelivery_named⟩

/-- Collaborators that answer every call: the reviewer is of one opinion, and no RED proof is had of
the reworked test. -/
def sampleWorld (opinion : Verdict) : World (face Whole) := fun _ op =>
  match op with
  | .emit _ => .ok ()
  | .record _ => .ok "e2"
  | .gapSignoffs => .ok []
  | .eventsFor => .ok [sampleDelivery]
  | .lockedEvents => .ok [sampleDelivery]
  | .outcomeFor _ => .ok none
  | .overrideBy => .ok ""
  | .routeFor _ => .ok (some ⟨"deliver", "", "", some 0, ""⟩)
  | .standardFor _ => .ok (some sampleStandard)
  | .heldOut => .ok (none, "")
  | .authorTest => .ok sampleTest
  | .proveRed oracle => if oracle = sampleTest then .ok ⟨"sha-1", "operator:bob"⟩
      else .error (.notRed "the reworked test passes before the change")
  | .buildLadder _ => .ok [sampleBuild]
  | .runProbe name _ _ => .ok ⟨name, some true, "", true, []⟩
  | .assessReview _ _ => .ok ⟨opinion, [], ""⟩
  | .reworkTest _ _ => .ok (some ⟨"tests/test_parse.py", "assert not parse()", "operator:bob"⟩)
  | .closeBuild _ => .ok ()
  | .deliver args => .ok ⟨"item-1", "b", "main", "c", "", 7, args.build.packHash, "", "", "", true, ""⟩
  | .closePullRequest _ _ _ => .ok ()

end Sample

end CommitReplay.ItemCalls
