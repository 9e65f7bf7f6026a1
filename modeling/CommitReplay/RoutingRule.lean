import CommitReplay.ReadingHierarchy
import CommitReplay.FailureKind

/-! The routing rule: what a cell's numbers, its registered reading, the oracle and the negative
controls let the factory do with a class of change, and every clause that says no. -/
namespace CommitReplay.RoutingRule

open CommitReplay.ContextArms CommitReplay.FailureKind CommitReplay.LookRule
open CommitReplay.ReadingHierarchy

section Numbers

/-- A Python float: a number, or the `nan` that every comparison is false of. -/
inductive Num (R : Type)
  | nan | num (x : R)
deriving DecidableEq, Repr

variable {R : Type}

/-- `x < y`. -/
def Num.below [LinearOrder R] : Num R → Num R → Bool
  | .num x, .num y => x < y
  | _, _ => false

/-- `x >= y`. -/
def Num.atLeast [LinearOrder R] : Num R → Num R → Bool
  | .num x, .num y => y ≤ x
  | _, _ => false

/-- The floats of the machine: the nearest to a rational, `round`, and the formats `.2f` and `.0%`. -/
class Floats (R : Type) extends LinearOrder R where
  ofRat : ℚ → R
  round : ℕ → Num R → Num R
  fixed : Num R → String
  percent : Num R → String

/-- `0.0`. -/
def zero {R : Type} [Floats R] : Num R := .num (Floats.ofRat 0)

/-- A quotient of two counts, `0.0` for none. -/
def share [Floats R] (part whole : ℕ) : Num R :=
  .num (Floats.ofRat (if whole = 0 then 0 else (part : ℚ) / whole))

end Numbers

section Evidence

inductive ControlsState
  | unmeasured | failed | thin | escaped | passed
deriving DecidableEq, Repr

/-- The negative-controls gate of one repository at one apparatus. -/
structure ControlsVerdict where
  passed : Bool
  constructible : ℕ
  total : ℕ
  escapes : ℕ
  runId : String
  created : String
  complete : Bool
  measured : Bool
  apparatusVersion : String
  detail : String
  constructible_le : constructible ≤ total
deriving DecidableEq, Repr

namespace ControlsVerdict

lemma none_constructible : (0 : ℕ) ≤ 0 := le_rfl

def unmeasured (detail : String) : ControlsVerdict where
  passed := false
  constructible := 0
  total := 0
  escapes := 0
  runId := ""
  created := ""
  complete := true
  measured := false
  apparatusVersion := ""
  detail := if detail = "" then "no negative-controls report" else detail
  constructible_le := none_constructible

def anotherApparatus (stamped apparatusVersion : String) : String :=
  let stamp := if stamped = "" then "unstamped" else stamped
  s!"the latest report is of apparatus {stamp}, " ++
    s!"not {apparatusVersion} — history, never read as this apparatus's"

def cancelledRun : String :=
  "the latest controls run was cancelled before it finished and found nothing — " ++
    "an incomplete run cannot pass"

/-- A report as a cell of an apparatus reads it, `at`. -/
def readAt (c : ControlsVerdict) (apparatusVersion : String) : ControlsVerdict :=
  if !c.measured then c
  else if isV2Apparatus apparatusVersion ∧ c.apparatusVersion ≠ apparatusVersion then
    unmeasured (anotherApparatus c.apparatusVersion apparatusVersion)
  else if !c.complete && c.passed && c.escapes = 0 then unmeasured cancelledRun
  else c

variable {R : Type} [Floats R]

def share (c : ControlsVerdict) : Num R := RoutingRule.share c.constructible c.total

def thin (c : ControlsVerdict) (minShare : Num R) : Bool := c.measured && c.share.below minShare

/-- The one word a pill shows. -/
def state (c : ControlsVerdict) (minShare : Num R) (maxEscapes : ℤ) : ControlsState :=
  if !c.measured then .unmeasured
  else if !c.passed then .failed
  else if maxEscapes < c.escapes then .escaped
  else if !c.complete then .unmeasured
  else if c.thin minShare then .thin
  else .passed

end ControlsVerdict

/-- What a route reads about the oracle. -/
structure OracleEvidence (R : Type) where
  strength : Option (Num R)
  scoredTasks : ℕ
  nTasks : ℕ
  mutationVersion : String
  apparatusVersion : String
  scored_le : scoredTasks ≤ nTasks

namespace OracleEvidence

variable {R : Type}

def unmeasured (nTasks : ℕ) : OracleEvidence R := ⟨none, 0, nTasks, "", "", Nat.zero_le nTasks⟩

def measured (ora : OracleEvidence R) : Bool := ora.strength.isSome && 0 < ora.scoredTasks

def share [Floats R] (ora : OracleEvidence R) : Num R := RoutingRule.share ora.scoredTasks ora.nTasks

end OracleEvidence

structure CellKey where
  processStep : String
  capabilityClass : String
  size : String
  language : String
  builder : String
  model : String
  provider : String
deriving DecidableEq, Repr

structure Interval (R : Type) where
  low : Num R
  high : Num R

/-- The numbers of a cell that a route reads. -/
structure CellStats (R : Type) where
  cell : CellKey
  n : ℕ
  falseQ1 : ℕ
  point : Num R
  ci : Interval R
  nTasks : ℕ
  taskClean : ℕ
  taskCi : Interval R
  apparatusVersion : String
  contextArm : String
  taxonomy : String
  nTasksLintDisabled : ℕ
  nUnsealed : ℕ

end Evidence

section Policy

variable {R : Type} [Floats R]

def policyVersion : String := "routing.v2"

def policyVersionV1 : String := "routing.v1"

def ruleLookV1 : String := "look.v1"

/-- The thresholds a policy is built from. -/
structure Thresholds (R : Type) where
  minOracleStrength : Num R
  minOracleShare : Num R
  granularizeSizes : List String
  rule : String
  cellErrorBudget : Num R
  version : String
  minControlsShare : Num R
  maxControlsEscapes : ℤ
  controlsVersion : String

/-- The published rule. -/
def published : Thresholds R where
  minOracleStrength := .num (Floats.ofRat (80 / 100))
  minOracleShare := .num (Floats.ofRat (5 / 10))
  granularizeSizes := ["XL"]
  rule := ruleLookV1
  cellErrorBudget := .num (Floats.ofRat (5 / 100))
  version := policyVersion
  minControlsShare := .num (Floats.ofRat (5 / 10))
  maxControlsEscapes := 0
  controlsVersion := "controls-gate.v2"

inductive PolicyError
  | retired | unknownRule | cannotRelax | relaxed (clauses : List String)
deriving DecidableEq, Repr

/-- `rule_spend(self.rule) > rule_spend(d["rule"]) + 1e-12`. -/
def overspends (rule : String) : Bool :=
  match ruleSpend rule, ruleSpend ruleLookV1 with
  | .ok spend, .ok bar => bar + 1 / 10 ^ 12 < spend
  | _, _ => false

/-- The clauses on which the thresholds are looser than the published ones. -/
def Thresholds.relaxedClauses (t : Thresholds R) : List String :=
  let d : Thresholds R := published
  let clauses := [("min_oracle_strength", t.minOracleStrength.below d.minOracleStrength),
    ("min_oracle_share", t.minOracleShare.below d.minOracleShare), ("rule", overspends t.rule),
    ("cell_error_budget", d.cellErrorBudget.below t.cellErrorBudget),
    ("min_controls_share", t.minControlsShare.below d.minControlsShare),
    ("max_controls_escapes", decide (d.maxControlsEscapes < t.maxControlsEscapes))]
  (clauses.filter Prod.snd).map Prod.fst

/-- What the constructor of a policy refuses. -/
def Thresholds.check (t : Thresholds R) : Except PolicyError Unit :=
  let relaxed := t.relaxedClauses
  if t.version = policyVersionV1 then .error .retired
  else if t.rule ∉ rules.map Prod.fst then .error .unknownRule
  else if "min_oracle_share" ∈ relaxed ∨ "rule" ∈ relaxed then .error .cannotRelax
  else if t.version = policyVersion ∧ relaxed ≠ [] then .error (.relaxed relaxed)
  else .ok ()

/-- The thresholds of the rule, as the constructor lets them through. -/
structure RoutingPolicy (R : Type) [Floats R] extends Thresholds R where
  accepted : toThresholds.check = .ok ()

/-- The bar as numbers, stamped into every decision. -/
structure PolicyThresholds (R : Type) where
  rule : String
  looks : Looks
  pDeliverAt080 : Num R
  cellErrorBudget : Num R
  minOracleStrength : Num R
  minOracleShare : Num R
  granularizeSizes : List String
  minControlsShare : Num R
  maxControlsEscapes : ℤ

def RoutingPolicy.thresholds (p : RoutingPolicy R) : PolicyThresholds R where
  rule := p.rule
  looks := (ruleLooks p.rule).toOption.getD []
  pDeliverAt080 := Floats.round 6 (.num (Floats.ofRat ((ruleSpend p.rule).toOption.getD 0)))
  cellErrorBudget := p.cellErrorBudget
  minOracleStrength := p.minOracleStrength
  minOracleShare := p.minOracleShare
  granularizeSizes := p.granularizeSizes
  minControlsShare := p.minControlsShare
  maxControlsEscapes := p.maxControlsEscapes

end Policy

section Codes

inductive Route
  | deliver | calibrate | granularize | human | doNotShip
deriving DecidableEq, Repr

inductive ReasonCode
  | falseQ1 | granularize | controlsFailed | postureUnsealed | lintDisabled | readingUnregistered
  | descriptive | lookPending | oracleUnmeasured | oracleThin | oracleWeak | controlsEscapes
  | insufficient | undecided | ceiling | leanerStandard | controlsUnmeasured | controlsThin | deliver
deriving DecidableEq, Repr

/-- The codes in the order the rule is published. -/
def reasonCodesV2 : List ReasonCode :=
  [.falseQ1, .granularize, .controlsFailed, .postureUnsealed, .lintDisabled, .readingUnregistered,
    .descriptive, .lookPending, .oracleUnmeasured, .oracleThin, .oracleWeak, .controlsEscapes,
    .insufficient, .undecided, .ceiling, .leanerStandard, .controlsUnmeasured, .controlsThin, .deliver]

/-- What to measure next. -/
inductive NextAct
  | audit | split | controls | seal | config | register | replay | qualify | mine | oracle
  | strengthen | newReading | calibrationBuilds | buildOnStandard | none
deriving DecidableEq, Repr

def moneyActs : List NextAct := [.replay, .calibrationBuilds]

/-- What a shortfall observed, and the threshold it was held to. -/
inductive Value (R : Type)
  | none | int (i : ℤ) | num (x : Num R) | text (s : String) | texts (l : List String)

/-- One clause a cell fails. -/
structure Shortfall (R : Type) where
  code : ReasonCode
  route : Route
  observed : Value R
  threshold : Value R
  next : NextAct
  count : ℕ
  modelMoney : Bool

/-- A failing clause with its sentence. -/
structure Finding (R : Type) where
  reason : String
  shortfall : Shortfall R

variable {R : Type}

def fail (code : ReasonCode) (route : Route) (reason : String) (observed threshold : Value R)
    (next : NextAct) (count : ℕ) : Finding R :=
  ⟨reason, code, route, observed, threshold, next, count, next ∈ moneyActs⟩

/-- A clause that fails on a condition of its own. -/
def failIf (b : Bool) (finding : Finding R) : List (Finding R) := if b then [finding] else []

end Codes

section Clauses

variable {R : Type} [Floats R]

/-- A controls reason names the run it came from. -/
def controlsReason (clause : String) (c : ControlsVerdict) (detail : String) : String :=
  s!"{clause}: {detail}" ++ if c.runId = "" then "" else s!" (controls run {c.runId.take 8})"

/-- An arm of a person's failing test, graded on held-out acceptance tests. -/
def isArmS2 (arm : String) : Bool := (parseArm arm).any (·.base = .S2)

def falseQ1Clause (stats : CellStats R) : List (Finding R) :=
  failIf (0 < stats.falseQ1) <| fail .falseQ1 .doNotShip
    s!"{stats.falseQ1} false-Q1 row(s) in cell — evidence untrusted"
    (.int stats.falseQ1) (.int 0) .audit 0

def sizeClause (stats : CellStats R) (policy : RoutingPolicy R) : List (Finding R) :=
  failIf (stats.cell.size ∈ policy.granularizeSizes) <| fail .granularize .granularize
    s!"size {stats.cell.size} is split before attempting"
    (.text stats.cell.size) (.texts policy.granularizeSizes) .split 0

/-- A failed gate at this apparatus; a run that found a violation before it was cancelled fails. -/
def failedClause (c : ControlsVerdict) : List (Finding R) :=
  failIf (c.measured && !c.passed) <| fail .controlsFailed .human
    (controlsReason "controls_failed" c
      ("the negative-controls gate FAILED on this repo — an instrument defect, " ++
        "nothing measured under it licenses autonomy"))
    (.text "failed") (.text "passed") .controls 0

def sealedClause (stats : CellStats R) : List (Finding R) :=
  failIf (!isArmS2 stats.contextArm && 0 < stats.nUnsealed) <| fail .postureUnsealed .calibrate
    (s!"{stats.nUnsealed} of the cell's rows were not graded in the sealed posture (the " ++
      "builder in its sealed container, the tests in the docker sandbox's sealed mode) — " ++
      "in any other posture the target commit is reachable, so nothing here can deliver; " ++
      "read the sealed posture class, or measure there")
    (.int stats.nUnsealed) (.int 0) .seal 0

def lintClause (stats : CellStats R) (verdict : ArmVerdict) : List (Finding R) :=
  failIf (0 < stats.nTasksLintDisabled && verdict.state ≠ .ofArm .deliver) <|
    fail .lintDisabled .calibrate
      (s!"{stats.nTasksLintDisabled} commit(s) had their first attempt graded with belt 5 " ++
        "switched off by configuration — switch it back on and measure new commits")
      (.int stats.nTasksLintDisabled) (.int 0) .config 0

/-- `str(verdict.next_look)`. -/
def lookText (look : Option ℕ) : String := look.elim "None" toString

def lookValue (look : Option ℕ) : Value R := look.elim .none fun k => .int k

/-- No registered reading, a descriptive arm, or a look still pending. -/
def readingClause (arm : String) (verdict : ArmVerdict) : List (Finding R) :=
  match verdict.state with
  | .readingUnregistered =>
    let named := if arm = "" then "(unstamped)" else arm
    [fail .readingUnregistered .calibrate
      (s!"no registered reading reads the arm {named} on this cell — a cell " ++
        "is licensed only by a reading registered before its first attempt")
      .none (.text "registered") .register 0]
  | .ofArm .descriptive =>
    [fail .descriptive .calibrate
      (s!"{arm} is a descriptive arm (the ticket only): it is read for the north star and " ++
        "the loop's pair, and never licenses a delivery")
      (.text arm) (.text "S1@<author> or S2") .none 0]
  | .ofArm .lookPending =>
    let waits := if verdict.blocking = "" then "" else s!" (the hierarchy waits on {verdict.blocking})"
    [fail .lookPending .calibrate
      (s!"the reading waits for its look at {lookText verdict.nextLook}: {verdict.needed} " ++
        s!"commit(s) still need a first attempt{waits}")
      (.int verdict.counted) (lookValue verdict.nextLook)
      (if 0 < verdict.needed then .replay else .qualify) verdict.needed]
  | _ => []

/-- The oracle, on the commits the reading counted. -/
def oracleClause (ora : OracleEvidence R) (policy : RoutingPolicy R) : List (Finding R) :=
  let unscored := ora.nTasks - ora.scoredTasks
  match ora.measured, ora.strength with
  | true, some strength =>
    if ora.share.below policy.minOracleShare then
      [fail .oracleThin .calibrate
        (s!"only {ora.scoredTasks} of {ora.nTasks} counted commits have an oracle score (" ++
          Floats.percent ora.share ++ " < " ++ Floats.percent policy.minOracleShare ++
          ") — a mean over a minority describes those commits, not the cell")
        (.num (Floats.round 4 ora.share)) (.num policy.minOracleShare) .oracle unscored]
    else
      failIf (strength.below policy.minOracleStrength) <| fail .oracleWeak .human
        ("oracle strength " ++ Floats.fixed strength ++ " < " ++
          Floats.fixed policy.minOracleStrength ++ " — green cannot license auto-delivery")
        (.num (Floats.round 4 strength)) (.num policy.minOracleStrength) .strengthen 0
  | _, _ =>
    [fail .oracleUnmeasured .calibrate
      ("no counted commit has a mutation.v2 score at this apparatus — the oracle's " ++
        "strength is unknown, so a green here is not evidence; run an 'oracle' run")
      .none (.text "measured") .oracle unscored]

def escapesClause (c : ControlsVerdict) (policy : RoutingPolicy R) : List (Finding R) :=
  failIf (c.measured && policy.maxControlsEscapes < c.escapes) <| fail .controlsEscapes .human
    (controlsReason "controls_escapes" c
      (s!"{c.escapes} measurement control(s) graded clean on this repo — the oracle cannot tell " ++
        "an implementation from a cheat; green cannot license auto-delivery until the oracle is " ++
        "hardened and re-measured"))
    (.int c.escapes) (.int policy.maxControlsEscapes) .strengthen 0

/-- What an `undecided` reading still is. -/
def undecidedReason (v : ArmVerdict) : String :=
  let look := lookText v.nextLook
  let short := v.needed
  let tail := "mining further back is the way to reach a look, or leave the class to a person"
  if v.drifted then
    "the reading's pool moved since registration (a pool task was relabelled or removed, " ++
      "or its qualification changed: GET /readings lists how), so its rows prove nothing " ++
      "and it reads undecided until the pool is restored (P-797)"
  else if v.blocking ≠ "" then
    s!"the reading read undecided on {v.blocking}: its pool is {short} short of the " ++
      s!"next look at {look}, so it never delivers, but it may still read insufficient " ++
      s!"while {v.blocking} has commits to run — {tail}"
  else
    let unread := v.poolRemaining - v.counted
    if unread = 0 then
      s!"the reading's pool ended: all {v.counted} of its commits are read and the next " ++
        s!"look at {look} needs {short} more than it holds — mine further back, or leave the " ++
        "class to a person"
    else
      let looks := (rules.lookup v.rule).getD []
      let canFail := looks = [] || lastAllowance looks < (v.counted - v.clean) + unread
      let verdict := if canFail then "it may still read insufficient as they run"
        else "whatever they show, it stays undecided"
      s!"the reading's pool cannot reach its next look ({v.counted} read, {unread} still to " ++
        s!"read, the next look is {look}: the pool is {short} short), so it never delivers; " ++
        s!"{verdict} — {tail}"

/-- The reading decided against, or delivered for an arm that is not the standard. -/
def decidedClauses (arm : String) (verdict : ArmVerdict) : List (Finding R) :=
  match verdict.state with
  | .ofArm .insufficient =>
    let on := if verdict.blocking = "" then "" else s!" (read on {verdict.blocking})"
    [fail .insufficient .human
      (s!"the reading read insufficient{on}: its third miss put its last look out of " ++
        "reach; it has spent its share of the cell's budget and is never read again — a " ++
        "richer arm in a new reading within the budget, a split, or a person")
      (.int (verdict.counted - verdict.clean)) (.text "fewer than three misses") .newReading 0]
  | .ofArm .undecided =>
    [fail .undecided .calibrate (undecidedReason verdict) (.int verdict.counted)
      (lookValue verdict.nextLook) (if verdict.drifted then .none else .mine) verdict.needed]
  | .ceiling =>
    [fail .ceiling .calibrate
      (s!"{arm} delivered, but its tests were written with the change: a ceiling, " ++
        "forward-unvalidated, never a certificate — calibration builds toward S2")
      (.text arm) (.text "S1@<author> or S2") .calibrationBuilds 0]
  | .leanerStandard =>
    [fail .leanerStandard .calibrate
      (s!"{arm} delivered, but the cell's standard is the leaner arm {verdict.standard}: " ++
        "a build carries the standard's context and nothing it was not measured with")
      (.text arm) (.text verdict.standard) .buildOnStandard 0]
  | _ => []

/-- The controls, measured and complete at this apparatus. -/
def controlsClauses (c : ControlsVerdict) (policy : RoutingPolicy R) : List (Finding R) :=
  if !c.measured then
    let detail := if c.detail = "" then "no negative-controls report" else c.detail
    [fail .controlsUnmeasured .calibrate
      (s!"controls_unmeasured: {detail} — run a 'controls' run before anything here can deliver")
      (.text "unmeasured") (.text "measured") .controls 0]
  else
    failIf (c.passed && c.thin policy.minControlsShare) <| fail .controlsThin .calibrate
      (controlsReason "controls_thin" c
        (s!"only {c.constructible} of {c.total} control rows were constructible (" ++
          Floats.percent (c.share : Num R) ++ " < " ++ Floats.percent policy.minControlsShare ++
          ") — 'passed' means the easy controls passed; the load-bearing ones never ran"))
      (.num (Floats.round 4 c.share)) (.num policy.minControlsShare) .controls 0

end Clauses

section Decision

variable {R : Type} [Floats R]

/-- One cell's route with the evidence it was decided on. -/
structure RouteDecision (R : Type) where
  route : Route
  reason : String
  reasonCode : ReasonCode
  shortfalls : List (Shortfall R)
  stats : CellStats R
  verdict : ArmVerdict
  controls : ControlsVerdict
  oracleStrength : Option (Num R)
  oracleScoredTasks : ℕ
  oracleShare : Num R
  policyVersion : String
  controlsPolicy : String
  policyThresholds : PolicyThresholds R

/-- What a route is decided on. An argument left out reads as unmeasured, or as no reading. -/
structure Evidence (R : Type) [Floats R] where
  stats : CellStats R
  oracle : Option (OracleEvidence R)
  controls : Option ControlsVerdict
  reading : Option ArmVerdict
  policy : RoutingPolicy R

namespace Evidence

def verdict (e : Evidence R) : ArmVerdict :=
  e.reading.getD ⟨e.stats.contextArm, .readingUnregistered, "", "", 0, 0, 0, none, "", "", [], 0, false⟩

/-- The report as it was written. -/
def report (e : Evidence R) : ControlsVerdict := e.controls.getD (.unmeasured "")

def ora (e : Evidence R) : OracleEvidence R := e.oracle.getD (.unmeasured e.verdict.counted)

/-- The failing clauses, in the order they are found. -/
def findings (e : Evidence R) : List (Finding R) :=
  let arm := e.stats.contextArm
  let c := e.report.readAt e.stats.apparatusVersion
  falseQ1Clause e.stats ++ sizeClause e.stats e.policy ++ failedClause c ++ sealedClause e.stats ++
    lintClause e.stats e.verdict ++ readingClause arm e.verdict ++ oracleClause e.ora e.policy ++
    escapesClause c e.policy ++ decidedClauses arm e.verdict ++ controlsClauses c e.policy

def deliverReason (e : Evidence R) : String :=
  let c := e.report.readAt e.stats.apparatusVersion
  s!"{e.stats.contextArm} is the cell's standard: {e.verdict.clean} of {e.verdict.counted} clean " ++
    s!"at the look ({e.policy.rule}, reading {e.verdict.readingId.take 12}) · oracle=" ++
    Floats.fixed (e.ora.strength.getD (zero : Num R)) ++
    s!" on {e.ora.scoredTasks}/{e.ora.nTasks} · controls passed {c.constructible}/{c.total} " ++
    s!"escapes={c.escapes} · false_q1=0"

/-- The rule: the first failing clause decides, and every one is a shortfall. -/
def route (e : Evidence R) : RouteDecision R :=
  let decided (route : Route) (reason : String) (code : ReasonCode) : RouteDecision R :=
    { route := route
      reason := reason
      reasonCode := code
      shortfalls := e.findings.map Finding.shortfall
      stats := e.stats
      verdict := e.verdict
      controls := e.report.readAt e.stats.apparatusVersion
      oracleStrength := if e.ora.measured then e.ora.strength else none
      oracleScoredTasks := e.ora.scoredTasks
      oracleShare := e.ora.share
      policyVersion := e.policy.version
      controlsPolicy := e.policy.controlsVersion
      policyThresholds := e.policy.thresholds }
  match e.findings with
  | [] => decided .deliver e.deliverReason .deliver
  | first :: _ => decided first.shortfall.route first.reason first.shortfall.code

end Evidence

end Decision

end CommitReplay.RoutingRule
