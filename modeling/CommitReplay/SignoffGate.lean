import CommitReplay.SignoffRecords

/-! The gate a sign-off passes before it is written: the clauses of the policy that a cell, its
controls, its oracle and the actors behind its evidence fail, and the evidence stamped into a
record that fails none. -/
namespace CommitReplay.SignoffGate

open CommitReplay.PythonText CommitReplay.JsonValue CommitReplay.JsonText CommitReplay.JsonRoundTrip
open CommitReplay.GradeRows CommitReplay.FactoryEvents CommitReplay.LookRule
open CommitReplay.ReadingHierarchy CommitReplay.RoutingRule CommitReplay.SignoffRecords

section Words

def routeText : Route → String
  | .deliver => "deliver"
  | .calibrate => "calibrate"
  | .granularize => "granularize"
  | .human => "human"
  | .doNotShip => "do_not_ship"

def reasonText : ReasonCode → String
  | .falseQ1 => "false_q1"
  | .granularize => "granularize"
  | .controlsFailed => "controls_failed"
  | .postureUnsealed => "posture_unsealed"
  | .lintDisabled => "lint_disabled"
  | .readingUnregistered => "reading_unregistered"
  | .descriptive => "descriptive"
  | .lookPending => "look_pending"
  | .oracleUnmeasured => "oracle_unmeasured"
  | .oracleThin => "oracle_thin"
  | .oracleWeak => "oracle_weak"
  | .controlsEscapes => "controls_escapes"
  | .insufficient => "insufficient"
  | .undecided => "undecided"
  | .ceiling => "ceiling"
  | .leanerStandard => "leaner_standard"
  | .controlsUnmeasured => "controls_unmeasured"
  | .controlsThin => "controls_thin"
  | .deliver => "deliver"

def controlsText : ControlsState → String
  | .unmeasured => "unmeasured"
  | .failed => "failed"
  | .thin => "thin"
  | .escaped => "escaped"
  | .passed => "passed"

def verdictText : VerdictState → String
  | .readingUnregistered => "reading_unregistered"
  | .ceiling => "ceiling"
  | .leanerStandard => "leaner_standard"
  | .ofArm .deliver => "deliver"
  | .ofArm .insufficient => "insufficient"
  | .ofArm .undecided => "undecided"
  | .ofArm .lookPending => "look_pending"
  | .ofArm .descriptive => "descriptive"
  | .ofArm .stopped => "stopped"
  | .ofArm .waiting => "waiting"

/-- `label`. -/
def keyFields (key : CellKey) : List (String × String) :=
  [("process_step", key.processStep), ("capability_class", key.capabilityClass), ("size", key.size),
    ("language", key.language), ("builder", key.builder), ("model", key.model),
    ("provider", key.provider)]

def keyLabel (key : CellKey) : String := "|".intercalate ((keyFields key).map Prod.snd)

/-- `is_person_actor`. -/
def isPersonActor (actor : String) : Bool :=
  let a := strip actor.toList
  a ≠ [] && ["system", "worker", "cli:", "service:", "import"].all fun p => !startsWith p.toList a

end Words

variable {R : Type} [Floats R]

/-- The numbers of a cell that a sign-off reads beside those a route does. -/
structure Stats (R : Type) extends CellStats R where
  apparatusVersions : List String
  checksArm : String
  postureClasses : List String
  arm_known : checksArm ∈ arms

/-- One cell of the map; its statistics and its decision are both present or both absent. -/
structure CapabilityCell (R : Type) [Floats R] where
  key : CellKey
  projection : List String
  measured : Option (Stats R × RouteDecision R)
  verificationTier : Option String
  verdict : Option ArmVerdict

namespace CapabilityCell

def stats (cell : CapabilityCell R) : Option (Stats R) := cell.measured.map Prod.fst

def decision (cell : CapabilityCell R) : Option (RouteDecision R) := cell.measured.map Prod.snd

def label (cell : CapabilityCell R) : String :=
  "|".intercalate (cell.projection.map fun f => ((keyFields cell.key).lookup f).getD "")

end CapabilityCell

/-- The bar an attestation must clear, within the bounds a deployment may move it in; the three
switches that no policy may turn off are no fields here. -/
structure SignoffPolicy (R : Type) [Floats R] where
  nMin : ℤ
  requireRouteDeliver : Bool
  requireControlsPassed : Bool
  maxControlsEscapes : ℤ
  minConstructibleShare : Num R
  minOracleStrength : Num R
  policyVersion : String
  nMin_bounds : 1 ≤ nMin ∧ nMin ≤ 10000
  escapes_bounds : 0 ≤ maxControlsEscapes ∧ maxControlsEscapes ≤ 100
  share_bounds : minConstructibleShare.atLeast zero = true ∧
    (Num.num (Floats.ofRat 1)).atLeast minConstructibleShare = true
  strength_bounds : minOracleStrength.atLeast zero = true ∧
    (Num.num (Floats.ofRat 1)).atLeast minOracleStrength = true
  versioned : policyVersion ≠ ""

section Clauses

/-- What a failing clause shows beside its threshold. -/
inductive Shown (R : Type)
  | none | int (n : ℤ) | num (x : Num R) | text (s : String)

/-- One failing clause. -/
structure SignoffRefusal (R : Type) where
  code : String
  message : String
  threshold : Shown R
  observed : Shown R

variable {F : Type} (isPrintable : Char → Bool)

/-- `repr` of a text. -/
def quoted (s : String) : String := .ofList (PythonRepr.reprStr isPrintable s.toList)

/-- `key_matches`. -/
def keyMatches (pattern key : CellKey) : Bool :=
  ((keyFields pattern).zip (keyFields key)).all fun p => p.1.2 = wildcard || p.1.2 = p.2.2

/-- `matches`: the record's repo and scope cover the cell. -/
def covers (r : Fields F) (cell : CapabilityCell R) (repo : String) : Bool :=
  (r.repo = wildcard || r.repo = repo) && keyMatches r.scope cell.key

/-- `key()`: the identity a later record of the same scope supersedes. -/
def recordKey (r : Fields F) : String × CellKey := (r.repo, r.scope)

/-- What the caller resolved for a sign-off. -/
structure Resolved (R : Type) [Floats R] where
  repo : String
  controls : Option ControlsVerdict
  oracleStrength : Option (Num R)
  policy : SignoffPolicy R
  attestedActors : Option (List String)
  cellActors : Option (List String)

/-- `resolve_oracle_strength`. -/
def resolveOracleStrength (cell : CapabilityCell R) (given : Option (Num R)) : Option (Num R) :=
  match given with
  | some x => some x
  | none => cell.decision.bind (·.oracleStrength)

/-- `same_actor_refusal`. -/
def sameActorRefusal (r : Fields F) (cell : CapabilityCell R)
    (attestedActors cellActors : Option (List String)) : Option (SignoffRefusal R) :=
  let who := r.verifier
  let attested := (attestedActors.getD []).filter isPersonActor
  let people := (cellActors.getD []).filter isPersonActor
  if !isPersonActor who then none
  else if who ∈ attested then
    let row := r.attestation.elim "" fun a =>
      s!" {a.reviewedRowHash.take 12}… (task {a.reviewedTaskId})"
    some ⟨"same_actor", s!"approver {quoted isPrintable who} produced the attested row{row} — as its actor, " ++
      "or the actor of the run that graded it: the person who produced the evidence cannot sign " ++
      "it — a second approver must sign (cannot be relaxed)", .text "a second person", .text who⟩
  else if people ≠ [] ∧ ∀ a ∈ people, a = who then
    some ⟨"same_actor", s!"approver {quoted isPrintable who} is the only person behind every accepted row of " ++
      s!"cell {quoted isPrintable cell.label} (their own runs produced them all): no independent evidence " ++
      "exists — a second approver must sign (cannot be relaxed)", .text "a second person", .text who⟩
  else none

def runName (c : ControlsVerdict) : String :=
  if c.runId = "" then "" else s!" (controls run {c.runId.take 8})"

/-- The controls clauses, where the policy asks for a gate that passed. -/
def controlsRefusals (c : Option ControlsVerdict) (policy : SignoffPolicy R) : List (SignoffRefusal R) :=
  if !policy.requireControlsPassed then []
  else match c.filter (·.measured) with
    | none => [⟨"controls_unmeasured",
        "the negative-controls gate was never run for this repo — nothing measured here can be " ++
        "signed off until a 'controls' run passes", .text "measured", .text "unmeasured"⟩]
    | some c =>
      (if c.passed then [] else [⟨"controls_failed",
        s!"the negative-controls gate FAILED on this repo{runName c} — an instrument defect; " ++
        "nothing measured under it can be signed off", .text "passed", .text "failed"⟩]) ++
      (if (c.escapes : ℤ) ≤ policy.maxControlsEscapes then [] else [⟨"controls_escapes",
        s!"{c.escapes} measurement control(s) graded clean on this repo{runName c} > " ++
        s!"max_controls_escapes={policy.maxControlsEscapes} — the oracle cannot tell an " ++
        "implementation from a cheat", .int policy.maxControlsEscapes, .int c.escapes⟩]) ++
      (if !c.thin policy.minConstructibleShare then [] else [⟨"controls_thin",
        s!"only {c.constructible} of {c.total} control rows were constructible{runName c}: share " ++
        Floats.fixed (c.share : Num R) ++ " < min_constructible_share=" ++
        Floats.fixed policy.minConstructibleShare ++ " — 'passed' means the easy controls passed",
        .num policy.minConstructibleShare, .num (Floats.round 4 c.share)⟩])

def oracleRefusals (cell : CapabilityCell R) (strength : Option (Num R)) (policy : SignoffPolicy R) :
    List (SignoffRefusal R) :=
  match strength with
  | none => [⟨"oracle_unmeasured",
      s!"no task of cell {quoted isPrintable cell.label} has a mutation score — the oracle's strength is " ++
      "unknown, so a green here is not evidence; run an 'oracle' run on this repo before signing " ++
      "(cannot be relaxed)", .text "measured", .none⟩]
  | some x =>
    if !x.below policy.minOracleStrength then [] else [⟨"oracle_weak",
      "oracle strength " ++ Floats.fixed x ++ " < min_oracle_strength=" ++
      Floats.fixed policy.minOracleStrength ++ " — green cannot license auto-delivery",
      .num policy.minOracleStrength, .num (Floats.round 4 x)⟩]

def routeRefusals (cell : CapabilityCell R) (policy : SignoffPolicy R) : List (SignoffRefusal R) :=
  if !policy.requireRouteDeliver then []
  else match cell.decision with
    | none => [⟨"route_not_deliver:unrouted",
        s!"cell {quoted isPrintable cell.label} has no route decision — nothing to sign off", .text "deliver",
        .text ""⟩]
    | some d =>
      if d.route = .deliver then [] else [⟨s!"route_not_deliver:{reasonText d.reasonCode}",
        s!"the routing rule says {quoted isPrintable (routeText d.route)} ({reasonText d.reasonCode}): {d.reason}",
        .text "deliver", .text (routeText d.route)⟩]

/-- Only the cell's standard arm, and only when its reading delivers. -/
def standardRefusals (cell : CapabilityCell R) : List (SignoffRefusal R) :=
  let state := cell.verdict.elim .readingUnregistered (·.state)
  let arm := cell.stats.elim "" (·.contextArm)
  match state with
  | .ofArm .lookPending => [⟨"look_pending",
      s!"the reading of {arm} waits for its look at " ++
      cell.verdict.elim "-" (fun v => lookText v.nextLook) ++
      s!" ({cell.verdict.elim 0 (·.needed)} commit(s) still needed) — a sign-off is written only " ++
      "when the standard arm's reading delivers", .text "deliver", .text (verdictText state)⟩]
  | .ofArm .deliver => []
  | state =>
    let named := if arm = "" then "this arm" else arm
    [⟨s!"not_standard:{verdictText state}",
      s!"{named} is not the cell's proven standard (its reading reads {quoted isPrintable (verdictText state)}) " ++
      "— a sign-off is written only for the standard arm, when its registered reading delivers",
      .text "standard arm, reading deliver", .text (verdictText state)⟩]

/-- `evaluate_signoff`: every clause the record fails, in order. A scope that does not cover the
cell and a false-Q1 row are returned alone. -/
def evaluateSignoff (r : Fields F) (cell : CapabilityCell R) (given : Resolved R) :
    List (SignoffRefusal R) :=
  let falseQ1 : ℤ := cell.stats.elim 0 (·.falseQ1)
  let nTasks := cell.stats.elim 0 (·.nTasks)
  let what := if cell.stats.isNone then "no measured evidence" else s!"tasks={nTasks}"
  if r.revoked then []
  else if !covers r cell given.repo then [⟨"scope_mismatch",
    "attestation scope (" ++ ", ".intercalate ((r.repo :: (keyFields r.scope).map Prod.snd).map (quoted isPrintable)) ++
    s!") does not cover cell {quoted isPrintable (keyLabel cell.key)} for repo {quoted isPrintable given.repo}",
    .none, .none⟩]
  else if 0 < falseQ1 ∨ 0 < r.falseQ1AtSignoff then [⟨"false_q1",
    s!"cell {quoted isPrintable cell.label} has false_q1={max falseQ1 r.falseQ1AtSignoff} > 0 — untrusted, " ++
    "cannot be signed off", .int 0, .int (max falseQ1 r.falseQ1AtSignoff)⟩]
  else
    (if given.policy.nMin ≤ nTasks then [] else [⟨"thin_cell",
      s!"cell {quoted isPrintable cell.label} is thin: {what} < n_min={given.policy.nMin}",
      .int given.policy.nMin, .int nTasks⟩]) ++
    controlsRefusals (given.controls.or (cell.decision.map (·.controls))) given.policy ++
    oracleRefusals isPrintable cell (resolveOracleStrength cell given.oracleStrength) given.policy ++
    routeRefusals isPrintable cell given.policy ++ standardRefusals isPrintable cell ++
    (if r.attestation.isSome then [] else [⟨"attestation_missing",
      "the approver must name one accepted (clean) row of this cell whose diff they have read, " ++
      "with a statement", .text "reviewed_row_hash + statement", .text ""⟩]) ++
    (sameActorRefusal isPrintable r cell given.attestedActors given.cellActors).toList

/-- `check_signable`. -/
def checkSignable (r : Fields F) (cell : CapabilityCell R) (given : Resolved R) :
    Except SignoffError Unit :=
  match evaluateSignoff isPrintable r cell given with
  | [] => .ok ()
  | first :: _ => .error (.refused first.code)

end Clauses

section Stamping

variable {F : Type} [PyFloat F] (float : Num R → F) (isWide isPrintable : Char → Bool)

/-- `thresholds()`: the numbers and switches in force. -/
def SignoffPolicy.thresholds (policy : SignoffPolicy R) : Payload F :=
  Payload.of [("n_min", .int policy.nMin), ("require_route_deliver", .bool policy.requireRouteDeliver),
    ("require_controls_passed", .bool policy.requireControlsPassed),
    ("max_controls_escapes", .int policy.maxControlsEscapes),
    ("min_constructible_share", .float (float policy.minConstructibleShare)),
    ("min_oracle_strength", .float (float policy.minOracleStrength)),
    ("require_oracle_measured", .bool true), ("require_attestation", .bool true),
    ("require_independent_verifier", .bool true)]

/-- `_controls_state`. -/
def controlsState (c : Option ControlsVerdict) (policy : SignoffPolicy R) : ControlsState :=
  c.elim .unmeasured (·.state policy.minConstructibleShare policy.maxControlsEscapes)

/-- The evidence that is copied into the snapshot. -/
def stamped (s : Stats R) (d : RouteDecision R) (given : Resolved R) (strength : Option (Num R))
    (verifiedAt : Json F) : Stamp → Json F
  | .verifiedAt => verifiedAt
  | .nAtSignoff => .int s.n
  | .pointAtSignoff => .float (float s.point)
  | .ciLowAtSignoff => .float (float s.ci.low)
  | .oracleStrengthAtSignoff => strength.elim .null fun x => .float (float x)
  | .policyVersion => .str given.policy.policyVersion
  | .routeAtSignoff => .str (routeText d.route)
  | .routeReasonCode => .str (reasonText d.reasonCode)
  | .controlsVerdict =>
    .str (controlsText (controlsState (some (given.controls.getD d.controls)) given.policy))
  | .controlsRunId => .str (given.controls.getD d.controls).runId
  | .controlsK => .int (given.controls.getD d.controls).constructible
  | .controlsTotal => .int (given.controls.getD d.controls).total
  | .controlsEscapes => .int (given.controls.getD d.controls).escapes
  | .nTasksAtSignoff => .int s.nTasks
  | .taskCleanAtSignoff => .int s.taskClean
  | .taskCiLowAtSignoff => .float (float s.taskCi.low)
  | .taskCiHighAtSignoff => .float (float s.taskCi.high)
  | .oracleScoredTasks => .int d.oracleScoredTasks
  | .oracleShare => .float (float d.oracleShare)
  | .controlsApparatus => .str (given.controls.getD d.controls).apparatusVersion

omit [PyFloat F] in
lemma canonical_stamped (s : Stats R) (d : RouteDecision R) (given : Resolved R)
    (strength : Option (Num R)) {verifiedAt : Json F} (h : Canonical verifiedAt) (f : Stamp) :
    Canonical (stamped float s d given strength verifiedAt f) := by
  cases f with
  | verifiedAt => exact h
  | oracleStrengthAtSignoff =>
    cases strength with
    | none => exact .null
    | some x => exact .float _
  | _ => first | exact .str _ | exact .int _ | exact .float _

/-- The fields of a record with the cell's evidence copied into them. -/
def evidenceFields (r : SignoffRecord F) (cell : CapabilityCell R) (given : Resolved R) (s : Stats R)
    (d : RouteDecision R) : Fields F :=
  let versions := ",".intercalate s.apparatusVersions
  { r.toFields with
    falseQ1AtSignoff := s.falseQ1
    checksArm := s.checksArm
    apparatusVersion := if versions = "" then r.apparatusVersion else versions
    policyThresholds := given.policy.thresholds float
    postureClass := ",".intercalate s.postureClasses
    contextArm := s.contextArm
    taxonomy := s.taxonomy
    readingId := cell.verdict.elim "" (·.readingId)
    stamp := stamped float s d given (resolveOracleStrength cell given.oracleStrength)
      (r.stamp .verifiedAt)
    stamp_inOrder := canonical_stamped float s d given _ (r.stamp_inOrder .verifiedAt) }

/-- `stamp_evidence`: such a record, constructed again. -/
def stampEvidence (r : SignoffRecord F) (cell : CapabilityCell R) (given : Resolved R) :
    Except SignoffError (SignoffRecord F) :=
  match cell.measured with
  | none => .error (.refused "thin_cell")
  | some (s, d) =>
    SignoffRecord.make isWide ⟨r.recordId, r.named⟩ (evidenceFields float r cell given s d)

/-- What `append` is called with. -/
structure Write (F R : Type) [Floats R] where
  record : SignoffRecord F
  cell : Option (CapabilityCell R)
  given : Resolved R

/-- A revocation is chained as it is; an attestation is checked against its live cell and stamped. -/
def prepare (w : Write F R) : Except SignoffError (SignoffRecord F) :=
  if w.record.revoked then .ok w.record
  else match w.cell with
    | none => .error (.refused "thin_cell")
    | some cell => do
      checkSignable isPrintable w.record.toFields cell w.given
      stampEvidence float isWide w.record cell w.given

/-- The write passes `check_signable`, or is a revocation. -/
def Write.Passes (w : Write F R) : Prop :=
  w.record.revoked = true ∨ ∃ cell, w.cell = some cell ∧
    checkSignable isPrintable w.record.toFields cell w.given = .ok ()

end Stamping

section Passing

variable {F : Type} {isPrintable : Char → Bool}

lemma checkSignable_eq_ok_iff {r : Fields F} {cell : CapabilityCell R} {given : Resolved R} :
    checkSignable isPrintable r cell given = .ok () ↔ evaluateSignoff isPrintable r cell given = [] := by
  rw [checkSignable]
  split
  · rename_i h
    exact iff_of_true rfl h
  · rename_i h
    exact iff_of_false (by simp) (by simp [h])

/-- What a record that is no revocation and fails no clause was signed on. -/
structure Signable (r : Fields F) (cell : CapabilityCell R) (given : Resolved R) (s : Stats R)
    (d : RouteDecision R) : Prop where
  measured : cell.measured = some (s, d)
  covers : covers r cell given.repo = true
  falseQ1 : s.falseQ1 = 0
  oracle : (resolveOracleStrength cell given.oracleStrength).isSome = true
  standard : ∃ v, cell.verdict = some v ∧ v.state = .ofArm .deliver
  attested : r.attestation.isSome = true
  second : isPersonActor r.verifier = true → r.verifier ∉ given.attestedActors.getD []

/-- An attestation that passes has its cell measured, trusted, standard and delivering. -/
theorem signable_of_evaluate {r : Fields F} {cell : CapabilityCell R} {given : Resolved R}
    (hr : r.revoked = false) (h : evaluateSignoff isPrintable r cell given = []) :
    ∃ s d, Signable r cell given s d := by
  rw [evaluateSignoff, if_neg (by simp [hr])] at h
  by_cases hcovers : (!covers r cell given.repo) = true
  · rw [if_pos hcovers] at h
    cases h
  rw [if_neg hcovers] at h
  by_cases hfalse : 0 < cell.stats.elim 0 (fun s => (s.falseQ1 : ℤ)) ∨ 0 < r.falseQ1AtSignoff
  · rw [if_pos hfalse] at h
    cases h
  rw [if_neg hfalse] at h
  simp only [List.append_eq_nil_iff] at h
  obtain ⟨⟨⟨⟨⟨⟨hthin, -⟩, horacle⟩, -⟩, hstandard⟩, hattested⟩, hsame⟩ := h
  have hmin := given.policy.nMin_bounds.1
  cases hm : cell.measured with
  | none =>
    have hnone : cell.stats = none := by rw [CapabilityCell.stats, hm]; rfl
    rw [hnone] at hthin
    split at hthin
    · rename_i hle
      exact absurd hle (by simp only [Option.elim_none]; push_cast; omega)
    · cases hthin
  | some m =>
    obtain ⟨s, d⟩ := m
    have hstats : cell.stats = some s := by rw [CapabilityCell.stats, hm]; rfl
    refine ⟨s, d, hm, by simpa using hcovers, ?_, ?_, ?_, ?_, ?_⟩
    · rw [hstats, Option.elim_some] at hfalse
      omega
    · unfold oracleRefusals at horacle
      split at horacle
      · cases horacle
      · rename_i hx
        rw [hx]
        rfl
    · rw [standardRefusals] at hstandard
      cases hv : cell.verdict with
      | none => simp [hv] at hstandard
      | some v =>
        refine ⟨v, rfl, ?_⟩
        simp only [hv, Option.elim_some] at hstandard
        split at hstandard
        · cases hstandard
        · assumption
        · cases hstandard
    · by_contra hc
      simp [hc] at hattested
    · intro hperson hmem
      rw [Option.toList_eq_nil_iff, sameActorRefusal] at hsame
      dsimp only at hsame
      rw [if_neg (by simp [hperson]), if_pos (List.mem_filter.mpr ⟨hmem, hperson⟩)] at hsame
      cases hsame

variable {float : Num R → F} {isWide : Char → Bool}

/-- Stamping a record that passed does not fail. -/
lemma stampEvidence_of_signable {r : SignoffRecord F} {cell : CapabilityCell R} {given : Resolved R}
    {s : Stats R} {d : RouteDecision R} (h : Signable r.toFields cell given s d) :
    ∃ t, stampEvidence float isWide r cell given = .ok t := by
  rw [stampEvidence, h.measured]
  refine SignoffRecord.make_of_accepted isWide _ (evidenceFields float r cell given s d) ?_
  exact ⟨r.accepted.repo, r.accepted.capabilityClass, r.accepted.verifier, r.accepted.verifierKind,
    r.accepted.tier, .inr s.arm_known, .inl (by simp [evidenceFields, h.falseQ1])⟩

/-- A write that passes is prepared. -/
theorem prepare_of_passes {w : Write F R} (h : w.Passes isPrintable) :
    ∃ r, prepare float isWide isPrintable w = .ok r := by
  rw [prepare]
  split_ifs with hr
  · exact ⟨_, rfl⟩
  · obtain ⟨cell, hcell, hcheck⟩ := h.resolve_left hr
    obtain ⟨s, d, hs⟩ := signable_of_evaluate (by simpa using hr) (checkSignable_eq_ok_iff.mp hcheck)
    obtain ⟨t, ht⟩ := @stampEvidence_of_signable _ _ _ float isWide _ _ _ _ _ hs
    refine ⟨t, ?_⟩
    rw [hcell]
    dsimp only
    rw [hcheck]
    exact ht

end Passing

end CommitReplay.SignoffGate
