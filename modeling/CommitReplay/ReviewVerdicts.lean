import CommitReplay.PythonText

/-! The verdict of a review. The probes set a floor, and the reviewer's opinion may be stricter than
it and never looser. -/
namespace CommitReplay.ReviewVerdicts

open CommitReplay.PythonText

inductive Verdict
  | accept | acceptWithEdit | reject
deriving DecidableEq, Repr

def Verdict.text : Verdict → String
  | .accept => "accept"
  | .acceptWithEdit => "accept_with_edit"
  | .reject => "reject"

def Verdict.rank : Verdict → ℕ
  | .accept => 0
  | .acceptWithEdit => 1
  | .reject => 2

inductive Severity
  | info | minor | major | blocking
deriving DecidableEq, Repr

structure ReviewFinding where
  kind : String
  severity : Severity
  detail : String
  probe : String
deriving DecidableEq

def findingWeakOracle : String := "weak_oracle"
def findingOracleUnscoreable : String := "oracle_unscoreable"
def findingProbeWaived : String := "probe_waived"

/-- What a probe says; `none` where it could not run. -/
structure ProbeResult where
  name : String
  passed : Option Bool
  detail : String
  required : Bool
  findings : List ReviewFinding
deriving DecidableEq

/-- A required probe that did not pass. -/
def ProbeResult.failed (p : ProbeResult) : Bool := p.required && p.passed != some true

def mutationStrength : String := "mutation_strength"
def redReproduction : String := "red_reproduction"

/-- An approver's waiver of the strength probe for one test's exact bytes. -/
structure ProbeWaiver where
  approver : String
  reason : String
  testSha256 : String
  eventId : String
deriving DecidableEq

def ProbeWaiver.appliesTo (w : ProbeWaiver) (testSha256 : String) : Bool :=
  w.testSha256 ≠ "" && w.testSha256 = testSha256

def ProbeWaiver.note (w : ProbeWaiver) : String :=
  "mutation strength probe waived by " ++ w.approver ++ ": " ++ w.reason

def waive (result : ProbeResult) (waiver : ProbeWaiver) : ProbeResult :=
  { result with
    required := false
    detail := result.detail ++ "; " ++ waiver.note
    findings := result.findings ++ [⟨findingProbeWaived, .info, waiver.note, result.name⟩] }

/-- A probe's result, waived where a waiver covers it. -/
def underWaiver (waiver : Option ProbeWaiver) (testSha256 : String) (result : ProbeResult) :
    ProbeResult :=
  match waiver with
  | none => result
  | some w =>
    if result.name = mutationStrength ∧ result.required ∧ result.passed = none ∧
        w.appliesTo testSha256 then waive result w
    else result

structure ReviewOpinion where
  verdict : Verdict
  findings : List ReviewFinding
  summary : String
deriving DecidableEq

structure ReviewVerdict where
  itemId : String
  verdict : Verdict
  reviewer : String
  builder : String
  testAuthor : String
  packHash : String
  prRef : String
  redReproduced : Bool
  probes : List ProbeResult
  findings : List ReviewFinding
  summary : String
  eventId : String
deriving DecidableEq

def ReviewVerdict.accepted (v : ReviewVerdict) : Bool := v.verdict = .accept

def ReviewVerdict.reworkRequired (v : ReviewVerdict) : Bool := v.verdict = .acceptWithEdit

/-- The strength probe's result when it could not score the test and nobody waived it. -/
def unscoreable (v : ReviewVerdict) : Option ProbeResult :=
  v.probes.find? fun p => p.name = mutationStrength && p.required && p.passed = none

def weakOracleFinding (v : ReviewVerdict) : Option String :=
  (v.findings.find? (·.kind = findingWeakOracle)).map (·.detail)

/-- What the findings alone ask for. -/
def floorOf (findings : List ReviewFinding) : Verdict × String :=
  if .blocking ∈ findings.map (·.severity) then (.reject, "a blocking finding was recorded")
  else if .major ∈ findings.map (·.severity) then
    (.acceptWithEdit, "a major finding requires an edit (and rework)")
  else (.accept, "mechanical probes passed")

def deriveVerdict (opinion : ReviewOpinion) (probes : List ProbeResult) : Verdict × String :=
  let failed := (probes.filter ProbeResult.failed).map (·.name)
  if failed ≠ [] then (.reject, "required probe(s) failed: " ++ String.intercalate ", " failed)
  else
    let floor := floorOf (probes.flatMap (·.findings) ++ opinion.findings)
    if floor.1.rank < opinion.verdict.rank then
      (opinion.verdict, "reviewer opinion: " ++
        if opinion.summary = "" then opinion.verdict.text else opinion.summary)
    else floor

/-- `text.strip("; ")`. -/
def stripSummary (text : String) : String :=
  .ofList ((text.toList.dropWhile fun c => c = ';' ∨ c = ' ').rdropWhile fun c => c = ';' ∨ c = ' ')

/-- The verdict `review` records of the probes' results and an opinion. -/
def verdictOf (itemId reviewer builder testAuthor packHash prRef : String)
    (results : List ProbeResult) (opinion : ReviewOpinion) : ReviewVerdict :=
  let derived := deriveVerdict opinion results
  { itemId, reviewer, builder, testAuthor, packHash, prRef
    verdict := derived.1
    redReproduced := ((results.find? (·.name = redReproduction)).map (·.passed)) = some (some true)
    probes := results
    findings := results.flatMap (·.findings) ++ opinion.findings
    summary := stripSummary (derived.2 ++ "; " ++ opinion.summary)
    eventId := "" }

/-- No required probe failed, and no finding asks for an edit or more. -/
structure Unobjected (v : ReviewVerdict) : Prop where
  probes : ∀ p ∈ v.probes, p.failed = false
  findings : ∀ f ∈ v.findings, f.severity ≠ .major ∧ f.severity ≠ .blocking

lemma floorOf_accept {findings : List ReviewFinding} (h : (floorOf findings).1 = .accept) :
    ∀ f ∈ findings, f.severity ≠ .major ∧ f.severity ≠ .blocking := by
  unfold floorOf at h
  split_ifs at h with hblocking hmajor
  exact fun f hf => ⟨fun hs => hmajor (List.mem_map.mpr ⟨f, hf, hs⟩),
    fun hs => hblocking (List.mem_map.mpr ⟨f, hf, hs⟩)⟩

lemma deriveVerdict_accept {opinion : ReviewOpinion} {probes : List ProbeResult}
    (h : (deriveVerdict opinion probes).1 = .accept) : (∀ p ∈ probes, p.failed = false) ∧
      ∀ f ∈ probes.flatMap (·.findings) ++ opinion.findings,
        f.severity ≠ .major ∧ f.severity ≠ .blocking := by
  unfold deriveVerdict at h
  dsimp only at h
  by_cases hfailed : (probes.filter ProbeResult.failed).map (·.name) ≠ []
  · rw [if_pos hfailed] at h
    cases h
  rw [if_neg hfailed] at h
  refine ⟨fun p hp => ?_, ?_⟩
  · by_contra hfail
    refine hfailed fun hnil => ?_
    have hmem : p ∈ probes.filter ProbeResult.failed :=
      List.mem_filter.mpr ⟨hp, by simpa using hfail⟩
    rw [List.map_eq_nil_iff.mp hnil] at hmem
    cases hmem
  · by_cases hr : (floorOf (probes.flatMap (·.findings) ++ opinion.findings)).1.rank <
      opinion.verdict.rank
    · rw [if_pos hr] at h
      rw [show opinion.verdict = .accept from h] at hr
      exact absurd hr (Nat.not_lt_zero _)
    · rw [if_neg hr] at h
      exact floorOf_accept h

/-- What an accepted review says. -/
theorem unobjected_of_accepted {itemId reviewer builder testAuthor packHash prRef : String}
    {results : List ProbeResult} {opinion : ReviewOpinion}
    (h : (verdictOf itemId reviewer builder testAuthor packHash prRef results opinion).accepted =
      true) :
    Unobjected (verdictOf itemId reviewer builder testAuthor packHash prRef results opinion) := by
  have hv : (deriveVerdict opinion results).1 = .accept := by
    simpa [ReviewVerdict.accepted, verdictOf] using h
  obtain ⟨hp, hf⟩ := deriveVerdict_accept hv
  exact ⟨hp, hf⟩

end CommitReplay.ReviewVerdicts
