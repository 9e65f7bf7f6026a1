import CommitReplay.RoutingRule
import CommitReplay.ForwardStability

/-! The published bar against the rule that applies it: which evidence the rule lets deliver, and
where it lets deliver what the bar does not. -/
namespace CommitReplay.RoutingBar

open CommitReplay.FailureKind CommitReplay.LookRule CommitReplay.ReadingHierarchy
open CommitReplay.RoutingRule

variable {R : Type}

section Findings

def codes (l : List (Finding R)) : List ReasonCode := l.map fun f => f.shortfall.code

@[simp] lemma codes_append (l l' : List (Finding R)) : codes (l ++ l') = codes l ++ codes l' :=
  List.map_append

lemma codes_failIf (b : Bool) (f : Finding R) :
    codes (failIf b f) = [f.shortfall.code].filter fun _ => b := by
  cases b <;> rfl

/-- The route each code is published with. -/
def routeOf : ReasonCode → Route
  | .falseQ1 => .doNotShip
  | .granularize => .granularize
  | .controlsFailed | .oracleWeak | .controlsEscapes | .insufficient => .human
  | .deliver => .deliver
  | _ => .calibrate

lemma routeOf_ne_deliver {code : ReasonCode} (h : code ≠ .deliver) : routeOf code ≠ .deliver := by
  cases code with
  | deliver => exact absurd rfl h
  | _ => exact nofun

/-- A finding has the route of its code. -/
def Published (f : Finding R) : Prop := f.shortfall.route = routeOf f.shortfall.code

lemma published_failIf {b : Bool} {code : ReasonCode} {route : Route} {reason : String}
    {observed threshold : Value R} {next : NextAct} {count : ℕ} {f : Finding R}
    (h : f ∈ failIf b (fail code route reason observed threshold next count))
    (hroute : route = routeOf code) : Published f := by
  cases b with
  | false => exact absurd h List.not_mem_nil
  | true =>
    obtain rfl := List.mem_singleton.mp h
    exact hroute

lemma published_readingClause (arm : String) (v : ArmVerdict) :
    ∀ f ∈ readingClause (R := R) arm v, Published f := by
  intro f hf
  unfold readingClause at hf
  split at hf
  all_goals first
    | exact absurd hf List.not_mem_nil
    | obtain rfl := List.mem_singleton.mp hf
      rfl

lemma published_decidedClauses (arm : String) (v : ArmVerdict) :
    ∀ f ∈ decidedClauses (R := R) arm v, Published f := by
  intro f hf
  unfold decidedClauses at hf
  split at hf
  all_goals first
    | exact absurd hf List.not_mem_nil
    | obtain rfl := List.mem_singleton.mp hf
      rfl

end Findings

variable [Floats R]

section Bar

/-- The clauses of the bar. -/
inductive BarClause
  | falseQ1 | size | sealed_ | verdict | oracle | controls
deriving DecidableEq, Repr

/-- What each clause of the bar asks of the evidence. -/
def Holds (e : Evidence R) : BarClause → Prop
  | .falseQ1 => e.stats.falseQ1 = 0
  | .size => e.stats.cell.size ∉ e.policy.granularizeSizes
  | .sealed_ => e.stats.nUnsealed = 0 ∨ isArmS2 e.stats.contextArm
  | .verdict => e.verdict.state = .ofArm .deliver
  | .oracle => e.ora.measured ∧ e.ora.share.atLeast e.policy.minOracleShare ∧
      ∃ s ∈ e.ora.strength, s.atLeast e.policy.minOracleStrength
  | .controls => e.report.measured ∧ e.report.complete ∧
      (isV2Apparatus e.stats.apparatusVersion → e.report.apparatusVersion = e.stats.apparatusVersion) ∧
      e.report.passed ∧ e.report.share.atLeast e.policy.minControlsShare ∧
      e.report.escapes ≤ e.policy.maxControlsEscapes

/-- The clause of the bar a reason code is about; belt 5 switched off is beside the bar. -/
def clauseOf : ReasonCode → Option BarClause
  | .falseQ1 => some .falseQ1
  | .granularize => some .size
  | .postureUnsealed => some .sealed_
  | .readingUnregistered | .descriptive | .lookPending | .insufficient | .undecided | .ceiling
  | .leanerStandard => some .verdict
  | .oracleUnmeasured | .oracleThin | .oracleWeak => some .oracle
  | .controlsFailed | .controlsEscapes | .controlsUnmeasured | .controlsThin => some .controls
  | .lintDisabled | .deliver => none

/-- A report of this apparatus that a measurement was made for. -/
def ofApparatus (e : Evidence R) : Bool :=
  e.report.measured &&
    (!isV2Apparatus e.stats.apparatusVersion || e.report.apparatusVersion = e.stats.apparatusVersion)

/-- A run cancelled part-way that found nothing the policy minds: it can never pass. -/
def unfinished (e : Evidence R) : Bool :=
  e.report.passed && !e.report.complete &&
    (e.report.escapes = 0 || e.report.escapes ≤ e.policy.maxControlsEscapes)

/-- The controls prove something, for or against. -/
def reads (e : Evidence R) : Bool := ofApparatus e && !unfinished e

/-- When each published clause fails. -/
def fails (e : Evidence R) : ReasonCode → Bool
  | .falseQ1 => 0 < e.stats.falseQ1
  | .granularize => e.stats.cell.size ∈ e.policy.granularizeSizes
  | .controlsFailed => reads e && !e.report.passed
  | .postureUnsealed => !isArmS2 e.stats.contextArm && 0 < e.stats.nUnsealed
  | .lintDisabled => 0 < e.stats.nTasksLintDisabled && e.verdict.state ≠ .ofArm .deliver
  | .readingUnregistered => e.verdict.state = .readingUnregistered
  | .descriptive => e.verdict.state = .ofArm .descriptive
  | .lookPending => e.verdict.state = .ofArm .lookPending
  | .oracleUnmeasured => !e.ora.measured
  | .oracleThin => e.ora.measured && !e.ora.share.atLeast e.policy.minOracleShare
  | .oracleWeak => e.ora.measured && e.ora.share.atLeast e.policy.minOracleShare &&
      !e.ora.strength.any (·.atLeast e.policy.minOracleStrength)
  | .controlsEscapes => reads e && e.policy.maxControlsEscapes < e.report.escapes
  | .insufficient => e.verdict.state = .ofArm .insufficient
  | .undecided => e.verdict.state = .ofArm .undecided
  | .ceiling => e.verdict.state = .ceiling
  | .leanerStandard => e.verdict.state = .leanerStandard
  | .controlsUnmeasured => !reads e
  | .controlsThin => reads e && e.report.passed && !e.report.share.atLeast e.policy.minControlsShare
  | .deliver => false

/-- The rule applies the bar to the evidence: it delivers what meets every clause, and of anything
else names each failing clause once, in the published order, the first of them as its decision. -/
def AppliesBar (e : Evidence R) : Prop :=
  (e.route.route = .deliver ↔ ∀ clause, Holds e clause) ∧
  ((∃ clause, ¬Holds e clause) →
    e.route.shortfalls.map Shortfall.code = reasonCodesV2.filter (fails e) ∧
    (∀ clause, ¬Holds e clause → ∃ s ∈ e.route.shortfalls, clauseOf s.code = some clause) ∧
    ∃ first rest, e.findings = first :: rest ∧ e.route.route = first.shortfall.route ∧
      e.route.reason = first.reason ∧ e.route.reasonCode = first.shortfall.code)

/-- The evidence is what the clauses of the rule can read. -/
structure Readable (e : Evidence R) : Prop where
  /-- A passed report of this apparatus that let some control escape, and no more than the policy
  allows, is of a run that was finished. -/
  finished : ofApparatus e → e.report.passed → 0 < e.report.escapes →
    e.report.escapes ≤ e.policy.maxControlsEscapes → e.report.complete
  /-- The arm waits behind no arm that waits itself. -/
  settled : e.verdict.state ≠ .ofArm .stopped ∧ e.verdict.state ≠ .ofArm .waiting
  oracleShare : e.ora.measured → e.policy.minOracleShare ≠ .nan
  oracleStrength : e.ora.measured → e.ora.share.atLeast e.policy.minOracleShare →
    e.ora.strength ≠ some .nan ∧ e.policy.minOracleStrength ≠ .nan
  controlsShare : reads e → e.report.passed → e.policy.minControlsShare ≠ .nan

end Bar

section Codes

variable {e : Evidence R}

/-- The report is measured as the cell's apparatus reads it. -/
def measuredAt (e : Evidence R) : Bool := (e.report.readAt e.stats.apparatusVersion).measured

/-- When the rule finds each clause to fail. -/
def finds (e : Evidence R) : ReasonCode → Bool
  | .controlsFailed => measuredAt e && !e.report.passed
  | .oracleThin => e.ora.measured && e.ora.share.below e.policy.minOracleShare
  | .oracleWeak => e.ora.measured && !e.ora.share.below e.policy.minOracleShare &&
      e.ora.strength.any (·.below e.policy.minOracleStrength)
  | .controlsEscapes => measuredAt e && e.policy.maxControlsEscapes < e.report.escapes
  | .controlsUnmeasured => !measuredAt e
  | .controlsThin => measuredAt e && e.report.passed && e.report.share.below e.policy.minControlsShare
  | code => fails e code

lemma measuredAt_eq : measuredAt e =
    (ofApparatus e && !(!e.report.complete && e.report.passed && e.report.escapes = 0)) := by
  unfold measuredAt ControlsVerdict.readAt ofApparatus
  split_ifs with hmeasured hversion hcancelled
  · simp_all
  · simp_all [ControlsVerdict.unmeasured]
  · simp_all [ControlsVerdict.unmeasured]
  · cases hcomplete : e.report.complete <;> cases hpassed : e.report.passed <;>
      simp_all [Bool.or_eq_true, Decidable.imp_iff_not_or]

/-- A report that is measured where it is read is read as it was written. -/
lemma readAt_of_measuredAt (h : measuredAt e = true) :
    e.report.readAt e.stats.apparatusVersion = e.report := by
  unfold measuredAt at h
  unfold ControlsVerdict.readAt at h ⊢
  split_ifs at h ⊢ with hmeasured hversion hcancelled
  · rfl
  · exact absurd h (by simp [ControlsVerdict.unmeasured])
  · exact absurd h (by simp [ControlsVerdict.unmeasured])
  · rfl

lemma codes_falseQ1Clause : codes (falseQ1Clause e.stats) = [.falseQ1].filter (finds e) := by
  rw [falseQ1Clause, codes_failIf]
  simp [fail, finds, fails, List.filter_cons]

lemma codes_sizeClause : codes (sizeClause e.stats e.policy) = [.granularize].filter (finds e) := by
  rw [sizeClause, codes_failIf]
  simp [fail, finds, fails, List.filter_cons]

lemma codes_sealedClause : codes (sealedClause e.stats) = [.postureUnsealed].filter (finds e) := by
  rw [sealedClause, codes_failIf]
  simp [fail, finds, fails, List.filter_cons]

lemma codes_lintClause :
    codes (lintClause e.stats e.verdict) = [.lintDisabled].filter (finds e) := by
  rw [lintClause, codes_failIf]
  simp [fail, finds, fails, List.filter_cons]

lemma codes_readingClause (arm : String) : codes (readingClause (R := R) arm e.verdict) =
    [.readingUnregistered, .descriptive, .lookPending].filter (finds e) := by
  cases hs : e.verdict.state with
  | ofArm state => cases state <;> simp [readingClause, codes, finds, fails, hs, fail]
  | _ => simp [readingClause, codes, finds, fails, hs, fail]

lemma codes_decidedClauses (arm : String) : codes (decidedClauses (R := R) arm e.verdict) =
    [.insufficient, .undecided, .ceiling, .leanerStandard].filter (finds e) := by
  cases hs : e.verdict.state with
  | ofArm state => cases state <;> simp [decidedClauses, codes, finds, fails, hs, fail]
  | _ => simp [decidedClauses, codes, finds, fails, hs, fail]

/-- What is asked of a report that is measured where it is read is asked of it as it was written. -/
lemma measuredAt_and (f : ControlsVerdict → Bool) :
    (measuredAt e && f (e.report.readAt e.stats.apparatusVersion)) = (measuredAt e && f e.report) := by
  cases h : measuredAt e with
  | false => rfl
  | true => rw [readAt_of_measuredAt h]

lemma codes_failedClause :
    codes (failedClause (R := R) (e.report.readAt e.stats.apparatusVersion)) =
      [.controlsFailed].filter (finds e) := by
  have h := measuredAt_and (e := e) fun c => !c.passed
  unfold measuredAt at h
  rw [failedClause, codes_failIf, h]
  rfl

lemma codes_escapesClause :
    codes (escapesClause (e.report.readAt e.stats.apparatusVersion) e.policy) =
      [.controlsEscapes].filter (finds e) := by
  have h := measuredAt_and (e := e) fun c => e.policy.maxControlsEscapes < c.escapes
  unfold measuredAt at h
  rw [escapesClause, codes_failIf, h]
  rfl

lemma codes_controlsClauses (c : ControlsVerdict) (policy : RoutingPolicy R) :
    codes (controlsClauses c policy) = ([.controlsUnmeasured].filter fun _ => !c.measured) ++
      [.controlsThin].filter fun _ => c.measured && (c.passed && c.share.below policy.minControlsShare) := by
  unfold controlsClauses ControlsVerdict.thin
  cases hm : c.measured with
  | false => rfl
  | true =>
    rw [if_neg (by decide), codes_failIf]
    rfl

lemma codes_controlsClauses_readAt :
    codes (controlsClauses (e.report.readAt e.stats.apparatusVersion) e.policy) =
      [.controlsUnmeasured, .controlsThin].filter (finds e) := by
  have h := measuredAt_and (e := e) fun c => c.passed && c.share.below e.policy.minControlsShare
  unfold measuredAt at h
  rw [codes_controlsClauses, h, ← Bool.and_assoc]
  exact (List.filter_append (p := finds e) [.controlsUnmeasured] [.controlsThin]).symm

lemma codes_oracleClause : codes (oracleClause e.ora e.policy) =
    [.oracleUnmeasured, .oracleThin, .oracleWeak].filter (finds e) := by
  unfold oracleClause
  cases hm : e.ora.measured with
  | false => simp [codes, fail, finds, fails, hm]
  | true =>
    obtain ⟨s, hs⟩ : ∃ s, e.ora.strength = some s :=
      Option.isSome_iff_exists.mp (Bool.and_eq_true_iff.mp hm).1
    simp only [hs]
    split_ifs with hshare
    · simp [codes, fail, finds, fails, hm, hshare]
    · simp [codes_failIf, fail, finds, fails, hm, hshare, hs, List.filter_cons]

/-- The shortfalls of the rule are the clauses it finds to fail, in the published order. -/
lemma codes_findings (e : Evidence R) : codes e.findings = reasonCodesV2.filter (finds e) := by
  have horder : reasonCodesV2 = List.flatten ([[.falseQ1], [.granularize], [.controlsFailed],
      [.postureUnsealed], [.lintDisabled], [.readingUnregistered, .descriptive, .lookPending],
      [.oracleUnmeasured, .oracleThin, .oracleWeak], [.controlsEscapes],
      [.insufficient, .undecided, .ceiling, .leanerStandard], [.controlsUnmeasured, .controlsThin],
      [.deliver]] : List (List ReasonCode)) := rfl
  have hdeliver : [ReasonCode.deliver].filter (finds e) = [] := rfl
  rw [horder, Evidence.findings]
  simp only [List.flatten_cons, List.flatten_nil, List.filter_append, List.append_assoc, hdeliver,
    List.append_nil, codes_append, codes_falseQ1Clause, codes_sizeClause, codes_failedClause,
    codes_sealedClause, codes_lintClause, codes_readingClause, codes_oracleClause,
    codes_escapesClause, codes_decidedClauses, codes_controlsClauses_readAt]

lemma mem_reasonCodesV2 (code : ReasonCode) : code ∈ reasonCodesV2 := by
  cases code <;> decide

lemma mem_codes {code : ReasonCode} : code ∈ codes e.findings ↔ finds e code = true := by
  rw [codes_findings, List.mem_filter]
  exact and_iff_right (mem_reasonCodesV2 code)

end Codes

section Route

variable {e : Evidence R}

lemma published_oracleClause (ora : OracleEvidence R) (policy : RoutingPolicy R) :
    ∀ f ∈ oracleClause ora policy, Published f := by
  intro f hf
  simp only [oracleClause] at hf
  split at hf
  · split_ifs at hf
    · obtain rfl := List.mem_singleton.mp hf
      rfl
    · exact published_failIf hf rfl
  · obtain rfl := List.mem_singleton.mp hf
    rfl

lemma published_controlsClauses (c : ControlsVerdict) (policy : RoutingPolicy R) :
    ∀ f ∈ controlsClauses c policy, Published f := by
  intro f hf
  unfold controlsClauses at hf
  by_cases hm : (!c.measured) = true
  · rw [if_pos hm] at hf
    obtain rfl := List.mem_singleton.mp hf
    rfl
  · rw [if_neg hm] at hf
    exact published_failIf hf rfl

lemma published_findings (e : Evidence R) : ∀ f ∈ e.findings, Published f := by
  intro f hf
  simp only [Evidence.findings, List.mem_append] at hf
  obtain (((((((((h | h) | h) | h) | h) | h) | h) | h) | h) | h) := hf
  · exact published_failIf h rfl
  · exact published_failIf h rfl
  · exact published_failIf h rfl
  · exact published_failIf h rfl
  · exact published_failIf h rfl
  · exact published_readingClause _ _ f h
  · exact published_oracleClause _ _ f h
  · exact published_failIf h rfl
  · exact published_decidedClauses _ _ f h
  · exact published_controlsClauses _ _ f h

lemma shortfalls_route (e : Evidence R) : e.route.shortfalls = e.findings.map Finding.shortfall := by
  unfold Evidence.route
  cases e.findings <;> rfl

lemma codes_shortfalls (e : Evidence R) :
    e.route.shortfalls.map Shortfall.code = codes e.findings := by
  rw [shortfalls_route, List.map_map]
  rfl

/-- What is not delivered has the route, the reason and the code of the first failing clause. -/
lemma route_first {first : Finding R} {rest : List (Finding R)} (h : e.findings = first :: rest) :
    e.route.route = first.shortfall.route ∧ e.route.reason = first.reason ∧
      e.route.reasonCode = first.shortfall.code := by
  unfold Evidence.route
  simp only [h, and_self]

/-- The rule delivers where it finds no clause to fail. -/
lemma route_deliver_iff (e : Evidence R) : e.route.route = .deliver ↔ ∀ code, finds e code = false := by
  have hcodes : e.findings = [] ↔ ∀ code, finds e code = false := by
    rw [← List.map_eq_nil_iff (f := fun f => f.shortfall.code)]
    change codes e.findings = [] ↔ _
    rw [List.eq_nil_iff_forall_not_mem]
    simp only [mem_codes, Bool.not_eq_true]
  rw [← hcodes]
  cases h : e.findings with
  | nil =>
    unfold Evidence.route
    simp only [h]
  | cons first rest =>
    have hmem : first ∈ e.findings := h ▸ List.mem_cons_self
    have hcode : finds e first.shortfall.code = true :=
      mem_codes.mp (List.mem_map.mpr ⟨first, hmem, rfl⟩)
    have hne : first.shortfall.code ≠ .deliver := fun he => by simp [he, finds, fails] at hcode
    rw [(route_first h).1, published_findings e first hmem]
    exact iff_of_false (routeOf_ne_deliver hne) nofun

end Route

section Exact

variable {e : Evidence R}

lemma share_ne_nan (part whole : ℕ) : (share part whole : Num R) ≠ .nan := nofun

lemma atLeast_eq_not_below {x y : Num R} (hx : x ≠ .nan) (hy : y ≠ .nan) :
    x.atLeast y = !x.below y := by
  cases x with
  | nan => exact absurd rfl hx
  | num x =>
    cases y with
    | nan => exact absurd rfl hy
    | num y => simp [Num.atLeast, Num.below, ← not_lt]

@[simp] lemma atLeast_nan (x : Num R) : x.atLeast .nan = false := by cases x <;> rfl

@[simp] lemma below_nan (x : Num R) : x.below .nan = false := by cases x <;> rfl

@[simp] lemma nan_atLeast (x : Num R) : Num.atLeast .nan x = false := rfl

@[simp] lemma nan_below (x : Num R) : Num.below .nan x = false := rfl

/-- A clause of the bar that does not hold fails under one of its codes. -/
lemma exists_fails (hsettled : e.verdict.state ≠ .ofArm .stopped ∧ e.verdict.state ≠ .ofArm .waiting)
    {clause : BarClause} (h : ¬Holds e clause) :
    ∃ code, clauseOf code = some clause ∧ fails e code = true := by
  cases clause with
  | falseQ1 => exact ⟨.falseQ1, rfl, by simpa [fails] using Nat.pos_of_ne_zero h⟩
  | size => exact ⟨.granularize, rfl, by simpa [fails, Holds] using h⟩
  | sealed_ =>
    simp only [Holds, not_or] at h
    exact ⟨.postureUnsealed, rfl, by simpa [fails, Nat.pos_iff_ne_zero] using h.symm⟩
  | verdict =>
    simp only [Holds] at h
    cases hs : e.verdict.state with
    | ofArm state =>
      rw [hs] at h hsettled
      cases state with
      | deliver => exact absurd rfl h
      | insufficient => exact ⟨.insufficient, rfl, by simp [fails, hs]⟩
      | undecided => exact ⟨.undecided, rfl, by simp [fails, hs]⟩
      | lookPending => exact ⟨.lookPending, rfl, by simp [fails, hs]⟩
      | descriptive => exact ⟨.descriptive, rfl, by simp [fails, hs]⟩
      | stopped => exact absurd rfl hsettled.1
      | waiting => exact absurd rfl hsettled.2
    | readingUnregistered => exact ⟨.readingUnregistered, rfl, by simp [fails, hs]⟩
    | ceiling => exact ⟨.ceiling, rfl, by simp [fails, hs]⟩
    | leanerStandard => exact ⟨.leanerStandard, rfl, by simp [fails, hs]⟩
  | oracle =>
    by_cases hm : e.ora.measured = true
    · by_cases hshare : e.ora.share.atLeast e.policy.minOracleShare = true
      · refine ⟨.oracleWeak, rfl, ?_⟩
        have hstrength : e.ora.strength.any (·.atLeast e.policy.minOracleStrength) = false := by
          by_contra hany
          obtain ⟨s, hs, hat⟩ := Option.any_eq_true _ _ |>.mp (Bool.not_eq_false _ ▸ hany)
          exact h ⟨hm, hshare, s, hs, hat⟩
        simp [fails, hm, hshare, hstrength]
      · exact ⟨.oracleThin, rfl, by simp [fails, hm, hshare]⟩
    · exact ⟨.oracleUnmeasured, rfl, by simpa [fails] using hm⟩
  | controls =>
    by_cases hr : reads e = true
    · by_cases hp : e.report.passed = true
      · by_cases hmax : e.policy.maxControlsEscapes < e.report.escapes
        · exact ⟨.controlsEscapes, rfl, by simp [fails, hr, hmax]⟩
        · refine ⟨.controlsThin, rfl, ?_⟩
          have hle : (e.report.escapes : ℤ) ≤ e.policy.maxControlsEscapes := not_lt.mp hmax
          simp only [reads, ofApparatus, unfinished, hp, hle, Bool.and_eq_true, Bool.or_eq_true,
            Bool.not_eq_true', decide_eq_true_eq, Bool.true_and, Bool.or_true, Bool.and_true,
            decide_true, Bool.not_not] at hr
          have hthin : e.report.share.atLeast e.policy.minControlsShare = false := by
            by_contra hat
            refine h ⟨hr.1.1, hr.2, fun hv => ?_, hp, by simpa using hat, hle⟩
            exact hr.1.2.resolve_left (by simp [hv])
          simp [fails, reads, ofApparatus, unfinished, hp, hle, hr, hthin]
      · exact ⟨.controlsFailed, rfl, by simp [fails, hr, hp]⟩
    · exact ⟨.controlsUnmeasured, rfl, by simpa [fails] using hr⟩

/-- Where the bar holds no code of it fails. -/
lemma fails_eq_false (h : ∀ clause, Holds e clause) (code : ReasonCode) : fails e code = false := by
  have hverdict : e.verdict.state = .ofArm .deliver := h .verdict
  obtain ⟨hmeasured, hshare, s, hs, hstrength⟩ := h .oracle
  obtain ⟨hreport, hcomplete, hversion, hpassed, hcontrols, hescapes⟩ := h .controls
  have hreads : reads e = true := by
    simp only [reads, ofApparatus, unfinished, hreport, hcomplete, hpassed, Bool.true_and,
      Bool.not_true, Bool.false_and, Bool.and_false, Bool.not_false, Bool.and_true, Bool.or_eq_true,
      Bool.not_eq_true', decide_eq_true_eq]
    exact or_iff_not_imp_left.mpr fun hv => hversion (Bool.not_eq_false _ ▸ hv)
  cases code with
  | falseQ1 => simpa [fails] using show e.stats.falseQ1 = 0 from h .falseQ1
  | granularize => simpa [fails] using show e.stats.cell.size ∉ e.policy.granularizeSizes from h .size
  | postureUnsealed =>
    have hsealed : e.stats.nUnsealed = 0 ∨ isArmS2 e.stats.contextArm = true := h .sealed_
    rcases hsealed with hs | hs <;> simp [fails, hs]
  | oracleWeak => simp [fails, Option.mem_def.mp hs, hstrength]
  | controlsEscapes => simp [fails, hescapes]
  | _ => simp [fails, hverdict, hmeasured, hshare, hreads, hpassed, hcontrols]

/-- The bar, by its codes. -/
lemma forall_holds_iff
    (hsettled : e.verdict.state ≠ .ofArm .stopped ∧ e.verdict.state ≠ .ofArm .waiting) :
    (∀ clause, Holds e clause) ↔ ∀ code, fails e code = false := by
  refine ⟨fails_eq_false, fun h clause => by_contra fun hc => ?_⟩
  obtain ⟨code, -, hf⟩ := exists_fails hsettled hc
  exact Bool.false_ne_true ((h code).symm.trans hf)

lemma measuredAt_eq_reads
    (h : ofApparatus e → e.report.passed → 0 < e.report.escapes →
      e.report.escapes ≤ e.policy.maxControlsEscapes → e.report.complete) :
    measuredAt e = reads e := by
  rw [measuredAt_eq, reads, unfinished]
  cases ho : ofApparatus e <;> cases hp : e.report.passed <;> cases hc : e.report.complete <;> try rfl
  have hescapes : e.report.escapes ≠ 0 → e.policy.maxControlsEscapes < e.report.escapes :=
    fun hne => not_le.mp fun hle => by simpa [hc] using h ho hp (Nat.pos_of_ne_zero hne) hle
  simpa using hescapes

/-- What is read of readable evidence is what the bar asks. -/
lemma Readable.finds_eq (h : Readable e) : finds e = fails e := by
  have hreads := measuredAt_eq_reads h.finished
  funext code
  cases code with
  | controlsFailed => simp only [finds, fails, hreads]
  | controlsEscapes => simp only [finds, fails, hreads]
  | controlsUnmeasured => simp only [finds, fails, hreads]
  | controlsThin =>
    simp only [finds, fails, hreads]
    cases hr : reads e <;> cases hp : e.report.passed <;> try rfl
    rw [atLeast_eq_not_below (x := e.report.share) (share_ne_nan _ _) (h.controlsShare hr hp),
      Bool.not_not]
  | oracleThin =>
    simp only [finds, fails]
    cases hm : e.ora.measured
    · rfl
    · rw [atLeast_eq_not_below (x := e.ora.share) (share_ne_nan _ _) (h.oracleShare hm), Bool.not_not]
  | oracleWeak =>
    simp only [finds, fails]
    cases hm : e.ora.measured
    · rfl
    · have hshare := atLeast_eq_not_below (x := e.ora.share) (share_ne_nan _ _) (h.oracleShare hm)
      rw [← hshare]
      cases hat : e.ora.share.atLeast e.policy.minOracleShare
      · rfl
      · obtain ⟨hnan, hmin⟩ := h.oracleStrength hm hat
        obtain ⟨s, hs⟩ : ∃ s, e.ora.strength = some s :=
          Option.isSome_iff_exists.mp (Bool.and_eq_true_iff.mp hm).1
        rw [hs, Option.any_some, Option.any_some,
          atLeast_eq_not_below (fun he => hnan (hs.trans (congrArg some he))) hmin, Bool.not_not]
  | _ => rfl

lemma Readable.appliesBar (h : Readable e) : AppliesBar e := by
  have hbar := forall_holds_iff h.settled
  refine ⟨by rw [route_deliver_iff, h.finds_eq, hbar], fun ⟨clause, hc⟩ => ⟨?_, fun clause hc => ?_, ?_⟩⟩
  · rw [codes_shortfalls, codes_findings, h.finds_eq]
  · obtain ⟨code, hclause, hf⟩ := exists_fails h.settled hc
    have hmem : code ∈ codes e.findings := mem_codes.mpr (by rw [h.finds_eq, hf])
    rw [← codes_shortfalls] at hmem
    obtain ⟨s, hs, rfl⟩ := List.mem_map.mp hmem
    exact ⟨s, hs, hclause⟩
  · cases hfind : e.findings with
    | nil =>
      have hnone : ∀ code, finds e code = false := fun code => by
        by_contra hne
        have := mem_codes.mpr (Bool.not_eq_false _ ▸ hne)
        simp [hfind, codes] at this
      exact absurd (hbar.mpr (h.finds_eq ▸ hnone) clause) hc
    | cons first rest => exact ⟨first, rest, rfl, route_first hfind⟩

/-- Where a clause of the bar does not hold, the rule finds what fails. -/
lemma AppliesBar.finds_eq (h : AppliesBar e) {clause : BarClause} (hc : ¬Holds e clause)
    (code : ReasonCode) : finds e code = fails e code := by
  have hcodes := (h.2 ⟨clause, hc⟩).1
  rw [codes_shortfalls] at hcodes
  rw [Bool.eq_iff_iff, ← mem_codes, hcodes, List.mem_filter]
  exact and_iff_right (mem_reasonCodesV2 code)

lemma AppliesBar.readable (h : AppliesBar e) : Readable e where
  finished := fun ho hp hpos hle => by
    by_contra hincomplete
    have hc : ¬Holds e .controls := fun hh => hincomplete hh.2.1
    have heq := h.finds_eq hc .controlsUnmeasured
    have hne : e.report.escapes ≠ 0 := hpos.ne'
    simp [finds, fails, measuredAt_eq, reads, unfinished, ho, hp, hincomplete, hle, hne] at heq
  settled := by
    by_contra hsettled
    have hstate : e.verdict.state = .ofArm .stopped ∨ e.verdict.state = .ofArm .waiting := by
      simpa only [← not_or, ne_eq, not_not] using hsettled
    have hc : ¬Holds e .verdict := fun hh => by
      rcases hstate with hs | hs <;> exact absurd (hs.symm.trans hh) (by decide)
    obtain ⟨s, hs, hclause⟩ := (h.2 ⟨_, hc⟩).2.1 _ hc
    have hfinds : finds e s.code = true := by
      rw [← mem_codes, ← codes_shortfalls]
      exact List.mem_map_of_mem hs
    cases hcode : s.code <;> simp only [hcode, clauseOf] at hclause hfinds <;> cases hclause
    all_goals rcases hstate with hs | hs <;> simp [finds, fails, hs] at hfinds
  oracleShare := fun hm hnan => by
    have hc : ¬Holds e .oracle := fun hh => by simpa [hnan] using hh.2.1
    simpa [finds, fails, hm, hnan] using h.finds_eq hc .oracleThin
  oracleStrength := fun hm hshare => by
    by_contra hnan
    rw [← not_or, not_not] at hnan
    have hat : e.ora.strength.any (·.atLeast e.policy.minOracleStrength) = false := by
      rcases hnan with hs | hs <;> simp [hs]
    have hbelow : e.ora.strength.any (·.below e.policy.minOracleStrength) = false := by
      rcases hnan with hs | hs <;> simp [hs]
    have hc : ¬Holds e .oracle := fun ⟨_, _, s, hs, hsat⟩ => by
      simp [Option.mem_def.mp hs, hsat] at hat
    simpa [finds, fails, hm, hshare, hat, hbelow] using h.finds_eq hc .oracleWeak
  controlsShare := fun hr hp hnan => by
    have hc : ¬Holds e .controls := fun hh => by simpa [hnan] using hh.2.2.2.2.1
    simpa [finds, fails, hr, hp, hnan] using h.finds_eq hc .controlsThin

/-- A policy at least as strict as another on every clause. -/
structure AtLeastAsStrict (p q : RoutingPolicy R) : Prop where
  oracleStrength : p.minOracleStrength = q.minOracleStrength ∨
    p.minOracleStrength.atLeast q.minOracleStrength
  oracleShare : p.minOracleShare = q.minOracleShare ∨ p.minOracleShare.atLeast q.minOracleShare
  sizes : q.granularizeSizes ⊆ p.granularizeSizes
  controlsShare : p.minControlsShare = q.minControlsShare ∨
    p.minControlsShare.atLeast q.minControlsShare
  escapes : p.maxControlsEscapes ≤ q.maxControlsEscapes

/-- What is below a threshold is below a stricter one. -/
lemma below_of_atLeast {x p q : Num R} (h : p = q ∨ p.atLeast q) (hx : x.below q = true) :
    x.below p = true := by
  rcases h with rfl | h
  · exact hx
  · cases x with
    | nan => simp at hx
    | num x =>
      cases q with
      | nan => simp at hx
      | num q =>
        cases p with
        | nan => simp at h
        | num p =>
          simp only [Num.below, Num.atLeast, decide_eq_true_eq] at hx h ⊢
          exact hx.trans_le h

/-- A stricter policy delivers no more. -/
lemma route_of_atLeastAsStrict {q : RoutingPolicy R} (hstrict : AtLeastAsStrict e.policy q)
    (h : e.route.route = .deliver) : ({ e with policy := q } : Evidence R).route.route = .deliver := by
  rw [route_deliver_iff] at h ⊢
  intro code
  by_contra hfinds
  rw [Bool.not_eq_false] at hfinds
  have hcode := h code
  cases code with
  | granularize =>
    simp only [finds, fails, decide_eq_true_eq] at hfinds
    simp [finds, fails, hstrict.sizes hfinds] at hcode
  | controlsEscapes =>
    simp only [finds, Bool.and_eq_true, decide_eq_true_eq] at hfinds
    have hp : finds e .controlsEscapes = true := by
      simp only [finds, Bool.and_eq_true, decide_eq_true_eq]
      exact ⟨hfinds.1, hstrict.escapes.trans_lt hfinds.2⟩
    exact Bool.false_ne_true (hcode.symm.trans hp)
  | controlsThin =>
    simp only [finds, Bool.and_eq_true] at hfinds
    have hp : finds e .controlsThin = true := by
      simp only [finds, Bool.and_eq_true]
      exact ⟨hfinds.1, below_of_atLeast hstrict.controlsShare hfinds.2⟩
    exact Bool.false_ne_true (hcode.symm.trans hp)
  | oracleThin =>
    simp only [finds, Bool.and_eq_true] at hfinds
    have hp : finds e .oracleThin = true := by
      simp only [finds, Bool.and_eq_true]
      exact ⟨hfinds.1, below_of_atLeast hstrict.oracleShare hfinds.2⟩
    exact Bool.false_ne_true (hcode.symm.trans hp)
  | oracleWeak =>
    simp only [finds, Bool.and_eq_true, Option.any_eq_true] at hfinds
    obtain ⟨⟨hm, -⟩, s, hs, hbelow⟩ := hfinds
    -- the share the policy asks for is reached, or the clause before this one fails
    cases hshare : e.ora.share.below e.policy.minOracleShare with
    | true =>
      have hp : finds e .oracleThin = true := Bool.and_eq_true_iff.mpr ⟨hm, hshare⟩
      exact Bool.false_ne_true ((h .oracleThin).symm.trans hp)
    | false =>
      have hp : finds e .oracleWeak = true := by
        simp only [finds, hshare, Bool.and_eq_true, Option.any_eq_true]
        exact ⟨⟨hm, rfl⟩, s, hs, below_of_atLeast hstrict.oracleStrength hbelow⟩
      exact Bool.false_ne_true (hcode.symm.trans hp)
  | _ => exact absurd (hfinds.symm.trans hcode) (by decide)

/-- The rule applies the published bar to the evidence its clauses can read and to no other, and a
stricter policy delivers nothing a looser one does not. -/
theorem appliesBar_iff (e : Evidence R) :
    (AppliesBar e ↔ Readable e) ∧
      ∀ q : RoutingPolicy R, AtLeastAsStrict e.policy q → e.route.route = .deliver →
        ({ e with policy := q } : Evidence R).route.route = .deliver :=
  ⟨⟨AppliesBar.readable, Readable.appliesBar⟩, fun _ hstrict h => route_of_atLeastAsStrict hstrict h⟩

end Exact

section Sample

/-- Floats without rounding. -/
instance : Floats ℚ where
  ofRat := id
  round _ x := x
  fixed _ := ""
  percent _ := ""

lemma overspends_ruleLookV1 : overspends ruleLookV1 = false := by
  unfold overspends
  cases ruleSpend ruleLookV1 with
  | error => rfl
  | ok spend => simp

/-- A policy that lets one measurement control escape, under a name of its own. -/
def siteThresholds : Thresholds ℚ where
  minOracleStrength := .num (4 / 5)
  minOracleShare := .num (1 / 2)
  granularizeSizes := ["XL"]
  rule := ruleLookV1
  cellErrorBudget := .num (1 / 20)
  version := "routing.site"
  minControlsShare := .num (1 / 2)
  maxControlsEscapes := 1
  controlsVersion := "controls-gate.v2"

lemma relaxedClauses_siteThresholds : siteThresholds.relaxedClauses = ["max_controls_escapes"] := by
  norm_num [Thresholds.relaxedClauses, siteThresholds, overspends_ruleLookV1, published, Num.below,
    Floats.ofRat]

lemma check_siteThresholds : siteThresholds.check = .ok () := by
  simp only [Thresholds.check, relaxedClauses_siteThresholds]
  decide

def sitePolicy : RoutingPolicy ℚ := ⟨siteThresholds, check_siteThresholds⟩

def sampleStats : CellStats ℚ where
  cell := ⟨"replay", "feature", "S", "python", "cli", "m", "p"⟩
  n := 20
  falseQ1 := 0
  point := .num 1
  ci := ⟨.num (4 / 5), .num 1⟩
  nTasks := 20
  taskClean := 20
  taskCi := ⟨.num (4 / 5), .num 1⟩
  apparatusVersion := "2.4"
  contextArm := "S2"
  taxonomy := "v1"
  nTasksLintDisabled := 0
  nUnsealed := 0

/-- A report of a run that was cancelled after ten of its controls, one of which escaped. -/
def cancelledReport : ControlsVerdict where
  passed := true
  constructible := 10
  total := 10
  escapes := 1
  runId := "run"
  created := ""
  complete := false
  measured := true
  apparatusVersion := "2.4"
  detail := ""
  constructible_le := Nat.le_refl 10

def sampleVerdict : ArmVerdict :=
  ⟨"S2", .ofArm .deliver, "rdg_4", "look.v1", 20, 20, 0, none, "S2", "", [], 0, false⟩

def cancelledEvidence : Evidence ℚ where
  stats := sampleStats
  oracle := some ⟨some (.num 1), 20, 20, "mutation.v2", "2.4", Nat.le_refl 20⟩
  controls := some cancelledReport
  reading := some sampleVerdict
  policy := sitePolicy

/-- The reading whose only arm delivered at its first look. -/
def sampleOutcome : ReadingOutcome ℚ where
  reading := ForwardStability.forwardSample
  arms := [("S2", ⟨"S2", ⟨.deliver, 20, 20, 0, none, 0, some 20⟩, [], false, "", false, 0, [], 0, 0⟩)]
  chain := ["S2"]
  stoppedAt := ""
  standard := "S2"
  state := .standard

/-- A run of the controls that was cancelled part-way lets a change be delivered. -/
theorem not_appliesBar_cancelledEvidence :
    verdictFor (some sampleOutcome) "S2" = .ok sampleVerdict ∧
      cancelledEvidence.route.route = .deliver ∧ ¬AppliesBar cancelledEvidence := by
  refine ⟨rfl, ?_, fun h => ?_⟩
  · rw [route_deliver_iff]
    intro code
    cases code with
    | oracleThin | oracleWeak | controlsThin =>
      norm_num [finds, cancelledEvidence, Evidence.ora, Evidence.report, OracleEvidence.share,
        ControlsVerdict.share, share, Num.below, Floats.ofRat, sitePolicy, siteThresholds,
        cancelledReport]
    | _ => decide
  · have hfinished := h.readable.finished (by decide) rfl (by decide) (by decide)
    exact Bool.false_ne_true hfinished

end Sample

end CommitReplay.RoutingBar
