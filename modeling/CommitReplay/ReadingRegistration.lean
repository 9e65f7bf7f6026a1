import CommitReplay.KeyedBudget
import CommitReplay.ReadingHierarchy

/-! Registering a reading: what its shape may be, the order its pool is read in, what is already
registered or was already seen, and what its rule spends of the error budget of its cell. -/
namespace CommitReplay.ReadingRegistration

open CommitReplay.PythonText CommitReplay.JsonValue CommitReplay.JsonText CommitReplay.JsonRoundTrip
open CommitReplay.FailureKind CommitReplay.ContextArms CommitReplay.RowChecks
open CommitReplay.GradeRows CommitReplay.LookRule CommitReplay.ReadingRows
open CommitReplay.ReadingRecord CommitReplay.ReadingHierarchy CommitReplay.KeyedBudget

/-- Why the shape of a registration is refused, with what its message names. -/
inductive Invalid
  | missing (fields : List String)
  | noArm
  | unknownRule (rule : String)
  | emptyPool
  | armTwice
  | outsideGrammar (arm : String)
  | descriptiveInHierarchy (arm : String)
  | ceilingNotFirst
  | factoryReadsS2
  | s2OnFactoryOnly
  | notDescriptive (arm : String)
  | descriptiveCount
  | manyAuthors (authors : List String)
  | otherAuthor (authors : List String) (author : String)
  | unknownAttemptRule (rule : String)
  | reservedShape (maxReruns : ℤ) (budgetProfile : String)
  | unpinned (posture : String) (commits : List String)
deriving DecidableEq, Repr

/-- Why a registration is refused. -/
inductive ReadingRefused (N : Type)
  | invalidReading (why : Invalid)
  | campaignUnsupported (campaignId processStep : String)
  | readingExists (readingId : String)
  | poolSeen (commits : List String)
  | budgetSpent (budget spent spend : N)
  | notACeiling (readingId : String) (state : OutcomeState)
  | raised (e : ReadingError)

section Shape

def refuse {ε : Type} (c : Bool) (why : ε) : Except ε Unit := if c then .error why else .ok ()

@[simp] lemma refuse_eq_ok {ε : Type} {c : Bool} {why : ε} {u : Unit} :
    refuse c why = .ok u ↔ c = false := by
  cases c <;> simp [refuse]

def parse (arm : String) : Except Invalid ContextArm :=
  match parseArm arm with
  | some a => .ok a
  | none => .error (.outsideGrammar arm)

/-- A ceiling arm with a certifying arm before it. -/
def ceilingAfter : Bool → List ContextArm → Bool
  | _, [] => false
  | seen, a :: arms => (a.ceiling && seen) || ceilingAfter (seen || a.certifies) arms

/-- The authors a hierarchy names. -/
def authorsOf (parsed : List ContextArm) : List String :=
  ((parsed.map ContextArm.author).filter (· ≠ "")).dedup

def validateDescriptive (d : String × ℤ) : Except Invalid Unit := do
  let arm ← parse d.1
  refuse (!arm.descriptive) (.notDescriptive d.1)
  refuse (d.2 ≤ 0) .descriptiveCount

def validate (cell : Dict) (hierarchy : List String) (descriptive : List (String × ℤ))
    (rule : String) (pool : List String) (authorModel : String) (prospective : Bool) :
    Except Invalid (List ContextArm) := do
  let missing := cellFields.filter fun f => cell.get f = "" || cell.get f = "*"
  refuse (missing ≠ []) (.missing missing)
  refuse (hierarchy = []) .noArm
  refuse (rules.lookup rule).isNone (.unknownRule rule)
  refuse (pool = [] && !prospective) .emptyPool
  refuse (!(hierarchy ++ descriptive.map Prod.fst).Nodup) .armTwice
  let parsed ← hierarchy.mapM parse
  parsed.forM fun a => refuse a.descriptive (.descriptiveInHierarchy a.id)
  refuse (ceilingAfter false parsed) .ceilingNotFirst
  let factory := cell.get "process_step" = "factory"
  refuse (factory && parsed.any (·.base ≠ .S2)) .factoryReadsS2
  refuse (!factory && parsed.any (·.base = .S2)) .s2OnFactoryOnly
  descriptive.forM validateDescriptive
  let authors := authorsOf parsed
  refuse (1 < authors.length) (.manyAuthors authors)
  refuse (authors ≠ [] && authorModel ≠ "" && authors ≠ [authorModel])
    (.otherAuthor authors authorModel)
  return parsed

def stripped (s : String) : String := .ofList (strip s.toList)

/-- The attempt rule and the budget profile a registration stores. -/
def attemptRuleOf (attemptRule : String) (maxReruns : ℤ) (budgetProfile : String) :
    Except Invalid (String × String) := do
  let rule := stripped attemptRule
  let profile := stripped budgetProfile
  if rule = "" ∨ rule = attemptRuleLegacy then return ("", "")
  refuse (rule ≠ attemptRuleReserved) (.unknownAttemptRule attemptRule)
  refuse (maxReruns ≠ 0 || profile = "") (.reservedShape maxReruns budgetProfile)
  return (rule, profile)

end Shape

section Pool

variable (sha256 : Sha256)

/-- The seed of a commit in the order of a cell. -/
def seedOf (repo cellKey commit : String) : String :=
  sha256.hex ("crb.reading.v1|" ++ repo ++ "|" ++ cellKey ++ "|" ++ commit).toList

/-- The pool in the order of its seeds, each commit once. -/
def seededOrder (repo cellKey : String) (pool : List String) : List String :=
  pool.dedup.insertionSort fun c d =>
    seedOf sha256 repo cellKey c < seedOf sha256 repo cellKey d ∨
      seedOf sha256 repo cellKey c = seedOf sha256 repo cellKey d ∧ c ≤ d

def textList (xs : List String) : Json Whole := .arr (xs.map .str)

def poolDigest (pool : List String) : String := sha256.hex (canonicalJson (textList pool))

def textDict (d : Dict) : Json Whole := .obj (d.items.map fun p => (p.1, .str p.2))

def reservedPoolDigest (pool : List String) (posture : String) (qualifications : Dict) : String :=
  sha256.hex (canonicalJson (.obj [("pool", textList pool), ("pool_posture_id", .str posture),
    ("pool_qualifications", textDict qualifications)]))

/-- `{k: v for k, v in d.items() if p(k, v)}`. -/
def Dict.filter (p : String × String → Bool) (d : Dict) : Dict :=
  ⟨d.items.filter p, d.sorted.filter p⟩

/-- `{**d, k: v}`. -/
def Dict.insert (k v : String) (d : Dict) : Dict :=
  ⟨insertKey k v d.items, keySorted_insertKey k v d.sorted⟩

end Pool

section Budget

variable {N : Type}

def spendOf (key : String × String × String × String) [AddCommMonoid N]
    (readings : List (Reading N)) : N :=
  spent Reading.readingId Reading.budgetKey (fun r => r.spend) readings key

variable [DivisionRing N]

/-- The error budget of a cell. -/
def cellErrorBudget : N := 5 / 100

/-- The slack of the budget's comparison, `1e-12`. -/
def slack : N := 1 / 1000000000000

end Budget

section Register

variable {N : Type} (sha256 : Sha256) (idOf : Body N → String)

/-- What a registration names: `budget` is the one given, or else the one in force. -/
structure Registration (N : Type) where
  repo : String
  cell : Dict
  hierarchy : List String
  pool : List String
  apparatus : String
  taxonomy : String
  postureClass : String
  checksArm : String
  rule : String
  descriptive : List (String × ℤ)
  authorModel : String
  changes : Dict
  budget : N
  maxReruns : ℤ
  poolRule : String
  orgClass : String
  hypothesis : String
  smallestEffect : Option N
  campaignId : String
  attemptRule : String
  budgetProfile : String
  lintDigest : String
  poolPostureId : String
  poolQualifications : Dict

/-- The reading a body makes: its constructor normalizes the body and gives it its identifier. -/
def ofBody (b : Body N) : Reading N where
  toBody := b.normalize
  readingId := idOf b.normalize
  enrolled := []
  admitted := none
  registeredEventId := 0
  reservations := none
  poolDrift := []

variable [DivisionRing N]

def spendOfRule (rule : String) : Except (ReadingRefused N) N :=
  match ruleSpend rule with
  | .ok x => .ok x
  | .error e => .error (.raised e)

/-- What a registration would register, but for the time and the actor. -/
def draft (a : Registration N) : Except (ReadingRefused N) (Body N) := do
  let hierarchy := a.hierarchy.map stripped
  let descriptive := a.descriptive.map fun d => (stripped d.1, d.2)
  let parsed ← (validate a.cell hierarchy descriptive a.rule a.pool a.authorModel false).mapError
    .invalidReading
  let (attemptRule, budgetProfile) ←
    (attemptRuleOf a.attemptRule a.maxReruns a.budgetProfile).mapError .invalidReading
  refuse (a.campaignId ≠ "" && a.cell.get "process_step" = "factory")
    (.campaignUnsupported a.campaignId (a.cell.get "process_step"))
  let pool := seededOrder sha256 a.repo (readingCellKey a.cell a.orgClass) a.pool
  let pinned := pinsPool attemptRule a.poolRule
  let pins := Dict.filter (fun p => p.1 ∈ pool && p.2 ≠ "") a.poolQualifications
  let unpinned := pool.filter fun c => (pins.items.lookup c).isNone
  refuse (pinned && (a.poolPostureId ≠ "" || pins ≠ .empty) &&
      (a.poolPostureId = "" || unpinned ≠ [])) (.invalidReading (.unpinned a.poolPostureId unpinned))
  let spend ← spendOfRule a.rule
  return {
    schema := "crb.reading.v1"
    repo := a.repo
    cell := a.cell
    apparatus := a.apparatus
    taxonomy := a.taxonomy
    postureClass := a.postureClass
    checksArm := a.checksArm
    hierarchy
    descriptive
    rule := a.rule
    spend
    budget := a.budget
    authorModel := if a.authorModel ≠ "" then a.authorModel else (authorsOf parsed).headD ""
    poolSha256 :=
      if pinned then reservedPoolDigest sha256 pool a.poolPostureId pins else poolDigest sha256 pool
    changes := Dict.filter (fun p => p.1 ∈ pool) a.changes
    maxReruns := a.maxReruns
    poolRule := a.poolRule
    orgClass := a.orgClass
    promotes := ""
    budgetCell := ""
    hypothesis := a.hypothesis
    smallestEffect := a.smallestEffect
    campaignId := a.campaignId
    attemptRule
    budgetProfile
    lintDigest := a.lintDigest
    poolPostureId := a.poolPostureId
    poolQualifications := pins
    pool
    registeredAt := ""
    actor := "" }

/-- What the registration of a ceiling's forward reading names. -/
structure ForwardRegistration (N : Type) where
  ceiling : ReadingOutcome N
  builder : String
  model : String
  provider : String
  rule : String
  budget : N
  hypothesis : String
  smallestEffect : Option N
  attemptRule : String
  budgetProfile : String
  lintDigest : String
  maxReruns : Option ℤ

/-- What a forward registration would register: the one arm of the factory, in the ceiling's scope
and on the budget of the ceiling's cell. -/
def forwardDraft (f : ForwardRegistration N) : Except (ReadingRefused N) (Body N) := do
  let base := f.ceiling.reading
  let cell := Dict.insert "provider" (stripped f.provider) (Dict.insert "model" (stripped f.model)
    (Dict.insert "builder" (stripped f.builder) (Dict.insert "process_step" "factory" base.cell)))
  let _ ← (validate cell ["S2"] [] f.rule [] "" true).mapError .invalidReading
  let maxReruns := f.maxReruns.getD (if stripped f.attemptRule = attemptRuleReserved then 0 else 2)
  let (attemptRule, budgetProfile) ←
    (attemptRuleOf f.attemptRule maxReruns f.budgetProfile).mapError .invalidReading
  let spend ← spendOfRule f.rule
  return {
    schema := "crb.reading.v1"
    repo := base.repo
    cell
    apparatus := base.apparatus
    taxonomy := base.taxonomy
    postureClass := base.postureClass
    checksArm := base.checksArm
    hierarchy := ["S2"]
    descriptive := []
    rule := f.rule
    spend
    budget := f.budget
    authorModel := ""
    poolSha256 := poolDigest sha256 []
    changes := .empty
    maxReruns
    poolRule := poolRuleCalibration
    orgClass := ""
    promotes := base.readingId
    budgetCell := base.budgetKey.2.1
    hypothesis := f.hypothesis
    smallestEffect := f.smallestEffect
    campaignId := ""
    attemptRule
    budgetProfile
    lintDigest := f.lintDigest
    poolPostureId := ""
    poolQualifications := .empty
    pool := []
    registeredAt := ""
    actor := "" }

section Drafts

variable {sha256}

lemma mapError_eq_ok {ε ε' α : Type} {x : Except ε α} {f : ε → ε'} {y : α} :
    x.mapError f = .ok y ↔ x = .ok y := by
  cases x <;> simp [Except.mapError]

lemma spendOfRule_eq_ok {rule : String} {x : N} (h : spendOfRule rule = .ok x) :
    ∃ q : ℚ, ruleSpend rule = .ok q ∧ x = q := by
  unfold spendOfRule at h
  cases hq : ruleSpend rule with
  | error e => simp [hq] at h
  | ok q => exact ⟨q, rfl, by simpa [hq, eq_comm] using h⟩

/-- What the draft of a registration takes over, and what was checked of its shape. -/
structure Drafted (a : Registration N) (b : Body N) : Prop where
  valid : ∃ parsed, validate a.cell b.hierarchy b.descriptive a.rule a.pool a.authorModel false =
    .ok parsed
  spend : ∃ q : ℚ, ruleSpend a.rule = .ok q ∧ b.spend = q
  budget : b.budget = a.budget
  scope : b.repo = a.repo ∧ b.cell = a.cell ∧ b.apparatus = a.apparatus ∧ b.taxonomy = a.taxonomy ∧
    b.orgClass = a.orgClass
  budgetCell : b.budgetCell = ""

lemma drafted {a : Registration N} {b : Body N} (h : draft sha256 a = .ok b) : Drafted a b := by
  unfold draft at h
  obtain ⟨parsed, hvalid, h⟩ := bind_eq_ok.mp h
  obtain ⟨⟨attemptRule, budgetProfile⟩, hrule, h⟩ := bind_eq_ok.mp h
  obtain ⟨_, hcampaign, h⟩ := bind_eq_ok.mp h
  obtain ⟨_, hpins, h⟩ := bind_eq_ok.mp h
  obtain ⟨spend, hspend, h⟩ := bind_eq_ok.mp h
  obtain rfl := Except.ok.inj h
  exact ⟨⟨parsed, mapError_eq_ok.mp hvalid⟩, spendOfRule_eq_ok hspend, rfl,
    ⟨rfl, rfl, rfl, rfl, rfl⟩, rfl⟩

/-- What the draft of a forward registration takes over of its ceiling. -/
structure ForwardDrafted (f : ForwardRegistration N) (b : Body N) : Prop where
  spend : ∃ q : ℚ, ruleSpend f.rule = .ok q ∧ b.spend = q
  budget : b.budget = f.budget
  scope : b.repo = f.ceiling.reading.repo ∧ b.apparatus = f.ceiling.reading.apparatus ∧
    b.taxonomy = f.ceiling.reading.taxonomy
  budgetCell : b.budgetCell = f.ceiling.reading.budgetKey.2.1

lemma forwardDrafted {f : ForwardRegistration N} {b : Body N} (h : forwardDraft sha256 f = .ok b) :
    ForwardDrafted f b := by
  unfold forwardDraft at h
  obtain ⟨parsed, hvalid, h⟩ := bind_eq_ok.mp h
  obtain ⟨⟨attemptRule, budgetProfile⟩, hrule, h⟩ := bind_eq_ok.mp h
  obtain ⟨spend, hspend, h⟩ := bind_eq_ok.mp h
  obtain rfl := Except.ok.inj h
  exact ⟨spendOfRule_eq_ok hspend, rfl, ⟨rfl, rfl, rfl⟩, rfl⟩

lemma toList_canonicalCellKey (cell : Dict) : (canonicalCellKey cell).toList =
    ['|'].intercalate (cellFields.map fun f => (cell.get f).toList) := by
  rw [canonicalCellKey, String.toList_intercalate, List.map_map]
  rfl

omit [DivisionRing N] in
/-- A cell's key is never empty. -/
lemma cellKey_ne_empty (r : Reading N) : r.cellKey ≠ "" := by
  have hbar : '|' ∈ (canonicalCellKey r.cell).toList := by
    rw [toList_canonicalCellKey]
    simp [cellFields, List.intercalate]
  intro h
  rw [Reading.cellKey, readingCellKey] at h
  split_ifs at h <;> simpa [hbar] using congrArg ('|' ∈ ·.toList) h

end Drafts

section Answer

variable {F : Type} [LinearOrder N] (existing : List (Reading N))

/-- The registered reading a new one repeats: of its identifier, or of its content. -/
def registeredTwin (r : Reading N) : Option (Reading N) :=
  existing.find? fun t => t.readingId = r.readingId || decide (t.toContent = r.toContent)

def refuseTwin (r : Reading N) : Except (ReadingRefused N) Unit :=
  match registeredTwin existing r with
  | some twin => .error (.readingExists twin.readingId)
  | none => .ok ()

/-- A replay row of 2.4 or later makes its commit seen, whatever its arm. -/
def seenByReserved (row : Row F) : Bool :=
  row.str .processStep = "replay" &&
    atLeast (parseApparatusVersion (row.str .apparatusVersion)) (2, 4)

/-- The commits of a reading's pool that have a graded row, or whose change has. -/
def poolSeen (r : Reading N) (rows : List (Row F)) : List String :=
  ((rows.filter fun row => row.str .repo = r.repo &&
      (if r.reserved then seenByReserved row
        else row.str .apparatusVersion = r.apparatus && row.contextArm ∈ r.hierarchy) &&
      (row.str .taskId ∈ r.pool || (row.changeId ≠ "" &&
        row.changeId ∈ r.changes.items.map Prod.snd))).map (·.str .taskId)).dedup.insertionSort
    (· ≤ ·)

/-- Refuse a reading that would spend more than is left on the key. -/
def refuseOverspent (key : String × String × String × String) (r : Reading N) :
    Except (ReadingRefused N) Unit :=
  refuse (r.budget + slack < spendOf key existing + r.spend)
    (.budgetSpent r.budget (spendOf key existing) r.spend)

/-- Register a reading at the time given or the clock's. -/
def register (a : Registration N) (rows : List (Row F)) (registeredAt actor : String) :
    Except (ReadingRefused N) (Reading N) := do
  let body ← draft sha256 a
  let r := ofBody idOf { body with registeredAt, actor }
  refuseTwin existing r
  refuse (poolSeen r rows ≠ []) (.poolSeen (poolSeen r rows))
  refuseOverspent existing r.budgetKey r
  return r

def registerForward (f : ForwardRegistration N) (registeredAt actor : String) :
    Except (ReadingRefused N) (Reading N) := do
  refuse (f.ceiling.state ≠ .ceiling) (.notACeiling f.ceiling.reading.readingId f.ceiling.state)
  let body ← forwardDraft sha256 f
  let r := ofBody idOf { body with registeredAt, actor }
  refuseTwin existing r
  refuseOverspent existing f.ceiling.reading.budgetKey r
  return r

variable {sha256 idOf existing}

omit [DivisionRing N] in
lemma refuseTwin_eq_ok {r : Reading N} {u : Unit} :
    refuseTwin existing r = .ok u ↔ registeredTwin existing r = none := by
  unfold refuseTwin
  cases registeredTwin existing r <;> simp

omit [DivisionRing N] in
/-- A reading whose content is registered has a twin. -/
lemma refuseTwin_of_mem {r t : Reading N} (ht : t ∈ existing) (h : t.toContent = r.toContent) :
    ∃ twin ∈ existing, refuseTwin existing r = .error (.readingExists twin.readingId) := by
  unfold refuseTwin
  cases htwin : registeredTwin existing r with
  | none =>
    have hnot := List.find?_eq_none.mp htwin t ht
    simp [h] at hnot
  | some twin => exact ⟨twin, List.mem_of_find?_eq_some htwin, rfl⟩

/-- What a registration that is not refused registers, and what was checked of it. -/
theorem register_eq_ok {a : Registration N} {rows : List (Row F)} {registeredAt actor : String}
    {r : Reading N} :
    register sha256 idOf existing a rows registeredAt actor = .ok r ↔
      ∃ body, draft sha256 a = .ok body ∧ r = ofBody idOf { body with registeredAt, actor } ∧
        registeredTwin existing r = none ∧ poolSeen r rows = [] ∧
        spendOf r.budgetKey existing + r.spend ≤ r.budget + slack := by
  unfold register refuseOverspent
  constructor
  · intro h
    obtain ⟨body, hbody, h⟩ := bind_eq_ok.mp h
    obtain ⟨_, htwin, h⟩ := bind_eq_ok.mp h
    obtain ⟨_, hseen, h⟩ := bind_eq_ok.mp h
    obtain ⟨_, hspent, h⟩ := bind_eq_ok.mp h
    obtain rfl : _ = r := Except.ok.inj h
    exact ⟨body, hbody, rfl, refuseTwin_eq_ok.mp htwin, by simpa using hseen,
      by simpa using hspent⟩
  · rintro ⟨body, hbody, rfl, htwin, hseen, hspent⟩
    refine bind_eq_ok.mpr ⟨body, hbody, bind_eq_ok.mpr ⟨(), refuseTwin_eq_ok.mpr htwin, ?_⟩⟩
    refine bind_eq_ok.mpr ⟨(), by simpa using hseen, bind_eq_ok.mpr ⟨(), ?_, rfl⟩⟩
    simpa using hspent

theorem registerForward_eq_ok {f : ForwardRegistration N} {registeredAt actor : String}
    {r : Reading N} :
    registerForward sha256 idOf existing f registeredAt actor = .ok r ↔
      f.ceiling.state = .ceiling ∧
      ∃ body, forwardDraft sha256 f = .ok body ∧ r = ofBody idOf { body with registeredAt, actor } ∧
        registeredTwin existing r = none ∧
        spendOf f.ceiling.reading.budgetKey existing + r.spend ≤ r.budget + slack := by
  unfold registerForward refuseOverspent
  constructor
  · intro h
    obtain ⟨_, hceiling, h⟩ := bind_eq_ok.mp h
    obtain ⟨body, hbody, h⟩ := bind_eq_ok.mp h
    obtain ⟨_, htwin, h⟩ := bind_eq_ok.mp h
    obtain ⟨_, hspent, h⟩ := bind_eq_ok.mp h
    obtain rfl : _ = r := Except.ok.inj h
    exact ⟨by simpa using hceiling, body, hbody, rfl, refuseTwin_eq_ok.mp htwin,
      by simpa using hspent⟩
  · rintro ⟨hceiling, body, hbody, rfl, htwin, hspent⟩
    refine bind_eq_ok.mpr ⟨(), by simpa using hceiling, bind_eq_ok.mpr ⟨body, hbody, ?_⟩⟩
    refine bind_eq_ok.mpr ⟨(), refuseTwin_eq_ok.mpr htwin, bind_eq_ok.mpr ⟨(), ?_, rfl⟩⟩
    simpa using hspent

end Answer

end Register

section Sample

def sampleRegistration : Registration ℚ where
  repo := "o/r"
  cell := .of [("process_step", "replay"), ("capability_class", "fix"), ("size", "S"),
    ("language", "py"), ("builder", "b"), ("model", "m"), ("provider", "p")]
  hierarchy := ["S3", "S1@m"]
  pool := ["c1", "c2"]
  apparatus := "2.4"
  taxonomy := "t"
  postureClass := "docker/x/sealed"
  checksArm := "off"
  rule := "look.v1"
  descriptive := []
  authorModel := ""
  changes := .empty
  budget := 1 / 20
  maxReruns := 2
  poolRule := "all-qualified"
  orgClass := ""
  hypothesis := ""
  smallestEffect := none
  campaignId := ""
  attemptRule := ""
  budgetProfile := ""
  lintDigest := ""
  poolPostureId := ""
  poolQualifications := .empty

end Sample

end CommitReplay.ReadingRegistration
