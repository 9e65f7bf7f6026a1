import CommitReplay.AttemptOutcomes
import CommitReplay.Interaction

/-! One attempt as the calls it makes: the first build, the finish gate with its repairs, the pre-flight
with its one, and what each step does with an exception of a call. -/
namespace CommitReplay.AttemptCalls

open CommitReplay.PythonText CommitReplay.Interaction CommitReplay.AttemptOutcomes

/-- Which of an attempt's builder calls: its brief carries the gate's findings, or the pre-flight's. -/
inductive Stage
  | first | finishGate | preflight
deriving DecidableEq, Repr

inductive Op
  | checkout (st : Stage) | openSession (st : Stage) | build (st : Stage) (note : Text)
  | unconfirmedKills (st : Stage) | closeSession (st : Stage) | copyBack (st : Stage)
  | removeCheckout (st : Stage)
  | changedFiles | format | verify
  | lintPlan | runPlan | fixer (name : Text)
  | writeTranscript (outcome : BuildOutcome) | discard | removeAuthored

structure GateRun where
  passed : Bool
  label : Text
  findings : Text

inductive LintPlan
  | noChangedFiles | noPlan | plan (fixers : List Text)

structure PlanRun where
  ok : Option Bool
  findings : Text

abbrev Op.Ans : Op → Type
  | build .. => BuildOutcome
  | unconfirmedKills _ => List UnconfirmedKill
  | format => Text
  | verify => GateRun
  | lintPlan => LintPlan
  | runPlan => PlanRun
  | fixer _ => ℤ
  | writeTranscript _ => Text
  | checkout _ | openSession _ | closeSession _ | copyBack _ | removeCheckout _ | changedFiles
  | discard | removeAuthored => Unit

/-- The name of an exception's type: no blank and no colon is in it. -/
abbrev TypeName := {name : Text // ∀ c ∈ name, c ≠ ' ' ∧ c ≠ ':'}

inductive Fault
  | sandboxUnavailable (text : Text)
  | raised (type : TypeName) (text : Text)

abbrev face : Interface := ⟨Op, Op.Ans, Fault⟩

structure Checks where
  label : Text
  formatStep : Bool
  finishGate : Bool
  repairTurns : ℕ

structure Preflight where
  label : Text
  fix : Bool
  repairTurns : ℕ

structure Config where
  rung : String
  mode : String
  builder : String
  model : String
  provider : String
  sealed : Bool
  checks : Option Checks
  preflight : Option Preflight
  transcripts : Bool

structure PreflightRecord where
  before : Text := []
  fixers : List Text := []
  afterFix : Option Text := none
  afterRepair : Option Text := none
  error : Option Text := none
  repair : Bool := false

structure Locals where
  labels : List (Text × Text) := []
  record : PreflightRecord := {}

abbrev Step (α : Type) := Prog face Empty Locals α

def labelOf (labels : List (Text × Text)) (key : Text) : Text := (labels.lookup key).getD []

def setLabel (key value : Text) : Step Unit :=
  .modify fun s => { s with labels := (key, value) :: s.labels.filter (·.1 ≠ key) }

def note (f : PreflightRecord → PreflightRecord) : Step Unit :=
  .modify fun s => { s with record := f s.record }

/-- A statement under a condition. -/
def ifThen (b : Bool) (p : Step Unit) : Step Unit := if b then p else pure ()

/-- `except SandboxUnavailable: raise`, and `except Exception` for the others. -/
def excepting {α : Type} (p : Step α) (handler : TypeName → Text → Step α) : Step α :=
  p.attempt fun e =>
    match e with
    | .raised (.raised type text) => handler type text
    | e => .halt e

lemma runtimeError_name : ∀ c ∈ "RuntimeError".toList, c ≠ ' ' ∧ c ≠ ':' := by
  have hall : ("RuntimeError".toList.all fun c => c != ' ' && c != ':') = true := by rfl
  exact fun c hc => by simpa using List.all_eq_true.mp hall c hc

def runtimeError : TypeName := ⟨"RuntimeError".toList, runtimeError_name⟩

def Fault.shown : Fault → Text
  | .sandboxUnavailable text => "SandboxUnavailable: ".toList ++ text
  | .raised type text => type.1 ++ ": ".toList ++ text

variable (isWide : Char → Bool) (cfg : Config)

section Build

/-- The session's part of a sealed build: the kills are asked for whether the builder returned or
raised. -/
def session (st : Stage) (gateNote : Text) : Step BuildOutcome := do
  Prog.call (I := face) (.openSession st)
  Prog.ensuring
    (do
      let outcome ← Prog.attempt (Prog.call (I := face) (.build st gateNote)) fun e => do
        let _ ← Prog.call (I := face) (.unconfirmedKills st)
        .halt e
      let kills ← Prog.call (I := face) (.unconfirmedKills st)
      pure (noteUnconfirmedKills isWide outcome kills))
    (Prog.call (I := face) (.closeSession st))

/-- The result is not admissible: any exception of the copy becomes one of the attempt. -/
def copyBackFailed : Halt face Empty → Halt face Empty
  | .raised f => .raised (.raised runtimeError ("copy_back failed: ".toList ++ f.shown))
  | .stopped b => .stopped b

def sealedBuild (st : Stage) (gateNote : Text) : Step BuildOutcome := do
  Prog.call (I := face) (.checkout st)
  Prog.ensuring
    (do
      let outcome ← Prog.attempt (session isWide st gateNote) fun e => do
        -- whatever the builder left is the record of the attempt; a failure here is suppressed
        Prog.attempt (Prog.call (I := face) (.copyBack st)) fun _ => pure ()
        .halt e
      Prog.attempt (Prog.call (I := face) (.copyBack st)) fun e => .halt (copyBackFailed e)
      pure outcome)
    (Prog.call (I := face) (.removeCheckout st))

/-- The builder called where the rung runs it. -/
def callBuilder (st : Stage) (gateNote : Text) : Step BuildOutcome :=
  if cfg.sealed then sealedBuild isWide st gateNote else Prog.call (I := face) (.build st gateNote)

/-- A repair of the finish gate starts from the edits so far. -/
def repairCall (findings : Text) : Step BuildOutcome := do
  ifThen cfg.sealed (Prog.call (I := face) .changedFiles)
  callBuilder isWide cfg .finishGate findings

end Build

section Gate

variable (checks : Checks)

def formatStepLabel : Text := "format_step".toList

/-- The loop of the finish gate, with the repairs left and those made. -/
def gateLoop : ℕ → ℕ → BuildOutcome → GateRun → List Text →
    Step (BuildOutcome × GateRun × ℕ × List Text)
  | 0, repairs, merged, run, record => pure (merged, run, repairs, record)
  | left + 1, repairs, merged, run, record =>
    if run.passed then pure (merged, run, repairs, record)
    else do
      let second ← repairCall isWide cfg run.findings
      let merged := mergeOutcomes isWide merged second
      if second.violated then
        pure (merged, run, repairs + 1, record ++ ["after=violated".toList])
      else if repairErrored second then do
        -- the repair never reached the model: the first build's patch stands and is graded
        let run ← Prog.call (I := face) .verify
        pure (merged, run, repairs + 1, record ++ ["repair_error=model_error".toList])
      else do
        ifThen checks.formatStep do
          let again ← Prog.call (I := face) .format
          let s ← Prog.get
          setLabel formatStepLabel
            ((labelOf s.labels formatStepLabel ++ ";repair:".toList ++ again).take 300)
        let run ← Prog.call (I := face) .verify
        gateLoop left (repairs + 1) merged run record

def finishGate (outcome : BuildOutcome) : Step BuildOutcome := do
  let run ← Prog.call (I := face) .verify
  let (merged, run, repairs, record) ← gateLoop isWide cfg checks checks.repairTurns 0 outcome run
    ["before=".toList ++ run.label]
  let record := if repairs = 0 then record
    else record ++ ["repair=".toList ++ Nat.toDigits 10 repairs, "after=".toList ++ run.label]
  setLabel "finish_gate".toList ((";".toList.intercalate record).take 300)
  pure (.stored isWide { merged with done := merged.done && run.passed })

/-- The format step and the finish gate after an honest build; an exception leaves the outcome it was
given. -/
def runChecks (outcome : BuildOutcome) : Step BuildOutcome := do
  setLabel "checks".toList checks.label
  if outcome.violated || attemptError isWide outcome ≠ [] then do
    let skipped := "skipped=attempt_not_admissible".toList
    ifThen checks.formatStep (setLabel formatStepLabel skipped)
    ifThen checks.finishGate (setLabel "finish_gate".toList skipped)
    pure outcome
  else
    excepting
      (do
        ifThen checks.formatStep do
          let fr ← Prog.call (I := face) .format
          setLabel formatStepLabel fr
        if checks.finishGate then finishGate isWide cfg checks outcome else pure outcome)
      fun type text => do
        setLabel "checks_error".toList ((Fault.shown (.raised type text)).take 200)
        pure outcome

end Gate

section Preflight

variable (pf : Preflight)

def verdict (run : PlanRun) : Text :=
  match run.ok with
  | some true => "clean".toList
  | some false => "rejected".toList
  | none => "not_evaluated".toList

def runFixers : List Text → Step Unit
  | [] => pure ()
  | name :: names => do
    let rc ← Prog.call (I := face) (.fixer name)
    note fun r => { r with fixers := r.fixers ++ [name ++ ":".toList ++ (toString rc).toList] }
    runFixers names

/-- The fixers and the plan again, where the pre-flight applies them. -/
def applyFixes (fixers : List Text) (before : PlanRun) : Step PlanRun :=
  if pf.fix then do
    runFixers fixers
    let after ← Prog.call (I := face) .runPlan
    note fun r => { r with afterFix := some (verdict after) }
    pure after
  else pure before

/-- The one repair, with whether the plan is run once more after it. -/
def preflightBuild (merged : BuildOutcome) (findings : Text) : Step (BuildOutcome × Bool) := do
  let second ← callBuilder isWide cfg .preflight (findings.drop (findings.length - 4000))
  note fun r => { r with repair := true }
  let merged := mergeOutcomes isWide merged second
  if second.violated then do
    note fun r => { r with afterRepair := some "violated".toList }
    pure (merged, false)
  else if repairErrored second then do
    -- the repair never reached the model: the first patch stands
    note fun r => { r with afterRepair := some "repair_error".toList }
    pure (merged, false)
  else pure (merged, true)

/-- What the pre-flight does up to its repair. -/
def preflightRepair (merged : BuildOutcome) : Step (BuildOutcome × Bool) := do
  match ← Prog.call (I := face) .lintPlan with
  | .noChangedFiles => do
    note fun r => { r with before := "no_changed_files".toList }
    pure (merged, false)
  | .noPlan => do
    note fun r => { r with before := "no_plan".toList }
    pure (merged, false)
  | .plan fixers => do
    let before ← Prog.call (I := face) .runPlan
    note fun r => { r with before := verdict before }
    if before.ok ≠ some false then pure (merged, false)
    else do
      let before ← applyFixes pf fixers before
      if before.ok ≠ some false ∨ pf.repairTurns = 0 then pure (merged, false)
      else preflightBuild isWide cfg merged before.findings

def preflightError (type : TypeName) (text : Text) : Step Unit :=
  note fun r => { r with error := some ((Fault.shown (.raised type text)).take 200) }

/-- `_preflight_label`. -/
def preflightLabel (r : PreflightRecord) : Text :=
  (";".toList.intercalate (
    [pf.label, "before=".toList ++ r.before] ++
    (if r.fixers = [] then [] else ["fix=".toList ++ "+".toList.intercalate r.fixers]) ++
    (r.afterFix.map ("after_fix=".toList ++ ·)).toList ++
    (r.afterRepair.map ("after_repair=".toList ++ ·)).toList ++
    (r.error.map ("error=".toList ++ ·)).toList ++
    if r.repair then ["repair=1".toList] else [])).take 300

/-- `run_preflight`: an exception leaves the outcome as it was merged when it came. -/
def runPreflight (outcome : BuildOutcome) : Step BuildOutcome := do
  let merged : BuildOutcome := .stored isWide { outcome with builder := outcome.builder ++ "+preflight" }
  let (merged, again) ← excepting (preflightRepair isWide cfg pf merged) fun type text => do
    preflightError type text
    pure (merged, false)
  ifThen again
    (excepting
      (do
        let after ← Prog.call (I := face) .runPlan
        note fun r => { r with afterRepair := some (verdict after) })
      preflightError)
  let s ← Prog.get
  setLabel "preflight".toList (preflightLabel pf s.record)
  pure merged

end Preflight

section Attempt

def failedAttempt (name model provider : String) (error : Text) (labels : List (Text × Text)) :
    BuildAttempt where
  builder := ⟨name, model, provider, cfg.mode, 1, 0, 0, 0, 0, 0, 0, [], []⟩
  error
  labels
  notes := none
  outcome := none

/-- `discard`: an errored attempt leaves no admissible patch. -/
def discard (attempt : BuildAttempt) : Step BuildAttempt := do
  ifThen (attempt.error ≠ []) (Prog.attempt (Prog.call (I := face) .discard) fun _ => pure ())
  pure attempt

def checksStep (outcome : BuildOutcome) : Step BuildOutcome :=
  match cfg.checks with
  | some checks => runChecks isWide cfg checks outcome
  | none => pure outcome

def preflightStep (outcome : BuildOutcome) : Step BuildOutcome :=
  match cfg.preflight with
  | some pf =>
    if outcome.violated || attemptError isWide outcome ≠ [] then pure outcome
    else runPreflight isWide cfg pf outcome
  | none => pure outcome

def transcriptStep (outcome : BuildOutcome) : Step Text :=
  if cfg.transcripts && outcome.transcript ≠ [] then
    Prog.call (I := face) (.writeTranscript outcome)
  else pure []

/-- What the attempt makes of the first build's outcome. -/
def finish (outcome : BuildOutcome) : Step BuildAttempt := do
  let outcome ← checksStep isWide cfg outcome
  let outcome ← preflightStep isWide cfg outcome
  let ref ← transcriptStep cfg outcome
  let s ← Prog.get
  discard
    { builder := builderRef outcome ref
      error := attemptError isWide outcome
      labels := s.labels
      notes := outcome.unconfirmed
      outcome := some outcome }

/-- An attempt from its first build on. -/
def attemptOf : Step BuildAttempt := do
  let first : Except Text BuildOutcome ← excepting
    (do
      let outcome ← callBuilder isWide cfg .first []
      pure (.ok outcome))
    fun type text =>
      pure (.error (prefixed isWide ("builder raised ".toList ++ type.1 ++ ": ".toList) text 500))
  match first with
  | .ok outcome => finish isWide cfg outcome
  | .error error => discard (failedAttempt cfg cfg.builder cfg.model cfg.provider error [])

/-- `build`: an exception of the attempt is recorded on an attempt of its own. -/
def build : Step BuildAttempt :=
  Prog.ensuring
    (excepting (attemptOf isWide cfg) fun type text =>
      pure (failedAttempt cfg cfg.rung "" "" ((Fault.shown (.raised type text)).take 500) []))
    (Prog.call (I := face) .removeAuthored)

end Attempt

end CommitReplay.AttemptCalls
