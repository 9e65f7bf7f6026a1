import CommitReplay.Redaction

/-! Belt 5: the linters of a plan are run over the changed files, one after another, up to the first that does
not accept. A pattern is a function of the text it is searched in, and an executor of the commands it was given
before. -/
namespace CommitReplay.LintPlans

open CommitReplay.PythonText CommitReplay.Redaction

/-- `DEFAULT_LINT_TIMEOUT_S`, `LINT_TAIL_CHARS` and `MAX_LINT_FILES`. -/
def defaultLintTimeoutS : ℕ := 600

def lintTailChars : ℕ := 4000

def maxLintFiles : ℕ := 200

def notRunnableRcs : List ℤ := [126, 127]

def timeoutRc : ℤ := 124

inductive PathsMode
  | changed | all
deriving DecidableEq, Repr

/-- One linter; `Mount` is what a sealed set it reads is mounted by. -/
structure LintTool (Mount : Type) where
  name : String
  argv : List Text
  paths : PathsMode := .changed
  exts : List Text := []
  findingsRcs : List ℤ := [1]
  stdoutIsFindings : Bool := false
  env : List (String × String) := []
  writablePaths : List String := []
  /-- Whether the pattern of a missing tool is found in an output. -/
  unrunnable : Option (Text → Bool) := none
  /-- The `file` group of a finding's pattern where it is found in a line. -/
  findings : Option (Text → Option (Option Text)) := none
  refuse : Text := []
  roMounts : List Mount := []
  hasName : name ≠ ""
  hasArgv : argv ≠ []

structure LintPlan (Mount : Type) where
  tools : List (LintTool Mount)
  detected : String
  timeout : ℕ := defaultLintTimeoutS
  hasTools : tools ≠ []
  saysHow : detected ≠ ""
  positive : 0 < timeout

structure Command (Mount : Type) where
  argv : List Text
  root : Text
  env : List (String × String)
  timeout : ℕ
  writablePaths : List String
  roMounts : List Mount

structure ExecResult where
  returncode : ℤ
  stdout : Text
  stderr : Text
  timedOut : Bool := false
  cancelled : Bool := false

def ExecResult.combined (r : ExecResult) : Text :=
  r.stdout ++ if r.stderr = [] then [] else '\n' :: r.stderr

/-- What an executor does with a command after others: a result, or the text of an `OSError`. -/
abbrev Executor (Mount : Type) := List (Command Mount) → Command Mount → Except Text ExecResult

structure LintStep where
  tool : String
  argv : List Text
  files : List Text
  rc : ℤ
  verdict : Option Bool
  tail : Text
  timedOut : Bool := false
  error : Text := []
  findingsChanged : ℕ := 0
  findingsOther : ℕ := 0

structure LintRun where
  detected : String
  steps : List LintStep
  ok : Option Bool
  note : Text
  error : Text

inductive Raised
  | okAgainstSteps | errorNotFailed | noFileGroup
deriving DecidableEq, Repr

variable {Mount : Type}

section Files

def LintTool.isFor (t : LintTool Mount) (f : Text) : Bool := t.exts = [] || t.exts.any fun e => e.isSuffixOf f

def LintTool.filesFor (t : LintTool Mount) (changed : List Text) : List Text :=
  match t.paths with
  | .all => []
  | .changed => (changed.filter t.isFor).take maxLintFiles

def LintTool.concerns (t : LintTool Mount) (changed : List Text) : Bool :=
  match t.paths with
  | .changed => t.filesFor changed ≠ []
  | .all => t.exts = [] || changed.any t.isFor

end Files

section Reading

variable (isWide : Char → Bool)

def joinLines (ls : List Text) : Text := ['\n'].intercalate ls

/-- `_tail`. -/
def tailOf (text : Text) : Text :=
  let lines := splitlines (strip text)
  joinLines (lines.drop (lines.length - 40))

def firstLine (r : ExecResult) : Text :=
  ((splitlines (strip (if r.stderr = [] then r.stdout else r.stderr))).head?.getD []).take 160

def rcText (rc : ℤ) : Text := (toString rc).toList

/-- `_read_exit`: the verdict and the error of a finished step. -/
def readExit (t : LintTool Mount) (r : ExecResult) : Option Bool × Text :=
  if r.timedOut then (some false, [])
  else if r.cancelled then (none, "lint cancelled".toList)
  else if r.returncode ∈ notRunnableRcs then
    (none, t.name.toList ++ ": not runnable (rc=".toList ++ rcText r.returncode ++ ")".toList)
  else if t.unrunnable.any fun found => found r.combined then
    (none, t.name.toList ++ ": not runnable (rc=".toList ++ rcText r.returncode ++ ": ".toList ++ firstLine r ++
      ")".toList)
  else if r.returncode = 0 then
    (some !(t.stdoutIsFindings && strip r.stdout ≠ []), [])
  else if r.returncode ∈ t.findingsRcs then (some false, [])
  else (none, t.name.toList ++ ": tool failed (rc=".toList ++ rcText r.returncode ++ ")".toList)

/-- `_norm_path` asks the file system of the root for an absolute path; what it gives is a parameter. -/
def attributeFindings (normPath : Text → Text) (findings : Text → Option (Option Text)) (output : Text)
    (changedFiles : List Text) : Except Raised (ℕ × ℕ) :=
  (splitlines output).foldlM (fun n line =>
    match findings line with
    | none => .ok n
    | some none => .error .noFileGroup
    | some (some file) =>
      if normPath file ∈ changedFiles.map normPath then .ok (n.1 + 1, n.2) else .ok (n.1, n.2 + 1)) (0, 0)

/-- The verdict of a step, its error, the findings in changed files and in others, and what it has to note. -/
def stepVerdict (normPath : Text → Text) (t : LintTool Mount) (changedFiles : List Text) (r : ExecResult) :
    Except Raised (Option Bool × Text × (ℕ × ℕ) × List Text) :=
  match readExit t r, t.findings with
  | (some false, error), some findings =>
    if r.timedOut then .ok (some false, error, (0, 0), [])
    else do
      let (mine, other) ← attributeFindings normPath findings r.combined changedFiles
      if mine = 0 ∧ 0 < other then
        return (some true, error, (mine, other), [t.name.toList ++ ": ".toList ++ (toString other).toList ++
          " pre-existing finding(s) in unchanged files, 0 in changed files — not attributed to the patch".toList])
      else if mine = 0 then
        return (none, t.name.toList ++ ": rejected (rc=".toList ++
          rcText (if r.timedOut then timeoutRc else r.returncode) ++
          ") with no finding attributable to a file".toList, (mine, other), [])
      else return (some false, error, (mine, other), [])
  | (verdict, error), _ => .ok (verdict, error, (0, 0), [])

/-- A step as it is recorded: the tail and the error are redacted and cut. -/
def recorded (step : LintStep) : LintStep :=
  { step with
    tail := redactAndCap isWide lintTailChars step.tail
    error := redactAndCap isWide 500 step.error }

end Reading

section Running

variable (isWide : Char → Bool) (normPath : Text → Text)

/-- A tool that was run or refused: the files it was handed, what the executor answered, the step and its notes. -/
structure Ran (Mount : Type) where
  tool : LintTool Mount
  files : List Text
  answer : Option (Except Text ExecResult)
  step : LintStep
  notes : List Text := []

def LintTool.command (t : LintTool Mount) (root : Text) (timeout : ℕ) (files : List Text) : Command Mount :=
  ⟨t.argv ++ files, root, t.env, timeout, t.writablePaths, t.roMounts⟩

/-- The step of a tool that was run. -/
def runStep (t : LintTool Mount) (changedFiles : List Text) (answer : Except Text ExecResult) :
    Except Raised (Ran Mount) :=
  let files := t.filesFor changedFiles
  let argv := t.argv ++ files
  match answer with
  | .error exc => .ok ⟨t, files, some answer, recorded isWide ⟨t.name, argv, files, 127, none, exc, false,
      t.name.toList ++ ": not runnable (".toList ++ exc ++ ")".toList, 0, 0⟩, []⟩
  | .ok r => do
    let (verdict, error, (mine, other), notes) ← stepVerdict normPath t changedFiles r
    return ⟨t, files, some answer, recorded isWide ⟨t.name, argv, files,
      if r.timedOut then timeoutRc else r.returncode, verdict, tailOf r.combined, r.timedOut, error, mine, other⟩,
      notes⟩

/-- The step of a tool that must not run. -/
def refusedStep (t : LintTool Mount) (changedFiles : List Text) : Ran Mount :=
  let files := t.filesFor changedFiles
  ⟨t, files, none, recorded isWide ⟨t.name, t.argv ++ files, files, 127, none, [], false, t.refuse, 0, 0⟩, []⟩

/-- The tools in their order, up to the first that does not accept. -/
def runTools (executor : Executor Mount) (root : Text) (timeout : ℕ) (changedFiles : List Text) :
    List (LintTool Mount) → List (Command Mount) → Except Raised (List (Ran Mount))
  | [], _ => .ok []
  | t :: ts, given =>
    if t.concerns changedFiles = false then runTools executor root timeout changedFiles ts given
    else if t.refuse ≠ [] then .ok [refusedStep isWide t changedFiles]
    else do
      let cmd := t.command root timeout (t.filesFor changedFiles)
      let ran ← runStep isWide normPath t changedFiles (executor given cmd)
      if ran.step.verdict = some true then
        let rest ← runTools executor root timeout changedFiles ts (given ++ [cmd])
        return ran :: rest
      else return [ran]

/-- The checks of a `LintRun`. -/
def LintRun.checked (run : LintRun) : Except Raised LintRun :=
  if run.ok = some true ∧ (run.error ≠ [] ∨ run.steps.any fun s => s.verdict ≠ some true) then
    .error .okAgainstSteps
  else if run.error ≠ [] ∧ run.ok ≠ some false then .error .errorNotFailed
  else .ok run

/-- What a run of steps comes to, by its last. -/
def summary (detected : String) (rans : List (Ran Mount)) : Except Raised LintRun :=
  let steps := rans.map Ran.step
  match steps.getLast? with
  | none => LintRun.checked ⟨detected, [], none,
      "no lintable changed file for the detected linter — belt 5 not evaluated".toList, []⟩
  | some last =>
    if last.error ≠ [] then LintRun.checked ⟨detected, steps, some false, last.error, last.error⟩
    else if last.timedOut then
      LintRun.checked ⟨detected, steps, some false, last.tool.toList ++ " timed out".toList, []⟩
    else if last.verdict = some false then
      let what :=
        if last.findingsChanged ≠ 0 then
          (toString last.findingsChanged).toList ++ " finding(s) in changed files (".toList ++
            (toString last.findingsOther).toList ++ " elsewhere, not counted)".toList
        else (if last.files = [] then "the".toList else (toString last.files.length).toList) ++
          " changed file(s)".toList
      LintRun.checked ⟨detected, steps, some false, last.tool.toList ++ " rejected ".toList ++ what, []⟩
    else LintRun.checked ⟨detected, steps, some true, "; ".toList.intercalate (rans.flatMap Ran.notes), []⟩

/-- `run_plan`, with what each of its steps was handed and answered. -/
def runPlan (plan : LintPlan Mount) (executor : Executor Mount) (root : Text) (changedFiles : List Text)
    (timeout : ℕ) : Except Raised (LintRun × List (Ran Mount)) := do
  let t := if timeout = 0 then plan.timeout else timeout
  let rans ← runTools isWide normPath executor root t changedFiles plan.tools []
  let run ← summary plan.detected rans
  return (run, rans)

end Running

end CommitReplay.LintPlans
