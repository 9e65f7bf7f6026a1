import CommitReplay.MutantSample
import CommitReplay.OrderedItems
import CommitReplay.TestRuns

/-! The mutation score of one task's oracle: each planned mutant is written, run against the target tests and
restored, and only the runs that reached a verdict are counted. -/
namespace CommitReplay.OracleScore

open CommitReplay.PythonText CommitReplay.GradeRows CommitReplay.MutantSample CommitReplay.OrderedItems
open CommitReplay.TestRuns (TestRun)

section Outcomes

inductive Status
  | killed | escaped | error | uncompilable | timeout | unattributed
deriving DecidableEq, Repr

/-- One mutant's fate; an outcome is never both excluded and graded. -/
structure MutantOutcome where
  mutantId : String
  op : String
  line : ℤ
  description : String
  killed : Option Bool
  diff : Text
  path : String
  timedOut : Bool
  returncode : Option ℤ
  tail : Text
  error : Text
  uncompilable : Bool
  unattributed : Bool
  timeoutIsKill : Bool
  compiled : uncompilable = true → killed = none
  attributed : unattributed = true → killed = none
  finished : timedOut = true → timeoutIsKill = false → killed = none

def MutantOutcome.status (o : MutantOutcome) : Status :=
  if o.uncompilable then .uncompilable
  else if o.unattributed then .unattributed
  else match o.killed with
    | none => if o.timedOut then .timeout else .error
    | some true => .killed
    | some false => .escaped

/-- A run the toolchain rejected before any test could observe the fault. -/
def compileFailure (run : TestRun) : Bool :=
  !run.timedOut && run.returncode ≠ 0 && run.failing = ∅ && run.parseError ≠ ""

/-- `redact_and_cap` and `_unified_diff`. -/
structure Tools where
  cap : ℕ → Text → Text
  diff : Text → Text → Text → Text

variable (tools : Tools) (v2 : Bool) (m : Mutant) (diff : Text)

/-- What a run says of a mutant. -/
def MutantOutcome.ofRun (run : TestRun) : MutantOutcome :=
  if h : v2 = true ∧ (run.timedOut = true ∨ run.returncode = 0 ∧ run.parseError ≠ "") then
    { mutantId := m.mutantId, op := m.op, line := m.line, description := m.description
      killed := none
      diff := diff, path := m.path
      timedOut := run.timedOut, returncode := some run.returncode
      tail := tools.cap 600 run.tail, error := tools.cap 200 run.parseError.toList
      uncompilable := false
      unattributed := !run.timedOut
      timeoutIsKill := false
      compiled := fun _ => rfl
      attributed := fun _ => rfl
      finished := fun _ _ => rfl }
  else if compileFailure run then
    { mutantId := m.mutantId, op := m.op, line := m.line, description := m.description
      killed := none
      diff := diff, path := m.path
      timedOut := false, returncode := some run.returncode
      tail := tools.cap 600 run.tail, error := tools.cap 200 run.parseError.toList
      uncompilable := true
      unattributed := false
      timeoutIsKill := false
      compiled := fun _ => rfl
      attributed := fun _ => rfl
      finished := fun _ _ => rfl }
  else
    { mutantId := m.mutantId, op := m.op, line := m.line, description := m.description
      killed := some !run.green
      diff := diff, path := m.path
      timedOut := run.timedOut, returncode := some run.returncode
      tail := tools.cap 600 run.tail, error := []
      uncompilable := false
      unattributed := false
      timeoutIsKill := !v2
      compiled := fun h => absurd h Bool.false_ne_true
      attributed := fun h => absurd h Bool.false_ne_true
      finished := fun ht hk => absurd ⟨by simpa using hk, .inl ht⟩ h }

/-- What an exception of the harness says of one. -/
def MutantOutcome.ofError (error : Text) : MutantOutcome where
  mutantId := m.mutantId
  op := m.op
  line := m.line
  description := m.description
  killed := none
  diff := diff
  path := m.path
  timedOut := false
  returncode := none
  tail := []
  error := tools.cap 600 error
  uncompilable := false
  unattributed := false
  timeoutIsKill := false
  compiled := fun _ => rfl
  attributed := fun _ => rfl
  finished := fun _ _ => rfl

end Outcomes

section Runs

/-- A worktree: the content and the modification time of each file. -/
abbrev Files := String → Option (Bytes × ℚ)

/-- What the runner does when it is called: a result, or an exception, of which one means that there is no
sandbox to run in. -/
inductive Behaviour
  | ran (run : TestRun)
  | raised (error : Text)
  | unavailable

/-- What surrounds the scorer: the clock at each reading, and the runner at each call, which may change the
tree. -/
structure Lab where
  now : ℕ → ℤ
  run : ℕ → Files → Files × Behaviour

inductive Raised
  | unavailable
  /-- A test file among the sources. -/
  | testTarget
  /-- A target that the baseline's run deleted. -/
  | missing (path : String)
  /-- A mutant of no target. -/
  | noOriginal (path : String)
  /-- A file that did not restore. -/
  | restore (path : String)
deriving DecidableEq

/-- A version written to a file. -/
structure Version where
  path : String
  content : Bytes
  mtime : ℤ

structure State where
  files : Files
  /-- Every version the scorer wrote, in order. -/
  versions : List Version
  tick : ℤ
  readings : ℕ
  calls : ℕ
  outcomes : List MutantOutcome

variable (lab : Lab) (tools : Tools) (v2 : Bool) (digest : Bytes → String)

/-- `_next_tick`. -/
def State.advance (st : State) : State :=
  { st with tick := max (st.tick + 1) (lab.now st.readings + 1), readings := st.readings + 1 }

/-- `_write_version`. -/
def State.write (st : State) (path : String) (content : Bytes) : State :=
  { st with
    files := Function.update st.files path (some (content, (st.tick : ℚ)))
    versions := st.versions ++ [⟨path, content, st.tick⟩] }

/-- A call of the runner. -/
def State.called (st : State) : State :=
  { st with files := (lab.run st.calls st.files).1, calls := st.calls + 1 }

def State.record (st : State) (o : MutantOutcome) : State := { st with outcomes := st.outcomes ++ [o] }

/-- One mutant: written, run, and restored whatever the run did. -/
def tryMutant (originals : List (String × Bytes)) (st : State) (m : Mutant) : State × Option Raised :=
  match originals.lookup m.path with
  | none => (st, some (.noOriginal m.path))
  | some original =>
    let written := (st.advance lab).write m.path (utf8Encode m.mutatedSource.toList)
    let behaviour := (lab.run written.calls written.files).2
    let restored := ((written.called lab).advance lab).write m.path original
    let diff := tools.diff ((utf8Decode original).getD []) m.mutatedSource.toList m.path.toList
    match behaviour with
    | .unavailable => (restored, some .unavailable)
    | .raised error => (restored.record (.ofError tools m diff error), none)
    | .ran run => (restored.record (.ofRun tools v2 m diff run), none)

/-- The mutants in order, until one raises. -/
def tryAll (originals : List (String × Bytes)) : State → List Mutant → State × Option Raised
  | st, [] => (st, none)
  | st, m :: ms =>
    match tryMutant lab tools v2 originals st m with
    | (st, some e) => (st, some e)
    | (st, none) => tryAll originals st ms

/-- The last restore, each file checked once it is written. -/
def restoreAll : State → List (String × Bytes) → State × Option Raised
  | st, [] => (st, none)
  | st, (path, raw) :: rest =>
    let st := st.write path raw
    if (st.files path).any fun f => digest f.1 = digest raw then restoreAll st rest
    else (st, some (.restore path))

/-- The mutants, and the last restore whatever they did. -/
def tryAndRestore (originals : List (String × Bytes)) (st : State) (ms : List Mutant) : State × Option Raised :=
  let tried := tryAll lab tools v2 originals st ms
  let restored := restoreAll digest (tried.1.advance lab) originals
  (restored.1, restored.2.or tried.2)

end Runs

section Score

/-- The arithmetic of a strength: a quotient, and its four decimals. -/
structure Arithmetic (F : Type) where
  div : ℕ → ℕ → F
  round4 : F → F

/-- Why a score has no strength, if it has none. -/
inductive Note
  | scored
  | noMutator
  | baselineError (error : Text)
  | baselineRed (timedOut : Bool) (returncode : ℤ)
  | noMutants
  | noVerdict
  | mostExcluded
deriving DecidableEq

structure Score (F : Type) where
  srcPaths : List String
  total : ℕ
  killed : ℕ
  strength : Option F
  outcomes : List MutantOutcome
  errors : ℕ
  uncompilable : ℕ
  timeouts : ℕ
  unattributed : ℕ
  note : Note
  baseline : Option TestRun

/-- A score of nothing. -/
def Score.empty {F : Type} (srcPaths : List String) (note : Note) (baseline : Option TestRun) : Score F :=
  ⟨srcPaths, 0, 0, none, [], 0, 0, 0, 0, note, baseline⟩

/-- Both what a target held, and a file once. -/
structure Originals where
  files : List (String × Bytes)
  keyed : Keyed files

def Originals.set (o : Originals) (path : String) (raw : Bytes) : Originals :=
  ⟨setItem path raw o.files, o.keyed.setItem⟩

structure Mutator where
  accepts : String → Bool
  /-- The candidates of a file's changed lines, as many as the bound asks for. -/
  generate : Option ℤ → String → Text → List Mutant

structure Task where
  taskId : String
  srcFiles : List String
  testFiles : List String
  isTest : String → Bool

variable {F : Type} (lab : Lab) (tools : Tools) (v2 : Bool) (digest : Bytes → String) (arith : Arithmetic F)
  (sha256 : Sha256) (mutator : Mutator) (task : Task) (maxMutants : ℤ)

/-- What the targets hold, those that do not decode left out. -/
def readTargets (files : Files) : List String → Originals → Except Raised Originals
  | [], o => .ok o
  | rel :: targets, o =>
    match files rel with
    | none => .error (.missing rel)
    | some (raw, _) =>
      if (utf8Decode raw).isSome then readTargets files targets (o.set rel raw)
      else readTargets files targets o

/-- The candidates of each file. -/
def candidates (o : Originals) : PerFile where
  files := o.files.map fun f =>
    (f.1, mutator.generate (if v2 then none else some maxMutants) f.1 ((utf8Decode f.2).getD []))
  nodup := by
    rw [List.map_map]
    exact o.keyed

/-- `m{i:02d}_{op}_L{line}`. -/
def mutantId (i : ℕ) (m : Mutant) : String :=
  "m" ++ (if i < 10 then "0" else "") ++ toString i ++ "_" ++ m.op ++ "_L" ++ toString m.line

/-- The plan: a sample of the candidates, or their front, numbered from one. -/
def plan (o : Originals) : List Mutant :=
  let perFile := candidates v2 mutator maxMutants o
  let planned := if v2 then sampleMutants sha256 task.taskId perFile (max 0 maxMutants)
    else (perFile.files.flatMap Prod.snd).take maxMutants.toNat
  (planned.zipIdx 1).map fun p => { p.1 with mutantId := mutantId p.2 p.1 }

/-- `int` of a file's modification time. -/
def seconds (q : ℚ) : ℤ := if 0 ≤ q then ⌊q⌋ else ⌈q⌉

/-- The newest of the files. -/
def newest (files : Files) (o : Originals) : ℤ :=
  ((o.files.filterMap fun f => (files f.1).map fun g => seconds g.2).max?).getD 0

/-- What the outcomes of a plan come to. -/
def tally (planned : ℕ) (outcomes : List MutantOutcome) (srcPaths : List String) (baseline : TestRun) : Score F :=
  let graded := outcomes.filter (·.killed.isSome)
  let total := graded.length
  let killed := graded.countP (·.killed = some true)
  let excluded := outcomes.length - total
  { srcPaths := srcPaths
    total := total
    killed := killed
    strength := if total = 0 ∨ v2 = true ∧ planned < 2 * excluded then none
      else some (arith.round4 (arith.div killed total))
    outcomes := outcomes
    errors := outcomes.countP (·.status = .error)
    uncompilable := outcomes.countP (·.status = .uncompilable)
    timeouts := outcomes.countP (·.status = .timeout)
    unattributed := outcomes.countP (·.status = .unattributed)
    note := if total = 0 then .noVerdict else if v2 = true ∧ planned < 2 * excluded then .mostExcluded else .scored
    baseline := some baseline }

def State.start (files : Files) : State := ⟨files, [], 0, 0, 0, []⟩

/-- The score once the baseline is green: the plan is tried on what the targets hold. -/
def scoreGreen (st : State) (targets : List String) (baseline : TestRun) : State × Except Raised (Score F) :=
  match readTargets st.files targets ⟨[], keyed_nil⟩ with
  | .error e => (st, .error e)
  | .ok o =>
    let mutants := plan v2 sha256 mutator task maxMutants o
    if mutants = [] then (st, .ok (.empty targets .noMutants (some baseline)))
    else
      let tried := tryAndRestore lab tools v2 digest o.files { st with tick := newest st.files o } mutants
      match tried.2 with
      | some e => (tried.1, .error e)
      | none => (tried.1, .ok (tally v2 arith mutants.length tried.1.outcomes targets baseline))

/-- `score_task`. -/
def scoreTask (mutator : Option Mutator) (files : Files) : State × Except Raised (Score F) :=
  match mutator with
  | none => (.start files, .ok (.empty [] .noMutator none))
  | some mutator =>
    let targets := task.srcFiles.filter fun p => mutator.accepts p && (files p).isSome
    if task.srcFiles.any fun p => p ∈ task.testFiles || task.isTest p then (.start files, .error .testTarget)
    else
      let st := (State.start files).called lab
      match (lab.run 0 files).2 with
      | .unavailable => (st, .error .unavailable)
      | .raised error => (st, .ok (.empty targets (.baselineError (tools.cap 600 error)) none))
      | .ran baseline =>
        if baseline.green then
          scoreGreen lab tools v2 digest arith sha256 mutator task maxMutants st targets baseline
        else (st, .ok (.empty targets (.baselineRed baseline.timedOut baseline.returncode) (some baseline)))

end Score

end CommitReplay.OracleScore
