import CommitReplay.Postconditions
import CommitReplay.PythonRepr
import CommitReplay.RowChecks

/-! The queue of containers whose kill the daemon did not confirm: a file of entries, to which a
container is added once, and the pass over it that asks the daemon, removes and asks again, within
a budget of time. -/
namespace CommitReplay.ContainerReaper

open CommitReplay.PythonText CommitReplay.JsonText CommitReplay.JsonValue CommitReplay.PythonRepr
open CommitReplay.RowChecks CommitReplay.Interaction CommitReplay.Postconditions

section Entries

/-- One queued container, with the passes it has survived. -/
structure Unconfirmed where
  container : Text
  runId : Text
  taskId : Text
  attempts : ℤ
  added : Text
  lastError : Text
deriving DecidableEq

/-- An entry that left the queue. -/
structure ReapResult where
  entry : Unconfirmed
  reaped : Bool
  attempts : ℤ
  detail : Text

def byHand (container : Text) : Text := "docker rm -f ".toList ++ container

end Entries

section Stored

variable {F : Type} [PyFloat F]

/-- The state file: there is none, it is no UTF-8, or the JSON value of its text, if it has one. -/
inductive Stored (F : Type)
  | missing
  | undecodable
  | text (value : Option (Json F))

/-- What `int` raises of a float. -/
inductive IntError
  | value | overflow

variable (isPrintable : Char → Bool) (trunc : F → Except IntError ℤ)

/-- `int` of a text: decimal digits, which single underscores may group, and a sign. -/
def intOfText (s : Text) : Option ℤ :=
  let digits (ds : Text) : Option ℤ :=
    if (ds.splitOn '_').all fun g => g ≠ [] && g.all fun c => (decimalDigit c).isSome then
      some (decimalValue (ds.filter (· ≠ '_')))
    else none
  match strip s with
  | '-' :: ds => (digits ds).map fun n => -n
  | '+' :: ds => digits ds
  | ds => digits ds

def pyInt : Json F → Except IntError ℤ
  | .int n => .ok n
  | .bool b => .ok (if b then 1 else 0)
  | .float x => trunc x
  | .str s => (intOfText s.toList).elim (.error .value) .ok
  | .null | .arr _ | .obj _ => .error .value

/-- `_entry` -/
def entryOf (item : List (String × Json F)) : Except IntError Unconfirmed := do
  let str (k : String) : Text := (pyStr isPrintable ((item.lookup k).getD (.str ""))).toList
  let count := (item.lookup "attempts").getD (.int 0)
  let attempts ← pyInt trunc (if truthy count then count else .int 0)
  pure {
    container := str "container"
    runId := str "run_id"
    taskId := str "task_id"
    attempts
    added := str "added"
    lastError := str "last_error" }

/-- The dictionaries of the list that name a container. -/
def itemsOf : Json F → List (List (String × Json F))
  | .obj fields =>
    match fields.lookup "containers" with
    | some (.arr items) => items.filterMap fun item =>
        match item with
        | .obj item => if (item.lookup "container").any truthy then some item else none
        | _ => none
    | _ => []
  | _ => []

/-- `asdict`, its items in key order. -/
def asDict (e : Unconfirmed) : List (String × Json F) := [
  ("added", .str (.ofList e.added)), ("attempts", .int e.attempts),
  ("container", .str (.ofList e.container)), ("last_error", .str (.ofList e.lastError)),
  ("run_id", .str (.ofList e.runId)), ("task_id", .str (.ofList e.taskId))]

def written (entries : List Unconfirmed) : Stored F :=
  .text (some (.obj [("containers", .arr (entries.map fun e => .obj (asDict e)))]))

end Stored

section Interface

/-- What the clock, the file system and the daemon are asked. -/
inductive Op
  | clock
  | utcNow
  | openFile
  | writeFile
  | inspect (container : Text) (timeout : ℚ)
  | remove (container : Text) (timeout : ℚ)

/-- A process that ended. -/
structure Completed where
  returncode : ℤ
  stdout : Text
  stderr : Text

abbrev Op.Ans : Op → Type
  | clock => ℚ
  | utcNow => Text
  | openFile | writeFile => Unit
  | inspect .. | remove .. => Completed

/-- An exception by its type. -/
inductive Fault
  | os (type : Text)
  | subprocess (type : Text)
  | other (type : Text)

abbrev face : Interface := ⟨Op, Op.Ans, Fault⟩

end Interface

section Queue

variable {F : Type} [PyFloat F] (isPrintable : Char → Bool) (trunc : F → Except IntError ℤ)

abbrev Step (F α : Type) := Prog face Empty (Stored F) α

def ask {F : Type} (op : Op) : Step F op.Ans := Prog.call (I := face) op

/-- What is read of a file that could be opened: one that cannot be understood is empty. -/
def entriesOf : Stored F → Except Fault (List Unconfirmed)
  | .missing | .text none => .ok []
  | .undecodable => .error (.other "UnicodeDecodeError".toList)
  | .text (some value) =>
    match (itemsOf value).mapM (entryOf isPrintable trunc) with
    | .ok entries => .ok entries
    | .error .value => .ok []
    | .error .overflow => .error (.other "OverflowError".toList)

/-- `_read`: so is one that cannot be opened. -/
def read : Step F (List Unconfirmed) := do
  match ← tried (ask .openFile) with
  | .error (.os _) => pure []
  | .error exc => Prog.raise exc
  | .ok () =>
    let stored ← Prog.get
    match entriesOf isPrintable trunc stored with
    | .ok entries => pure entries
    | .error exc => Prog.raise exc

/-- `_write`: the file is replaced as a whole or stays as it is. -/
def write (entries : List Unconfirmed) : Step F Unit := do
  ask .writeFile
  Prog.modify fun _ => written entries

/-- `add`: the first record of a container stays. -/
def add (container runId taskId : Text) : Step F Unit := do
  let entries ← read isPrintable trunc
  if entries.any fun e => e.container = container then pure ()
  else
    let now ← ask .utcNow
    write (entries ++ [⟨container, runId, taskId, 0, now, []⟩])

end Queue

section Pass

variable {F : Type} [PyFloat F] (isPrintable : Char → Bool) (trunc : F → Except IntError ℤ)

def inspectTimeout : ℚ := 10

def rmTimeout : ℚ := 30

def budgetExhausted : Text := "pass budget exhausted".toList

/-- `_left`: the time the next call of the daemon may take. -/
def timeLeft (deadline : Option ℚ) (cap : ℚ) : Step F (Option ℚ) :=
  match deadline with
  | none => pure (some cap)
  | some deadline => do
    let now ← ask .clock
    pure (if deadline - now ≤ 0 then none else some (min cap (deadline - now)))

def noSuch (stderr : Text) : Bool := contains (lower stderr) "no such".toList

/-- The answer of `docker inspect`, read strictly. -/
def stoppedOf (r : Completed) : Option Bool :=
  if r.returncode = 0 then
    if strip r.stdout = "false".toList then some true
    else if strip r.stdout = "true".toList then some false
    else none
  else if noSuch r.stderr then some true
  else none

/-- `container_stopped` -/
def containerStopped (container : Text) (timeout : ℚ) : Step F (Option Bool) :=
  catching (do
    let r ← ask (.inspect container (max timeout (1 / 1000)))
    pure (stoppedOf r)) fun exc =>
    match exc with
    | .os _ | .subprocess _ => pure none
    | exc => Prog.raise exc

/-- The last characters of a text. -/
def tailOf (n : ℕ) (s : Text) : Text := s.drop (s.length - n)

/-- `_rm` -/
def rm (container : Text) (timeout : ℚ) : Step F (Option Text) :=
  catching (do
    let r ← ask (.remove container timeout)
    if r.returncode = 0 ∨ noSuch r.stderr = true then pure none
    else pure (some ("docker rm -f failed (rc=".toList ++ intText r.returncode ++ "): ".toList ++
      tailOf 200 (strip r.stderr)))) fun exc =>
    match exc with
    | .os type | .subprocess type => pure (some ("docker rm -f failed: ".toList ++ type))
    | exc => Prog.raise exc

/-- `_reap`: no error once the daemon has been told to remove the container and says it does not run. -/
def reap (container : Text) (deadline : Option ℚ) : Step F (Option Text) := do
  match ← timeLeft deadline inspectTimeout with
  | none => pure (some ("container state unknown (".toList ++ budgetExhausted ++ ")".toList))
  | some left =>
    let before ← containerStopped container left
    match ← timeLeft deadline rmTimeout with
    | none =>
      let state := if before = some true then "not running".toList else "state unknown".toList
      pure (some ("container ".toList ++ state ++ "; docker rm -f not attempted (".toList ++
        budgetExhausted ++ ")".toList))
    | some left =>
      let rmError ← rm container left
      if before = some true ∧ rmError = none then pure none
      else
        let why := rmError.elim [] fun e => "; ".toList ++ e
        match ← timeLeft deadline inspectTimeout with
        | none => pure (some ("container state unknown (".toList ++ budgetExhausted ++ ")".toList ++ why))
        | some left =>
          let after ← containerStopped container left
          if after = some true then pure none
          else
            let state := if after = some false then "still running".toList
              else "state unknown (daemon not answering)".toList
            pure (some ("container ".toList ++ state ++ why))

/-- Whether the time of a pass is up. -/
def expired (deadline : Option ℚ) : Step F Bool :=
  match deadline with
  | none => pure false
  | some deadline => do
    let now ← ask .clock
    pure (deadline ≤ now)

variable (maxAttempts : ℕ)

/-- The entries one after the other: what stays in the queue and what leaves it. -/
def reapFrom (deadline : Option ℚ) : List Unconfirmed → Step F (List Unconfirmed × List ReapResult)
  | [] => pure ([], [])
  | entry :: entries => do
    if ← expired deadline then pure (entry :: entries, [])
    else
      let attempts := entry.attempts + 1
      match ← reap entry.container deadline with
      | none =>
        let (keep, ended) ← reapFrom deadline entries
        pure (keep, ⟨entry, true, attempts, []⟩ :: ended)
      | some error =>
        let (keep, ended) ← reapFrom deadline entries
        if maxAttempts ≤ attempts then
          let detail := error ++ "; gave up after ".toList ++ intText attempts ++ " attempt(s) — `".toList ++
            byHand entry.container ++ "` reaps it by hand".toList
          pure (keep, ⟨entry, false, attempts, detail⟩ :: ended)
        else pure ({ entry with attempts, lastError := error } :: keep, ended)

/-- When the time of a pass is up. -/
def deadlineOf : Option ℚ → Step F (Option ℚ)
  | none => pure none
  | some budget => do
    let now ← ask .clock
    pure (some (now + max 0 budget))

/-- `reap_once` -/
def reapOnce (budgetS : Option ℚ) : Step F (List ReapResult) := do
  let deadline ← deadlineOf budgetS
  let entries ← read isPrintable trunc
  if entries = [] then pure []
  else
    let pass ← reapFrom maxAttempts deadline entries
    let store := if pass.1 = entries then pure () else write pass.1
    store
    pure pass.2

end Pass

end CommitReplay.ContainerReaper
