import CommitReplay.PythonRepr
import CommitReplay.ReadingRecord

/-! The runs a reserved reading admits: a run may set nothing that could steer an attempt once it
is reserved, and a run of a loop arm files its commits in the order they were registered in. -/
namespace CommitReplay.ReadingRuns

open CommitReplay.PythonText CommitReplay.JsonValue CommitReplay.JsonText CommitReplay.PythonRepr
open CommitReplay.ContextArms CommitReplay.RowChecks CommitReplay.ReadingRows
open CommitReplay.ReadingRecord

/-- A run as it is filed: what it runs, what builds it, and its parameters. -/
structure Run (F : Type) where
  kind : String
  mode : String
  builder : String
  model : String
  provider : String
  ladder : List (Json F)
  params : List (String × Json F)

/-- Why a field of a run is refused, with what its message names. -/
inductive Why (F : Type) where
  | carriesNo (key : String)
  | keepsDefault (key : String) (default : Json F)
  | stopsAtFirst (key : String)
  | climbsOneLadder
  | builtBy (name value : String)
  | readsFactoryRuns
  | readsRuns
  | runsIn (kind mode : String)
  | armNotRead (arm : String)
  | namesArm
  | namesAuthor (author : String)
  | learningOff
  | spendsOn (profile : String)
  | filesInOrder (arm : String) (left total : ℕ)

/-- The refusal `reading_run_fields`: the fields, why each, and the arm the run would be of. -/
structure RunRefusal (F : Type) where
  reasons : List (String × Why F)
  arm : String

def RunRefusal.fields {F : Type} (refusal : RunRefusal F) : List String :=
  refusal.reasons.map Prod.fst

section Fields

def reservedRunParams : List String :=
  ["task_ids", "limit", "pool", "executor", "timeout", "max_cost_usd", "budget_profile",
    "learning", "arm", "test_author", "reading_id", "campaign_id", "outage_stop", "env_stop",
    "qualify_first"]

def reservedFactoryParams : List String :=
  ["task_ids", "limit", "pool", "executor", "timeout", "max_cost_usd", "test_author",
    "reading_id", "outage_stop", "env_stop", "qualify_first", "backlog_hash", "evolutions_hash",
    "deliver", "max_rework"]

variable {F N : Type}

def reservedRunDefaults : List (String × Json F) :=
  [("pool", .str ""), ("executor", .str ""), ("timeout", .int 0)]

def reservedRunStops : List String := ["env_stop", "outage_stop"]

/-- The kinds of run that are read: the mode each runs in and the base of its arm. -/
def reservedRunKinds : List (String × String × Base) :=
  [("replay", "sighted", .S3), ("blind", "blind", .A0)]

/-- `v in (default, None)` for a text or for zero. -/
def atDefault [PyFloat F] (default v : Json F) : Bool :=
  isNone v || match default with
    | .str s => eqStr s v
    | _ => eqBool false v

/-- `type(v) is int and v == 1`. -/
def isStop : Json F → Bool
  | .int n => n = 1
  | _ => false

/-- The model a test author names, without a version or a vendor. -/
def testAuthorModel (testAuthor : String) : String :=
  match testAuthor.toList.splitOn ':' with
  | _ :: model :: _ =>
    .ofList ((splitHead '@' (lower (strip model))).rtakeWhile (· ≠ '/'))
  | _ => ""

example : testAuthorModel "llm:Vendor/Claude-5@2:api" = "claude-5" := by rfl

/-- `reasons[field] = why` on a condition. -/
def reasonIf (c : Bool) (field : String) (why : Why F) : List (String × Why F) :=
  if c then [(field, why)] else []

lemma reasonIf_eq_nil {c : Bool} {field : String} {why : Why F} :
    reasonIf c field why = [] ↔ c = false := by
  cases c <;> simp [reasonIf]

variable [PyFloat F]

/-- What a run sets that it may not, whatever its kind. -/
def runShapeReasons (r : Reading N) (allowed : List String) (run : Run F) :
    List (String × Why F) :=
  List.flatten [
    run.params.flatMap fun p => reasonIf (p.1 ∉ allowed) p.1 (.carriesNo p.1),
    reservedRunDefaults.flatMap fun d =>
      reasonIf ((run.params.lookup d.1).any (!atDefault d.2 ·)) d.1 (.keepsDefault d.1 d.2),
    reservedRunStops.flatMap fun key =>
      reasonIf ((run.params.lookup key).any (!isStop ·)) key (.stopsAtFirst key),
    reasonIf (run.ladder.length ≠ 1 || run.ladder.any (!eqStr "r1" ·)) "ladder" .climbsOneLadder,
    reasonIf (run.builder ≠ r.cell.get "builder") "builder"
      (.builtBy "builder" (r.cell.get "builder")),
    reasonIf (run.model ≠ r.cell.get "model") "model" (.builtBy "model" (r.cell.get "model")),
    reasonIf (run.provider ≠ r.cell.get "provider") "provider"
      (.builtBy "provider" (r.cell.get "provider"))]

end Fields

section Order

variable {F N : Type} [PyFloat F] (isPrintable : Char → Bool)

/-- `[str(t) for t in params.get("task_ids") or []]`, `none` where a number is iterated over. -/
def taskIds (run : Run F) : Option (List String) :=
  match run.params.lookup "task_ids" with
  | none => some []
  | some v =>
    if !truthy v then some []
    else match v with
      | .arr xs => some (xs.map (pyStr isPrintable))
      | .obj fields => some (fields.map Prod.fst)
      | .str s => some (s.toList.map String.singleton)
      | _ => none

/-- The commits reserved on an arm. -/
def reservedOn (r : Reading N) (arm : String) : List String :=
  ((r.reservations.getD []).filter (·.arm = arm)).map Reservation.taskId

/-- Those not reserved are, in order, the first of the enrolled ones that are not. -/
def filedInOrder (order reserved tasks : List String) : Bool :=
  let todo := order.filter (· ∉ reserved)
  let rest := tasks.filter (· ∉ reserved)
  tasks ≠ [] && tasks.all (· ∈ order) && rest = todo.take rest.length

def loopOrderReason (r : Reading N) (arm : String) (run : Run F) : Option (Option (Why F)) := do
  let tasks ← taskIds isPrintable run
  let order := enrolledCommits r arm 0
  let reserved := reservedOn r arm
  if filedInOrder order reserved tasks then some none
  else some (some (.filesInOrder arm (order.filter (· ∉ reserved)).length order.length))

end Order

section Refusal

variable {F N : Type} [PyFloat F] (isPrintable : Char → Bool)

/-- `str(params.get(key, "") or "")`. -/
def paramStr (run : Run F) (key : String) : String :=
  match run.params.lookup key with
  | some v => if truthy v then pyStr isPrintable v else ""
  | none => ""

/-- A run that names neither runs with the loop on. -/
def loopOn (run : Run F) : Bool :=
  (run.params.lookup "learning").isNone && (run.params.lookup "budget_profile").isNone

/-- The arm's identifier with the loop on or off, empty where the grammar has no such arm. -/
def armId (a : ContextArm) (loop : Bool) : String :=
  if a.wellFormed && (a.withLoop loop).wellFormed then (a.withLoop loop).id else ""

def paramIs (run : Run F) (key value : String) : Bool :=
  (run.params.lookup key).any (eqStr value)

/-- The reasons against a factory run of a forward reading, and the arm it is of. -/
def factoryReasons (r : Reading N) (run : Run F) : List (String × Why F) × String :=
  let reasons := List.flatten [
    runShapeReasons r reservedFactoryParams run,
    reasonIf (run.kind ≠ "factory") "kind" .readsFactoryRuns,
    reasonIf (run.kind = "factory" ∧ run.mode ≠ "sighted") "mode" (.runsIn "factory" "sighted")]
  let arm := if reasons.any (·.1 ∈ ["kind", "mode"]) then "" else "S2"
  (reasons ++ reasonIf (arm ≠ "" ∧ arm ∉ r.arms) "arm" (.armNotRead arm), arm)

/-- The reasons against a replay or blind run before its arm is known. -/
def replayReasons (r : Reading N) (run : Run F) : List (String × Why F) :=
  let named := paramStr isPrintable run "arm"
  let testAuthor := paramStr isPrintable run "test_author"
  let s1 := named = "S1"
  List.flatten [
    runShapeReasons r reservedRunParams run,
    match reservedRunKinds.lookup run.kind with
    | none => [("kind", .readsRuns)]
    | some (mode, _) => reasonIf (run.mode ≠ mode) "mode" (.runsIn run.kind mode),
    reasonIf (named ≠ "" ∧ named ≠ "S1" ∨ s1 ∧ run.kind ≠ "blind") "arm" .namesArm,
    reasonIf (testAuthor ≠ "" ∧ (¬s1 ∨ testAuthorModel testAuthor ≠ r.authorModel)) "test_author"
      (.namesAuthor r.authorModel),
    reasonIf (!loopOn run && !paramIs run "learning" "off") "learning" .learningOff,
    reasonIf (!loopOn run && !paramIs run "budget_profile" r.budgetProfile) "budget_profile"
      (.spendsOn r.budgetProfile)]

/-- The arm a replay or blind run is of, where nothing said so far is against naming it. -/
def replayArm (r : Reading N) (run : Run F) : Option String :=
  if (replayReasons isPrintable r run).any (·.1 ∈ ["kind", "mode", "arm", "test_author"]) then none
  else (reservedRunKinds.lookup run.kind).map fun shape =>
    armId (if paramStr isPrintable run "arm" = "S1" then ⟨.S1, r.authorModel, "", "", false⟩
      else ⟨shape.2, "", "", "", false⟩) (loopOn run)

def armReasons (r : Reading N) (run : Run F) (arm : String) : Option (List (String × Why F)) :=
  if arm ∉ r.arms then some [("arm", .armNotRead arm)]
  else if loopOn run then
    (loopOrderReason isPrintable r arm run).map fun why => (why.map (("task_ids", ·))).toList
  else some []

/-- Every reason against a run, and the arm it would be of; `none` where reading its task ids
raises. -/
def runReasons (r : Reading N) (run : Run F) : Option (List (String × Why F) × String) :=
  if r.prospective then some (factoryReasons r run)
  else
    match replayArm isPrintable r run with
    | none => some (replayReasons isPrintable r run, "")
    | some arm => (armReasons isPrintable r run arm).map fun reasons =>
        (replayReasons isPrintable r run ++ reasons, arm)

/-- Why a run of a reading may not reserve its commits: of one field the last reason stands. -/
def readingRunRefusal (r : Reading N) (run : Run F) : Option (Option (RunRefusal F)) :=
  if !r.reserved then some none
  else (runReasons isPrintable r run).map fun (reasons, arm) =>
    if reasons = [] then none else some ⟨ofPairs reasons, arm⟩

end Refusal

end CommitReplay.ReadingRuns
