import CommitReplay.TransitionRuns
import Mathlib.Data.List.Dedup
import Mathlib.Logic.Function.Basic

/-! The posture gates of runs at once over one store of qualification records. The latest record of a task in
a posture is in force; what was measured on a set that failed its digest is revoked, and so is the task whose
gold went red. -/
namespace CommitReplay.PostureGates

open CommitReplay.TransitionRuns

inductive QualState
  | qualified | unqualified | revoked | legacy
deriving DecidableEq, Repr

/-- A record; `P` is what it measured. -/
structure Qualification (P : Type) where
  qualificationId : String
  repo : String
  taskId : String
  postureId : String
  state : QualState
  code : String := ""
  message : String := ""
  keys : List String := []
  runId : String := ""
  facts : P

structure Place where
  repo : String
  taskId : String
  postureId : String
deriving DecidableEq

variable {P : Type}

def Qualification.place (q : Qualification P) : Place := ⟨q.repo, q.taskId, q.postureId⟩

def Qualification.isQualified (q : Qualification P) : Bool := q.state = .qualified

def Qualification.cites (q : Qualification P) (keys : List String) : Bool := q.keys.any fun k => k ∈ keys

/-- A row of the store, with how much had happened when its measurement began. -/
structure Row (P : Type) where
  record : Qualification P
  began : ℕ

section Store

/-- The latest record of the place. -/
def latest (rows : List (Row P)) (p : Place) : Option (Row P) :=
  (rows.filter fun r => r.record.place = p).getLast?

/-- The places in the order of their first rows. -/
def placesOf (rows : List (Row P)) : List Place :=
  (rows.map fun r => r.record.place).reverse.dedup.reverse

/-- What `revoke_citing` finds to revoke: the records in force that are qualified and cite one of the keys. -/
def citing (rows : List (Row P)) (keys : List String) : List (Qualification P) :=
  ((placesOf rows).filterMap (latest rows)).map Row.record |>.filter fun q => q.isQualified && q.cites keys

/-- The record that revokes another: its facts, the code, and who revoked it. -/
def revoked (newId code actor reason runId : String) (q : Qualification P) : Qualification P :=
  { q with
    qualificationId := newId
    state := .revoked
    code := code
    message := String.ofList
      (("revoked by " ++ (if actor = "" then "the worker" else actor) ++ ": " ++ reason).toList.take 500)
    runId := if runId = "" then q.runId else runId }

end Store

inductive SetState
  | intact | damaged | absent
deriving DecidableEq

/-- What a gate is in the middle of. -/
inductive Phase (P : Type)
  | idle
  | measuring (task : String) (keys : List String) (began : ℕ)
  | measured (q : Qualification P) (began : ℕ)
  | refused (key : String) (since : ℕ)
  | revoking (key : String) (since : ℕ) (todo : List (Qualification P))
  | grading (task : String)
  | controlled (task error : String) (since : ℕ)

structure Gate (P : Type) where
  repo : String
  postureId : String
  runId : String
  actor : String
  qualifyFirst : Bool
  known : String → Option (Qualification P) := fun _ => none
  qualifications : String → Option (Qualification P) := fun _ => none
  deps : String → Option (List String) := fun _ => none
  verified : List String := []
  whole : List String := []
  phase : Phase P := .idle

def Gate.placeOf (g : Gate P) (task : String) : Place := ⟨g.repo, task, g.postureId⟩

/-- What happened, with how much had happened at the failure or the control it goes back to. -/
inductive Entry (ι : Type)
  | quarantined (key : String)
  | failed (key : String)
  | read (key : String) (since : ℕ)
  | returned (key : String) (since : ℕ)
  | intact (i : ι) (key : String)
  | context (i : ι) (task : String) (keys : List String)
  | red (p : Place)
  | revokedRed (p : Place) (since : ℕ)

structure State (P ι : Type) where
  rows : List (Row P)
  sets : String → SetState
  gates : ι → Gate P
  log : List (Entry ι)

inductive Label (P ι : Type)
  | damage (key : String)
  | load (i : ι)
  | admitTask (i : ι) (task : String) (keys : List String)
  | measure (i : ι) (newId : String) (state : QualState) (code message : String) (facts : P)
  | append (i : ι)
  | context (i : ι) (task : String) (keys : List String)
  | readTable (i : ι)
  | revokeNext (i : ι) (newId reason : String)
  | control (i : ι) (error : String) (red : Bool)
  | onEnvironment (i : ι) (newId : String)

section Steps

variable {ι : Type} [DecidableEq ι]

def State.setGate (s : State P ι) (i : ι) (g : Gate P) : State P ι :=
  { s with gates := Function.update s.gates i g }

def damage (s : State P ι) (key : String) : State P ι :=
  { s with sets := fun k => if k = key ∧ s.sets k = .intact then .damaged else s.sets k }

/-- `known`: the records in force in this posture, as they are now. -/
def load (s : State P ι) (i : ι) : State P ι :=
  let g := s.gates i
  match g.phase with
  | .idle => s.setGate i { g with known := fun task => (latest s.rows (g.placeOf task)).map Row.record }
  | _ => s

/-- A set is fetched and sealed where there is none, and a damaged one is quarantined and sealed afresh unless
the provider hashed it whole before. -/
def sealOrReuse (s : State P ι) (i : ι) (key : String) : State P ι :=
  let g := s.gates i
  match s.sets key with
  | .absent => { s with sets := Function.update s.sets key .intact }
  | .intact => s.setGate i { g with whole := key :: g.whole }
  | .damaged =>
    if key ∈ g.whole then s
    else { s with sets := Function.update s.sets key .intact, log := s.log ++ [.quarantined key] }

/-- A task with a record is taken as the record says; one without, or one that was revoked, is qualified
first where the gate does so, which begins with its bindings. -/
def admitTask (s : State P ι) (i : ι) (task : String) (keys : List String) : State P ι :=
  let g := s.gates i
  match g.phase with
  | .idle =>
    match (g.known task).filter fun q => !(q.state = .revoked && g.qualifyFirst) with
    | some q => s.setGate i { g with qualifications := Function.update g.qualifications task (some q) }
    | none =>
      if g.qualifyFirst then
        let s' := keys.foldl (fun s key => sealOrReuse s i key) s
        s'.setGate i { s'.gates i with phase := .measuring task keys s.log.length }
      else s
  | _ => s

/-- The measurement ends with a record, qualified or not. -/
def measure (s : State P ι) (i : ι) (newId : String) (state : QualState) (code message : String) (facts : P) :
    State P ι :=
  let g := s.gates i
  match g.phase with
  | .measuring task keys began =>
    s.setGate i { g with
      phase := .measured ⟨newId, g.repo, task, g.postureId, state, code, message, keys, g.runId, facts⟩ began }
  | _ => s

def append (s : State P ι) (i : ι) : State P ι :=
  let g := s.gates i
  match g.phase with
  | .measured q began =>
    { s.setGate i { g with
        phase := .idle, qualifications := Function.update g.qualifications q.taskId (some q) } with
      rows := s.rows ++ [⟨q, began⟩] }
  | _ => s

/-- The sets a task cites are hashed in their order, up to the first that fails; one that is there and fails
is moved to quarantine. -/
def verify (s : State P ι) (i : ι) : List String → State P ι × Option String
  | [] => (s, none)
  | key :: keys =>
    match s.sets key with
    | .intact => verify { s with log := s.log ++ [.intact i key] } i keys
    | .damaged =>
      ({ s with sets := Function.update s.sets key .absent, log := s.log ++ [.quarantined key, .failed key] },
        some key)
    | .absent => ({ s with log := s.log ++ [.failed key] }, some key)

/-- `deps_for`: a task's sets are resolved once in a run. -/
def depsFor (s : State P ι) (i : ι) (task : String) (resolved : List String) : State P ι × List String :=
  match (s.gates i).deps task with
  | some keys => (s, keys)
  | none =>
    let s' := resolved.foldl (fun s key => sealOrReuse s i key) s
    let g := s'.gates i
    (s'.setGate i { g with deps := Function.update g.deps task (some resolved) }, resolved)

/-- The sets are hashed unless the gate hashed all of them before. -/
def verifyOnce (s : State P ι) (i : ι) (keys : List String) : State P ι × Option String :=
  if keys.all fun k => k ∈ (s.gates i).verified then (s, none)
  else
    let s' := (verify s i keys).1
    match (verify s i keys).2 with
    | none =>
      let g := s'.gates i
      (s'.setGate i { g with verified := g.verified ++ keys }, none)
    | some key => (s', some key)

/-- `context_for`: refused unless the gate's own record is of the task and the posture and qualified, and the
task's sets are intact. -/
def contextFor (s : State P ι) (i : ι) (task : String) (resolved : List String) : State P ι :=
  let g := s.gates i
  match g.phase, g.qualifications task with
  | .idle, some q =>
    let s₁ := (depsFor s i task resolved).1
    let keys := (depsFor s i task resolved).2
    let s₂ := (verifyOnce s₁ i keys).1
    match (verifyOnce s₁ i keys).2 with
    | some key => s₂.setGate i { s₂.gates i with phase := .refused key s₂.log.length }
    | none =>
      if q.taskId = task ∧ q.postureId = g.postureId ∧ q.isQualified then
        { s₂.setGate i { s₂.gates i with phase := .grading task } with
          log := s₂.log ++ [.context i task keys] }
      else s₂
  | _, _ => s

/-- `revoke_citing` reads the table once. -/
def readTable (s : State P ι) (i : ι) : State P ι :=
  let g := s.gates i
  match g.phase with
  | .refused key since =>
    { s.setGate i { g with phase := .revoking key since (citing s.rows [key]) } with
      log := s.log ++ [.read key since] }
  | _ => s

/-- The gate's own view of what it revoked. -/
def ownView (key reason : String) (q : Qualification P) : Qualification P :=
  if q.isQualified && q.cites [key] then
    { q with qualificationId := "", state := .revoked, code := "BUNDLE_INTEGRITY", message := reason }
  else q

/-- It revokes one record after another, each committed, and then in the gate's own view. -/
def revokeNext (s : State P ι) (i : ι) (newId reason : String) : State P ι :=
  let g := s.gates i
  match g.phase with
  | .revoking key since (q :: todo) =>
    let actor := if g.actor = "" then "worker" else g.actor
    { s.setGate i { g with phase := .revoking key since todo } with
      rows := s.rows ++ [⟨revoked newId "BUNDLE_INTEGRITY" actor reason g.runId q, s.log.length⟩] }
  | .revoking key since [] =>
    { s.setGate i { g with
        phase := .idle
        qualifications := fun task => (g.qualifications task).map (ownView key reason) } with
      log := s.log ++ [.returned key since] }
  | _ => s

/-- A trial ends; its gold control ran red or it did not. -/
def control (s : State P ι) (i : ι) (error : String) (red : Bool) : State P ι :=
  let g := s.gates i
  match g.phase with
  | .grading task =>
    if red then
      { s.setGate i { g with phase := .controlled task error (s.log.length + 1) } with
        log := s.log ++ [.red (g.placeOf task)] }
    else s.setGate i { g with phase := .idle }
  | _ => s

/-- `on_environment` of a control that ran red. -/
def onEnvironment (s : State P ι) (i : ι) (newId : String) : State P ι :=
  let g := s.gates i
  match g.phase with
  | .controlled task error since =>
    match (g.qualifications task).filter Qualification.isQualified with
    | none => s.setGate i { g with phase := .idle }
    | some q =>
      let actor := if g.actor = "" then "worker" else g.actor
      let record := revoked newId "QUAL_ENV_WITNESS_RED" actor error g.runId q
      { s.setGate i { g with
          phase := .idle, qualifications := Function.update g.qualifications task (some record) } with
        rows := s.rows ++ [⟨record, s.log.length⟩]
        log := s.log ++ [.revokedRed (g.placeOf task) since] }
  | _ => s

def step (s : State P ι) : Label P ι → State P ι
  | .damage key => damage s key
  | .load i => load s i
  | .admitTask i task keys => admitTask s i task keys
  | .measure i newId state code message facts => measure s i newId state code message facts
  | .append i => append s i
  | .context i task keys => contextFor s i task keys
  | .readTable i => readTable s i
  | .revokeNext i newId reason => revokeNext s i newId reason
  | .control i error red => control s i error red
  | .onEnvironment i newId => onEnvironment s i newId

end Steps

end CommitReplay.PostureGates
