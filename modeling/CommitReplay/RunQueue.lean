import CommitReplay.StoreLedger
import CommitReplay.KeyedTable
import CommitReplay.TransitionRuns

/-! The queue of runs and the guard a run's rows are appended under. A call reads the runs it
changes and then writes the columns it changed; here both happen in one transaction. -/
namespace CommitReplay.RunQueue

open CommitReplay.RowChecks CommitReplay.GradeRows CommitReplay.JsonText CommitReplay.StoreLedger
open CommitReplay.KeyedTable CommitReplay.TransitionRuns

inductive Status
  | queued | running | succeeded | failed | cancelled
deriving DecidableEq, Repr

def Status.terminal : Status → Bool
  | .succeeded | .failed | .cancelled => true
  | _ => false

/-- `counts_json`: the `reclaims` entry, which is the queue's, and the run's own summary. -/
structure Counts (V : Type) where
  reclaims : Option ℤ
  rest : List (String × V)
deriving DecidableEq

structure Run (V : Type) where
  id : String
  repo : String
  kind : String
  mode : String
  status : Status
  counts : Counts V
  progressDone : ℤ
  progressTotal : ℤ
  error : String
  cancelRequested : Bool
  workerId : String
  heartbeat : String
  created : String
  started : String
  finished : String
deriving DecidableEq

abbrev RunTable (V : Type) := Table (Run.id : Run V → String)

inductive QueueError
  | unknownKind | noRepo | idTaken | noWorker | noRun | staleClaim | notTerminal | noActor
deriving DecidableEq, Repr

variable {V : Type}

/-- `int((run.counts_json or {}).get(RECLAIMS_KEY, 0))`. -/
def Run.reclaims (run : Run V) : ℤ := run.counts.reclaims.getD 0

/-- `_merge_counts`: the new summary, which cannot drop the queue's own entry. -/
def mergeCounts (existing new : Counts V) : Counts V :=
  { new with reclaims := new.reclaims.or existing.reclaims }

namespace Run

variable (run : Run V)

/-- `_cancelled`. -/
def cancel (now : String) : Run V :=
  { run with status := .cancelled, finished := now, heartbeat := "" }

def claim (workerId now : String) : Run V :=
  { run with
    status := .running, workerId := workerId, started := now, heartbeat := now, finished := "" }

def beat (now : String) : Run V := { run with heartbeat := now }

def progress (done total : ℤ) (counts : Option (Counts V)) (now : String) : Run V :=
  { run with
    progressDone := max 0 done
    progressTotal := max 0 total
    counts := (counts.map (mergeCounts run.counts)).getD run.counts
    heartbeat := if run.status = .running then now else run.heartbeat }

def finish (status : Status) (counts : Option (Counts V)) (error now : String) : Run V :=
  { run with
    status := status, error := error, finished := now, heartbeat := ""
    counts := (counts.map (mergeCounts run.counts)).getD run.counts }

def requestCancel (now : String) : Run V :=
  match run.status with
  | .queued => { run with cancelRequested := true }.cancel now
  | .running => { run with cancelRequested := true }
  | _ => run

/-- `run.heartbeat or run.started or run.created`. -/
def stamp : String :=
  if run.heartbeat ≠ "" then run.heartbeat
  else if run.started ≠ "" then run.started else run.created

/-- Without a stamp that can be read the run is taken for dead. -/
def stale (olderThan : ℚ) (age : String → Option ℚ) : Bool :=
  match age run.stamp with
  | none => true
  | some a => !(a < olderThan)

/-- The text for a worker whose name needs no escapes. -/
def abandonedError (reclaims : ℤ) (maxReclaims : ℕ) (worker : String) : String :=
  "abandoned: reclaimed " ++ toString reclaims ++ " time(s) after stale heartbeats (max " ++
    toString maxReclaims ++ "); last worker '" ++ worker ++ "'"

def reclaim (maxReclaims : ℕ) (now : String) : Run V :=
  let reclaims := run.reclaims + 1
  let counted := { run with
    counts := { run.counts with reclaims := some reclaims }, workerId := "", heartbeat := "" }
  if maxReclaims < reclaims then
    { counted with
      status := .failed, finished := now
      error := abandonedError reclaims maxReclaims run.workerId }
  else { counted with status := .queued, started := "" }

end Run

/-- A run as a session read it and as the session left it. -/
structure Change (V : Type) where
  old : Run V
  new : Run V

section Write

variable [DecidableEq V]

/-- The UPDATE of a changed run: by primary key, and only of the columns the session changed. -/
def Change.overwrite (c : Change V) (cur : Run V) : Run V :=
  { cur with
    status := if c.new.status = c.old.status then cur.status else c.new.status
    counts := if c.new.counts = c.old.counts then cur.counts else c.new.counts
    progressDone :=
      if c.new.progressDone = c.old.progressDone then cur.progressDone else c.new.progressDone
    progressTotal :=
      if c.new.progressTotal = c.old.progressTotal then cur.progressTotal else c.new.progressTotal
    error := if c.new.error = c.old.error then cur.error else c.new.error
    cancelRequested :=
      if c.new.cancelRequested = c.old.cancelRequested then cur.cancelRequested
      else c.new.cancelRequested
    workerId := if c.new.workerId = c.old.workerId then cur.workerId else c.new.workerId
    heartbeat := if c.new.heartbeat = c.old.heartbeat then cur.heartbeat else c.new.heartbeat
    started := if c.new.started = c.old.started then cur.started else c.new.started
    finished := if c.new.finished = c.old.finished then cur.finished else c.new.finished }

/-- What the changes make of a row of the table. -/
def written (changes : List (Change V)) (cur : Run V) : Run V :=
  match changes.find? fun c => c.old.id = cur.id with
  | some c => c.overwrite cur
  | none => cur

lemma overwrite_old (c : Change V) :
    (c.overwrite c.old).status = c.new.status ∧ (c.overwrite c.old).counts = c.new.counts ∧
      (c.overwrite c.old).workerId = c.new.workerId := by
  refine ⟨?_, ?_, ?_⟩ <;> simp only [Change.overwrite] <;> split_ifs with h <;>
    first | exact h.symm | rfl

lemma written_id (changes : List (Change V)) (cur : Run V) :
    (written changes cur).id = cur.id := by
  unfold written
  split <;> rfl

def commit (changes : List (Change V)) (t : RunTable V) : RunTable V :=
  t.mapRows (written changes) (written_id changes)

lemma get?_commit (changes : List (Change V)) (t : RunTable V) (id : String) :
    (commit changes t).get? id = (t.get? id).map (written changes) :=
  Table.get?_mapRows _ _ id

lemma written_cases (changes : List (Change V)) (cur : Run V) :
    written changes cur = cur ∨
      ∃ c ∈ changes, c.old.id = cur.id ∧ written changes cur = c.overwrite cur := by
  unfold written
  split
  · rename_i c hc
    exact .inr ⟨c, List.mem_of_find?_eq_some hc, by simpa using List.find?_some hc, rfl⟩
  · exact .inl rfl

end Write

section Calls

/-- The calls that change runs already claimed, with what each reads from its clock. -/
inductive Call (V : Type)
  | heartbeat (runId workerId now : String)
  | progress (runId : String) (done total : ℤ) (counts : Option (Counts V)) (workerId now : String)
  | finish (runId : String) (status : Status) (counts : Option (Counts V)) (error workerId now : String)
  | requestCancel (runId actor now : String)
  | reclaimStale (maxReclaims : ℕ) (olderThan : ℚ) (age : String → Option ℚ) (now : String)

/-- `_get_owned`. -/
def getOwned (t : RunTable V) (runId workerId : String) : Except QueueError (Run V) :=
  match t.get? runId with
  | none => .error .noRun
  | some run =>
    if workerId ≠ "" ∧ run.workerId ≠ workerId then .error .staleClaim else .ok run

/-- The runs a call reads and changes, before anything is written. -/
def Call.read (t : RunTable V) : Call V → Except QueueError (List (Change V))
  | .heartbeat runId workerId now =>
    match t.get? runId with
    | none => .ok []
    | some run =>
      if run.status ≠ .running ∨ (workerId ≠ "" ∧ run.workerId ≠ workerId) then .ok []
      else .ok [⟨run, run.beat now⟩]
  | .progress runId done total counts workerId now => do
    let run ← getOwned t runId workerId
    return [⟨run, run.progress done total counts now⟩]
  | .finish runId status counts error workerId now =>
    if status.terminal then do
      let run ← getOwned t runId workerId
      return if run.status.terminal then [] else [⟨run, run.finish status counts error now⟩]
    else .error .notTerminal
  | .requestCancel runId actor now =>
    if actor = "" then .error .noActor
    else
      match t.get? runId with
      | none => .ok []
      | some run => .ok [⟨run, run.requestCancel now⟩]
  | .reclaimStale maxReclaims olderThan age now =>
    .ok ((t.rows.filter fun run => run.status = .running && run.stale olderThan age).map
      fun run => ⟨run, run.reclaim maxReclaims now⟩)

/-- What a call makes of a run it changes, and what it found there. -/
def Call.Makes : Call V → Run V → Run V → Prop
  | .heartbeat _ workerId now, old, new =>
    old.status = .running ∧ (workerId ≠ "" → old.workerId = workerId) ∧ new = old.beat now
  | .progress _ done total counts workerId now, old, new =>
    (workerId ≠ "" → old.workerId = workerId) ∧ new = old.progress done total counts now
  | .finish _ status counts error workerId now, old, new =>
    status.terminal = true ∧ (workerId ≠ "" → old.workerId = workerId) ∧
      old.status.terminal = false ∧ new = old.finish status counts error now
  | .requestCancel _ _ now, old, new => new = old.requestCancel now
  | .reclaimStale maxReclaims olderThan age now, old, new =>
    old.status = .running ∧ old.stale olderThan age = true ∧ new = old.reclaim maxReclaims now

lemma getOwned_eq_ok {t : RunTable V} {runId workerId : String} {run : Run V}
    (h : getOwned t runId workerId = .ok run) :
    t.get? runId = some run ∧ (workerId ≠ "" → run.workerId = workerId) := by
  unfold getOwned at h
  split at h
  · cases h
  · rename_i found hget
    split_ifs at h with hw
    obtain rfl := Except.ok.inj h
    exact ⟨hget, fun hne => not_not.mp fun hn => hw ⟨hne, hn⟩⟩

/-- A call changes runs it read from the table. -/
lemma Call.mem_read {c : Call V} {t : RunTable V} {changes : List (Change V)}
    (h : c.read t = .ok changes) {ch : Change V} (hch : ch ∈ changes) :
    t.get? ch.old.id = some ch.old ∧ c.Makes ch.old ch.new := by
  have hid : ∀ {id run}, t.get? id = some run → t.get? run.id = some run := fun hget =>
    Table.get?_eq_some.mpr ⟨(Table.get?_eq_some.mp hget).1, rfl⟩
  cases c with
  | heartbeat runId workerId now =>
    simp only [Call.read] at h
    split at h
    · obtain rfl := Except.ok.inj h
      cases hch
    · rename_i run hget
      split_ifs at h with hc <;> obtain rfl := Except.ok.inj h
      · cases hch
      · obtain rfl := List.mem_singleton.mp hch
        push Not at hc
        exact ⟨hid hget, hc.1, hc.2, rfl⟩
  | progress runId done total counts workerId now =>
    obtain ⟨run, hown, hret⟩ := bind_eq_ok.mp h
    obtain rfl := Except.ok.inj hret
    obtain rfl := List.mem_singleton.mp hch
    obtain ⟨hget, hw⟩ := getOwned_eq_ok hown
    exact ⟨hid hget, hw, rfl⟩
  | finish runId status counts error workerId now =>
    simp only [Call.read] at h
    split_ifs at h with hs
    obtain ⟨run, hown, hret⟩ := bind_eq_ok.mp h
    obtain ⟨hget, hw⟩ := getOwned_eq_ok hown
    have hret := Except.ok.inj hret
    split_ifs at hret with ht <;> subst hret
    · cases hch
    · obtain rfl := List.mem_singleton.mp hch
      exact ⟨hid hget, hs, hw, by simpa using ht, rfl⟩
  | requestCancel runId actor now =>
    simp only [Call.read] at h
    split_ifs at h with ha
    split at h <;> obtain rfl := Except.ok.inj h
    · cases hch
    · rename_i run hget
      obtain rfl := List.mem_singleton.mp hch
      exact ⟨hid hget, rfl⟩
  | reclaimStale maxReclaims olderThan age now =>
    obtain rfl := Except.ok.inj h
    obtain ⟨run, hrun, rfl⟩ := List.mem_map.mp hch
    obtain ⟨hmem, hc⟩ := List.mem_filter.mp hrun
    simp only [Bool.and_eq_true, decide_eq_true_eq] at hc
    exact ⟨Table.get?_eq_some.mpr ⟨hmem, rfl⟩, hc.1, hc.2, rfl⟩

end Calls

section Evolution

/-- How a run may change over time: its `reclaims` never decreases, a terminal status stays, and
without a reclaim a run that was claimed stays with the worker that claimed it. -/
structure Evolves (r r' : Run V) : Prop where
  id : r'.id = r.id
  reclaims : r.reclaims ≤ r'.reclaims
  terminal : r.status.terminal = true → r'.status = r.status
  owner : r'.reclaims = r.reclaims → r.status ≠ .queued →
    r'.status ≠ .queued ∧ r'.workerId = r.workerId

lemma Evolves.refl (r : Run V) : Evolves r r := ⟨rfl, le_rfl, fun _ => rfl, fun _ h => ⟨h, rfl⟩⟩

lemma Evolves.trans {r s t : Run V} (h : Evolves r s) (h' : Evolves s t) : Evolves r t where
  id := h'.id.trans h.id
  reclaims := h.reclaims.trans h'.reclaims
  terminal ht := (h'.terminal (by rw [h.terminal ht]; exact ht)).trans (h.terminal ht)
  owner he hq := by
    have hs : s.reclaims = r.reclaims := le_antisymm (he ▸ h'.reclaims) h.reclaims
    obtain ⟨hsq, hsw⟩ := h.owner hs hq
    obtain ⟨htq, htw⟩ := h'.owner (he.trans hs.symm) hsq
    exact ⟨htq, htw.trans hsw⟩

/-- The worker a call is scoped to. -/
def Call.scope : Call V → String
  | .heartbeat _ workerId _ => workerId
  | .progress _ _ _ _ workerId _ => workerId
  | .finish _ _ _ _ workerId _ => workerId
  | .requestCancel .. | .reclaimStale .. => ""

/-- The summary a call was given. -/
def Call.counts : Call V → Option (Counts V)
  | .progress _ _ _ counts _ _ => counts
  | .finish _ _ counts _ _ _ => counts
  | _ => none

/-- A `progress` or `finish` scoped to a worker. -/
def Call.reports : Call V → Bool
  | .progress _ _ _ _ workerId _ => workerId ≠ ""
  | .finish _ _ _ _ workerId _ => workerId ≠ ""
  | _ => false

def Call.movesStatus (old : Run V) : Call V → Bool
  | .finish .. | .reclaimStale .. => true
  | .requestCancel .. => old.status = .queued
  | _ => false

def Call.isReclaim : Call V → Bool
  | .reclaimStale .. => true
  | _ => false

/-- What may not have happened to a run between a call's reading it and the call's write: that it
ended, when the call moves its status; that it was reclaimed, when the call counts reclaims, was
given a summary or reports for a worker; and a given summary's own `reclaims` entry is not behind
the run's. -/
structure Call.Undisturbed (c : Call V) (old cur : Run V) : Prop where
  open_ : c.movesStatus old = true → cur.status.terminal = false
  reclaims : c.isReclaim = true ∨ c.counts ≠ none ∨ c.reports = true → cur.reclaims = old.reclaims
  given : ∀ counts n, c.counts = some counts → counts.reclaims = some n → cur.reclaims ≤ n

variable [DecidableEq V]

/-- The `reclaims` entry after a write of a given summary. -/
lemma reclaims_mergeCounts {old cur : Run V} {counts : Option (Counts V)}
    (hr : counts ≠ none → cur.reclaims = old.reclaims)
    (hg : ∀ given n, counts = some given → given.reclaims = some n → cur.reclaims ≤ n) :
    cur.reclaims ≤ (if (counts.map (mergeCounts old.counts)).getD old.counts = old.counts then
      cur.counts else (counts.map (mergeCounts old.counts)).getD old.counts).reclaims.getD 0 := by
  cases counts with
  | none => simp [Run.reclaims]
  | some given =>
    split_ifs
    · exact le_rfl
    · cases hn : given.reclaims with
      | none =>
        have hle := (hr (by simp)).le
        simpa [mergeCounts, hn, Run.reclaims] using hle
      | some n => simpa [mergeCounts, hn] using hg given n rfl hn

/-- A write that nothing disturbed lets its run evolve. -/
theorem Call.Makes.evolves {c : Call V} {old new cur : Run V} (h : c.Makes old new)
    (hu : c.Undisturbed old cur) : Evolves cur ((⟨old, new⟩ : Change V).overwrite cur) := by
  cases c with
  | heartbeat runId workerId now =>
    obtain ⟨-, -, rfl⟩ := h
    exact ⟨rfl, by simp [Run.reclaims, Change.overwrite, Run.beat],
      fun _ => by simp [Change.overwrite, Run.beat],
      fun _ hq => by simpa [Change.overwrite, Run.beat] using hq⟩
  | progress runId done total counts workerId now =>
    obtain ⟨-, rfl⟩ := h
    exact ⟨rfl, reclaims_mergeCounts (fun hc => hu.reclaims (.inr (.inl hc))) hu.given,
      fun _ => by simp [Change.overwrite, Run.progress],
      fun _ hq => by simpa [Change.overwrite, Run.progress] using hq⟩
  | finish runId status counts error workerId now =>
    obtain ⟨hs, -, ho, rfl⟩ := h
    have hopen := hu.open_ rfl
    refine ⟨rfl, reclaims_mergeCounts (fun hc => hu.reclaims (.inr (.inl hc))) hu.given, ?_, ?_⟩
    · intro ht
      rw [ht] at hopen
      cases hopen
    · intro _ _
      have hne : status ≠ old.status := fun he => by rw [he, ho] at hs; cases hs
      refine ⟨?_, by simp [Change.overwrite, Run.finish]⟩
      have hnew : ((⟨old, old.finish status counts error now⟩ : Change V).overwrite cur).status =
          status := if_neg hne
      rw [hnew]
      rintro rfl
      cases hs
  | requestCancel runId actor now =>
    obtain rfl := h
    cases hs : old.status with
    | queued =>
      have hopen := hu.open_ (by simp [Call.movesStatus, hs])
      refine ⟨rfl, by simp [Run.reclaims, Change.overwrite, Run.requestCancel, hs, Run.cancel], ?_,
        fun _ _ => by simp [Change.overwrite, Run.requestCancel, hs, Run.cancel]⟩
      intro ht
      rw [ht] at hopen
      cases hopen
    | running | succeeded | failed | cancelled =>
      exact ⟨rfl, by simp [Run.reclaims, Change.overwrite, Run.requestCancel, hs],
        fun _ => by simp [Change.overwrite, Run.requestCancel, hs],
        fun _ hq => by simpa [Change.overwrite, Run.requestCancel, hs] using hq⟩
  | reclaimStale maxReclaims olderThan age now =>
    obtain ⟨ho, -, rfl⟩ := h
    have hopen := hu.open_ rfl
    have hr := hu.reclaims (.inl rfl)
    have hcounts : (old.reclaim maxReclaims now).counts.reclaims = some (old.reclaims + 1) := by
      unfold Run.reclaim
      dsimp only
      split_ifs <;> rfl
    have hne : (old.reclaim maxReclaims now).counts ≠ old.counts := fun he => by
      have hsame : old.reclaims + 1 = old.reclaims := by
        conv_rhs => rw [Run.reclaims, ← he, hcounts]
        rfl
      omega
    have hlater : ((⟨old, old.reclaim maxReclaims now⟩ : Change V).overwrite cur).reclaims =
        cur.reclaims + 1 := by
      rw [Run.reclaims, Change.overwrite, if_neg hne, hcounts, hr]
      rfl
    refine ⟨rfl, by omega, ?_, fun he => by omega⟩
    intro ht
    rw [ht] at hopen
    cases hopen

end Evolution

section Claiming

def runKinds : List String :=
  ["setup", "probe", "mine", "replay", "blind", "oracle", "controls", "label", "factory", "qualify"]

/-- `stage_queued`, given a new identifier and the clock. -/
def stageQueued (newId now : String) (run : Run V) : Except QueueError (Run V) :=
  if run.kind ∉ runKinds then .error .unknownKind
  else if run.repo = "" then .error .noRepo
  else .ok { run with
    id := if run.id = "" then newId else run.id
    mode := if run.mode = "" then (if run.kind = "blind" then "blind" else "sighted") else run.mode
    status := .queued, workerId := "", heartbeat := "", started := "", finished := ""
    cancelRequested := false
    created := if run.created = "" then now else run.created }

def enqueue (newId now : String) (run : Run V) (t : RunTable V) :
    Except QueueError (RunTable V) := do
  let staged ← stageQueued newId now run
  match t.insert? staged with
  | none => .error .idTaken
  | some t' => .ok t'

lemma enqueue_eq_ok {newId now : String} {run : Run V} {t t' : RunTable V}
    (h : enqueue newId now run t = .ok t') :
    ∃ staged : Run V, staged.status = .queued ∧ staged.workerId = "" ∧
      t.insert? staged = some t' := by
  obtain ⟨staged, hstaged, hins⟩ := bind_eq_ok.mp h
  have hfresh : staged.status = .queued ∧ staged.workerId = "" := by
    unfold stageQueued at hstaged
    by_cases hk : run.kind ∉ runKinds
    · rw [if_pos hk] at hstaged
      cases hstaged
    · by_cases hr : run.repo = ""
      · rw [if_neg hk, if_pos hr] at hstaged
        cases hstaged
      · rw [if_neg hk, if_neg hr] at hstaged
        obtain rfl := Except.ok.inj hstaged
        exact ⟨rfl, rfl⟩
  split at hins
  · cases hins
  · rename_i hsome
    obtain rfl := Except.ok.inj hins
    exact ⟨staged, hfresh.1, hfresh.2, hsome⟩

def Run.older (a b : Run V) : Bool := a.created < b.created || (a.created = b.created && a.id < b.id)

def oldest : List (Run V) → Option (Run V)
  | [] => none
  | run :: rest =>
    match oldest rest with
    | none => some run
    | some other => if other.older run then some other else some run

lemma mem_of_oldest {runs : List (Run V)} {run : Run V} (h : oldest runs = some run) :
    run ∈ runs := by
  induction runs with
  | nil => cases h
  | cons first rest ih =>
    rw [oldest] at h
    split at h
    · exact List.mem_cons.mpr (.inl (Option.some.inj h).symm)
    · rename_i other hother
      split_ifs at h <;> obtain rfl := Option.some.inj h
      · exact List.mem_cons_of_mem _ (ih hother)
      · exact List.mem_cons_self

/-- One transaction of `claim_next`, which repeats as long as the run it takes asks to be
cancelled. A run that another transaction holds is skipped. -/
def claimNext (t : RunTable V) (workerId : String) (kinds : List String) (repo : String)
    (skipped : String → Bool) (now : String) : Except QueueError (List (Change V)) :=
  if workerId = "" then .error .noWorker
  else .ok (match oldest (t.rows.filter fun run => run.status = .queued &&
      (kinds = [] || run.kind ∈ kinds) && (repo = "" || run.repo = repo) && !skipped run.id) with
    | none => []
    | some run => [⟨run, if run.cancelRequested then run.cancel now else run.claim workerId now⟩])

lemma mem_claimNext {t : RunTable V} {workerId : String} {kinds : List String} {repo : String}
    {skipped : String → Bool} {now : String} {changes : List (Change V)}
    (h : claimNext t workerId kinds repo skipped now = .ok changes) {ch : Change V}
    (hch : ch ∈ changes) :
    t.get? ch.old.id = some ch.old ∧ ch.old.status = .queued ∧ workerId ≠ "" ∧
      (ch.new = ch.old.cancel now ∨ ch.new = ch.old.claim workerId now) := by
  unfold claimNext at h
  split_ifs at h with hw
  obtain rfl := Except.ok.inj h
  split at hch
  · cases hch
  · rename_i run hrun
    obtain rfl := List.mem_singleton.mp hch
    obtain ⟨hmem, hc⟩ := List.mem_filter.mp (mem_of_oldest hrun)
    simp only [Bool.and_eq_true, decide_eq_true_eq] at hc
    refine ⟨Table.get?_eq_some.mpr ⟨hmem, rfl⟩, hc.1.1.1, hw, ?_⟩
    dsimp only
    split_ifs
    · exact .inl rfl
    · exact .inr rfl

/-- A queued run that is claimed, or cancelled instead, evolves and keeps its `reclaims`. -/
lemma evolves_claimed [DecidableEq V] {ch : Change V} {workerId now : String}
    (hq : ch.old.status = .queued)
    (h : ch.new = ch.old.cancel now ∨ ch.new = ch.old.claim workerId now) :
    Evolves ch.old (ch.overwrite ch.old) ∧ (ch.overwrite ch.old).reclaims = ch.old.reclaims := by
  have hcounts : (ch.overwrite ch.old).reclaims = ch.old.reclaims := by
    rw [Run.reclaims, (overwrite_old ch).2.1]
    rcases h with h | h <;> rw [h] <;> rfl
  refine ⟨⟨rfl, hcounts.ge, ?_, fun _ hne => absurd hq hne⟩, hcounts⟩
  rw [hq]
  exact nofun

end Claiming

section Guard

/-- What `claim_guard` finds in the append's transaction. -/
def claimGuard (t : RunTable V) (runId workerId : String) (claim : ℤ) : Except Refusal Unit :=
  match t.get? runId with
  | none => .error .noSuchRun
  | some run =>
    refuseIf (run.status ≠ .running || run.workerId ≠ workerId || run.reclaims ≠ claim)
      .attemptSettled

lemma claimGuard_eq_ok {t : RunTable V} {runId workerId : String} {claim : ℤ}
    (h : claimGuard t runId workerId claim = .ok ()) :
    ∃ run, t.get? runId = some run ∧ run.status = .running ∧ run.workerId = workerId ∧
      run.reclaims = claim := by
  unfold claimGuard at h
  split at h
  · cases h
  · rename_i run hget
    rw [refuseIf_eq_ok] at h
    simp only [Bool.or_eq_false_iff, decide_eq_false_iff_not, not_not] at h
    exact ⟨run, hget, h.1.1, h.1.2, h.2⟩

end Guard

end CommitReplay.RunQueue
