import CommitReplay.ClaimedRows

/-! The queue with the two halves of a call apart: a session reads its runs, and other sessions may
commit before it writes the columns it changed. Claims are made in one step, and claims and
reclaims exclude each other by the queue's lock. -/
namespace CommitReplay.RunQueueHalves

open CommitReplay.KeyedTable CommitReplay.TransitionRuns CommitReplay.RunQueue
open CommitReplay.ClaimedRows (newRun undisturbed_self)

variable {V : Type}

/-- A call that has read its runs and not yet written them. -/
structure Session (V : Type) where
  call : Call V
  changes : List (Change V)

structure State (V : Type) where
  runs : RunTable V
  sessions : List (Session V)

def State.init : State V := ⟨Table.empty, []⟩

/-- A reclaim in flight holds the queue's lock. -/
def State.locked (s : State V) : Bool := s.sessions.any fun p => p.call.isReclaim

inductive Label (V : Type)
  | enqueue (newId now : String) (run : Run V)
  | claimNext (workerId : String) (kinds : List String) (repo : String) (skipped : String → Bool)
      (now : String)
  | read (c : Call V)
  | write (i : ℕ)
  | rollback (i : ℕ)

variable [DecidableEq V]

def step (s : State V) : Label V → State V
  | .enqueue newId now run =>
    match enqueue newId now run s.runs with
    | .ok runs => { s with runs }
    | .error _ => s
  | .claimNext workerId kinds repo skipped now =>
    if s.locked then s
    else
      match claimNext s.runs workerId kinds repo skipped now with
      | .ok changes => { s with runs := commit changes s.runs }
      | .error _ => s
  | .read c =>
    if c.isReclaim && s.locked then s
    else
      match c.read s.runs with
      | .ok changes => { s with sessions := s.sessions ++ [⟨c, changes⟩] }
      | .error _ => s
  | .write i =>
    match s.sessions[i]? with
    | some p => ⟨commit p.changes s.runs, s.sessions.eraseIdx i⟩
    | none => s
  | .rollback i => { s with sessions := s.sessions.eraseIdx i }

/-- A call whose halves nothing parts is the transaction of the queue in one step. -/
theorem read_write (s : State V) {c : Call V} {changes : List (Change V)}
    (hlock : (c.isReclaim && s.locked) = false) (h : c.read s.runs = .ok changes) :
    runFrom step s [.read c, .write s.sessions.length] =
      { s with runs := commit changes s.runs } := by
  have hread : step s (.read c) = { s with sessions := s.sessions ++ [⟨c, changes⟩] } := by
    simp [step, hlock, h]
  rw [runFrom_cons, hread, runFrom_cons, runFrom_nil, step]
  simp [List.eraseIdx_append_of_length_le]

/-- What no step may do: write a worker's report on a run it no longer owns, take a run's
`reclaims` back, or move a run out of a terminal status. -/
structure Safe (s : State V) (l : Label V) : Prop where
  owned : ∀ i p, l = .write i → s.sessions[i]? = some p → p.call.reports = true →
    ∀ ch ∈ p.changes, ∃ cur, s.runs.get? ch.old.id = some cur ∧ cur.workerId = p.call.scope
  reclaims : ∀ id run, s.runs.get? id = some run →
    ∃ run', (step s l).runs.get? id = some run' ∧ run.reclaims ≤ run'.reclaims
  terminal : ∀ id run, s.runs.get? id = some run → run.status.terminal = true →
    ∃ run', (step s l).runs.get? id = some run' ∧ run'.status = run.status

/-- A write comes before anything that would make it late. -/
def InTime (s : State V) (l : Label V) : Prop :=
  ∀ i p, l = .write i → s.sessions[i]? = some p → ∀ ch ∈ p.changes, ∀ cur,
    s.runs.get? ch.old.id = some cur → p.call.Undisturbed ch.old cur

section Runs

/-- A queued run has no owner and a running one has. -/
structure Owned (run : Run V) : Prop where
  queued : run.status = .queued → run.workerId = ""
  running : run.status = .running → run.workerId ≠ ""

omit [DecidableEq V] in
lemma owned_of_terminal {run : Run V} (h : run.status.terminal = true) : Owned run := by
  constructor <;> intro hs <;> rw [hs] at h <;> cases h

omit [DecidableEq V] in
lemma owned_congr {run run' : Run V} (h : Owned run) (hs : run'.status = run.status)
    (hw : run'.workerId = run.workerId) : Owned run' :=
  ⟨fun hq => hw.trans (h.queued (hs ▸ hq)), fun hr => hw ▸ h.running (hs ▸ hr)⟩

/-- Even a late write leaves a run owned as its status says. -/
lemma owned_overwrite {c : Call V} {old new cur : Run V} (h : c.Makes old new) (ho : Owned old)
    (hc : Owned cur) : Owned ((⟨old, new⟩ : Change V).overwrite cur) := by
  cases c with
  | heartbeat =>
    obtain ⟨-, -, rfl⟩ := h
    exact owned_congr hc (if_pos rfl) (if_pos rfl)
  | progress =>
    obtain ⟨-, rfl⟩ := h
    exact owned_congr hc (if_pos rfl) (if_pos rfl)
  | finish _ status =>
    obtain ⟨hs, -, hopen, rfl⟩ := h
    refine owned_of_terminal ?_
    have hne : status ≠ old.status := fun he => by rw [he, hopen] at hs; cases hs
    rw [show Run.status _ = status from if_neg hne]
    exact hs
  | requestCancel =>
    obtain rfl := h
    cases hs : old.status with
    | queued =>
      refine owned_of_terminal ?_
      simp [Change.overwrite, Run.requestCancel, hs, Run.cancel, Status.terminal]
    | running | succeeded | failed | cancelled =>
      exact owned_congr hc (by simp [Change.overwrite, Run.requestCancel, hs])
        (by simp [Change.overwrite, Run.requestCancel, hs])
  | reclaimStale maxReclaims _ _ now =>
    obtain ⟨hs, -, rfl⟩ := h
    have hw : ((⟨old, old.reclaim maxReclaims now⟩ : Change V).overwrite cur).workerId = "" := by
      have hnew : (old.reclaim maxReclaims now).workerId = "" := by
        unfold Run.reclaim
        dsimp only
        split_ifs <;> rfl
      rw [Change.overwrite, hnew, if_neg (ho.running hs).symm]
    have hst : ((⟨old, old.reclaim maxReclaims now⟩ : Change V).overwrite cur).status ≠
        .running := by
      have hnew : (old.reclaim maxReclaims now).status ≠ .running := by
        unfold Run.reclaim
        dsimp only
        split_ifs <;> simp
      rw [Change.overwrite, hs, if_neg hnew]
      exact hnew
    exact ⟨fun _ => hw, fun hr => absurd hr hst⟩

lemma owned_claimed {ch : Change V} {workerId now : String} (hne : workerId ≠ "")
    (h : ch.new = ch.old.cancel now ∨ ch.new = ch.old.claim workerId now) :
    Owned (ch.overwrite ch.old) := by
  obtain ⟨hstatus, -, hworker⟩ := overwrite_old ch
  rcases h with h | h <;> rw [h] at hstatus hworker
  · exact owned_of_terminal (by rw [hstatus]; rfl)
  · refine ⟨fun hq => ?_, fun _ => by rw [hworker]; exact hne⟩
    rw [hstatus] at hq
    cases hq

/-- What every step in time keeps: the runs are owned as their statuses say, and since a session
read a run, that run has only evolved. -/
structure Inv (s : State V) : Prop where
  owned : ∀ run ∈ s.runs.rows, Owned run
  since : ∀ p ∈ s.sessions, ∀ ch ∈ p.changes, p.call.Makes ch.old ch.new ∧ Owned ch.old ∧
    ∃ cur, s.runs.get? ch.old.id = some cur ∧ Evolves ch.old cur

omit [DecidableEq V] in
/-- A new table keeps the invariant when each run in it evolved from the one before. -/
lemma Inv.of_evolves {s : State V} (hi : Inv s) {t : RunTable V} {sessions : List (Session V)}
    (howned : ∀ run ∈ t.rows, Owned run) (hsub : ∀ p ∈ sessions, p ∈ s.sessions)
    (hev : ∀ id run, s.runs.get? id = some run →
      ∃ run', t.get? id = some run' ∧ Evolves run run') : Inv ⟨t, sessions⟩ := by
  refine ⟨howned, fun p hp ch hch => ?_⟩
  obtain ⟨hm, ho, cur, hget, he⟩ := hi.since p (hsub p hp) ch hch
  obtain ⟨cur', hget', he'⟩ := hev _ _ hget
  exact ⟨hm, ho, cur', hget', he.trans he'⟩

/-- A commit of changes each of which lets its run evolve and leaves it owned. -/
lemma commit_rows {t : RunTable V} (changes : List (Change V)) (howned : ∀ run ∈ t.rows, Owned run)
    (h : ∀ ch ∈ changes, ∀ cur, t.get? ch.old.id = some cur →
      Evolves cur (ch.overwrite cur) ∧ Owned (ch.overwrite cur)) :
    (∀ run ∈ (commit changes t).rows, Owned run) ∧ ∀ id run, t.get? id = some run →
      ∃ run', (commit changes t).get? id = some run' ∧ Evolves run run' := by
  have hrow : ∀ run ∈ t.rows, Evolves run (written changes run) ∧ Owned (written changes run) := by
    intro run hrun
    rcases written_cases changes run with hw | ⟨ch, hch, he, hw⟩ <;> rw [hw]
    · exact ⟨.refl run, howned run hrun⟩
    · exact h ch hch run (Table.get?_eq_some.mpr ⟨hrun, he.symm⟩)
  constructor
  · intro run hrun
    obtain ⟨cur, hcur, rfl⟩ := List.mem_map.mp hrun
    exact (hrow cur hcur).2
  · intro id run hget
    refine ⟨written changes run, by simp [get?_commit, hget], ?_⟩
    exact (hrow run (Table.get?_eq_some.mp hget).1).1

/-- A step in time keeps the invariant, and every run evolves. -/
theorem step_inv {s : State V} {l : Label V} (hi : Inv s) (hl : InTime s l) :
    Inv (step s l) ∧ ∀ id run, s.runs.get? id = some run →
      ∃ run', (step s l).runs.get? id = some run' ∧ Evolves run run' := by
  have hstay : Inv s ∧ ∀ id run, s.runs.get? id = some run →
      ∃ run', s.runs.get? id = some run' ∧ Evolves run run' :=
    ⟨hi, fun _ run h => ⟨run, h, .refl run⟩⟩
  cases l with
  | enqueue newId now new =>
    rw [step]
    split
    · rename_i runs hrun
      obtain ⟨staged, hq, hw, hins⟩ := enqueue_eq_ok hrun
      have hev : ∀ id run, s.runs.get? id = some run →
          ∃ run', runs.get? id = some run' ∧ Evolves run run' :=
        fun _ run h => ⟨run, Table.get?_insert? hins h, .refl run⟩
      refine ⟨hi.of_evolves (fun run hrun => ?_) (fun _ hp => hp) hev, hev⟩
      rcases (Table.mem_insert? hins).mp hrun with hrun | rfl
      · exact hi.owned run hrun
      · refine ⟨fun _ => hw, fun hr => ?_⟩
        rw [hq] at hr
        cases hr
    · exact hstay
  | claimNext workerId kinds repo skipped now =>
    rw [step]
    split_ifs
    · exact hstay
    · split
      · rename_i changes hread
        obtain ⟨hrows, hev⟩ := commit_rows changes hi.owned fun ch hch cur hget => by
          obtain ⟨hold, hq, hne, hnew⟩ := mem_claimNext hread hch
          obtain rfl := Option.some.inj (hget.symm.trans hold)
          exact ⟨(evolves_claimed hq hnew).1, owned_claimed hne hnew⟩
        exact ⟨hi.of_evolves hrows (fun _ hp => hp) hev, hev⟩
      · exact hstay
  | read c =>
    rw [step]
    split_ifs
    · exact hstay
    · split
      · rename_i changes hread
        refine ⟨⟨hi.owned, fun p hp ch hch => ?_⟩, hstay.2⟩
        rcases List.mem_append.mp hp with hp | hp
        · exact hi.since p hp ch hch
        · obtain rfl := List.mem_singleton.mp hp
          obtain ⟨hget, hmakes⟩ := Call.mem_read hread hch
          exact ⟨hmakes, hi.owned _ (Table.get?_eq_some.mp hget).1, ch.old, hget, .refl _⟩
      · exact hstay
  | write i =>
    rw [step]
    split
    · rename_i p hp
      have hmem : p ∈ s.sessions := List.mem_of_getElem? hp
      obtain ⟨hrows, hev⟩ := commit_rows p.changes hi.owned fun ch hch cur hget => by
        obtain ⟨hmakes, hold, -⟩ := hi.since p hmem ch hch
        exact ⟨hmakes.evolves (hl i p rfl hp ch hch cur hget),
          owned_overwrite hmakes hold (hi.owned cur (Table.get?_eq_some.mp hget).1)⟩
      exact ⟨hi.of_evolves hrows (fun _ => List.mem_of_mem_eraseIdx) hev, hev⟩
    · exact hstay
  | rollback i =>
    exact ⟨hi.of_evolves hi.owned (fun _ => List.mem_of_mem_eraseIdx) hstay.2, hstay.2⟩

/-- A step in time is safe. -/
lemma safe_step {s : State V} {l : Label V} (hi : Inv s) (hl : InTime s l) : Safe s l := by
  have hev := (step_inv hi hl).2
  refine ⟨?_, fun id run h => ?_, fun id run h ht => ?_⟩
  · rintro i p rfl hp hreports ch hch
    obtain ⟨hmakes, hold, cur, hget, hsince⟩ := hi.since p (List.mem_of_getElem? hp) ch hch
    have hr := (hl i p rfl hp ch hch cur hget).reclaims (.inr (.inr hreports))
    have hscope : p.call.scope ≠ "" ∧ ch.old.workerId = p.call.scope := by
      cases hcall : p.call <;> rw [hcall] at hreports hmakes <;>
        first | cases hreports | skip
      · have hne := of_decide_eq_true hreports
        exact ⟨hne, hmakes.1 hne⟩
      · have hne := of_decide_eq_true hreports
        exact ⟨hne, hmakes.2.1 hne⟩
    have hq : ch.old.status ≠ .queued := fun hq => hscope.1 (hscope.2 ▸ hold.queued hq)
    exact ⟨cur, hget, (hsince.owner hr hq).2.trans hscope.2⟩
  · obtain ⟨run', hget, he⟩ := hev id run h
    exact ⟨run', hget, he.reclaims⟩
  · obtain ⟨run', hget, he⟩ := hev id run h
    exact ⟨run', hget, he.terminal ht⟩

/-- In every interleaving in which each write comes in time, each step is safe. -/
theorem zombie_cannot_overwrite (labels : List (Label V))
    (h : Along step InTime (State.init : State V) labels) :
    Along step Safe (State.init : State V) labels :=
  h.strengthen (fun _ _ hi hl => (step_inv hi hl).1) (fun _ _ hi hl => safe_step hi hl)
    ⟨by simp [State.init, Table.empty], by simp [State.init]⟩

end Runs

section OneRun

/-- A worker claims a run. -/
def claimedRun : List (Label Unit) :=
  [.enqueue "" "t0" newRun, .claimNext "w1" [] "" (fun _ => false) "t1"]

def finishCall : Call Unit := .finish "run1" .succeeded none "" "w1" "t2"

def progressCall : Call Unit := .progress "run1" 1 2 (some ⟨none, [("green", ())]⟩) "w1" "t2"

def reclaimCall : Call Unit := .reclaimStale 3 60 (fun _ => none) "t3"

theorem zombie_cannot_overwrite_claimedRun :
    Along step Safe (State.init : State Unit) (claimedRun ++ [.read finishCall, .write 0]) :=
  zombie_cannot_overwrite _ (by
    refine along_append.mpr ⟨⟨nofun, nofun, trivial⟩, nofun, ?_, trivial⟩
    rintro _ _ ⟨⟩ hp ch hch cur hget
    obtain rfl := Option.some.inj hp
    obtain rfl := List.mem_singleton.mp hch
    obtain rfl := Option.some.inj hget
    exact ⟨fun _ => rfl, fun _ => rfl, nofun⟩)

/-- The run of a worker that reads before a reclaim and finishes after the next claim. -/
def overtakenFinish : List (Label Unit) :=
  claimedRun ++ [.read finishCall, .read reclaimCall, .write 1,
    .claimNext "w2" [] "" (fun _ => false) "t4"]

/-- A reclaim that read a run which ends before the reclaim's write. -/
def overtakenReclaim : List (Label Unit) :=
  claimedRun ++ [.read reclaimCall, .read finishCall, .write 1]

/-- A worker that reads before a reclaim and writes its summary after it. -/
def overtakenProgress : List (Label Unit) :=
  claimedRun ++ [.read progressCall, .read reclaimCall, .write 1]

/-- A late finish lands on the run of another worker, a late reclaim queues a finished run again,
and a late summary drops the count of a reclaim. -/
theorem zombie_overwrites :
    ¬ Along step Safe (State.init : State Unit) (overtakenFinish ++ [.write 0]) ∧
      ¬ Along step Safe (State.init : State Unit) (overtakenReclaim ++ [.write 0]) ∧
      ¬ Along step Safe (State.init : State Unit) (overtakenProgress ++ [.write 0]) := by
  refine ⟨fun h => ?_, fun h => ?_, fun h => ?_⟩
  · obtain ⟨-, hlast, -⟩ := along_append.mp h
    obtain ⟨cur, hget, hw⟩ := hlast.owned 0 _ rfl rfl rfl _ (List.mem_singleton_self _)
    obtain rfl := Option.some.inj hget
    exact absurd hw (by decide)
  · obtain ⟨-, hlast, -⟩ := along_append.mp h
    obtain ⟨run', hget, hs⟩ := hlast.terminal "run1" _ rfl rfl
    obtain rfl := Option.some.inj hget
    exact absurd hs (by decide)
  · obtain ⟨-, hlast, -⟩ := along_append.mp h
    obtain ⟨run', hget, hr⟩ := hlast.reclaims "run1" _ rfl
    obtain rfl := Option.some.inj hget
    exact absurd hr (by decide)

end OneRun

end CommitReplay.RunQueueHalves
