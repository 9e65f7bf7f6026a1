import CommitReplay.RunQueue

/-! The runs and the rows together, changed by one transaction after another. A row appended under
a claim is appended while its worker holds the run, so none arrives once the claim is settled. -/
namespace CommitReplay.ClaimedRows

open CommitReplay.RowChecks CommitReplay.GradeRows CommitReplay.JsonText CommitReplay.StoreLedger
open CommitReplay.JsonRoundTrip CommitReplay.KeyedTable CommitReplay.TransitionRuns
open CommitReplay.RunQueue

variable {V F : Type} [PyFloat F]

/-- A row and the claim it was appended under. -/
structure Landed (F : Type) [PyFloat F] where
  runId : String
  workerId : String
  claim : ℤ
  row : GradeRow F

structure State (V F : Type) [PyFloat F] where
  runs : RunTable V
  grades : List (Stored F)
  landed : List (Landed F)

def State.init : State V F := ⟨Table.empty, [], []⟩

/-- The transactions, with what each reads from its clock. -/
inductive Label (V F : Type) [PyFloat F]
  | enqueue (newId now : String) (run : Run V)
  | claimNext (workerId : String) (kinds : List String) (repo : String) (skipped : String → Bool)
      (now : String)
  | call (c : Call V)
  | append (runId workerId : String) (claim : ℤ) (row : GradeRow F)

/-- A summary given to the queue leaves the `reclaims` entry to it. -/
def Label.Plain : Label V F → Prop
  | .call c => ∀ counts, c.counts = some counts → counts.reclaims = none
  | _ => True

variable [DecidableEq V] (columns : Columns F) (sha256 : Sha256)
variable (accepts : List (Stored F) → Stored F → Bool)

/-- One transaction; a refused one changes nothing. -/
def step (s : State V F) : Label V F → State V F
  | .enqueue newId now run =>
    match enqueue newId now run s.runs with
    | .ok runs => { s with runs }
    | .error _ => s
  | .claimNext workerId kinds repo skipped now =>
    match claimNext s.runs workerId kinds repo skipped now with
    | .ok changes => { s with runs := commit changes s.runs }
    | .error _ => s
  | .call c =>
    match c.read s.runs with
    | .ok changes => { s with runs := commit changes s.runs }
    | .error _ => s
  | .append runId workerId claim row =>
    match StoreLedger.append columns sha256 accepts s.grades row
        (claimGuard s.runs runId workerId claim) with
    | .ok (grades, row) => { s with grades, landed := s.landed ++ [⟨runId, workerId, claim, row⟩] }
    | .error _ => s

/-- The step takes the run from a worker that went stale. -/
def Reclaims (s : State V F) (runId : String) : Label V F → Prop
  | .call (.reclaimStale _ olderThan age _) =>
    ∃ run, s.runs.get? runId = some run ∧ run.status = .running ∧ run.stale olderThan age = true
  | _ => False

section Steps

omit [DecidableEq V] in
/-- A call within one transaction is undisturbed. -/
lemma undisturbed_self {c : Call V} {old new : Run V} (h : c.Makes old new)
    (hc : ∀ counts, c.counts = some counts → counts.reclaims = none) : c.Undisturbed old old := by
  refine ⟨fun hm => ?_, fun _ => rfl, fun counts n hs hn => ?_⟩
  · cases c with
    | finish => exact h.2.2.1
    | requestCancel => rw [of_decide_eq_true hm]; rfl
    | reclaimStale => rw [h.1]; rfl
    | heartbeat | progress => cases hm
  · rw [hc counts hs] at hn
    cases hn

/-- Without a reclaim a call keeps the count. -/
lemma reclaims_overwrite {c : Call V} {ch : Change V} (h : c.Makes ch.old ch.new)
    (hc : ∀ counts, c.counts = some counts → counts.reclaims = none)
    (hr : c.isReclaim = false) : (ch.overwrite ch.old).reclaims = ch.old.reclaims := by
  have hmerge : ∀ counts, c.counts = counts →
      ((counts.map (mergeCounts ch.old.counts)).getD ch.old.counts).reclaims =
        ch.old.counts.reclaims := by
    rintro (_ | given) hg
    · rfl
    · simp [mergeCounts, hc given hg]
  rw [Run.reclaims, (overwrite_old ch).2.1]
  cases c with
  | heartbeat => rw [h.2.2]; rfl
  | progress =>
    rw [h.2]
    exact congrArg (Option.getD · 0) (hmerge _ rfl)
  | finish =>
    rw [h.2.2.2]
    exact congrArg (Option.getD · 0) (hmerge _ rfl)
  | requestCancel =>
    rw [h, Run.requestCancel]
    split <;> rfl
  | reclaimStale => cases hr

variable {columns sha256 accepts}

variable (columns sha256 accepts) in
/-- What a transaction makes of a run: it evolves, and unless it is reclaimed its count stays. -/
lemma step_runs {s : State V F} {l : Label V F} (hl : l.Plain) {runId : String} {run : Run V}
    (h : s.runs.get? runId = some run) :
    ∃ run', (step columns sha256 accepts s l).runs.get? runId = some run' ∧ Evolves run run' ∧
      (¬ Reclaims s runId l → run'.reclaims = run.reclaims) := by
  have hstay : ∃ run', s.runs.get? runId = some run' ∧ Evolves run run' ∧
      (¬ Reclaims s runId l → run'.reclaims = run.reclaims) := ⟨run, h, .refl run, fun _ => rfl⟩
  have hid : run.id = runId := (Table.get?_eq_some.mp h).2
  have hold : ∀ {ch : Change V}, s.runs.get? ch.old.id = some ch.old → ch.old.id = run.id →
      ch.old = run := fun hget he => by
    rw [he, hid, h] at hget
    exact (Option.some.inj hget).symm
  cases l with
  | enqueue newId now new =>
    rw [step]
    split
    · rename_i runs hrun
      obtain ⟨staged, -, -, hins⟩ := enqueue_eq_ok hrun
      exact ⟨run, Table.get?_insert? hins h, .refl run, fun _ => rfl⟩
    · exact hstay
  | claimNext workerId kinds repo skipped now =>
    rw [step]
    split
    · rename_i changes hread
      refine ⟨written changes run, by simp [get?_commit, h], ?_⟩
      rcases written_cases changes run with hw | ⟨ch, hch, he, hw⟩
      · rw [hw]
        exact ⟨.refl run, fun _ => rfl⟩
      · obtain ⟨hget, hq, -, hnew⟩ := mem_claimNext hread hch
        obtain rfl := hold hget he
        obtain ⟨hev, hr⟩ := evolves_claimed hq hnew
        rw [hw]
        exact ⟨hev, fun _ => hr⟩
    · exact hstay
  | call c =>
    rw [step]
    split
    · rename_i changes hread
      refine ⟨written changes run, by simp [get?_commit, h], ?_⟩
      rcases written_cases changes run with hw | ⟨ch, hch, he, hw⟩
      · rw [hw]
        exact ⟨.refl run, fun _ => rfl⟩
      · obtain ⟨hget, hmakes⟩ := Call.mem_read hread hch
        obtain rfl := hold hget he
        rw [hw]
        refine ⟨hmakes.evolves (undisturbed_self hmakes hl), fun hn => ?_⟩
        refine reclaims_overwrite hmakes hl ?_
        cases c with
        | reclaimStale => exact absurd ⟨_, h, hmakes.1, hmakes.2.1⟩ hn
        | _ => rfl
    · exact hstay
  | append runId' workerId claim row =>
    rw [step]
    split <;> exact hstay

variable (columns sha256 accepts) in
/-- What a transaction appends under a claim, it appends while that claim holds. -/
lemma step_landed (s : State V F) (l : Label V F) :
    (step columns sha256 accepts s l).landed = s.landed ∨
      ∃ a run, (step columns sha256 accepts s l).landed = s.landed ++ [a] ∧
        (step columns sha256 accepts s l).runs = s.runs ∧ s.runs.get? a.runId = some run ∧
        run.status = .running ∧ run.workerId = a.workerId ∧ run.reclaims = a.claim := by
  cases l with
  | append runId workerId claim row =>
    rw [step]
    split
    · rename_i grades chained happ
      simp only [StoreLedger.append, bind_eq_ok] at happ
      obtain ⟨_, -, _, -, _, hguard, -⟩ := happ
      obtain ⟨run, hget, hs, hw, hc⟩ := claimGuard_eq_ok hguard
      exact .inr ⟨_, run, rfl, rfl, hget, hs, hw, hc⟩
    · exact .inl rfl
  | enqueue | claimNext | call =>
    rw [step]
    split <;> exact .inl rfl

end Steps

section Runs

/-- What every transaction keeps: the rows are chained as the table stores them, a row's claim is
the run's or an earlier one, the run's own claim is held by the worker whose rows it has, and one
claim has the rows of one worker. -/
structure Inv (s : State V F) : Prop where
  ledger : StoreLedger.Inv columns sha256 ⟨s.grades, s.landed.map Landed.row⟩
  held : ∀ a ∈ s.landed, ∃ run, s.runs.get? a.runId = some run ∧ a.claim ≤ run.reclaims ∧
    (run.reclaims = a.claim → run.status ≠ .queued ∧ run.workerId = a.workerId)
  one : ∀ a ∈ s.landed, ∀ b ∈ s.landed, a.runId = b.runId → a.claim = b.claim →
    a.workerId = b.workerId

variable {columns sha256 accepts}

lemma step_ledger {s : State V F} (h : StoreLedger.Inv columns sha256
    ⟨s.grades, s.landed.map Landed.row⟩) (l : Label V F) : StoreLedger.Inv columns sha256
      ⟨(step columns sha256 accepts s l).grades,
        (step columns sha256 accepts s l).landed.map Landed.row⟩ := by
  cases l with
  | append runId workerId claim row =>
    rw [step]
    split
    · rename_i happ
      rw [List.map_append]
      exact append_inv h happ
    · exact h
  | enqueue | claimNext | call =>
    rw [step]
    split <;> exact h

theorem step_inv {s : State V F} (hi : Inv columns sha256 s) {l : Label V F} (hl : l.Plain) :
    Inv columns sha256 (step columns sha256 accepts s l) := by
  have hheld : ∀ a ∈ s.landed, ∃ run,
      (step columns sha256 accepts s l).runs.get? a.runId = some run ∧ a.claim ≤ run.reclaims ∧
        (run.reclaims = a.claim → run.status ≠ .queued ∧ run.workerId = a.workerId) := by
    intro a ha
    obtain ⟨run, hget, hle, hown⟩ := hi.held a ha
    obtain ⟨run', hget', hev, -⟩ := step_runs columns sha256 accepts hl hget
    refine ⟨run', hget', hle.trans hev.reclaims, fun he => ?_⟩
    have hsame : run.reclaims = a.claim := le_antisymm (he ▸ hev.reclaims) hle
    obtain ⟨hq, hw⟩ := hown hsame
    obtain ⟨hq', hw'⟩ := hev.owner (he.trans hsame.symm) hq
    exact ⟨hq', hw'.trans hw⟩
  rcases step_landed columns sha256 accepts s l with
    hl' | ⟨a, run, hl', hruns, hget, hs, hw, hc⟩
  · exact ⟨step_ledger hi.ledger l, by rwa [hl'], by rw [hl']; exact hi.one⟩
  · have hnew : ∀ b ∈ s.landed, b.runId = a.runId → b.claim = a.claim →
        b.workerId = a.workerId := by
      intro b hb hid hcl
      obtain ⟨run', hget', -, hown⟩ := hi.held b hb
      rw [hid, hget] at hget'
      obtain rfl := Option.some.inj hget'
      exact (hown (hc.trans hcl.symm)).2.symm.trans hw
    refine ⟨step_ledger hi.ledger l, ?_, ?_⟩
    · rw [hl']
      intro b hb
      rcases List.mem_append.mp hb with hb | hb
      · exact hheld b hb
      · obtain rfl := List.mem_singleton.mp hb
        exact ⟨run, by rwa [hruns], hc.ge, fun _ => ⟨by rw [hs]; exact nofun, hw⟩⟩
    · rw [hl']
      intro b hb d hd hid hcl
      rcases List.mem_append.mp hb with hb₁ | hb₁ <;> rcases List.mem_append.mp hd with hd₁ | hd₁
      · exact hi.one b hb₁ d hd₁ hid hcl
      · obtain rfl := List.mem_singleton.mp hd₁
        exact hnew b hb₁ hid hcl
      · obtain rfl := List.mem_singleton.mp hb₁
        exact (hnew d hd₁ hid.symm hcl.symm).symm
      · rw [List.mem_singleton.mp hb₁, List.mem_singleton.mp hd₁]

omit [DecidableEq V] in
lemma init_inv : Inv columns sha256 (State.init : State V F) :=
  ⟨⟨rfl, trivial⟩, by simp [State.init], by simp [State.init]⟩

/-- The attempt is over: its run ended or was reclaimed since. -/
def Settled (s : State V F) (runId : String) (claim : ℤ) : Prop :=
  ∃ run, s.runs.get? runId = some run ∧ (run.status.terminal = true ∨ claim < run.reclaims)

/-- The rows appended under a claim on a run. -/
def rowsUnder (s : State V F) (runId : String) (claim : ℤ) : List (Landed F) :=
  s.landed.filter fun a => a.runId = runId && a.claim = claim

lemma settled_step {s : State V F} {runId : String} {claim : ℤ} (h : Settled s runId claim)
    {l : Label V F} (hl : l.Plain) :
    Settled (step columns sha256 accepts s l) runId claim ∧
      rowsUnder (step columns sha256 accepts s l) runId claim = rowsUnder s runId claim := by
  obtain ⟨run, hget, hs⟩ := h
  constructor
  · obtain ⟨run', hget', hev, -⟩ := step_runs columns sha256 accepts hl hget
    refine ⟨run', hget', hs.imp (fun ht => ?_) fun hlt => hlt.trans_le hev.reclaims⟩
    rw [hev.terminal ht]
    exact ht
  · rcases step_landed columns sha256 accepts s l with
      hl' | ⟨a, run', hl', -, hget', hs', -, hc⟩
    · rw [rowsUnder, hl', rowsUnder]
    · rw [rowsUnder, hl', rowsUnder, List.filter_append, List.append_right_eq_self]
      refine List.filter_eq_nil_iff.mpr fun b hb hab => ?_
      obtain rfl := List.mem_singleton.mp hb
      simp only [Bool.and_eq_true, decide_eq_true_eq] at hab
      rw [hab.1, hget] at hget'
      obtain rfl := Option.some.inj hget'
      rcases hs with ht | hlt
      · rw [hs'] at ht
        cases ht
      · omega

/-- What lands on a run while nothing reclaims it lands under one claim. -/
lemma step_landed_since {s u : State V F} {runId : String}
    (h : ∃ new, u.landed = s.landed ++ new ∧ ∀ a ∈ new, a.runId = runId →
      ∃ run, u.runs.get? runId = some run ∧ run.reclaims = a.claim) {l : Label V F} (hl : l.Plain)
    (hr : ¬ Reclaims u runId l) :
    ∃ new, (step columns sha256 accepts u l).landed = s.landed ++ new ∧
      ∀ a ∈ new, a.runId = runId → ∃ run,
        (step columns sha256 accepts u l).runs.get? runId = some run ∧ run.reclaims = a.claim := by
  obtain ⟨new, hnew, hclaims⟩ := h
  have hkeep : ∀ a ∈ new, a.runId = runId → ∃ run,
      (step columns sha256 accepts u l).runs.get? runId = some run ∧ run.reclaims = a.claim := by
    intro a ha hid
    obtain ⟨run, hget, hc⟩ := hclaims a ha hid
    obtain ⟨run', hget', -, hsame⟩ := step_runs columns sha256 accepts hl hget
    exact ⟨run', hget', (hsame hr).trans hc⟩
  rcases step_landed columns sha256 accepts u l with
    hl' | ⟨a, run, hl', hruns, hget, -, -, hc⟩
  · exact ⟨new, hl'.trans hnew, hkeep⟩
  · refine ⟨new ++ [a], by rw [hl', hnew, List.append_assoc], fun b hb hid => ?_⟩
    rcases List.mem_append.mp hb with hb | hb
    · exact hkeep b hb hid
    · obtain rfl := List.mem_singleton.mp hb
      exact ⟨run, by rw [hruns, ← hid]; exact hget, hc⟩

/-- Once a claim is settled, by the run's end or by a reclaim, no transaction of any worker
appends a row under it; and while nothing reclaims a run, the rows appended for it are of one
worker. -/
theorem no_row_after_settlement (before after : List (Label V F))
    (hbefore : ∀ l ∈ before, l.Plain) (hafter : ∀ l ∈ after, l.Plain) (runId : String) :
    let s := runFrom (step columns sha256 accepts) State.init before
    let s' := runFrom (step columns sha256 accepts) s after
    (∀ claim, Settled s runId claim → rowsUnder s' runId claim = rowsUnder s runId claim) ∧
      (Along (step columns sha256 accepts) (fun u l => ¬ Reclaims u runId l) s after →
        ∃ new, s'.landed = s.landed ++ new ∧
          ∀ a ∈ new, ∀ b ∈ new, a.runId = runId → b.runId = runId → a.workerId = b.workerId) := by
  intro s s'
  have hplain : ∀ (u : State V F) (ls : List (Label V F)), (∀ l ∈ ls, l.Plain) →
      Along (step columns sha256 accepts) (fun _ l => l.Plain) u ls :=
    fun _ _ h => along_of_forall fun _ => h
  have hinv : Inv columns sha256 s :=
    (hplain _ _ hbefore).preserves (I := Inv columns sha256) (fun _ _ hi hl => step_inv hi hl)
      init_inv
  refine ⟨fun claim hs => ?_, fun hr => ?_⟩
  · exact ((hplain _ _ hafter).preserves (I := fun u => Settled u runId claim ∧
      rowsUnder u runId claim = rowsUnder s runId claim)
      (fun u l hu hl => ⟨(settled_step hu.1 hl).1, (settled_step hu.1 hl).2.trans hu.2⟩)
      ⟨hs, rfl⟩).2
  · have hinv' : Inv columns sha256 s' :=
      (hplain _ _ hafter).preserves (I := Inv columns sha256) (fun _ _ hi hl => step_inv hi hl) hinv
    obtain ⟨new, hnew, hclaims⟩ := ((hplain _ _ hafter).and hr).preserves
      (I := fun u => ∃ new, u.landed = s.landed ++ new ∧ ∀ a ∈ new, a.runId = runId →
        ∃ run, u.runs.get? runId = some run ∧ run.reclaims = a.claim)
      (fun u l hu hl => step_landed_since hu hl.1 hl.2) ⟨[], by simp, by simp⟩
    refine ⟨new, hnew, fun a ha b hb hra hrb => ?_⟩
    obtain ⟨run, hget, hca⟩ := hclaims a ha hra
    obtain ⟨run', hget', hcb⟩ := hclaims b hb hrb
    rw [hget] at hget'
    obtain rfl := Option.some.inj hget'
    have hmem : ∀ c ∈ new, c ∈ s'.landed := fun c hc => hnew ▸ List.mem_append_right _ hc
    exact hinv'.one a (hmem a ha) b (hmem b hb) (hra.trans hrb.symm) (hca.symm.trans hcb)

end Runs

section OneRun

def newRun : Run Unit :=
  { id := "run1", repo := "repo", kind := "replay", mode := "", status := .queued
    counts := ⟨none, []⟩, progressDone := 0, progressTotal := 0, error := ""
    cancelRequested := false, workerId := "", heartbeat := "", created := "", started := ""
    finished := "" }

/-- A run is enqueued, claimed and finished. -/
def finishedRun : List (Label Unit Whole) :=
  [.enqueue "" "t0" newRun, .claimNext "w1" [] "" (fun _ => false) "t1",
    .call (.finish "run1" .succeeded none "" "w1" "t2")]

theorem no_row_after_settlement_finishedRun :
    let s := runFrom (step convertingColumns (markDigest []) fun _ _ => true) State.init finishedRun
    rowsUnder (runFrom (step convertingColumns (markDigest []) fun _ _ => true) s
      [.append "run1" "w1" 0 (plainRow "t1" "")]) "run1" 0 = rowsUnder s "run1" 0 :=
  (no_row_after_settlement finishedRun [.append "run1" "w1" 0 (plainRow "t1" "")]
    (by simp [finishedRun, Label.Plain, Call.counts]) (by simp [Label.Plain]) "run1").1 0
    ⟨_, rfl, .inl rfl⟩

end OneRun

end CommitReplay.ClaimedRows
