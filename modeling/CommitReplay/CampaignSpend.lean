import CommitReplay.UnplacedCharges

/-! What a campaign's members report of a run never goes down along the run's history: what a step
writes costs nothing below zero, and what is settled stays as it is. -/
namespace CommitReplay.ChargedAttempts

open CommitReplay.KeyedTable CommitReplay.KeyedGroups CommitReplay.RunQueue
open CommitReplay.TransitionRuns CommitReplay.CampaignStore CommitReplay.AttemptHistory

/-- What the campaign's members report, of this run never less than before. -/
def NeverLess (x : Context) (campaignId : String) (s s' : Store) : Prop :=
  List.Forall₂ (fun m m' => m'.runId = m.runId ∧ (m.runId = x.runId → m.spentUsd ≤ m'.spentUsd))
    (members s campaignId) (members s' campaignId)

variable {x : Context} {ids : List String} {s : State} {unit trial : String} {l : Label}

section Settled

lemma not_ended (h : x.Allowed s l) : ended s.store x.runId = false := by
  have hactive : ∃ st, x.status s.store = some st ∧ active st = true := by
    cases l with
    | claim => exact ⟨_, h, rfl⟩
    | reserve | build | append | author => exact ⟨_, h.1, rfl⟩
    | reclaim => exact ⟨_, h, rfl⟩
    | finish => exact h.1
  obtain ⟨st, hst, ha⟩ := hactive
  obtain ⟨run, hget, rfl⟩ := Option.map_eq_some_iff.mp hst
  simp [ended, hget, ha]

lemma reclaims_onRun {f : RunEntry → RunEntry} {hf : ∀ r, (f r).id = r.id} {st : Store}
    (h : ∀ r, r.reclaims ≤ (f r).reclaims) : x.reclaims st ≤ x.reclaims (x.onRun f hf st) := by
  rw [Context.reclaims, Context.reclaims, get?_onRun]
  cases st.runs.get? x.runId with
  | none => exact le_rfl
  | some r => exact h r

/-- No step gives a claim back. -/
lemma reclaims_le (l : Label) : x.reclaims s.store ≤ x.reclaims (x.step s l).store := by
  cases l with
  | claim | finish => exact reclaims_onRun fun _ => le_rfl
  | reserve | build | append | author => exact le_rfl
  | reclaim => exact reclaims_onRun fun r => by simp

/-- A unit reserved under a claim that the run lost is not attempted again. -/
lemma Inv.attemptsAt_step (hi : Inv x ids s) (h : x.Allowed s l) {r : ℤ × Option ℚ}
    (hr : r ∈ (s.attemptsAt unit rungR1).filterMap (·.reserved)) (hlt : r.1 < x.reclaims s.store) :
    (x.step s l).attemptsAt unit rungR1 = s.attemptsAt unit rungR1 := by
  cases l with
  | claim | author => rfl
  | reclaim | finish => simp [State.attemptsAt, State.attempts, Context.step]
  | reserve u eventId treatment hold =>
    obtain ⟨-, hnone, -, -, hfresh, -⟩ := h
    have hu : u ≠ unit := by
      rintro rfl
      obtain ⟨a, ha, hres⟩ := List.mem_filterMap.mp hr
      rw [hi.reserved_eq_none hfresh ha] at hres
      cases hres
    rw [attemptsAt_none hnone, State.attemptsAt]
    simp [State.attempts, Context.step, List.filter_append, hu]
  | build u t rung figure known =>
    obtain ⟨a, hat, hbuilt⟩ := hi.exists_builtBy h
    have hnot : ¬ (u = unit ∧ t = rungR1) := by
      rintro ⟨rfl, rfl⟩
      rw [(hbuilt.attemptsAt u rungR1).2.2, if_pos ⟨rfl, rfl⟩] at hr
      rcases List.mem_append.mp hr with hr | hr
      · obtain ⟨b, hb, hres⟩ := List.mem_filterMap.mp hr
        obtain ⟨hb, hkey⟩ := List.mem_filter.mp hb
        obtain ⟨hu, ht⟩ := of_decide_eq_true hkey
        rw [(hbuilt.before b hb (hu.trans hbuilt.unit.symm) (ht.trans hbuilt.trial.symm)).2] at hres
        cases hres
      · obtain ⟨b, hb, hres⟩ := List.mem_filterMap.mp hr
        obtain rfl := List.mem_singleton.mp hb
        exact hlt.ne (hbuilt.claim r hres).2
    have hnew : (x.step s (.build u t rung figure known)).attempts = s.past ++ [a] := by
      rw [attempts_some hat]
      rfl
    rw [attemptsAt_concat hnew, hbuilt.unit, hbuilt.trial, if_neg hnot, List.append_nil]
    rcases hbuilt.prior with ⟨hc, -⟩ | hc
    · rw [attemptsAt_none hc]
    · rw [attemptsAt_concat (attempts_some hc), hbuilt.unit, hbuilt.trial, if_neg hnot,
        List.append_nil]
  | append row =>
    obtain ⟨-, -, a, hc, -⟩ := h
    have hnot : ¬ (a.unit = unit ∧ a.trial = rungR1) := by
      rintro ⟨rfl, ht⟩
      rw [← ht, hi.reserved_current hc] at hr
      exact hlt.ne ((hi.current a hc).2.2 r (Option.mem_toList.mp hr))
    have hnew : (x.step s (.append row)).attempts = s.past ++ [{ a with rowed := true }] := by
      simp [State.attempts, Context.step, hc]
    rw [attemptsAt_concat hnew, attemptsAt_concat (attempts_some hc), if_neg hnot, if_neg hnot]

/-- What is settled stays settled, its attempts as they are. -/
lemma Inv.settled_step (hi : Inv x ids s) (h : x.Allowed s l) (hs : Settled x s unit trial) :
    Settled x (x.step s l) unit trial ∧
      (x.step s l).attemptsAt unit trial = s.attemptsAt unit trial := by
  rcases hs with hended | ⟨rfl, r, hr, hlt⟩
  · rw [not_ended h] at hended
    cases hended
  · have hat := hi.attemptsAt_step h hr hlt
    exact ⟨.inr ⟨rfl, r, hat ▸ hr, hlt.trans_le (reclaims_le l)⟩, hat⟩

end Settled

section Written

/-- What a step writes: rows and calls that cost nothing below zero, and no admission. -/
lemma exists_written (h : x.Allowed s l) : ∃ rows events,
    (x.step s l).store.rows = s.store.rows ++ rows ∧
    (x.step s l).store.events = s.store.events ++ events ∧ (∀ r ∈ rows, 0 ≤ r.costUsd) ∧
    ∀ ev ∈ events, ev.action ≠ campaignAdmitted ∧ (ev.action = authorAttempt → 0 ≤ callCost ev) := by
  cases l with
  | claim | reclaim | finish =>
    exact ⟨[], [], (List.append_nil _).symm, (List.append_nil _).symm, by simp, by simp⟩
  | reserve unit eventId treatment hold =>
    refine ⟨[], _, (List.append_nil _).symm, rfl, by simp, List.forall_mem_singleton.mpr ⟨?_, ?_⟩⟩
    · exact show readingReservedAction ≠ campaignAdmitted by decide
    · exact fun h => absurd h (show readingReservedAction ≠ authorAttempt by decide)
  | build unit trial rung figure known =>
    refine ⟨[], _, (List.append_nil _).symm, rfl, by simp, List.forall_mem_singleton.mpr ⟨?_, ?_⟩⟩
    · exact show buildDone ≠ campaignAdmitted by decide
    · exact fun h => absurd h (show buildDone ≠ authorAttempt by decide)
  | append row =>
    exact ⟨[row], [], rfl, (List.append_nil _).symm, by simpa using h.2.1, by simp⟩
  | author figure known =>
    refine ⟨[], _, (List.append_nil _).symm, rfl, by simp, List.forall_mem_singleton.mpr ⟨?_, ?_⟩⟩
    · exact show authorAttempt ≠ campaignAdmitted by decide
    · exact fun _ => h.2

lemma sum_filter_append_le {α : Type*} {c : α → ℚ} {p : α → Bool} (xs : List α) {ys : List α}
    (h : ∀ y ∈ ys, p y = true → 0 ≤ c y) :
    ((xs.filter p).map c).sum ≤ (((xs ++ ys).filter p).map c).sum := by
  have hys : 0 ≤ ((ys.filter p).map c).sum := by
    refine List.sum_nonneg fun q hq => ?_
    obtain ⟨y, hy, rfl⟩ := List.mem_map.mp hq
    obtain ⟨hy, hp⟩ := List.mem_filter.mp hy
    exact h y hy hp
  rw [List.filter_append, List.map_append, List.sum_append]
  exact le_add_of_nonneg_right hys

lemma admissions_step (h : x.Allowed s l) (campaignId : String) :
    admissions (x.step s l).store campaignId = admissions s.store campaignId := by
  obtain ⟨-, events, -, hevents, -, hnew⟩ := exists_written h
  have hnone : events.filter (fun ev => ev.traceId = campaignId ∧ ev.action = campaignAdmitted) =
      [] := List.filter_eq_nil_iff.mpr fun ev hev hp => (hnew ev hev).1 (of_decide_eq_true hp).2
  rw [admissions, hevents, List.filter_append, hnone, List.append_nil]
  rfl

end Written

section Spent

/-- What is known of an unplaced attempt's cost. -/
def knownCost (p : UnplacedAttempt) : ℚ := p.costUsd.getD 0

lemma sum_knownCost (ps : List UnplacedAttempt) :
    (ps.filterMap (·.costUsd)).sum = (ps.map knownCost).sum := by
  induction ps with
  | nil => rfl
  | cons p ps ih =>
    rw [List.map_cons, List.sum_cons, ← ih, knownCost]
    cases h : p.costUsd with
    | none => rw [List.filterMap_cons_none h, Option.getD_none, zero_add]
    | some c => rw [List.filterMap_cons_some h, List.sum_cons, Option.getD_some]

lemma map_knownCost (ps : List UnplacedAttempt) :
    ps.map knownCost = (ps.map (·.costUsd)).map (·.getD 0) := by
  rw [List.map_map]
  rfl

variable {runIds : List String}

/-- Nothing unplaced costs less than zero. -/
lemma Inv.sum_unplacedAt_nonneg (hi : Inv x (runIds.filter (· ≠ "")) s)
    (hid : x.runId ∈ runIds.filter (· ≠ "")) :
    0 ≤ ((unplacedAt x runIds s.store unit trial).map knownCost).sum := by
  by_cases hk : settledKey s.store (runIds.filter (· ≠ "")) (x.runId, unit, trial) = true
  · rw [map_knownCost, hi.charges_unplacedAt hid hk]
    refine List.sum_nonneg fun q hq => ?_
    obtain ⟨c, hc, rfl⟩ := List.mem_map.mp hq
    obtain ⟨a, ha, rfl⟩ := List.mem_map.mp hc
    have hat := List.mem_of_mem_filter (List.mem_of_mem_filter ha)
    cases hcharge : a.charge with
    | none => exact le_rfl
    | some c => exact (hi.ok_at a hat).charge c hcharge
  · have hended : ended s.store x.runId = false :=
      Bool.eq_false_iff.mpr fun h => hk (settledKey_of_ended h)
    rw [unplacedAt_eq_nil hended (Bool.eq_false_iff.mpr hk)]
    exact le_rfl

/-- What is unplaced of one unit and trial never costs less than before. -/
lemma Inv.sum_unplacedAt_le (hi : Inv x (runIds.filter (· ≠ "")) s)
    (hid : x.runId ∈ runIds.filter (· ≠ "")) (h : x.Allowed s l) (unit trial : String) :
    ((unplacedAt x runIds s.store unit trial).map knownCost).sum ≤
      ((unplacedAt x runIds (x.step s l).store unit trial).map knownCost).sum := by
  have hi' := inv_step hid hi h
  by_cases hk : settledKey s.store (runIds.filter (· ≠ "")) (x.runId, unit, trial) = true
  · obtain ⟨hs, hat⟩ := hi.settled_step h ((hi.settledKey_iff hid).mp hk)
    rw [map_knownCost, map_knownCost, hi.charges_unplacedAt hid hk,
      hi'.charges_unplacedAt hid ((hi'.settledKey_iff hid).mpr hs), hat]
  · rw [unplacedAt_eq_nil (not_ended h) (Bool.eq_false_iff.mpr hk)]
    exact hi'.sum_unplacedAt_nonneg hid

/-- Nor does what is unplaced of the run. -/
lemma Inv.unrowed_le (hi : Inv x (runIds.filter (· ≠ "")) s)
    (hid : x.runId ∈ runIds.filter (· ≠ "")) (h : x.Allowed s l) :
    (((unplacedAttempts s.store runIds).filter (·.runId = x.runId)).map knownCost).sum ≤
      (((unplacedAttempts (x.step s l).store runIds).filter (·.runId = x.runId)).map
        knownCost).sum := by
  let key : UnplacedAttempt → String × String := fun p => (p.taskId, p.trial)
  have hgroup : ∀ (st : Store) (k : String × String),
      group key ((unplacedAttempts st runIds).filter (·.runId = x.runId)) k =
        unplacedAt x runIds st k.1 k.2 := by
    intro st k
    rw [group, unplacedAt, List.filter_filter]
    refine List.filter_congr fun p _ => ?_
    rw [Bool.eq_iff_iff]
    simp only [key, Bool.and_eq_true, decide_eq_true_eq, Prod.ext_iff]
    exact and_comm
  let lost := fun st => (unplacedAttempts st runIds).filter (·.runId = x.runId)
  let ks := ((lost s.store ++ lost (x.step s l).store).map key).dedup
  have hmem : ∀ p ∈ lost s.store ++ lost (x.step s l).store, key p ∈ ks := fun p hp =>
    List.mem_dedup.mpr (List.mem_map_of_mem hp)
  rw [sum_groups knownCost (List.nodup_dedup _) fun p hp => hmem p (List.mem_append_left _ hp),
    sum_groups knownCost (List.nodup_dedup _) fun p hp => hmem p (List.mem_append_right _ hp)]
  refine List.sum_le_sum fun k _ => ?_
  rw [hgroup, hgroup]
  exact hi.sum_unplacedAt_le hid h k.1 k.2

/-- What the store says the run has spent. -/
lemma spent_eq (st : Store) (ids : List String) (m : Member)
    (hm : m.toSpending = spendingOf st ids x.runId) : m.spentUsd =
      (((rowsOfRuns st ids).filter (·.runId = x.runId)).map (·.costUsd)).sum +
        ((authorCalls st ids x.runId).map callCost).sum +
        (((unplacedAttempts st ids).filter (·.runId = x.runId)).map knownCost).sum := by
  rw [Member.spentUsd, hm, spendingOf, sum_knownCost]
  simp [Spend.ofRows, Spend.withAuthoring]

lemma Inv.spent_le (hi : Inv x (runIds.filter (· ≠ "")) s)
    (hid : x.runId ∈ runIds.filter (· ≠ "")) (h : x.Allowed s l) {m m' : Member}
    (hm : m.toSpending = spendingOf s.store runIds x.runId)
    (hm' : m'.toSpending = spendingOf (x.step s l).store runIds x.runId) :
    m.spentUsd ≤ m'.spentUsd := by
  obtain ⟨rows, events, hrows, hevents, hrow, hcall⟩ := exists_written h
  rw [spent_eq _ _ m hm, spent_eq _ _ m' hm']
  refine add_le_add (add_le_add ?_ ?_) (hi.unrowed_le hid h)
  · rw [rowsOfRuns, rowsOfRuns, hrows, List.filter_filter, List.filter_filter]
    exact sum_filter_append_le _ fun r hr _ => hrow r hr
  · rw [authorCalls, authorCalls, hevents]
    exact sum_filter_append_le _ fun ev hev hp => (hcall ev hev).2 (of_decide_eq_true hp).2.1

/-- No step takes back what the members report of the run. -/
theorem neverLess_step (hi : ∀ ids, x.runId ∈ ids → Inv x ids s) (h : x.Allowed s l)
    (campaignId : String) : NeverLess x campaignId s.store (x.step s l).store := by
  rw [NeverLess, members, members, admissions_step h, List.forall₂_map_left_iff,
    List.forall₂_map_right_iff]
  refine List.forall₂_same.mpr fun a ha => ⟨rfl, fun hrun => ?_⟩
  have hid : x.runId ∈ ((admissions s.store campaignId).map (·.runId)).filter (· ≠ "") :=
    List.mem_filter.mpr ⟨List.mem_map.mpr ⟨a, ha, hrun⟩, by simpa using x.named⟩
  refine (hi _ hid).spent_le hid h ?_ ?_
  · exact congrArg (spendingOf s.store _) hrun
  · exact congrArg (spendingOf (x.step s l).store _) hrun

end Spent

/-- Along every history each attempt that counts is charged once, and the members never report
less of the run than before. -/
theorem charged_once {runIds : List String} (hid : x.runId ∈ runIds) {labels : List Label}
    (hfresh : x.Fresh s) (h : Along x.step x.Allowed s labels) :
    ChargedOnce x runIds (runFrom x.step s labels) ∧
      Along x.step (fun s l => ∀ campaignId, NeverLess x campaignId s.store (x.step s l).store) s
        labels := by
  have hstep : ∀ s l, (∀ ids, x.runId ∈ ids → Inv x ids s) → x.Allowed s l →
      ∀ ids, x.runId ∈ ids → Inv x ids (x.step s l) :=
    fun s l hi h ids hids => inv_step hids (hi ids hids) h
  have hstart : ∀ ids, x.runId ∈ ids → Inv x ids s := fun ids _ => inv_fresh hfresh
  refine ⟨?_, h.strengthen hstep (fun s l hi h => neverLess_step hi h) hstart⟩
  have hids : x.runId ∈ runIds.filter (· ≠ "") :=
    List.mem_filter.mpr ⟨hid, by simpa using x.named⟩
  exact (h.preserves hstep hstart _ hids).chargedOnce hid

lemma run_named : "run" ≠ "" := by decide

/-- A run of the arm `alone`. -/
def loneRun : Context := ⟨"run", "reading", "alone", run_named⟩

def queuedRun : RunEntry := ⟨"run", .queued, 0, "reading"⟩

lemma queuedRun_nodup : ([queuedRun].map RunEntry.id).Nodup := List.nodup_singleton _

/-- The run is queued and admitted to the campaign, and nothing else is there. -/
def queued : State where
  store :=
    { events := [⟨0, campaignAdmitted, "", "campaign", "", "", "", none, { runId := "run" }⟩]
      runs := ⟨[queuedRun], queuedRun_nodup⟩
      rows := [] }
  past := []
  current := none

lemma queued_fresh : loneRun.Fresh queued where
  run := ⟨_, rfl, rfl, rfl⟩
  events := by simp [queued, loneRun, campaignAdmitted, buildDone, authorAttempt]
  reservations := by simp [queued, campaignAdmitted, readingReservedAction]
  rows := by simp [queued]
  past := rfl
  current := rfl

/-- The unit is built at `r1` unreserved, lost, and then reserved and not built. -/
def reservedLater : List Label :=
  [.claim, .build "unit" rungR1 rungR1 5 true, .reclaim false, .claim,
    .reserve "unit" "event" "" (some 3), .finish .failed]

lemma reservedLater_allowed :
    Along loneRun.step loneRun.Allowed queued reservedLater := by
  have hfirst : ∀ a ∈ (loneRun.step queued .claim).attemptsAt "unit" rungR1,
      a.rowed = false ∧ a.reserved = none := fun a ha => by cases ha
  refine ⟨rfl, ⟨rfl, by decide, by norm_num, hfirst⟩, rfl, rfl, ⟨rfl, rfl, by decide, by decide,
    by decide, by decide, by norm_num⟩, ⟨⟨_, rfl, rfl⟩, rfl⟩, trivial⟩

theorem charged_once_reservedLater :
    ChargedOnce loneRun ["run"] (runFrom loneRun.step queued reservedLater) ∧
      Along loneRun.step (fun s l => ∀ campaignId,
        NeverLess loneRun campaignId s.store (loneRun.step s l).store) queued reservedLater :=
  charged_once (List.mem_singleton_self _) queued_fresh reservedLater_allowed

/-- The reservation that was never built is not charged: its unit had a build before. -/
theorem not_all_charged : loneRun.Fresh queued ∧
    Along loneRun.step loneRun.Allowed queued reservedLater ∧
    ended (runFrom loneRun.step queued reservedLater).store "run" = true ∧
    rowed (runFrom loneRun.step queued reservedLater).store ["run"] ("run", "unit", rungR1) +
      (unplacedAt loneRun ["run"] (runFrom loneRun.step queued reservedLater).store "unit"
        rungR1).length = 1 ∧
    ((runFrom loneRun.step queued reservedLater).attemptsAt "unit" rungR1).length = 2 :=
  ⟨queued_fresh, reservedLater_allowed, by decide, by rfl, by rfl⟩

end CommitReplay.ChargedAttempts
