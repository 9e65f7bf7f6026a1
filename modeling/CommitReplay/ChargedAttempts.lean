import CommitReplay.AttemptHistory

/-! Every attempt of a run is charged exactly once. The builds, the rows and the reservations of the
store are those of the attempts made, in order; so what the store finds without a row is what the
attempts leave without one. -/
namespace CommitReplay.ChargedAttempts

open CommitReplay.KeyedTable CommitReplay.KeyedGroups CommitReplay.RunQueue
open CommitReplay.TransitionRuns CommitReplay.CampaignStore CommitReplay.AttemptHistory

section Store

variable (x : Context) (s : Store) (ids : List String) (unit trial : String)

/-- The run's builds of one unit and trial. -/
def buildsAt : List Event :=
  s.events.filter fun ev => ev.action = buildDone ∧ ev.stage = buildStage ∧ ev.taskId ≠ "" ∧
    buildKey ev = (x.runId, unit, trial)

/-- The run's rows of one unit and trial. -/
def rowsAt : List Row :=
  s.rows.filter fun r => r.imported = false ∧ rowKey r = (x.runId, unit, trial)

/-- The readings of the runs. -/
def readings : List String := (ids.map (readingOf s ids)).filter (· ≠ "")

/-- The run's reservations of one unit. -/
def reservedAtUnit : List Event :=
  (firsts reservedKey (reservedEvents s (readings s ids))).filter fun ev =>
    ev.payload.runId = x.runId ∧ ev.taskId = unit

/-- What a reservation event says of its attempt. -/
def terms (ev : Event) : ℤ × Option ℚ := (claimOf ev.payload.claim, usdOf ev.payload.holdUsd)

variable {x s ids unit trial}

lemma group_builds (hid : x.runId ∈ ids) :
    group buildKey (builds s ids) (x.runId, unit, trial) = buildsAt x s unit trial := by
  rw [group, builds, buildsAt, List.filter_filter]
  refine List.filter_congr fun ev _ => ?_
  rw [Bool.eq_iff_iff]
  simp only [Bool.and_eq_true, decide_eq_true_eq]
  constructor
  · rintro ⟨hkey, -, ha, hst, ht⟩
    exact ⟨ha, hst, ht, hkey⟩
  · rintro ⟨ha, hst, ht, hkey⟩
    have htrace : ev.traceId = x.runId := congrArg Prod.fst hkey
    exact ⟨hkey, htrace ▸ hid, ha, hst, ht⟩

lemma rowed_eq (hid : x.runId ∈ ids) :
    rowed s ids (x.runId, unit, trial) = (rowsAt x s unit trial).length := by
  rw [rowed, group, rowsOfRuns, rowsAt, List.filter_filter]
  refine congrArg List.length (List.filter_congr fun r _ => ?_)
  rw [Bool.eq_iff_iff]
  simp only [Bool.and_eq_true, decide_eq_true_eq]
  constructor
  · rintro ⟨hkey, -, hi⟩
    exact ⟨hi, hkey⟩
  · rintro ⟨hi, hkey⟩
    have hrun : r.runId = x.runId := congrArg Prod.fst hkey
    exact ⟨hkey, hrun ▸ hid, hi⟩

lemma reservedAt_eq (hid : x.runId ∈ ids) (hrun : (s.runs.get? x.runId).isSome) :
    reservedAt s ids (x.runId, unit) =
      ((reservedAtUnit x s ids unit).getLast?).map (Reservation.ofEvent s) := by
  have hgroup : group reservationKey (reservationsOfRuns s ids) (x.runId, unit) =
      (reservedAtUnit x s ids unit).map (Reservation.ofEvent s) := by
    rw [group, reservationsOfRuns, reservationsOf, reservedAtUnit, List.filter_filter,
      List.filter_map]
    refine congrArg (List.map _) (List.filter_congr fun ev _ => ?_)
    rw [Bool.eq_iff_iff]
    simp only [Function.comp_apply, Bool.and_eq_true, decide_eq_true_eq]
    constructor
    · rintro ⟨hkey, -⟩
      exact ⟨congrArg Prod.fst hkey, congrArg Prod.snd hkey⟩
    · rintro ⟨hr, hu⟩
      have hof : (Reservation.ofEvent s ev).runId = x.runId := hr
      exact ⟨Prod.ext hr hu, hof ▸ hid, hof ▸ hrun⟩
  rw [reservedAt, hgroup, List.getLast?_map]

end Store

section Invariant

/-- What holds of each attempt: a reservation is for `r1`, what has a row was built, and nothing is
charged below zero. -/
structure Attempt.Ok (a : Attempt) : Prop where
  trial : a.reserved.isSome → a.trial = rungR1
  built : a.rowed = true → a.built.isSome
  begun : a.built.isSome ∨ a.reserved.isSome
  charge : ∀ c ∈ a.charge, 0 ≤ c

/-- Of two attempts of one unit and trial the earlier has neither a row nor a reservation. -/
def Attempt.Before (a b : Attempt) : Prop :=
  a.unit = b.unit → a.trial = b.trial → a.rowed = false ∧ a.reserved = none

/-- The store is that of the attempts made. -/
structure Inv (x : Context) (ids : List String) (s : State) : Prop where
  run : ∃ r, s.store.runs.get? x.runId = some r ∧ r.readingId = x.readingId
  builds : ∀ unit trial, (buildsAt x s.store unit trial).map attemptCost =
    (s.attemptsAt unit trial).filterMap (·.built)
  rows : ∀ unit trial, (rowsAt x s.store unit trial).length =
    (s.attemptsAt unit trial).countP (·.rowed)
  reserved : ∀ unit, (reservedAtUnit x s.store ids unit).map terms =
    (s.attemptsAt unit rungR1).filterMap (·.reserved)
  keys : ∀ ev ∈ s.store.events, ev.action = readingReservedAction → ev.payload.runId = x.runId →
    reservedKey ev = (x.readingId, x.arm, ev.taskId)
  ok : ∀ a ∈ s.attempts, Attempt.Ok a
  ordered : s.attempts.Pairwise Attempt.Before
  current : ∀ a ∈ s.current, x.status s.store = some .running ∧ a.rowed = false ∧
    ∀ r ∈ a.reserved, r.1 = x.reclaims s.store

variable {x : Context} {ids : List String} {s : State} {unit trial : String}

lemma truncate_intCast (n : ℤ) : truncate n = n := by
  unfold truncate
  split_ifs <;> simp

lemma usdOf_hold (hold : Option ℚ) : usdOf ((hold.map .num).getD .null) = hold := by
  cases hold <;> rfl

lemma terms_reservedEvent (unit eventId treatment : String) (hold : Option ℚ) (claim : ℤ)
    (n : ℕ) : terms { x.reservedEvent unit eventId treatment hold claim with id := n } =
      (claim, hold) :=
  Prod.ext (truncate_intCast claim) (usdOf_hold hold)

lemma attemptCost_builtEvent (unit trial rung : String) (figure : ℚ) (known : Bool) (n : ℕ) :
    attemptCost { x.builtEvent unit trial rung figure known with id := n } =
      if known then some figure else none := by
  cases known <;> rfl

/-- One attempt more, among those of its unit and trial. -/
lemma filter_concat (as : List Attempt) (a : Attempt) (unit trial : String) :
    (as ++ [a]).filter (fun a => a.unit = unit ∧ a.trial = trial) =
      as.filter (fun a => a.unit = unit ∧ a.trial = trial) ++
        if a.unit = unit ∧ a.trial = trial then [a] else [] := by
  rw [List.filter_append]
  by_cases h : a.unit = unit ∧ a.trial = trial <;> simp [h]

lemma buildsAt_emit {ev : Event} (h : ev.action ≠ buildDone) (st : Store) :
    buildsAt x (Context.emit ev st) unit trial = buildsAt x st unit trial := by
  simp [buildsAt, Context.emit, h]

lemma buildsAt_emit_builtEvent (st : Store) {u t rung : String} {figure : ℚ} {known : Bool}
    (hu : u ≠ "") : (buildsAt x (Context.emit (x.builtEvent u t rung figure known) st) unit trial).map
      attemptCost = (buildsAt x st unit trial).map attemptCost ++
        if u = unit ∧ t = trial then [if known then some figure else none] else [] := by
  rw [buildsAt, Context.emit, List.filter_append, List.map_append]
  refine congrArg _ ?_
  by_cases h : u = unit ∧ t = trial
  · obtain ⟨rfl, rfl⟩ := h
    cases known <;> simp [Context.builtEvent, buildKey, hu, attemptCost]
  · simp [Context.builtEvent, buildKey, hu, h]

lemma reservedAtUnit_emit {ev : Event} (h : ev.action ≠ readingReservedAction) (st : Store) :
    reservedAtUnit x (Context.emit ev st) ids unit = reservedAtUnit x st ids unit := by
  have hevents : reservedEvents (Context.emit ev st) (readings (Context.emit ev st) ids) =
      reservedEvents st (readings st ids) := by
    simp [reservedEvents, Context.emit, h, readings, readingOf]
  rw [reservedAtUnit, hevents, reservedAtUnit]

lemma readingOf_onRun (f : RunEntry → RunEntry) (hf : ∀ r, (f r).id = r.id)
    (hr : ∀ r, (f r).readingId = r.readingId) (st : Store) (runId : String) :
    readingOf (x.onRun f hf st) ids runId = readingOf st ids runId := by
  simp only [readingOf, Context.onRun, Table.get?_modify]
  split_ifs with hid he
  · rw [Option.map_map]
    congr 2
    exact funext hr
  · rfl
  · rfl

lemma reservedAtUnit_onRun (f : RunEntry → RunEntry) (hf : ∀ r, (f r).id = r.id)
    (hr : ∀ r, (f r).readingId = r.readingId) (st : Store) :
    reservedAtUnit x (x.onRun f hf st) ids unit = reservedAtUnit x st ids unit := by
  have hreadings : readings (x.onRun f hf st) ids = readings st ids := by
    simp only [readings, funext (readingOf_onRun f hf hr st)]
  rw [reservedAtUnit, hreadings]
  rfl

/-- A reservation of a unit that was not reserved comes last. -/
lemma reservedAtUnit_emit_reservedEvent {st : Store} {u eventId treatment : String}
    {hold : Option ℚ} {claim : ℤ} (hid : x.runId ∈ ids)
    (hrun : ∃ r, st.runs.get? x.runId = some r ∧ r.readingId = x.readingId)
    (hreading : x.readingId ≠ "") (hfresh : ∀ ev ∈ st.events, ev.action = readingReservedAction →
      reservedKey ev ≠ (x.readingId, x.arm, u)) :
    (reservedAtUnit x (Context.emit (x.reservedEvent u eventId treatment hold claim) st) ids unit).map
      terms = (reservedAtUnit x st ids unit).map terms ++
        if u = unit then [(claim, hold)] else [] := by
  obtain ⟨r, hr, hrd⟩ := hrun
  have hmem : x.readingId ∈ readings st ids := by
    refine List.mem_filter.mpr ⟨List.mem_map.mpr ⟨x.runId, hid, ?_⟩, by simpa using hreading⟩
    rw [readingOf, if_pos hid, hr]
    exact hrd
  have hevents : reservedEvents (Context.emit (x.reservedEvent u eventId treatment hold claim) st)
      (readings (Context.emit (x.reservedEvent u eventId treatment hold claim) st) ids) =
      reservedEvents st (readings st ids) ++
        [{ x.reservedEvent u eventId treatment hold claim with id := st.events.length }] := by
    have hsame : readings (Context.emit (x.reservedEvent u eventId treatment hold claim) st) ids =
        readings st ids := rfl
    rw [hsame, reservedEvents, Context.emit, List.filter_append]
    simp [Context.reservedEvent, hmem, reservedEvents]
  have hnew : reservedKey { x.reservedEvent u eventId treatment hold claim with
      id := st.events.length } ∉ keysOf reservedKey (reservedEvents st (readings st ids)) := by
    intro h
    obtain ⟨ev, hev, hkey⟩ := mem_keysOf.mp h
    obtain ⟨hev, hp⟩ := List.mem_filter.mp hev
    exact hfresh ev hev (of_decide_eq_true hp).1 hkey
  rw [reservedAtUnit, hevents, firsts_concat hnew, List.filter_append, List.map_append,
    ← reservedAtUnit]
  refine congrArg _ ?_
  by_cases h : u = unit
  · simp [Context.reservedEvent, h]
    exact terms_reservedEvent (x := x) unit eventId treatment hold claim _
  · simp [Context.reservedEvent, h]

/-- Nothing of a run that has only been queued is in the store. -/
lemma inv_fresh (h : x.Fresh s) : Inv x ids s := by
  have hat : s.attempts = [] := by simp [State.attempts, h.past, h.current]
  have hnone : ∀ u t, s.attemptsAt u t = [] := fun u t => by simp [State.attemptsAt, hat]
  obtain ⟨r, hr, hreading, -⟩ := h.run
  refine ⟨⟨r, hr, hreading⟩, fun u t => ?_, fun u t => ?_, fun u => ?_, fun ev hev ha hrun => ?_,
    by simp [hat], by simp [hat], by simp [h.current]⟩
  · have hnil : buildsAt x s.store u t = [] := by
      refine List.filter_eq_nil_iff.mpr fun ev hev hp => ?_
      obtain ⟨ha, -, -, hkey⟩ := of_decide_eq_true hp
      exact (h.events ev hev (congrArg Prod.fst hkey)).1 ha
    rw [hnil, hnone]
    rfl
  · have hnil : rowsAt x s.store u t = [] := by
      refine List.filter_eq_nil_iff.mpr fun r hr hp => ?_
      obtain ⟨hi, hkey⟩ := of_decide_eq_true hp
      have himported := h.rows r hr (congrArg Prod.fst hkey)
      rw [hi] at himported
      cases himported
    rw [hnil, hnone]
    rfl
  · have hnil : reservedAtUnit x s.store ids u = [] := by
      refine List.filter_eq_nil_iff.mpr fun ev hev hp => ?_
      obtain ⟨hev, ha⟩ := List.mem_filter.mp (mem_of_mem_firsts hev)
      exact h.reservations ev hev (of_decide_eq_true ha).1 (of_decide_eq_true hp).1
    rw [hnil, hnone]
    rfl
  · exact absurd hrun (h.reservations ev hev ha)

end Invariant

section Steps

variable {x : Context} {ids : List String} {s : State}

lemma attempts_some {a : Attempt} (h : s.current = some a) : s.attempts = s.past ++ [a] := by
  rw [State.attempts, h]
  rfl

lemma attempts_none (h : s.current = none) : s.attempts = s.past := by
  rw [State.attempts, h]
  exact List.append_nil _

/-- What an attempt adds to those of one unit and trial. -/
lemma attemptsAt_concat {past : List Attempt} {a : Attempt} (h : s.attempts = past ++ [a])
    (u t : String) : s.attemptsAt u t = past.filter (fun a => a.unit = u ∧ a.trial = t) ++
      if a.unit = u ∧ a.trial = t then [a] else [] := by
  rw [State.attemptsAt, h, filter_concat]

lemma attemptsAt_none (h : s.current = none) (u t : String) :
    s.attemptsAt u t = s.past.filter fun a => a.unit = u ∧ a.trial = t := by
  rw [State.attemptsAt, attempts_none h]

/-- A step that only writes elsewhere in the store. -/
lemma Inv.of_store (hi : Inv x ids s) {st : Store}
    (hrun : ∃ r, st.runs.get? x.runId = some r ∧ r.readingId = x.readingId)
    (hbuilds : ∀ u t, buildsAt x st u t = buildsAt x s.store u t)
    (hrows : st.rows = s.store.rows)
    (hreserved : ∀ u, reservedAtUnit x st ids u = reservedAtUnit x s.store ids u)
    (hevents : ∀ ev ∈ st.events, ev ∈ s.store.events ∨ ev.action ≠ readingReservedAction)
    {past : List Attempt} {current : Option Attempt}
    (hattempts : past ++ current.toList = s.attempts)
    (hcurrent : ∀ a ∈ current, x.status st = some .running ∧ a.rowed = false ∧
      ∀ r ∈ a.reserved, r.1 = x.reclaims st) : Inv x ids ⟨st, past, current⟩ := by
  have hat : (⟨st, past, current⟩ : State).attempts = s.attempts := hattempts
  refine ⟨hrun, fun u t => ?_, fun u t => ?_, fun u => ?_, fun ev hev ha hr => ?_, ?_, ?_, hcurrent⟩
  · rw [State.attemptsAt, hat, hbuilds]
    exact hi.builds u t
  · rw [State.attemptsAt, hat, rowsAt, hrows]
    exact hi.rows u t
  · rw [State.attemptsAt, hat, hreserved]
    exact hi.reserved u
  · exact (hevents ev hev).elim (fun h => hi.keys ev h ha hr) fun h => absurd ha h
  · rw [hat]
    exact hi.ok
  · rw [hat]
    exact hi.ordered

lemma get?_onRun {f : RunEntry → RunEntry} {hf : ∀ r, (f r).id = r.id} (st : Store) :
    (x.onRun f hf st).runs.get? x.runId = (st.runs.get? x.runId).map f := by
  rw [Context.onRun, Table.get?_modify, if_pos rfl]

/-- A change of the run's status or of its claims, which leaves no attempt open. -/
lemma Inv.onRun (hi : Inv x ids s) {f : RunEntry → RunEntry} {hf : ∀ r, (f r).id = r.id}
    (hr : ∀ r, (f r).readingId = r.readingId) {past : List Attempt}
    (hpast : past = s.attempts) : Inv x ids ⟨x.onRun f hf s.store, past, none⟩ := by
  obtain ⟨r, hrun, hreading⟩ := hi.run
  have hget : (x.onRun f hf s.store).runs.get? x.runId = some (f r) := by
    rw [get?_onRun, hrun]
    rfl
  have hbuilds : ∀ u t, buildsAt x (x.onRun f hf s.store) u t = buildsAt x s.store u t :=
    fun _ _ => rfl
  have hrows : (x.onRun f hf s.store).rows = s.store.rows := rfl
  refine hi.of_store ⟨f r, hget, (hr r).trans hreading⟩ hbuilds hrows
    (fun u => reservedAtUnit_onRun f hf hr s.store) (fun ev hev => .inl hev) ?_ (by simp)
  rw [hpast]
  exact List.append_nil _

lemma mem_emit {ev e : Event} {st : Store} (h : e ∈ (Context.emit ev st).events) :
    e ∈ st.events ∨ e = { ev with id := st.events.length } := by
  rcases List.mem_append.mp h with h | h
  · exact .inl h
  · exact .inr (List.mem_singleton.mp h)

/-- An open attempt, or none, is the attempts of no other unit and trial. -/
lemma Inv.claim (hi : Inv x ids s) (h : x.Allowed s .claim) : Inv x ids (x.step s .claim) := by
  have hnone : s.current = none := by
    cases hc : s.current with
    | none => rfl
    | some a =>
      have hrun := (hi.current a hc).1
      rw [show x.status s.store = some .queued from h] at hrun
      cases hrun
  have hstep : Inv x ids
      ⟨x.onRun (fun r => { r with status := .running }) (fun _ => rfl) s.store, s.past, none⟩ :=
    hi.onRun (f := fun r => { r with status := .running }) (fun _ => rfl)
      (attempts_none hnone).symm
  rw [← hnone] at hstep
  exact hstep

lemma Inv.author {figure : ℚ} {known : Bool} (hi : Inv x ids s) :
    Inv x ids (x.step s (.author figure known)) := by
  have hbuilds : ∀ u t, buildsAt x (Context.emit (x.authorEvent figure known) s.store) u t =
      buildsAt x s.store u t := fun u t => buildsAt_emit (show authorAttempt ≠ buildDone by decide) _
  have hother : authorAttempt ≠ readingReservedAction := by decide
  have hrun : ∃ r, (Context.emit (x.authorEvent figure known) s.store).runs.get? x.runId = some r ∧
      r.readingId = x.readingId := hi.run
  refine hi.of_store hrun hbuilds rfl (fun u => ?_) (fun ev hev => ?_) rfl hi.current
  · exact reservedAtUnit_emit hother _
  · exact (mem_emit hev).imp_right fun h => by rw [h]; exact hother

/-- A unit that no event reserves was reserved by no attempt. -/
lemma Inv.reserved_eq_none (hi : Inv x ids s) {u : String}
    (hfresh : ∀ ev ∈ s.store.events, ev.action = readingReservedAction →
      reservedKey ev ≠ (x.readingId, x.arm, u)) {a : Attempt} (ha : a ∈ s.attemptsAt u rungR1) :
    a.reserved = none := by
  have hnil : reservedAtUnit x s.store ids u = [] := by
    refine List.filter_eq_nil_iff.mpr fun ev hev hp => ?_
    obtain ⟨hrun, hu⟩ := of_decide_eq_true hp
    obtain ⟨hev, ha⟩ := List.mem_filter.mp (mem_of_mem_firsts hev)
    have hact := (of_decide_eq_true ha).1
    exact hfresh ev hev hact (hu ▸ hi.keys ev hev hact hrun)
  have hreserved := hi.reserved u
  rw [hnil, List.map_nil, eq_comm, List.filterMap_eq_nil_iff] at hreserved
  exact hreserved a ha

lemma Inv.reserve {unit eventId treatment : String} {hold : Option ℚ} (hid : x.runId ∈ ids)
    (hi : Inv x ids s) (h : x.Allowed s (.reserve unit eventId treatment hold)) :
    Inv x ids (x.step s (.reserve unit eventId treatment hold)) := by
  obtain ⟨hrun, hnone, hunit, hreading, hfresh, hrowed, hhold⟩ := h
  have hother : readingReservedAction ≠ buildDone := by decide
  have hat : (x.step s (.reserve unit eventId treatment hold)).attempts = s.past ++
      [⟨unit, rungR1, some (x.reclaims s.store, hold), none, false⟩] := rfl
  have hpast : ∀ u t, s.past.filter (fun a => a.unit = u ∧ a.trial = t) = s.attemptsAt u t :=
    fun u t => (attemptsAt_none hnone u t).symm
  refine ⟨hi.run, fun u t => ?_, fun u t => ?_, fun u => ?_, fun ev hev ha hr => ?_, ?_, ?_, ?_⟩
  · rw [attemptsAt_concat hat, hpast, List.filterMap_append, ← hi.builds]
    have hnil : (if unit = u ∧ rungR1 = t then
        [(⟨unit, rungR1, some (x.reclaims s.store, hold), none, false⟩ : Attempt)] else []).filterMap
          (·.built) = [] := by
      split_ifs <;> rfl
    rw [hnil, List.append_nil]
    exact congrArg _ (buildsAt_emit hother s.store)
  · rw [attemptsAt_concat hat, hpast, List.countP_append, ← hi.rows]
    have hnil : (if unit = u ∧ rungR1 = t then
        [(⟨unit, rungR1, some (x.reclaims s.store, hold), none, false⟩ : Attempt)] else []).countP
          (·.rowed) = 0 := by
      split_ifs <;> rfl
    rw [hnil]
    rfl
  · rw [attemptsAt_concat hat, hpast, List.filterMap_append, ← hi.reserved]
    refine (reservedAtUnit_emit_reservedEvent hid hi.run hreading hfresh).trans (congrArg _ ?_)
    by_cases hu : unit = u <;> simp [hu]
  · rcases mem_emit hev with hev | rfl
    · exact hi.keys ev hev ha hr
    · rfl
  · rw [hat]
    refine List.forall_mem_append.mpr ⟨?_, List.forall_mem_singleton.mpr ?_⟩
    · exact attempts_none hnone ▸ hi.ok
    · exact ⟨fun _ => rfl, by simp, .inr rfl, hhold⟩
  · rw [hat]
    refine List.pairwise_append.mpr ⟨attempts_none hnone ▸ hi.ordered, List.pairwise_singleton _ _,
      fun a ha b hb => ?_⟩
    obtain rfl := List.mem_singleton.mp hb
    intro hu ht
    have hmem : a ∈ s.attemptsAt unit rungR1 := by
      rw [← hpast]
      exact List.mem_filter.mpr ⟨ha, by simp [hu, ht]⟩
    exact ⟨hrowed a hmem, hi.reserved_eq_none hfresh hmem⟩
  · intro a ha
    obtain rfl := Option.some.inj ha
    exact ⟨hrun, rfl, fun r hr => by rw [← Option.some.inj hr]; rfl⟩

/-- An attempt that a step has just built: the open one, or one begun by its build. -/
structure BuiltBy (x : Context) (s : State) (unit trial : String) (cost : Option ℚ)
    (a : Attempt) : Prop where
  unit : a.unit = unit
  trial : a.trial = trial
  built : a.built = some cost
  rowed : a.rowed = false
  claim : ∀ r ∈ a.reserved, a.trial = rungR1 ∧ r.1 = x.reclaims s.store
  before : ∀ b ∈ s.past, Attempt.Before b a
  prior : s.current = none ∧ a.reserved = none ∨ s.current = some { a with built := none }

lemma Inv.exists_builtBy {unit trial rung : String} {figure : ℚ} {known : Bool} (hi : Inv x ids s)
    (h : x.Allowed s (.build unit trial rung figure known)) :
    ∃ a, (x.step s (.build unit trial rung figure known)).current = some a ∧
      BuiltBy x s unit trial (if known then some figure else none) a := by
  obtain ⟨-, -, -, hopen⟩ := h
  cases hc : s.current with
  | none =>
    rw [hc] at hopen
    refine ⟨⟨unit, trial, none, some (if known then some figure else none), false⟩,
      by simp [Context.step, hc], rfl, rfl, rfl, rfl, by simp, fun a ha hu ht => hopen a ?_,
      .inl ⟨hc, rfl⟩⟩
    rw [attemptsAt_none hc]
    exact List.mem_filter.mpr ⟨ha, by simp [hu, ht]⟩
  | some a =>
    rw [hc] at hopen
    obtain ⟨rfl, rfl, hnone⟩ := hopen
    obtain ⟨-, hrowed, hclaim⟩ := hi.current a hc
    have hord := List.pairwise_append.mp (attempts_some hc ▸ hi.ordered)
    have hok := hi.ok a (by rw [attempts_some hc]; simp)
    refine ⟨{ a with built := some (if known then some figure else none) },
      by simp [Context.step, hc], rfl, rfl, rfl, hrowed,
      fun r hr => ⟨hok.trial (Option.isSome_iff_exists.mpr ⟨r, hr⟩), hclaim r hr⟩,
      fun b hb hu ht => hord.2.2 b hb a (List.mem_singleton_self a) hu ht, .inr ?_⟩
    rw [hc, ← hnone]

/-- Beyond its build it is as it was. -/
lemma BuiltBy.attemptsAt {unit trial : String} {cost : Option ℚ} {a : Attempt}
    (h : BuiltBy x s unit trial cost a) (u t : String) :
    (s.attemptsAt u t).filterMap (·.built) =
      (s.past.filter fun a => a.unit = u ∧ a.trial = t).filterMap (·.built) ∧
    (s.attemptsAt u t).countP (·.rowed) =
      (s.past.filter fun a => a.unit = u ∧ a.trial = t).countP (·.rowed) ∧
    (s.attemptsAt u t).filterMap (·.reserved) =
      (s.past.filter fun a => a.unit = u ∧ a.trial = t).filterMap (·.reserved) ++
        (if unit = u ∧ trial = t then [a] else []).filterMap (·.reserved) := by
  rcases h.prior with ⟨hc, hres⟩ | hc
  · rw [attemptsAt_none hc]
    refine ⟨rfl, rfl, ?_⟩
    split_ifs <;> simp [hres]
  · rw [attemptsAt_concat (attempts_some hc), List.filterMap_append, List.countP_append,
      List.filterMap_append]
    simp only [h.unit, h.trial]
    split_ifs
    · exact ⟨by simp, by simp [h.rowed], by simp [List.filterMap_cons]⟩
    · exact ⟨by simp, by simp, by simp⟩

/-- A build closes nothing: it is the end of the open attempt's build, or opens one. -/
lemma Inv.build {unit trial rung : String} {figure : ℚ} {known : Bool} (hi : Inv x ids s)
    (h : x.Allowed s (.build unit trial rung figure known)) :
    Inv x ids (x.step s (.build unit trial rung figure known)) := by
  have hother : buildDone ≠ readingReservedAction := by decide
  obtain ⟨a, hat, hbuilt⟩ := hi.exists_builtBy h
  obtain ⟨hrun, hunit, hfigure, -⟩ := h
  have hnew : (x.step s (.build unit trial rung figure known)).attempts = s.past ++ [a] := by
    rw [attempts_some hat]
    rfl
  refine ⟨hi.run, fun u t => ?_, fun u t => ?_, fun u => ?_, fun ev hev ha hr => ?_, ?_, ?_, ?_⟩
  · refine (buildsAt_emit_builtEvent s.store hunit).trans ?_
    rw [hi.builds, (hbuilt.attemptsAt u t).1, attemptsAt_concat hnew, List.filterMap_append,
      hbuilt.unit, hbuilt.trial]
    by_cases h : unit = u ∧ trial = t
    · rw [if_pos h, if_pos h, List.filterMap_cons_some hbuilt.built, List.filterMap_nil]
    · rw [if_neg h, if_neg h, List.filterMap_nil]
  · refine (hi.rows u t).trans ?_
    rw [(hbuilt.attemptsAt u t).2.1, attemptsAt_concat hnew, List.countP_append]
    split_ifs <;> simp [hbuilt.rowed]
  · refine (congrArg (List.map terms) (reservedAtUnit_emit hother s.store)).trans ?_
    rw [hi.reserved, (hbuilt.attemptsAt u rungR1).2.2, attemptsAt_concat hnew,
      List.filterMap_append, hbuilt.unit, hbuilt.trial]
  · rcases mem_emit hev with hev | rfl
    · exact hi.keys ev hev ha hr
    · exact absurd ha hother
  · rw [hnew]
    refine List.forall_mem_append.mpr ⟨fun b hb => hi.ok b (List.mem_append_left _ hb),
      List.forall_mem_singleton.mpr ⟨fun h => ?_, fun h => ?_, .inl ?_, fun c hc => ?_⟩⟩
    · obtain ⟨r, hr⟩ := Option.isSome_iff_exists.mp h
      exact (hbuilt.claim r hr).1
    · rw [hbuilt.rowed] at h
      cases h
    · rw [hbuilt.built]
      rfl
    · rw [Attempt.charge, hbuilt.built] at hc
      split_ifs at hc
      · rwa [← Option.some.inj hc]
      · cases hc
  · rw [hnew]
    refine List.pairwise_append.mpr ⟨(List.pairwise_append.mp hi.ordered).1,
      List.pairwise_singleton _ _, fun b hb c hc => ?_⟩
    obtain rfl := List.mem_singleton.mp hc
    exact hbuilt.before b hb
  · intro b hb
    rw [hat] at hb
    obtain rfl := Option.some.inj hb
    exact ⟨hrun, hbuilt.rowed, fun r hr => (hbuilt.claim r hr).2⟩

lemma Inv.append {row : Row} (hi : Inv x ids s) (h : x.Allowed s (.append row)) :
    Inv x ids (x.step s (.append row)) := by
  obtain ⟨-, -, a, hc, hbuilt, himported, hkey⟩ := h
  have hnew : (x.step s (.append row)).attempts = s.past ++ [{ a with rowed := true }] := by
    simp [State.attempts, Context.step, hc]
  have hold := attempts_some hc
  have hok := hi.ok a (by rw [hold]; simp)
  obtain ⟨hpast, -, hbefore⟩ := List.pairwise_append.mp (hold ▸ hi.ordered)
  refine ⟨hi.run, fun u t => ?_, fun u t => ?_, fun u => ?_, hi.keys, ?_, ?_, ?_⟩
  · refine (hi.builds u t).trans ?_
    rw [attemptsAt_concat hold, attemptsAt_concat hnew, List.filterMap_append,
      List.filterMap_append]
    split_ifs <;> rfl
  · have hrows : rowsAt x (x.step s (.append row)).store u t =
        rowsAt x s.store u t ++ if a.unit = u ∧ a.trial = t then [row] else [] := by
      rw [rowsAt, Context.step, List.filter_append]
      refine congrArg _ ?_
      by_cases h : a.unit = u ∧ a.trial = t <;> simp [hkey, himported, h]
    rw [hrows, List.length_append, hi.rows, attemptsAt_concat hold, attemptsAt_concat hnew,
      List.countP_append, List.countP_append]
    have hrowed := (hi.current a hc).2.1
    split_ifs <;> simp [hrowed]
  · refine (hi.reserved u).trans ?_
    rw [attemptsAt_concat hold, attemptsAt_concat hnew, List.filterMap_append,
      List.filterMap_append]
    split_ifs <;> rfl
  · rw [hnew]
    refine List.forall_mem_append.mpr ⟨fun b hb => hi.ok b ?_,
      List.forall_mem_singleton.mpr ⟨hok.trial, fun _ => hbuilt, hok.begun, hok.charge⟩⟩
    rw [hold]
    exact List.mem_append_left _ hb
  · rw [hnew]
    refine List.pairwise_append.mpr ⟨hpast, List.pairwise_singleton _ _, fun b hb c hc => ?_⟩
    obtain rfl := List.mem_singleton.mp hc
    exact hbefore b hb a (List.mem_singleton_self a)
  · simp [Context.step]

/-- Every step of a history keeps the store that of the attempts made. -/
lemma inv_step (hid : x.runId ∈ ids) {l : Label} (hi : Inv x ids s) (h : x.Allowed s l) :
    Inv x ids (x.step s l) := by
  cases l with
  | claim => exact hi.claim h
  | reserve unit eventId treatment hold => exact hi.reserve hid h
  | build unit trial rung figure known => exact hi.build h
  | append row => exact hi.append h
  | author figure known => exact hi.author
  | reclaim abandoned =>
    exact hi.onRun (f := fun r => { r with
      status := if abandoned then .failed else .queued, reclaims := r.reclaims + 1 })
      (fun _ => rfl) rfl
  | finish status =>
    exact hi.onRun (f := fun r => { r with status := status }) (fun _ => rfl) rfl

end Steps

end CommitReplay.ChargedAttempts
