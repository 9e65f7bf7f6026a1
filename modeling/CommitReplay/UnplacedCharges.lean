import CommitReplay.ChargedAttempts

/-! Where the store is that of the attempts made, what it finds without a row is what the attempts
leave without one: each once, at its own charge. -/
namespace CommitReplay.ChargedAttempts

open CommitReplay.KeyedTable CommitReplay.KeyedGroups CommitReplay.RunQueue
open CommitReplay.TransitionRuns CommitReplay.CampaignStore CommitReplay.AttemptHistory

section Lists

/-- The attempts that a charge stands for: those built, and where none was those reserved. -/
def countedAmong (as : List Attempt) : List Attempt :=
  as.filter fun a => a.built.isSome || as.all (·.built.isNone)

variable {as : List Attempt}

/-- The rows are those of the last attempt: without as many builds, the earliest are left. -/
lemma take_built (hok : ∀ a ∈ as, Attempt.Ok a) (hord : as.Pairwise fun a _ => a.rowed = false) :
    (as.filterMap (·.built)).take ((as.filterMap (·.built)).length - as.countP (·.rowed)) =
      (as.filter (!·.rowed)).filterMap (·.built) := by
  induction as with
  | nil => rfl
  | cons a as ih =>
    obtain ⟨ha, hord⟩ := List.pairwise_cons.mp hord
    obtain ⟨hoka, hok⟩ := List.forall_mem_cons.mp hok
    cases hr : a.rowed with
    | true =>
      obtain rfl : as = [] := List.eq_nil_iff_forall_not_mem.mpr fun b hb => by
        rw [ha b hb] at hr
        cases hr
      obtain ⟨c, hc⟩ := Option.isSome_iff_exists.mp (hoka.built hr)
      simp [hr, hc]
    | false =>
      have hle : as.countP (·.rowed) ≤ (as.filterMap (·.built)).length := by
        rw [List.length_filterMap_eq_countP]
        exact List.countP_mono_left fun b hb h => (hok b hb).built h
      rw [List.countP_cons_of_neg (by simp [hr]), List.filter_cons_of_pos (by simp [hr])]
      cases hb : a.built with
      | none => rw [List.filterMap_cons_none hb, List.filterMap_cons_none hb, ih hok hord]
      | some c =>
        rw [List.filterMap_cons_some hb, List.filterMap_cons_some hb, ← ih hok hord,
          List.length_cons, Nat.sub_add_comm hle, List.take_succ_cons]

/-- Where an attempt was built, those that were are charged their costs. -/
lemma charges_of_built (h : as.filterMap (·.built) ≠ []) :
    ((countedAmong as).filter (!·.rowed)).map Attempt.charge =
      (as.filter (!·.rowed)).filterMap (·.built) := by
  have hnot : as.all (·.built.isNone) = false := by
    rw [List.all_eq_false]
    obtain ⟨c, hc⟩ := List.exists_mem_of_ne_nil _ h
    obtain ⟨a, ha, hc⟩ := List.mem_filterMap.mp hc
    exact ⟨a, ha, by simp [hc]⟩
  simp only [countedAmong, hnot, Bool.or_false]
  clear h hnot
  induction as with
  | nil => rfl
  | cons a as ih =>
    cases hb : a.built <;> cases hr : a.rowed <;> simpa [hb, hr, Attempt.charge] using ih

lemma countedAmong_eq_self (h : as.filterMap (·.built) = []) : countedAmong as = as := by
  have hall : as.all (·.built.isNone) = true := by
    rw [List.all_eq_true]
    intro a ha
    have := List.filterMap_eq_nil_iff.mp h a ha
    simp [this]
  simp [countedAmong, hall]

/-- Every row is of an attempt that counts. -/
lemma length_countedAmong (hok : ∀ a ∈ as, Attempt.Ok a) : (countedAmong as).length =
    as.countP (·.rowed) + ((countedAmong as).filter (!·.rowed)).length := by
  have hrowed : (countedAmong as).countP (·.rowed) = as.countP (·.rowed) := by
    rw [countedAmong, List.countP_filter]
    refine List.countP_congr fun a ha => ?_
    have := (hok a ha).built
    simp only [Bool.and_eq_true, Bool.or_eq_true]
    exact ⟨fun h => h.1, fun h => ⟨h, .inl (this h)⟩⟩
  rw [← hrowed, ← List.countP_eq_length_filter]
  simpa using List.length_eq_countP_add_countP (fun a : Attempt => a.rowed) (l := countedAmong as)

end Lists

section Claim

variable (x : Context) (runIds : List String)

/-- The run's unplaced attempts of one unit and trial. -/
def unplacedAt (s : Store) (unit trial : String) : List UnplacedAttempt :=
  (unplacedAttempts s runIds).filter fun p => (p.runId, p.taskId, p.trial) = (x.runId, unit, trial)

/-- Once the run is over its rows and its unplaced attempts are, one for one, the attempts that
count, the unplaced ones at the charges of those without a row; until then an open attempt is not
among them. -/
structure ChargedOnce (s : State) : Prop where
  number : ended s.store x.runId = true → ∀ unit trial,
    rowed s.store runIds (x.runId, unit, trial) + (unplacedAt x runIds s.store unit trial).length =
      (countedAmong (s.attemptsAt unit trial)).length
  charges : ended s.store x.runId = true → ∀ unit trial,
    (unplacedAt x runIds s.store unit trial).map (·.costUsd) =
      ((countedAmong (s.attemptsAt unit trial)).filter (!·.rowed)).map Attempt.charge
  held : ended s.store x.runId = false → ∀ a ∈ s.current,
    unplacedAt x runIds s.store a.unit a.trial = []

end Claim

section Unplaced

variable {x : Context} {runIds ids : List String} {s : State} {unit trial : String}

lemma mem_unplacedBuilds {st : Store} {k : String × String × String} {p : UnplacedAttempt}
    (h : p ∈ unplacedBuilds st ids k) : (p.runId, p.taskId, p.trial) = k := by
  rw [unplacedBuilds] at h
  by_cases hs : (ended st k.1 || (buildReservation st ids k).any (·.settled)) = true
  · rw [if_pos hs] at h
    obtain ⟨ev, -, rfl⟩ := List.mem_map.mp h
    rfl
  · rw [if_neg hs] at h
    cases h

lemma mem_unplacedReservation {st : Store} {k : String × String} {p : UnplacedAttempt}
    (h : p ∈ unplacedReservation st ids k) : (p.runId, p.taskId) = k ∧ p.trial = rungR1 := by
  rw [unplacedReservation] at h
  split at h
  · cases h
  · split_ifs at h
    · obtain rfl := List.mem_singleton.mp h
      exact ⟨rfl, rfl⟩
    · cases h

/-- The unplaced attempts of one unit and trial: its builds, and at `r1` its reservation. -/
lemma unplacedAt_eq (st : Store) : unplacedAt x runIds st unit trial =
    unplacedBuilds st (runIds.filter (· ≠ "")) (x.runId, unit, trial) ++
      if trial = rungR1 then unplacedReservation st (runIds.filter (· ≠ "")) (x.runId, unit)
      else [] := by
  rw [unplacedAt, unplacedAttempts, List.filter_append]
  congr 1
  · refine filter_flatMap (fun p : UnplacedAttempt => (p.runId, p.taskId, p.trial))
      nodup_keysOf (fun k p hp => mem_unplacedBuilds hp) fun hk => ?_
    rw [unplacedBuilds, group_eq_nil hk]
    simp
  · have hone := filter_flatMap (fun p : UnplacedAttempt => (p.runId, p.taskId))
      (@nodup_keysOf _ _ _ reservationKey (reservationsOfRuns st (runIds.filter (· ≠ ""))))
      (fun k p hp => (mem_unplacedReservation hp).1) (k := (x.runId, unit)) fun hk => by
        rw [unplacedReservation, reservedAt, group_eq_nil hk]
        rfl
    have htrial : ∀ p ∈ (keysOf reservationKey (reservationsOfRuns st (runIds.filter (· ≠ "")))).flatMap
        (unplacedReservation st (runIds.filter (· ≠ ""))), p.trial = rungR1 := by
      intro p hp
      obtain ⟨k, -, hp⟩ := List.mem_flatMap.mp hp
      exact (mem_unplacedReservation hp).2
    split_ifs with ht
    · rw [← hone, ht]
      refine List.filter_congr fun p hp => ?_
      simp [htrial p hp]
    · refine List.filter_eq_nil_iff.mpr fun p hp h => ht ?_
      rw [← htrial p hp]
      exact (congrArg (·.2.2) (of_decide_eq_true h)).symm

lemma mem_attemptsAt {a : Attempt} :
    a ∈ s.attemptsAt unit trial ↔ a ∈ s.attempts ∧ a.unit = unit ∧ a.trial = trial := by
  rw [State.attemptsAt, List.mem_filter, decide_eq_true_eq]

lemma Inv.ok_at (hi : Inv x ids s) : ∀ a ∈ s.attemptsAt unit trial, Attempt.Ok a :=
  fun a ha => hi.ok a (mem_attemptsAt.mp ha).1

lemma Inv.ordered_at (hi : Inv x ids s) : (s.attemptsAt unit trial).Pairwise
    fun a _ => a.rowed = false ∧ a.reserved = none := by
  refine (hi.ordered.filter _).imp_of_mem fun {a b} ha hb h => ?_
  obtain ⟨-, hu, ht⟩ := mem_attemptsAt.mp ha
  obtain ⟨-, hu', ht'⟩ := mem_attemptsAt.mp hb
  exact h (hu.trans hu'.symm) (ht.trans ht'.symm)

/-- The key's builds are settled: the run is over, or it lost the claim that reserved the unit. -/
def settledKey (st : Store) (ids : List String) (k : String × String × String) : Bool :=
  ended st k.1 || (buildReservation st ids k).any (·.settled)

lemma Inv.costs_unplacedBuilds (hi : Inv x ids s) (hid : x.runId ∈ ids) :
    (unplacedBuilds s.store ids (x.runId, unit, trial)).map (·.costUsd) =
      if settledKey s.store ids (x.runId, unit, trial) then
        ((s.attemptsAt unit trial).filter (!·.rowed)).filterMap (·.built) else [] := by
  have hlen := congrArg List.length (hi.builds unit trial)
  rw [List.length_map] at hlen
  rw [unplacedBuilds, ← settledKey]
  by_cases hs : settledKey s.store ids (x.runId, unit, trial) = true
  · rw [if_pos hs, if_pos hs, List.map_map, ← take_built hi.ok_at
      (hi.ordered_at.imp fun h => h.1), ← hi.builds, group_builds hid, rowed_eq hid, hi.rows,
      List.length_map, List.map_take]
    rfl
  · rw [if_neg hs, if_neg hs, List.map_nil]

/-- The last reservation of a unit is that of its last attempt at `r1`. -/
lemma Inv.reservedAt_eq_none (hi : Inv x ids s) (hid : x.runId ∈ ids)
    (h : (s.attemptsAt unit rungR1).filterMap (·.reserved) = []) :
    reservedAt s.store ids (x.runId, unit) = none := by
  obtain ⟨r, hrun, -⟩ := hi.run
  have hnil : reservedAtUnit x s.store ids unit = [] :=
    List.map_eq_nil_iff.mp ((hi.reserved unit).trans h)
  rw [reservedAt_eq hid (by rw [hrun]; rfl), hnil]
  rfl

lemma Inv.reservedAt_eq_some (hi : Inv x ids s) (hid : x.runId ∈ ids) {claim : ℤ}
    {hold : Option ℚ} (h : (s.attemptsAt unit rungR1).filterMap (·.reserved) = [(claim, hold)]) :
    ∃ res, reservedAt s.store ids (x.runId, unit) = some res ∧ res.holdUsd = hold ∧
      res.settled = isSettled s.store x.runId claim := by
  obtain ⟨r, hrun, -⟩ := hi.run
  obtain ⟨ev, hev, hterms⟩ := List.map_eq_singleton_iff.mp ((hi.reserved unit).trans h)
  have hown : ev.payload.runId = x.runId := by
    have hmem : ev ∈ reservedAtUnit x s.store ids unit := by simp [hev]
    exact (of_decide_eq_true (List.mem_filter.mp hmem).2).1
  refine ⟨Reservation.ofEvent s.store ev, ?_, congrArg Prod.snd hterms, ?_⟩
  · rw [reservedAt_eq hid (by rw [hrun]; rfl), hev]
    rfl
  · have hclaim : claimOf ev.payload.claim = claim := congrArg Prod.fst hterms
    rw [Reservation.ofEvent, hown, hclaim]

/-- Attempts that were never built are one reservation. -/
lemma Inv.attemptsAt_of_unbuilt (hi : Inv x ids s)
    (h : (s.attemptsAt unit trial).filterMap (·.built) = []) :
    s.attemptsAt unit trial = [] ∨ ∃ a r, s.attemptsAt unit trial = [a] ∧ a.reserved = some r ∧
      a.built = none ∧ trial = rungR1 := by
  cases has : s.attemptsAt unit trial with
  | nil => exact .inl rfl
  | cons a as =>
    have hbegun : ∀ b ∈ a :: as, b.built = none ∧ b.reserved.isSome := by
      intro b hb
      have hnone := List.filterMap_eq_nil_iff.mp h b (has ▸ hb)
      exact ⟨hnone, (hi.ok_at b (has ▸ hb)).begun.resolve_left (by simp [hnone])⟩
    obtain ⟨hnone, hres⟩ := hbegun a List.mem_cons_self
    obtain ⟨r, hr⟩ := Option.isSome_iff_exists.mp hres
    refine .inr ⟨a, r, ?_, hr, hnone, ?_⟩
    · cases as with
      | nil => rfl
      | cons b as =>
        have hord := (List.pairwise_cons.mp (has ▸ hi.ordered_at)).1 b List.mem_cons_self
        rw [hord.2] at hr
        cases hr
    · have hmem : a ∈ s.attemptsAt unit trial := has ▸ List.mem_cons_self
      exact (mem_attemptsAt.mp hmem).2.2.symm.trans ((hi.ok_at a hmem).trial hres)

lemma isSettled_of_ended {st : Store} {runId : String} (h : ended st runId = true) (claim : ℤ) :
    isSettled st runId claim = true := by
  rw [ended] at h
  rw [isSettled]
  split <;> rename_i hget <;> simp_all

lemma settledKey_of_ended {st : Store} {k : String × String × String} (h : ended st k.1 = true) :
    settledKey st ids k = true := by
  rw [settledKey, h, Bool.true_or]

/-- A reservation whose unit was built at `r1` is not charged for itself. -/
lemma Inv.mem_keysOf_builds (hi : Inv x ids s) (hid : x.runId ∈ ids) :
    (x.runId, unit, trial) ∈ keysOf buildKey (CampaignStore.builds s.store ids) ↔
      (s.attemptsAt unit trial).filterMap (·.built) ≠ [] := by
  rw [← hi.builds, ne_eq, List.map_eq_nil_iff, ← group_builds hid]
  constructor
  · intro h hnil
    obtain ⟨ev, hev, hkey⟩ := mem_keysOf.mp h
    exact List.filter_eq_nil_iff.mp hnil ev hev (decide_eq_true hkey)
  · intro h
    by_contra hk
    exact h (group_eq_nil hk)

lemma Inv.unplacedReservation_of_built (hi : Inv x ids s) (hid : x.runId ∈ ids)
    (h : (s.attemptsAt unit rungR1).filterMap (·.built) ≠ []) :
    unplacedReservation s.store ids (x.runId, unit) = [] := by
  have hmem := (hi.mem_keysOf_builds hid).mpr h
  rw [unplacedReservation]
  split
  · rfl
  · exact if_neg fun hc => hc.2.1 hmem

/-- What is unplaced of a settled key is what its attempts leave without a row. -/
lemma Inv.charges_unplacedAt (hi : Inv x (runIds.filter (· ≠ "")) s)
    (hid : x.runId ∈ runIds.filter (· ≠ ""))
    (hkey : settledKey s.store (runIds.filter (· ≠ "")) (x.runId, unit, trial) = true) :
    (unplacedAt x runIds s.store unit trial).map (·.costUsd) =
      ((countedAmong (s.attemptsAt unit trial)).filter (!·.rowed)).map Attempt.charge := by
  rw [unplacedAt_eq, List.map_append, hi.costs_unplacedBuilds hid, if_pos hkey]
  by_cases hb : (s.attemptsAt unit trial).filterMap (·.built) = []
  · have hleft : ((s.attemptsAt unit trial).filter (!·.rowed)).filterMap (·.built) = [] :=
      List.filterMap_eq_nil_iff.mpr fun a ha =>
        List.filterMap_eq_nil_iff.mp hb a (List.mem_of_mem_filter ha)
    rw [hleft, countedAmong_eq_self hb, List.nil_append]
    rcases hi.attemptsAt_of_unbuilt hb with hnil | ⟨a, ⟨claim, hold⟩, hone, hres, hnone, rfl⟩
    · rw [hnil]
      split_ifs with ht
      · subst ht
        have hno : (s.attemptsAt unit rungR1).filterMap (·.reserved) = [] := by rw [hnil]; rfl
        rw [unplacedReservation, hi.reservedAt_eq_none hid hno]
        rfl
      · rfl
    · have hterms : (s.attemptsAt unit rungR1).filterMap (·.reserved) = [(claim, hold)] := by
        rw [hone, List.filterMap_cons_some hres, List.filterMap_nil]
      obtain ⟨res, hat, hhold, hsettled⟩ := hi.reservedAt_eq_some hid hterms
      have hrowed : a.rowed = false := by
        by_contra h
        have hmem : a ∈ s.attemptsAt unit rungR1 := hone ▸ List.mem_singleton_self a
        have hbuilt := (hi.ok_at a hmem).built (Bool.not_eq_false _ ▸ h)
        rw [hnone] at hbuilt
        cases hbuilt
      have hnot : (x.runId, unit, rungR1) ∉ keysOf buildKey (CampaignStore.builds s.store
          (runIds.filter (· ≠ ""))) := fun h => (hi.mem_keysOf_builds hid).mp h hb
      have hrows : rowed s.store (runIds.filter (· ≠ "")) (x.runId, unit, rungR1) = 0 := by
        rw [rowed_eq hid, hi.rows, hone]
        simp [hrowed]
      have hover : res.settled = true := by
        rw [settledKey, buildReservation, if_pos rfl, hat, Option.any_some, Bool.or_eq_true] at hkey
        exact hkey.elim (fun h => hsettled.trans (isSettled_of_ended h claim)) id
      have hcharge : a.charge = hold := by simp [Attempt.charge, hnone, hres]
      have hlast : unplacedReservation s.store (runIds.filter (· ≠ "")) (x.runId, unit) =
          [⟨x.runId, unit, rungR1, "", res.holdUsd, res.eventId,
            readingOf s.store (runIds.filter (· ≠ "")) x.runId⟩] := by
        rw [unplacedReservation, hat]
        exact if_pos ⟨hover, hnot, hrows⟩
      rw [if_pos rfl, hlast, hone, List.filter_cons_of_pos (by simp [hrowed]), List.filter_nil,
        List.map_singleton, List.map_singleton, hhold, hcharge]
  · rw [charges_of_built hb]
    split_ifs with ht
    · subst ht
      rw [hi.unplacedReservation_of_built hid hb, List.map_nil, List.append_nil]
    · rw [List.map_nil, List.append_nil]

/-- The open attempt is the last of its unit and trial. -/
lemma Inv.reserved_current (hi : Inv x ids s) {a : Attempt} (ha : s.current = some a) :
    (s.attemptsAt a.unit a.trial).filterMap (·.reserved) = a.reserved.toList := by
  have hbefore := (List.pairwise_append.mp (attempts_some ha ▸ hi.ordered)).2.2
  have hnil : (s.past.filter fun b => b.unit = a.unit ∧ b.trial = a.trial).filterMap
      (·.reserved) = [] := by
    refine List.filterMap_eq_nil_iff.mpr fun b hb => ?_
    obtain ⟨hb, hat⟩ := List.mem_filter.mp hb
    obtain ⟨hu, ht⟩ := of_decide_eq_true hat
    exact (hbefore b hb a (List.mem_singleton_self a) hu ht).2
  rw [attemptsAt_concat (attempts_some ha), List.filterMap_append, hnil, if_pos ⟨rfl, rfl⟩]
  cases hr : a.reserved <;> simp [hr]

lemma active_of_not_ended {st : Store} {runId : String} (h : ended st runId = false) :
    ∃ run, st.runs.get? runId = some run ∧ active run.status = true := by
  rw [ended] at h
  split at h
  · cases h
  · rename_i run hget
    exact ⟨run, hget, by simpa using h⟩

/-- Only the last attempt of a unit and trial may be reserved. -/
lemma Inv.reserved_cases (hi : Inv x ids s) :
    (s.attemptsAt unit trial).filterMap (·.reserved) = [] ∨
      ∃ r, (s.attemptsAt unit trial).filterMap (·.reserved) = [r] := by
  have hord : (s.attemptsAt unit trial).Pairwise fun a _ => a.rowed = false ∧ a.reserved = none :=
    hi.ordered_at
  generalize s.attemptsAt unit trial = as at hord
  induction as with
  | nil => exact .inl rfl
  | cons a as ih =>
    obtain ⟨ha, hord⟩ := List.pairwise_cons.mp hord
    cases hr : a.reserved with
    | none => simpa [List.filterMap_cons_none hr] using ih hord
    | some r =>
      obtain rfl : as = [] := List.eq_nil_iff_forall_not_mem.mpr fun b hb => by
        rw [(ha b hb).2] at hr
        cases hr
      exact .inr ⟨r, by simp [hr]⟩

/-- The run is over, or it lost the claim that the unit was reserved under. -/
def Settled (x : Context) (s : State) (unit trial : String) : Prop :=
  ended s.store x.runId = true ∨ trial = rungR1 ∧
    ∃ r ∈ (s.attemptsAt unit trial).filterMap (·.reserved), r.1 < x.reclaims s.store

lemma Inv.settledKey_iff (hi : Inv x ids s) (hid : x.runId ∈ ids) :
    settledKey s.store ids (x.runId, unit, trial) = true ↔ Settled x s unit trial := by
  rw [settledKey, Bool.or_eq_true, Settled]
  refine or_congr_right' fun hended => ?_
  rw [buildReservation]
  split_ifs with ht
  · obtain rfl := ht
    have hcases : (s.attemptsAt unit rungR1).filterMap (·.reserved) = [] ∨
        ∃ r, (s.attemptsAt unit rungR1).filterMap (·.reserved) = [r] := hi.reserved_cases
    rcases hcases with hnil | ⟨r, hone⟩
    · rw [hi.reservedAt_eq_none hid hnil, hnil]
      simp
    · obtain ⟨res, hat, -, hsettled⟩ := hi.reservedAt_eq_some hid hone
      obtain ⟨run, hget, hactive⟩ := active_of_not_ended (Bool.eq_false_iff.mpr hended)
      rw [hat, hone, Option.any_some, hsettled, isSettled, Context.reclaims, hget]
      simp [hactive]
  · simp [show ¬ trial = rungR1 from ht]

/-- The open attempt was reserved under the claim that the run holds. -/
lemma Inv.not_settled_current (hi : Inv x ids s) (hended : ended s.store x.runId = false)
    {a : Attempt} (ha : s.current = some a) : ¬ Settled x s a.unit a.trial := by
  rintro (h | ⟨-, r, hr, hlt⟩)
  · rw [h] at hended
    cases hended
  · rw [hi.reserved_current ha] at hr
    exact hlt.ne ((hi.current a ha).2.2 r (Option.mem_toList.mp hr))

/-- A key that is not settled has nothing unplaced. -/
lemma unplacedAt_eq_nil (hended : ended s.store x.runId = false)
    (h : settledKey s.store (runIds.filter (· ≠ "")) (x.runId, unit, trial) = false) :
    unplacedAt x runIds s.store unit trial = [] := by
  rw [unplacedAt_eq, unplacedBuilds, ← settledKey, h, if_neg (by simp), List.nil_append]
  split_ifs with ht
  · rw [settledKey, hended, Bool.false_or, buildReservation, if_pos ht] at h
    rw [unplacedReservation]
    split
    · rfl
    · rename_i res hres
      rw [hres] at h
      exact if_neg fun hc => by simp [hc.1] at h
  · rfl

/-- While the run is not over an attempt that is open is not unplaced. -/
lemma Inv.held (hi : Inv x (runIds.filter (· ≠ "")) s) (hid : x.runId ∈ runIds.filter (· ≠ ""))
    (hended : ended s.store x.runId = false) {a : Attempt} (ha : s.current = some a) :
    unplacedAt x runIds s.store a.unit a.trial = [] :=
  unplacedAt_eq_nil hended <| Bool.eq_false_iff.mpr fun h =>
    hi.not_settled_current hended ha ((hi.settledKey_iff hid).mp h)

/-- What the store says of the run is what its attempts are. -/
lemma Inv.chargedOnce (hi : Inv x (runIds.filter (· ≠ "")) s) (hid : x.runId ∈ runIds) :
    ChargedOnce x runIds s := by
  have hids : x.runId ∈ runIds.filter (· ≠ "") := List.mem_filter.mpr ⟨hid, by simpa using x.named⟩
  refine ⟨fun hended unit trial => ?_, fun hended unit trial => hi.charges_unplacedAt hids (settledKey_of_ended hended),
    fun hended a ha => hi.held hids hended ha⟩
  have hcharges : (unplacedAt x runIds s.store unit trial).map (·.costUsd) =
      ((countedAmong (s.attemptsAt unit trial)).filter (!·.rowed)).map Attempt.charge :=
    hi.charges_unplacedAt hids (settledKey_of_ended hended)
  have hlen := congrArg List.length hcharges
  rw [List.length_map, List.length_map] at hlen
  rw [rowed_eq hid, hi.rows, hlen, length_countedAmong hi.ok_at]

end Unplaced

end CommitReplay.ChargedAttempts
