import CommitReplay.FencedPasses

/-! Any number of polls, Register acts and switch-offs on one lease row: the row goes to another holder only
when its time to live has passed, and a party told that it lost the row does nothing more to the board. -/
namespace CommitReplay.OnePass

open CommitReplay.PythonText CommitReplay.Interaction CommitReplay.Interleavings
open CommitReplay.IntakeRecords CommitReplay.IntakeLeases CommitReplay.IntakePasses
open CommitReplay.FencedPasses

section Row

/-- The lease's row, and the clock all parties read. -/
structure Shared where
  row : Option WorkerRow
  clock : ℚ

def heldAt (row : Option WorkerRow) (hostname : Holder) (heartbeat : Stamp) : Bool :=
  row.any fun r => r.hostname = hostname && r.heartbeat = heartbeat

/-- What a statement makes of the row. -/
def rowAfter (row : Option WorkerRow) : Op → Option WorkerRow
  | .insertRow r => row.or (some r)
  | .takeRow hostname heartbeat r => if heldAt row hostname heartbeat then some r else row
  | .stampRow hostname heartbeat =>
    row.map fun r => if r.hostname = hostname then { r with heartbeat } else r
  | .deleteRow hostname => row.filter fun r => r.hostname ≠ hostname
  | _ => row

/-- A statement that raised is rolled back; a call of the tracker or of the record touches no row. -/
def Shared.after (s : Shared) : Call face → Shared
  | ⟨.clock, .ok t⟩ => { s with clock := t }
  | ⟨op, .ok _⟩ => { s with row := rowAfter s.row op }
  | ⟨_, .error _⟩ => s

/-- The row answers as it is, and the clock goes on. -/
def Shared.answers (s : Shared) : Call face → Bool
  | ⟨.clock, .ok t⟩ => decide (s.clock ≤ t)
  | ⟨.getRow, .ok row⟩ => row = s.row
  | ⟨.insertRow _, .ok inserted⟩ => inserted = s.row.isNone
  | ⟨.takeRow hostname heartbeat _, .ok taken⟩ => taken = heldAt s.row hostname heartbeat
  | ⟨.stampRow hostname _, .ok stamped⟩ => stamped = s.row.any fun r => r.hostname = hostname
  | _ => true

def Reacts : Reaction Shared Holder face := fun s _ c s' => s.answers c = true ∧ s' = s.after c

/-- No lease, and any time. -/
def free (now : ℚ) : Shared := ⟨none, now⟩

/-- The stamp a call wrote, and whose. -/
def written : Call face → Option (Holder × Stamp)
  | ⟨.insertRow r, .ok true⟩ => some (r.hostname, r.heartbeat)
  | ⟨.takeRow _ _ r, .ok true⟩ => some (r.hostname, r.heartbeat)
  | ⟨.stampRow hostname heartbeat, .ok true⟩ => some (hostname, heartbeat)
  | _ => none

/-- The last stamp a holder wrote. -/
def lastStamp (holder : Holder) (log : List (Holder × Call face)) : Option Stamp :=
  ((log.filterMap fun e => written e.2).filter fun x => x.1 = holder).getLast?.map (·.2)

end Row

section Property

/-- What any next call keeps to: the row leaves its holder for none only where the holder releases it, and
for another only when the time to live has passed since the last stamp the holder wrote; no renewal and no
release of another touches it; and a party that a renewal told of its loss calls no tracker and registers
no item. -/
structure OnePass (ttl : Holder → ℚ) (log : List (Holder × Call face)) (s : Shared) (i : Holder)
    (c : Call face) (s' : Shared) : Prop where
  released : ∀ r, s.row = some r → s'.row = none → i = r.hostname ∧ c.op = .deleteRow r.hostname
  expired : ∀ r r', s.row = some r → s'.row = some r' → r'.hostname ≠ r.hostname →
    ∃ stamp, lastStamp r.hostname log = some stamp ∧ ttl r.hostname < s.clock - epoch stamp
  others : ∀ r, s.row = some r → i ≠ r.hostname →
    (∃ hostname heartbeat, c.op = .stampRow hostname heartbeat) ∨ (∃ hostname, c.op = .deleteRow hostname) →
      s'.row = s.row
  quiet : told (callsOf i log) = true → isTracker c.op = false
  unregistered : told (callsOf i log) = true → isRegister c.op = false

/-- No party finds the factory idle that a renewal told of its loss. -/
def Unhurried (log : List (Holder × Call face)) : Prop :=
  ∀ pre i c post, log = pre ++ (i, c) :: post → foundIdle c = true → told (callsOf i pre) = false

end Property

section Runs

variable {desk : Desk} {parties : Holder → Party} {now : ℚ}

/-- The parties at once, each with a lease of its own. -/
def Running (desk : Desk) (parties : Holder → Party) (now : ℚ) (log : List (Holder × Call face))
    (s : Shared) : Prop :=
  Interleaved (fun i => (parties i).program desk i) {} Reacts (free now) log s

/-- What has been read and written so far: the row is as its holder last stamped it, every row there was has
its holder's time to live, and the clock has passed every time read. -/
structure Tracked (ttl : Holder → ℚ) (log : List (Holder × Call face)) (s : Shared) : Prop where
  stamped : ∀ r, s.row = some r → lastStamp r.hostname log = some r.heartbeat
  lives : ∀ r, s.row = some r → r.heartbeatS = ttl r.hostname
  seen : ∀ i r, (i, (⟨.getRow, .ok (some r)⟩ : Call face)) ∈ log → r.heartbeatS = ttl r.hostname
  passed : ∀ i t, (i, (⟨.clock, .ok t⟩ : Call face)) ∈ log → t ≤ s.clock

lemma lastStamp_snoc (holder i : Holder) (c : Call face) (log : List (Holder × Call face)) :
    lastStamp holder (log ++ [(i, c)]) =
      match written c with
      | some (h, stamp) => if h = holder then some stamp else lastStamp holder log
      | none => lastStamp holder log := by
  unfold lastStamp
  cases hw : written c with
  | none => simp [List.filterMap_append, hw]
  | some x =>
    obtain ⟨h, stamp⟩ := x
    by_cases hh : h = holder
    · simp [List.filterMap_append, hw, hh]
    · simp [List.filterMap_append, hw, hh]

lemma row_of_unwritten {s : Shared} {c : Call face} {r : WorkerRow} (ha : s.answers c = true)
    (hw : written c = none) (h : (s.after c).row = some r) : s.row = some r := by
  obtain ⟨op, answer⟩ := c
  cases answer with
  | error e => cases op <;> exact h
  | ok a =>
    cases op with
    | insertRow row =>
      cases hrow : s.row with
      | none =>
        obtain rfl : a = true := by simpa [Shared.answers, hrow] using ha
        cases hw
      | some x => simpa [Shared.after, rowAfter, hrow] using h
    | takeRow hostname heartbeat row =>
      cases hheld : heldAt s.row hostname heartbeat with
      | true =>
        obtain rfl : a = true := by simpa [Shared.answers, hheld] using ha
        cases hw
      | false => simpa [Shared.after, rowAfter, hheld] using h
    | stampRow hostname heartbeat =>
      cases hrow : s.row with
      | none => simp [Shared.after, rowAfter, hrow] at h
      | some x =>
        by_cases hx : x.hostname = hostname
        · obtain rfl : a = true := by simpa [Shared.answers, hrow, hx] using ha
          cases hw
        · simpa [Shared.after, rowAfter, hrow, hx] using h
    | deleteRow hostname => exact (Option.filter_eq_some_iff.mp h).1
    | _ => exact h

/-- What a party writes is its own stamp, on a row of its own time to live. -/
lemma row_of_written {ttl : Holder → ℚ} {log : List (Holder × Call face)} {s : Shared} {i h : Holder}
    {c : Call face} {stamp : Stamp} (ht : Tracked ttl log s) (ha : s.answers c = true)
    (hown : OwnRow i (ttl i) (callsOf i log) c.op) (hw : written c = some (h, stamp)) :
    ∃ r, (s.after c).row = some r ∧ r.hostname = h ∧ r.heartbeat = stamp ∧ r.heartbeatS = ttl h := by
  obtain ⟨op, answer⟩ := c
  cases answer with
  | error e => cases op <;> cases hw
  | ok a =>
    cases op with
    | insertRow row =>
      cases a with
      | false => cases hw
      | true =>
        obtain ⟨rfl, rfl⟩ := Prod.mk.inj (Option.some.inj hw)
        have hrow : s.row = none := by simpa [Shared.answers] using ha
        exact ⟨row, by simp [Shared.after, rowAfter, hrow], rfl, rfl, by rw [hown.1]; exact hown.2⟩
    | takeRow hostname heartbeat row =>
      cases a with
      | false => cases hw
      | true =>
        obtain ⟨rfl, rfl⟩ := Prod.mk.inj (Option.some.inj hw)
        have hheld : heldAt s.row hostname heartbeat = true := by simpa [Shared.answers] using ha
        exact ⟨row, by simp [Shared.after, rowAfter, hheld], rfl, rfl, by rw [hown.1]; exact hown.2.1⟩
    | stampRow hostname heartbeat =>
      cases a with
      | false => cases hw
      | true =>
        obtain ⟨rfl, rfl⟩ := Prod.mk.inj (Option.some.inj hw)
        obtain ⟨r, hr, hname⟩ : ∃ r, s.row = some r ∧ r.hostname = hostname := by
          simpa [Shared.answers, Option.any_eq_true] using ha
        refine ⟨{ r with heartbeat }, by simp [Shared.after, rowAfter, hr, hname], hname, rfl, ?_⟩
        exact hname ▸ ht.lives r hr
    | _ => cases hw

lemma clock_le {s : Shared} {c : Call face} (ha : s.answers c = true) : s.clock ≤ (s.after c).clock := by
  obtain ⟨op, answer⟩ := c
  cases answer with
  | error e => cases op <;> exact le_refl _
  | ok a =>
    cases op with
    | clock => exact of_decide_eq_true ha
    | _ => exact le_refl _

/-- Each proper call keeps track. -/
lemma Tracked.call {ttl : Holder → ℚ} {log : List (Holder × Call face)} {s : Shared} {i : Holder}
    {c : Call face} (ht : Tracked ttl log s) (ha : s.answers c = true)
    (hown : OwnRow i (ttl i) (callsOf i log) c.op) : Tracked ttl (log ++ [(i, c)]) (s.after c) := by
  refine ⟨fun r hr => ?_, fun r hr => ?_, fun j r hmem => ?_, fun j t hmem => ?_⟩
  · rw [lastStamp_snoc]
    cases hw : written c with
    | none => exact ht.stamped r (row_of_unwritten ha hw hr)
    | some x =>
      obtain ⟨r', hr', hname, hstamp, -⟩ := row_of_written ht ha hown hw
      obtain rfl := Option.some.inj (hr.symm.trans hr')
      dsimp only
      rw [if_pos hname.symm, hstamp]
  · cases hw : written c with
    | none => exact ht.lives r (row_of_unwritten ha hw hr)
    | some x =>
      obtain ⟨r', hr', hname, -, hlives⟩ := row_of_written ht ha hown hw
      obtain rfl := Option.some.inj (hr.symm.trans hr')
      rw [hlives, hname]
  · obtain hmem | hmem := List.mem_append.mp hmem
    · exact ht.seen j r hmem
    · obtain ⟨rfl, rfl⟩ := Prod.mk.inj (List.mem_singleton.mp hmem)
      exact ht.lives r (of_decide_eq_true ha).symm
  · obtain hmem | hmem := List.mem_append.mp hmem
    · exact (ht.passed j t hmem).trans (clock_le ha)
    · obtain ⟨rfl, rfl⟩ := Prod.mk.inj (List.mem_singleton.mp hmem)
      exact le_refl _

/-- A party's next call is proper. -/
lemma proper_next {log : List (Holder × Call face)} {i : Holder} {c : Call face}
    (h : Begins ((parties i).program desk i) {} (callsOf i (log ++ [(i, c)]))) :
    Proper i (ttlOf (parties i)) (callsOf i log) c.op := by
  rw [callsOf_append, callsOf_self] at h
  exact allProper_of_begins h _ c [] rfl

lemma tracked_of_running {log : List (Holder × Call face)} {s : Shared}
    (h : Running desk parties now log s) : Tracked (fun i => ttlOf (parties i)) log s := by
  refine Interleaved.induct h ⟨?_, ?_, ?_, ?_⟩ fun log s i c s' ht hbegins hact => ?_
  · exact fun r hr => by cases hr
  · exact fun r hr => by cases hr
  · exact fun _ _ hmem => by cases hmem
  · exact fun _ _ hmem => by cases hmem
  · obtain ⟨ha, rfl⟩ := hact
    exact ht.call ha (proper_next (hbegins i)).own

lemma released_of_none {s : Shared} {c : Call face} {r : WorkerRow} (h : s.row = some r)
    (hnone : (s.after c).row = none) : c.op = .deleteRow r.hostname := by
  obtain ⟨op, answer⟩ := c
  cases answer with
  | error e => cases op <;> exact absurd (h.symm.trans hnone) (Option.some_ne_none r)
  | ok a =>
    cases op with
    | insertRow row => simp [Shared.after, rowAfter, h] at hnone
    | takeRow hostname heartbeat row =>
      simp only [Shared.after, rowAfter, h] at hnone
      split_ifs at hnone
    | stampRow hostname heartbeat => simp [Shared.after, rowAfter, h] at hnone
    | deleteRow hostname =>
      by_cases hname : r.hostname = hostname
      · rw [hname]
      · simp [Shared.after, rowAfter, h, Option.filter, hname] at hnone
    | _ => exact absurd (h.symm.trans hnone) (Option.some_ne_none r)

/-- The row goes from one holder to another only by a takeover of the stamp that was read. -/
lemma taken_of_ne {s : Shared} {c : Call face} {r r' : WorkerRow} (ha : s.answers c = true)
    (h : s.row = some r) (h' : (s.after c).row = some r') (hne : r'.hostname ≠ r.hostname) :
    ∃ row, c.op = .takeRow r.hostname r.heartbeat row := by
  obtain ⟨op, answer⟩ := c
  cases answer with
  | error e =>
    have hsame : s.row = some r' := by cases op <;> exact h'
    exact absurd (congrArg WorkerRow.hostname (Option.some.inj (hsame.symm.trans h))) hne
  | ok a =>
    cases op with
    | insertRow row =>
      simp only [Shared.after, rowAfter, h, Option.some_or] at h'
      exact absurd (congrArg WorkerRow.hostname (Option.some.inj h').symm) hne
    | takeRow hostname heartbeat row =>
      by_cases hheld : r.hostname = hostname ∧ r.heartbeat = heartbeat
      · exact ⟨row, by rw [hheld.1, hheld.2]⟩
      · have hnot : heldAt s.row hostname heartbeat = false := by
          rw [h]
          simpa [heldAt] using hheld
        have hsame : rowAfter s.row (.takeRow hostname heartbeat row) = some r :=
          (if_neg (by rw [hnot]; exact Bool.false_ne_true)).trans h
        exact absurd (congrArg WorkerRow.hostname (Option.some.inj (h'.symm.trans hsame))) hne
    | stampRow hostname heartbeat =>
      simp only [Shared.after, rowAfter, h, Option.map_some] at h'
      obtain rfl := Option.some.inj h'
      split_ifs at hne <;> exact absurd rfl hne
    | deleteRow hostname =>
      have hsame := (Option.filter_eq_some_iff.mp h').1
      exact absurd (congrArg WorkerRow.hostname (Option.some.inj (hsame.symm.trans h))) hne
    | _ => exact absurd (congrArg WorkerRow.hostname (Option.some.inj (h'.symm.trans h))) hne

/-- A renewal or a release of a party leaves the row of another. -/
lemma row_of_others {s : Shared} {i : Holder} {c : Call face} {r : WorkerRow} (h : s.row = some r)
    (hi : i ≠ r.hostname)
    (hop : (∃ heartbeat, c.op = .stampRow i heartbeat) ∨ c.op = .deleteRow i) :
    (s.after c).row = s.row := by
  obtain ⟨op, answer⟩ := c
  cases answer with
  | error e => cases op <;> rfl
  | ok a =>
    obtain ⟨heartbeat, rfl⟩ | rfl := hop
    · simp [Shared.after, rowAfter, h, hi.symm]
    · simp [Shared.after, rowAfter, h, Option.filter, hi.symm]

end Runs

section Follow

/-- The state some calls lead to, where they are answered as the state is. -/
def follow (s : Shared) : List (Holder × Call face) → Option Shared
  | [] => some s
  | (_, c) :: log => if s.answers c then follow (s.after c) log else none

lemma path_follow {s₀ s s' : Shared} {m n : List (Holder × Call face)} (h : Path Reacts s₀ m s)
    (hn : follow s n = some s') : Path Reacts s₀ (m ++ n) s' := by
  induction n generalizing m s with
  | nil =>
    obtain rfl := Option.some.inj hn
    rwa [List.append_nil]
  | cons e n ih =>
    obtain ⟨i, c⟩ := e
    rw [follow] at hn
    split_ifs at hn with ha
    rw [List.append_cons]
    exact ih (h.call ⟨ha, rfl⟩) hn

end Follow

section Loss

def board : Desk := ⟨['t'], some, id, fun _ _ => ⟨[], [], [], []⟩⟩

def quickPoll : PollConfig := ⟨10, 5, 60, false, true, id, fun _ _ => [], fun _ => some [], false⟩

/-- A poll and a switch-off. -/
def pair : Holder → Party := fun i => if i = 0 then .poll quickPoll else .switchOff 60

def isLabel : Op → Bool
  | .label .. => true
  | _ => false

/-- The first label outlives the lease, and the factory is idle. -/
def slowLabel : World face := fun calls op =>
  match op with
  | .clock => .ok (if calls.any fun c => isLabel c.op then 100 else 0)
  | .getRow => .ok none
  | .insertRow _ | .takeRow .. | .consented => .ok true
  | .stampRow .. => .ok (!calls.any fun c => isLabel c.op)
  | .cachedRow _ | .runActive => .ok false
  | .entered => .ok [⟨['k'], ['1']⟩]
  | .read key => .ok ⟨key, ['1'], [], ['c'], []⟩
  | .monotonic => .ok 0
  | .events => .ok []
  | .backlog => .ok none
  | .classSet => .ok []
  | .assess _ => .ok ⟨[], [], [], [], [], true⟩
  | .register _ => .ok []
  | .notes => .ok ([], [])
  | .moves => .ok []
  | .deleteRow _ | .commitSwitch | .comment .. | .label .. | .transition .. | .link .. | .append _
  | .writeView => .ok ()

/-- The lease has not been renewed for longer than it lives. -/
def expiredRow : World face := fun _ op =>
  match op with
  | .clock => .ok 100
  | .getRow => .ok (some ⟨0, 0, 0, 10⟩)
  | .takeRow .. => .ok true
  | .commitSwitch | .deleteRow _ => .ok ()
  | _ => .error .other

def pollCalls : List (Call face) := ((pair 0).program board 0 slowLabel {} []).2.2

def switchCalls : List (Call face) := ((pair 1).program board 1 expiredRow {} []).2.2

/-- The poll up to its first label, the whole switch-off, and the poll until it finds the factory idle. -/
def lostLog : List (Holder × Call face) :=
  (pollCalls.take 30).map (Prod.mk 0) ++ switchCalls.map (Prod.mk 1) ++
    ((pollCalls.drop 30).take 4).map (Prod.mk 0)

lemma callsOf_map (i j : Holder) (calls : List (Call face)) :
    callsOf i (calls.map (Prod.mk j)) = if j = i then calls else [] := by
  induction calls with
  | nil => simp [callsOf]
  | cons c calls ih =>
    rw [List.map_cons, ← List.singleton_append, callsOf_append, ih]
    split_ifs with h
    · rw [h, callsOf_self]
      rfl
    · rw [callsOf_ne h]
      rfl

lemma callsOf_lostLog (i : Holder) : callsOf i lostLog =
    if i = 0 then pollCalls.take 34 else if i = 1 then switchCalls else [] := by
  rw [lostLog, callsOf_append, callsOf_append, callsOf_map, callsOf_map, callsOf_map]
  by_cases h0 : i = 0
  · rw [h0, if_pos rfl, if_neg (by decide), if_pos rfl, if_pos rfl, List.append_nil]
    exact (List.take_add ..).symm
  · rw [if_neg h0, if_neg (Ne.symm h0), if_neg (Ne.symm h0), List.append_nil, List.nil_append]
    by_cases h1 : i = 1
    · rw [if_pos h1, if_pos h1.symm]
    · rw [if_neg h1, if_neg (Ne.symm h1)]

lemma begins_lostLog (i : Holder) : Begins ((pair i).program board i) {} (callsOf i lostLog) := by
  rw [callsOf_lostLog]
  split_ifs with h0 h1
  · exact ⟨slowLabel, h0 ▸ List.take_prefix 34 pollCalls⟩
  · exact ⟨expiredRow, h1 ▸ List.prefix_refl switchCalls⟩
  · exact ⟨slowLabel, List.nil_prefix⟩

end Loss

end CommitReplay.OnePass
