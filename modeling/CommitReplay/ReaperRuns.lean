import CommitReplay.CallHistories
import CommitReplay.ContainerReaper
import CommitReplay.JsonRoundTrip
import CommitReplay.TransitionRuns

/-! What the queue of unconfirmed containers keeps over any run of additions and passes, and what one
pass asks of the daemon within its time. -/
namespace CommitReplay.ReaperRuns

open CommitReplay.PythonText CommitReplay.JsonText CommitReplay.JsonValue CommitReplay.PythonRepr
open CommitReplay.RowChecks CommitReplay.Interaction CommitReplay.Interleavings
open CommitReplay.Postconditions CommitReplay.CallHistories CommitReplay.TransitionRuns
open CommitReplay.ContainerReaper CommitReplay.JsonRoundTrip

section RoundTrip

variable {F : Type} [PyFloat F] {isPrintable : Char → Bool} {trunc : F → Except IntError ℤ}

lemma entryOf_asDict (e : Unconfirmed) : entryOf isPrintable trunc (asDict e : List (String × Json F)) = .ok e := by
  obtain ⟨container, runId, taskId, attempts, added, lastError⟩ := e
  by_cases h : attempts = 0 <;>
    simp [asDict, entryOf, List.lookup_cons, pyInt, truthy, pyStr, h, Bind.bind, Except.bind, Pure.pure,
      Except.pure]

lemma named_asDict {e : Unconfirmed} (h : e.container ≠ []) :
    ((asDict e : List (String × Json F)).lookup "container").any truthy = true := by
  simp [asDict, List.lookup_cons, truthy, h]

lemma itemsOf_written {entries : List Unconfirmed} (h : ∀ e ∈ entries, e.container ≠ []) :
    itemsOf (.obj [("containers", .arr (entries.map fun e => (.obj (asDict e) : Json F)))]) =
      entries.map asDict := by
  simp only [itemsOf, List.lookup_cons_self]
  induction entries with
  | nil => rfl
  | cons e entries ih =>
    obtain ⟨he, hrest⟩ := List.forall_mem_cons.mp h
    simp [named_asDict he, ih hrest]

/-- What is written is read back, where every container has a name. -/
theorem entriesOf_written {entries : List Unconfirmed} (h : ∀ e ∈ entries, e.container ≠ []) :
    entriesOf isPrintable trunc (written entries : Stored F) = .ok entries := by
  have hall : (entries.map asDict).mapM (entryOf (F := F) isPrintable trunc) = .ok entries := by
    clear h
    induction entries with
    | nil => rfl
    | cons e entries ih =>
      rw [List.map_cons, List.mapM_cons, entryOf_asDict, ih]
      rfl
  rw [written, entriesOf, itemsOf_written h, hall]

end RoundTrip

section Daemon

abbrev Log := List (Call face)

def reading : Call face → Option ℚ
  | ⟨.clock, .ok now⟩ => some now
  | _ => none

variable (deadline : Option ℚ)

/-- A time within the cap of a call and, where a pass has a deadline, within what the clock leaves of it. -/
def Spares (cap : ℚ) (pre : Log) (timeout : ℚ) : Prop :=
  match deadline with
  | none => timeout ≤ cap
  | some deadline => ∃ now, lastOf reading pre = some now ∧ now < deadline ∧ timeout ≤ min cap (deadline - now)

/-- A call of the daemon is made in its time; no question is cut shorter than a millisecond. -/
def InTime (pre : Log) (c : Call face) : Prop :=
  match c.op with
  | .inspect _ timeout => ∃ left, timeout = max left (1 / 1000) ∧ Spares deadline inspectTimeout pre left
  | .remove _ timeout => Spares deadline rmTimeout pre timeout
  | _ => True

/-- The daemon said that a container does not run. -/
def Stopped (h : Log) (container : Text) : Prop :=
  ∃ timeout r, ⟨.inspect container timeout, .ok r⟩ ∈ h ∧ stoppedOf r = some true

/-- The daemon was told to remove a container. -/
def Removed (h : Log) (container : Text) : Prop := ∃ timeout answer, ⟨.remove container timeout, answer⟩ ∈ h

variable {deadline} {h : Log} {container : Text}

lemma Stopped.snoc (hs : Stopped h container) (c : Call face) : Stopped (h ++ [c]) container := by
  obtain ⟨timeout, r, hmem, hr⟩ := hs
  exact ⟨timeout, r, List.mem_append_left _ hmem, hr⟩

lemma Removed.snoc (hr : Removed h container) (c : Call face) : Removed (h ++ [c]) container := by
  obtain ⟨timeout, answer, hmem⟩ := hr
  exact ⟨timeout, answer, List.mem_append_left _ hmem⟩

variable {F : Type} {file : Stored F} {M : Log → Prop} {cap timeout : ℚ}

/-- The file is as it was, the daemon was called in time, and something has been seen. -/
structure Kept (deadline : Option ℚ) (file : Stored F) (M : Log → Prop) (s : Stored F) (h : Log) : Prop where
  file : s = file
  calls : Each (InTime deadline) h
  seen : M h

/-- What was seen stays seen. -/
def Lasting (M : Log → Prop) : Prop := ∀ h c, M h → M (h ++ [c])

lemma Lasting.and {N : Log → Prop} (hM : Lasting M) (hN : Lasting N) : Lasting fun h => M h ∧ N h :=
  fun h c hmn => ⟨hM h c hmn.1, hN h c hmn.2⟩

lemma lasting_mem (c : Call face) : Lasting (c ∈ ·) := fun _ _ h => List.mem_append_left _ h

lemma lasting_true : Lasting fun _ => True := fun _ _ _ => trivial

lemma Kept.snoc {s : Stored F} {c : Call face} (hk : Kept deadline file M s h) (hM : Lasting M)
    (hc : InTime deadline h c) : Kept deadline file M s (h ++ [c]) :=
  ⟨hk.file, hk.calls.snoc hc, hM h c hk.seen⟩

lemma holds_timeLeft (hM : Lasting M) :
    Holds (Kept deadline file M) (timeLeft deadline cap)
      (Post (fun left s h => Kept deadline file M s h ∧ ∀ t ∈ left, Spares deadline cap h t)
        (Kept deadline file M)) := by
  unfold timeLeft
  split
  · refine holds_pure fun s h hk => ⟨hk, fun t ht => ?_⟩
    obtain rfl := Option.some.inj ht
    exact le_refl _
  · rename_i deadline
    refine holds_bind (P := fun now s h => Kept (some deadline) file M s h ∧ lastOf reading h = some now)
      (holds_call ?_ ?_) fun now => holds_pure ?_
    · exact fun s h now hk => ⟨hk.snoc hM trivial, lastOf_snoc_some rfl⟩
    · exact fun s h e hk => hk.snoc hM trivial
    · rintro s h ⟨hk, hnow⟩
      refine ⟨hk, fun t ht => ?_⟩
      split_ifs at ht with hgone
      · cases ht
      · obtain rfl := Option.some.inj ht
        exact ⟨now, hnow, by linarith, le_refl _⟩

lemma holds_containerStopped (hM : Lasting M) :
    Holds (fun s h => Kept deadline file M s h ∧ Spares deadline inspectTimeout h timeout)
      (containerStopped container timeout)
      (Post (fun stopped s h => Kept deadline file M s h ∧ (stopped = some true → Stopped h container))
        (Kept deadline file M)) := by
  unfold containerStopped
  refine holds_catching (R := Kept deadline file M) (holds_bind (P := fun r s h =>
    Kept deadline file M s h ∧ (stoppedOf r = some true → Stopped h container)) (holds_call ?_ ?_) ?_) ?_
  · rintro s h r ⟨hk, hspares⟩
    exact ⟨hk.snoc hM ⟨timeout, rfl, hspares⟩, fun hr => ⟨_, r, List.mem_append_right _ List.mem_cons_self, hr⟩⟩
  · rintro s h e ⟨hk, hspares⟩
    exact hk.snoc hM ⟨timeout, rfl, hspares⟩
  · exact fun r => holds_pure fun s h hk => hk
  · rintro (type | type | type)
    · exact holds_pure fun s h hk => ⟨hk, fun hr => by cases hr⟩
    · exact holds_pure fun s h hk => ⟨hk, fun hr => by cases hr⟩
    · exact holds_raise fun s h hk => hk

lemma holds_rm (hM : Lasting M) :
    Holds (fun s h => Kept deadline file M s h ∧ Spares deadline rmTimeout h timeout) (rm container timeout)
      (Post (fun _ s h => Kept deadline file M s h ∧ Removed h container) (Kept deadline file M)) := by
  unfold rm
  refine holds_catching (R := fun s h => Kept deadline file M s h ∧ Removed h container)
    (holds_bind (P := fun _ s h => Kept deadline file M s h ∧ Removed h container) (holds_call ?_ ?_) ?_) ?_
  · rintro s h r ⟨hk, hspares⟩
    exact ⟨hk.snoc hM hspares, _, _, List.mem_append_right _ List.mem_cons_self⟩
  · rintro s h e ⟨hk, hspares⟩
    exact ⟨hk.snoc hM hspares, _, _, List.mem_append_right _ List.mem_cons_self⟩
  · intro r
    split_ifs
    · exact holds_pure fun s h hk => hk
    · exact holds_pure fun s h hk => hk
  · rintro (type | type | type)
    · exact holds_pure fun s h hk => hk
    · exact holds_pure fun s h hk => hk
    · exact holds_raise fun s h hk => hk.1

/-- A container is reaped only on the word of the daemon, which was told to remove it. -/
lemma holds_reap (hM : Lasting M) :
    Holds (Kept deadline file M) (reap container deadline)
      (Post (fun error s h => Kept deadline file M s h ∧
        (error = none → Stopped h container ∧ Removed h container))
        (Kept deadline file fun _ => True)) := by
  have hforget : ∀ {N : Log → Prop} (s : Stored F) (h : Log), Kept deadline file N s h →
      Kept deadline file (fun _ => True) s h := fun s h hk => ⟨hk.file, hk.calls, trivial⟩
  have hstay : ∀ {N : Log → Prop} {r : Option Text}, r ≠ none → (∀ h, N h → M h) →
      Holds (Kept deadline file N) (pure r : Step F _) (Post (fun error s h => Kept deadline file M s h ∧
        (error = none → Stopped h container ∧ Removed h container))
        (Kept deadline file fun _ => True)) :=
    fun hr hN => holds_pure fun s h hk => ⟨⟨hk.file, hk.calls, hN h hk.seen⟩, fun he => absurd he hr⟩
  unfold reap
  refine holds_bind (holds_strengthen (holds_timeLeft hM) (fun _ _ _ h => h) hforget) fun left => ?_
  cases left with
  | none => exact holds_weaken (hstay (Option.some_ne_none _) fun _ h => h) fun s h hk => hk.1
  | some left =>
  refine holds_bind (P := fun before => Kept deadline file fun h => M h ∧
    (before = some true → Stopped h container)) (holds_strengthen (holds_weaken
      (holds_containerStopped hM) ?_) ?_ hforget) fun before => ?_
  · exact fun s h hk => ⟨hk.1, hk.2 left rfl⟩
  · exact fun before s h hk => ⟨hk.1.file, hk.1.calls, hk.1.seen, hk.2⟩
  have hbefore : Lasting fun h => M h ∧ (before = some true → Stopped h container) :=
    hM.and fun h c hs hb => (hs hb).snoc c
  refine holds_bind (holds_strengthen (holds_timeLeft hbefore) (fun _ _ _ h => h) hforget) fun left => ?_
  cases left with
  | none => exact holds_weaken (hstay (Option.some_ne_none _) fun _ h => h.1) fun s h hk => hk.1
  | some left =>
  refine holds_bind (P := fun _ => Kept deadline file fun h => (M h ∧
    (before = some true → Stopped h container)) ∧ Removed h container) (holds_strengthen (holds_weaken
      (holds_rm hbefore) ?_) ?_ hforget) fun rmError => ?_
  · exact fun s h hk => ⟨hk.1, hk.2 left rfl⟩
  · exact fun _ s h hk => ⟨hk.1.file, hk.1.calls, hk.1.seen, hk.2⟩
  have hremoved : Lasting fun h => (M h ∧ (before = some true → Stopped h container)) ∧
      Removed h container := hbefore.and fun h c hr => hr.snoc c
  split_ifs with hdone
  · refine holds_pure fun s h hk => ⟨⟨hk.file, hk.calls, hk.seen.1.1⟩, fun _ => ?_⟩
    exact ⟨hk.seen.1.2 hdone.1, hk.seen.2⟩
  refine holds_bind (holds_strengthen (holds_timeLeft hremoved) (fun _ _ _ h => h) hforget) fun left => ?_
  cases left with
  | none => exact holds_weaken (hstay (Option.some_ne_none _) fun _ h => h.1.1) fun s h hk => hk.1
  | some left =>
  refine holds_bind (P := fun after => Kept deadline file fun h => (M h ∧ Removed h container) ∧
    (after = some true → Stopped h container)) (holds_strengthen (holds_weaken
      (holds_containerStopped hremoved) ?_) ?_ hforget) fun after => ?_
  · exact fun s h hk => ⟨hk.1, hk.2 left rfl⟩
  · exact fun _ s h hk => ⟨hk.1.file, hk.1.calls, ⟨hk.1.seen.1.1, hk.1.seen.2⟩, hk.2⟩
  by_cases hafter : after = some true
  · rw [if_pos hafter]
    exact holds_pure fun s h hk => ⟨⟨hk.file, hk.calls, hk.seen.1.1⟩, fun _ => ⟨hk.seen.2 hafter, hk.seen.1.2⟩⟩
  · rw [if_neg hafter]
    exact hstay (Option.some_ne_none _) fun _ h => h.1.1

end Daemon

section Pass

/-- What becomes of the entries a pass takes up: those that stay, with one attempt more, and those that
leave. -/
inductive Fates (maxAttempts : ℕ) : List Unconfirmed → List Unconfirmed → List ReapResult → Prop
  | nil : Fates maxAttempts [] [] []
  | reaped {e es kept ended} (rest : Fates maxAttempts es kept ended) :
      Fates maxAttempts (e :: es) kept (⟨e, true, e.attempts + 1, []⟩ :: ended)
  | failed {e es kept ended} (detail : Text) (last : (maxAttempts : ℤ) ≤ e.attempts + 1)
      (hand : byHand e.container <:+: detail) (rest : Fates maxAttempts es kept ended) :
      Fates maxAttempts (e :: es) kept (⟨e, false, e.attempts + 1, detail⟩ :: ended)
  | kept {e es kept ended} (error : Text) (more : e.attempts + 1 < (maxAttempts : ℤ))
      (rest : Fates maxAttempts es kept ended) :
      Fates maxAttempts (e :: es) ({ e with attempts := e.attempts + 1, lastError := error } :: kept) ended

lemma infix_gaveUp (a b c : Text) : b <:+: a ++ b ++ c := ⟨a, c, rfl⟩

/-- A pass takes up the entries from the front. It leaves the rest as they are, and none unless the time is
up; and one that it reaps was removed and does not run. -/
structure Passed (maxAttempts : ℕ) (deadline : Option ℚ) (entries keep : List Unconfirmed)
    (ended : List ReapResult) (h : Log) : Prop where
  fates : ∃ taken rest kept, entries = taken ++ rest ∧ keep = kept ++ rest ∧
    Fates maxAttempts taken kept ended ∧
    (rest ≠ [] → ∃ d ∈ deadline, ∃ now, ⟨.clock, .ok now⟩ ∈ h ∧ d ≤ now)
  word : ∀ r ∈ ended, r.reaped = true → Stopped h r.entry.container ∧ Removed h r.entry.container

variable {F : Type} {file : Stored F} {M : Log → Prop} {deadline : Option ℚ} {maxAttempts : ℕ}

lemma Passed.snoc {entries keep : List Unconfirmed} {ended : List ReapResult} {h : Log}
    (hp : Passed maxAttempts deadline entries keep ended h) (c : Call face) :
    Passed maxAttempts deadline entries keep ended (h ++ [c]) := by
  obtain ⟨⟨taken, rest, kept, htaken, hkeep, hfates, hrest⟩, hword⟩ := hp
  refine ⟨⟨taken, rest, kept, htaken, hkeep, hfates, fun hne => ?_⟩, fun r hr hreaped => ?_⟩
  · obtain ⟨d, hd, now, hmem, hle⟩ := hrest hne
    exact ⟨d, hd, now, List.mem_append_left _ hmem, hle⟩
  · exact ⟨(hword r hr hreaped).1.snoc c, (hword r hr hreaped).2.snoc c⟩

section Passed

variable {entries keep : List Unconfirmed} {ended : List ReapResult} {h : Log} {e : Unconfirmed}

lemma Passed.reaped (hp : Passed maxAttempts deadline entries keep ended h)
    (he : Stopped h e.container ∧ Removed h e.container) :
    Passed maxAttempts deadline (e :: entries) keep (⟨e, true, e.attempts + 1, []⟩ :: ended) h := by
  obtain ⟨⟨taken, rest, kept, htaken, hkeep, hfates, hrest⟩, hword⟩ := hp
  refine ⟨⟨e :: taken, rest, kept, by rw [htaken]; rfl, hkeep, hfates.reaped, hrest⟩, fun r hr hreaped => ?_⟩
  rcases List.mem_cons.mp hr with rfl | hr
  · exact he
  · exact hword r hr hreaped

lemma Passed.failed (hp : Passed maxAttempts deadline entries keep ended h)
    (last : (maxAttempts : ℤ) ≤ e.attempts + 1) {detail : Text} (hand : byHand e.container <:+: detail) :
    Passed maxAttempts deadline (e :: entries) keep (⟨e, false, e.attempts + 1, detail⟩ :: ended) h := by
  obtain ⟨⟨taken, rest, kept, htaken, hkeep, hfates, hrest⟩, hword⟩ := hp
  refine ⟨⟨e :: taken, rest, kept, by rw [htaken]; rfl, hkeep, hfates.failed detail last hand, hrest⟩,
    fun r hr hreaped => ?_⟩
  rcases List.mem_cons.mp hr with rfl | hr
  · cases hreaped
  · exact hword r hr hreaped

lemma Passed.kept (hp : Passed maxAttempts deadline entries keep ended h)
    (more : e.attempts + 1 < (maxAttempts : ℤ)) (error : Text) :
    Passed maxAttempts deadline (e :: entries)
      ({ e with attempts := e.attempts + 1, lastError := error } :: keep) ended h := by
  obtain ⟨⟨taken, rest, kept, htaken, hkeep, hfates, hrest⟩, hword⟩ := hp
  refine ⟨⟨e :: taken, rest, { e with attempts := e.attempts + 1, lastError := error } :: kept,
    by rw [htaken]; rfl, ?_, hfates.kept error more, hrest⟩, hword⟩
  rw [hkeep]
  rfl

end Passed

lemma holds_expired (hM : Lasting M) :
    Holds (Kept deadline file M) (expired deadline)
      (Post (fun up s h => Kept deadline file M s h ∧
        (up = true → ∃ d ∈ deadline, ∃ now, ⟨.clock, .ok now⟩ ∈ h ∧ d ≤ now))
        (Kept deadline file fun _ => True)) := by
  unfold expired
  split
  · exact holds_pure fun s h hk => ⟨hk, fun he => by cases he⟩
  · rename_i deadline
    refine holds_bind (P := fun now s h => Kept (some deadline) file M s h ∧ ⟨.clock, .ok now⟩ ∈ h)
      (holds_call ?_ ?_) fun now => holds_pure ?_
    · exact fun s h now hk => ⟨hk.snoc hM trivial, List.mem_append_right _ List.mem_cons_self⟩
    · exact fun s h e hk => ⟨hk.file, hk.calls.snoc trivial, trivial⟩
    · rintro s h ⟨hk, hnow⟩
      exact ⟨hk, fun hup => ⟨deadline, rfl, now, hnow, by simpa using hup⟩⟩

lemma holds_reapFrom (entries : List Unconfirmed) (hM : Lasting M) :
    Holds (Kept deadline file M) (reapFrom maxAttempts deadline entries)
      (Post (fun r s h => Kept deadline file M s h ∧ Passed maxAttempts deadline entries r.1 r.2 h)
        (Kept deadline file fun _ => True)) := by
  induction entries generalizing M with
  | nil =>
    exact holds_pure fun s h hk =>
      ⟨hk, ⟨[], [], [], rfl, rfl, .nil, fun hne => absurd rfl hne⟩, fun r hr => by cases hr⟩
  | cons e entries ih =>
    unfold reapFrom
    refine holds_bind (holds_expired hM) fun up => ?_
    split_ifs with hup
    · refine holds_pure fun s h hk => ⟨hk.1, ⟨[], e :: entries, [], rfl, rfl, .nil, fun _ => hk.2 hup⟩, ?_⟩
      exact fun r hr => by cases hr
    refine holds_bind (P := fun error => Kept deadline file fun h => M h ∧ (error = none →
      Stopped h e.container ∧ Removed h e.container)) (holds_strengthen (holds_weaken (holds_reap hM)
        fun _ _ hk => hk.1) ?_ fun _ _ hk => hk) fun error => ?_
    · exact fun error s h hk => ⟨hk.1.file, hk.1.calls, hk.1.seen, hk.2⟩
    have hlast : Lasting fun h => M h ∧ (error = none → Stopped h e.container ∧ Removed h e.container) :=
      hM.and fun h c hs he => ⟨(hs he).1.snoc c, (hs he).2.snoc c⟩
    cases error with
    | none =>
      refine holds_bind (ih hlast) fun r => holds_pure ?_
      rintro s h ⟨hk, hpassed⟩
      exact ⟨⟨hk.file, hk.calls, hk.seen.1⟩, hpassed.reaped (hk.seen.2 rfl)⟩
    | some error =>
      refine holds_bind (ih hlast) fun r => ?_
      by_cases hgive : (maxAttempts : ℤ) ≤ e.attempts + 1
      · simp only [if_pos hgive]
        refine holds_pure ?_
        rintro s h ⟨hk, hpassed⟩
        exact ⟨⟨hk.file, hk.calls, hk.seen.1⟩, hpassed.failed hgive (infix_gaveUp _ _ _)⟩
      · simp only [if_neg hgive]
        refine holds_pure ?_
        rintro s h ⟨hk, hpassed⟩
        exact ⟨⟨hk.file, hk.calls, hk.seen.1⟩, hpassed.kept (not_le.mp hgive) error⟩

/-- The entries that were read of a file, where it could be opened. -/
def Opened (isPrintable : Char → Bool) (trunc : F → Except IntError ℤ) [PyFloat F] (file : Stored F)
    (entries : List Unconfirmed) (h : Log) : Prop :=
  (∃ type, ⟨.openFile, .error (.os type)⟩ ∈ h ∧ entries = []) ∨
    entriesOf isPrintable trunc file = .ok entries

variable [PyFloat F] {isPrintable : Char → Bool} {trunc : F → Except IntError ℤ}

lemma holds_read (hM : Lasting M) :
    Holds (Kept deadline file M) (read isPrintable trunc)
      (Post (fun entries s h => Kept deadline file M s h ∧ Opened isPrintable trunc file entries h)
        (Kept deadline file fun _ => True)) := by
  unfold ContainerReaper.read
  refine holds_bind (holds_tried (P := fun _ => Kept deadline file M) (R := fun exc => Kept deadline file
    fun h => M h ∧ ⟨.openFile, .error exc⟩ ∈ h) (Holds.call ?_ ?_)) fun opened => ?_
  · exact fun s h _ hk => hk.snoc hM trivial
  · exact fun s h exc hk => ⟨hk.file, hk.calls.snoc trivial, hM h _ hk.seen,
      List.mem_append_right _ List.mem_cons_self⟩
  have hraise : ∀ {exc : Fault} {N : Log → Prop}, Holds (Kept deadline file N)
      (Prog.raise exc : Step F (List Unconfirmed)) (Post (fun entries s h => Kept deadline file M s h ∧
        Opened isPrintable trunc file entries h) (Kept deadline file fun _ => True)) :=
    holds_raise fun s h hk => ⟨hk.file, hk.calls, trivial⟩
  rcases opened with (type | type | type) | ⟨⟩
  · exact holds_pure fun s h hk =>
      ⟨⟨hk.file, hk.calls, hk.seen.1⟩, .inl ⟨type, hk.seen.2, rfl⟩⟩
  · exact hraise
  · exact hraise
  · refine holds_get fun stored => ?_
    split
    · rename_i entries hentries
      refine holds_pure ?_
      rintro s h ⟨hk, rfl⟩
      exact ⟨hk, .inr (hk.file ▸ hentries)⟩
    · exact holds_raise fun s h hk => ⟨hk.1.file, hk.1.calls, trivial⟩

end Pass

section Operations

variable {F : Type} [PyFloat F] {isPrintable : Char → Bool} {trunc : F → Except IntError ℤ}
  {file : Stored F} {maxAttempts : ℕ} {budget : Option ℚ}

/-- The deadline a budget gives, by the first reading of the clock. -/
def Started (budget deadline : Option ℚ) (h : Log) : Prop :=
  match budget with
  | none => deadline = none
  | some b => ∃ start, h.head? = some ⟨.clock, .ok start⟩ ∧ deadline = some (start + max 0 b)

lemma lasting_started (deadline : Option ℚ) : Lasting (Started budget deadline) := by
  intro h c hs
  cases budget with
  | none => exact hs
  | some b =>
    obtain ⟨start, hhead, hd⟩ := hs
    refine ⟨start, ?_, hd⟩
    cases h with
    | nil => cases hhead
    | cons d h => exact hhead

lemma lasting_opened {entries : List Unconfirmed} : Lasting (Opened isPrintable trunc file entries) := by
  rintro h c (⟨type, hmem, rfl⟩ | hread)
  · exact .inl ⟨type, List.mem_append_left _ hmem, rfl⟩
  · exact .inr hread

omit [PyFloat F] in
lemma holds_deadlineOf :
    Holds (fun s h => s = file ∧ h = []) (deadlineOf budget)
      (Post (fun deadline => Kept deadline file (Started budget deadline)) fun s _ => s = file) := by
  cases budget with
  | none =>
    refine holds_pure ?_
    rintro s h ⟨rfl, rfl⟩
    exact ⟨rfl, each_nil, rfl⟩
  | some b =>
    refine holds_bind (P := fun now s h => s = file ∧ h = [⟨Op.clock, .ok now⟩]) (holds_call ?_ ?_)
      fun now => holds_pure ?_
    · rintro s h now ⟨rfl, rfl⟩
      exact ⟨rfl, rfl⟩
    · rintro s h e ⟨rfl, rfl⟩
      rfl
    · rintro s h ⟨rfl, rfl⟩
      have hcall : Each (InTime (some (now + max 0 b))) ([] ++ [⟨Op.clock, .ok now⟩]) := each_nil.snoc trivial
      exact ⟨rfl, hcall, now, rfl, rfl⟩

variable (isPrintable trunc maxAttempts budget file) in
/-- What a pass that came back did: the entries it read, as they were taken up within the deadline. -/
def Reaped (ended : List ReapResult) (s : Stored F) (h : Log) : Prop :=
  ∃ deadline entries keep, Started budget deadline h ∧ Opened isPrintable trunc file entries h ∧
    Each (InTime deadline) h ∧ Passed maxAttempts deadline entries keep ended h ∧
    s = if keep = entries then file else written keep

/-- A pass that raises leaves the file as it is. -/
theorem holds_reapOnce :
    Holds (fun s h => s = file ∧ h = []) (reapOnce isPrintable trunc maxAttempts budget)
      (Post (Reaped isPrintable trunc file maxAttempts budget) fun s _ => s = file) := by
  unfold reapOnce
  refine holds_bind holds_deadlineOf fun deadline => ?_
  refine holds_bind (holds_strengthen (holds_read (lasting_started deadline)) (fun _ _ _ h => h)
    fun s h hk => hk.file) fun entries => ?_
  by_cases hnil : entries = []
  · rw [if_pos hnil]
    refine holds_pure ?_
    rintro s h ⟨hk, hopened⟩
    refine ⟨deadline, entries, [], hk.seen, hopened, hk.calls,
      ⟨⟨[], [], [], hnil, rfl, .nil, fun hne => absurd rfl hne⟩, fun r hr => by cases hr⟩, ?_⟩
    rw [hnil, if_pos rfl]
    exact hk.file
  rw [if_neg hnil]
  have hseen : Lasting fun h => Started budget deadline h ∧ Opened isPrintable trunc file entries h :=
    (lasting_started deadline).and lasting_opened
  refine holds_bind (holds_strengthen (holds_weaken (holds_reapFrom entries hseen) ?_) (fun _ _ _ h => h)
    fun s h hk => hk.file) fun pass => ?_
  · exact fun s h hk => ⟨hk.1.file, hk.1.calls, hk.1.seen, hk.2⟩
  by_cases hsame : pass.1 = entries
  · simp only [if_pos hsame]
    refine holds_bind (P := fun _ s h => Reaped isPrintable trunc file maxAttempts budget pass.2 s h)
      (holds_pure ?_) fun _ => holds_pure fun _ _ h => h
    rintro s h ⟨hk, hpassed⟩
    exact ⟨deadline, entries, pass.1, hk.seen.1, hk.seen.2, hk.calls, hpassed, by rw [if_pos hsame]; exact hk.file⟩
  · simp only [if_neg hsame]
    refine holds_bind (P := fun _ s h => Reaped isPrintable trunc file maxAttempts budget pass.2 s h)
      (holds_bind (P := fun _ s h => Reaped isPrintable trunc file maxAttempts budget pass.2 (written pass.1) h)
        (holds_call ?_ ?_) fun _ => Holds.modify fun _ _ h => h) fun _ => holds_pure fun _ _ h => h
    · rintro s h _ ⟨hk, hpassed⟩
      have hk' := hk.snoc (c := ⟨Op.writeFile, .ok ()⟩) hseen trivial
      exact ⟨deadline, entries, pass.1, hk'.seen.1, hk'.seen.2, hk'.calls, hpassed.snoc _, by rw [if_neg hsame]⟩
    · rintro s h e ⟨hk, hpassed⟩
      exact hk.file

variable (isPrintable trunc maxAttempts) in
/-- A pass that raises leaves the file as it is. One that comes back took up the entries it read from the
front, each call of the daemon in the time that was left: it reaped on the word of the daemon only, gave
up at the last attempt only and with the command that reaps by hand, and left untouched only what the time
did not reach. -/
theorem reapOnce_ends (budget : Option ℚ) (w : World face) (file : Stored F) :
    let run := reapOnce isPrintable trunc maxAttempts budget w file []
    (run.1.toOption = none → run.2.1 = file) ∧
      ∀ ended ∈ run.1.toOption, Reaped isPrintable trunc file maxAttempts budget ended run.2.1 run.2.2 := by
  intro run
  have hends := @holds_reapOnce F _ isPrintable trunc file maxAttempts budget w file [] ⟨rfl, rfl⟩
  obtain ⟨r, s, h, hrun⟩ : ∃ r s h, run = (r, s, h) := ⟨_, _, _, rfl⟩
  rw [show reapOnce isPrintable trunc maxAttempts budget w file [] = (r, s, h) from hrun] at hends
  rw [hrun]
  cases r with
  | error e => exact ⟨fun _ => hends, fun ended he => (by cases he)⟩
  | ok ended =>
    refine ⟨fun he => (by cases he), fun ended' he => ?_⟩
    obtain rfl := Option.some.inj he
    exact hends

/-- What an addition that came back did. -/
def Added (isPrintable : Char → Bool) (trunc : F → Except IntError ℤ) (file : Stored F)
    (container runId taskId : Text) (s : Stored F) (h : Log) : Prop :=
  ∃ entries, Opened isPrintable trunc file entries h ∧
    (((∃ e ∈ entries, e.container = container) ∧ s = file) ∨ (∀ e ∈ entries, e.container ≠ container) ∧
      ∃ now, s = written (entries ++ [⟨container, runId, taskId, 0, now, []⟩]))

/-- An addition that raises leaves the file as it is. -/
theorem holds_add {container runId taskId : Text} :
    Holds (fun s h => s = file ∧ h = []) (add isPrintable trunc container runId taskId)
      (Post (fun _ => Added isPrintable trunc file container runId taskId) fun s _ => s = file) := by
  unfold add
  refine holds_bind (holds_strengthen (holds_weaken (@holds_read F file _ none _ _ _ lasting_true) ?_)
    (fun _ _ _ h => h) fun s h hk => hk.file) fun entries => ?_
  · rintro s h ⟨rfl, rfl⟩
    exact ⟨rfl, each_nil, trivial⟩
  by_cases hin : entries.any (fun e => e.container = container) = true
  · rw [if_pos hin]
    refine holds_pure fun s h hk => ⟨entries, hk.2, .inl ⟨?_, hk.1.file⟩⟩
    simpa using hin
  rw [if_neg hin]
  have hnew : ∀ e ∈ entries, e.container ≠ container := by simpa using hin
  have hclosed : Lasting fun h => Opened isPrintable trunc file entries h := lasting_opened
  refine holds_bind (P := fun _ s h => s = file ∧ Opened isPrintable trunc file entries h) (holds_call ?_ ?_)
    fun now => holds_bind (P := fun _ _ h => Opened isPrintable trunc file entries h) (holds_call ?_ ?_)
      fun _ => Holds.modify ?_
  · exact fun s h _ hk => ⟨hk.1.file, hclosed h _ hk.2⟩
  · exact fun s h _ hk => hk.1.file
  · exact fun s h _ hk => hclosed h _ hk.2
  · exact fun s h _ hk => hk.1
  · exact fun s h hopened => ⟨entries, hopened, .inr ⟨hnew, now, rfl⟩⟩

end Operations

section Runs

variable {F : Type} [PyFloat F] (isPrintable : Char → Bool) (trunc : F → Except IntError ℤ)
  (maxAttempts : ℕ)

/-- A container as it was queued. -/
abbrev Ticket := Text × Text × Text

def ticketOf (e : Unconfirmed) : Ticket := (e.container, e.runId, e.taskId)

/-- The file, what was queued, and what the passes reported. -/
structure Reaping (F : Type) where
  file : Stored F
  queued : List Ticket
  reports : List ReapResult

/-- An addition or a pass, each in a world of its own. -/
inductive Label
  | add (container runId taskId : Text) (w : World face)
  | pass (budget : Option ℚ) (w : World face)

/-- Where nothing is read a file holds no entries. -/
def pending (file : Stored F) : List Unconfirmed := (entriesOf isPrintable trunc file).toOption.getD []

def step (s : Reaping F) : Label → Reaping F
  | .add container runId taskId w =>
    match add isPrintable trunc container runId taskId w s.file [] with
    | (.ok (), file, _) => { s with
        file
        queued := s.queued ++
          if (pending isPrintable trunc s.file).any fun e => e.container = container then []
          else [(container, runId, taskId)] }
    | (.error _, file, _) => { s with file }
  | .pass budget w =>
    match reapOnce isPrintable trunc maxAttempts budget w s.file [] with
    | (.ok ended, file, _) => { s with file, reports := s.reports ++ ended }
    | (.error _, file, _) => { s with file }

/-- The calls a step makes. -/
def callsOf (s : Reaping F) : Label → Log
  | .add container runId taskId w => (add isPrintable trunc container runId taskId w s.file []).2.2
  | .pass budget w => (reapOnce isPrintable trunc maxAttempts budget w s.file []).2.2

/-- A container has a name, and the file can be opened. -/
structure Steady (s : Reaping F) (l : Label) : Prop where
  named : ∀ container runId taskId w, l = .add container runId taskId w → container ≠ []
  opened : ∀ type, ⟨.openFile, .error (.os type)⟩ ∉ callsOf isPrintable trunc maxAttempts s l

def start : Reaping F := ⟨.missing, [], []⟩

/-- The accounts of the queue: what was queued is pending, in its order, or was reported, once. -/
structure Accounts (s : Reaping F) : Prop where
  readable : ∃ entries, entriesOf isPrintable trunc s.file = .ok entries
  named : ∀ e ∈ pending isPrintable trunc s.file, e.container ≠ []
  distinct : ((pending isPrintable trunc s.file).map (·.container)).Nodup
  attempts : ∀ e ∈ pending isPrintable trunc s.file, 0 ≤ e.attempts ∧ e.attempts < maxAttempts
  order : ((pending isPrintable trunc s.file).map ticketOf).Sublist s.queued
  conserved : s.queued.Perm ((pending isPrintable trunc s.file).map ticketOf ++
    s.reports.map fun r => ticketOf r.entry)
  reports : ∀ r ∈ s.reports, r.attempts = r.entry.attempts + 1 ∧ 1 ≤ r.attempts ∧
    r.attempts ≤ maxAttempts ∧ (r.reaped = false → r.attempts = maxAttempts)

variable {isPrintable trunc maxAttempts} {s : Reaping F} {file : Stored F} {entries : List Unconfirmed}

lemma pending_of_read (h : entriesOf isPrintable trunc file = .ok entries) :
    pending isPrintable trunc file = entries := by
  rw [pending, h]
  rfl

lemma pending_written (h : ∀ e ∈ entries, e.container ≠ []) :
    pending isPrintable trunc (written entries : Stored F) = entries :=
  pending_of_read (entriesOf_written h)

/-- What was read where the file could be opened is what is pending. -/
lemma Opened.pending {h : Log} (ho : Opened isPrintable trunc file entries h)
    (hopen : ∀ type, ⟨.openFile, .error (.os type)⟩ ∉ h) :
    entriesOf isPrintable trunc file = .ok entries ∧ pending isPrintable trunc file = entries := by
  rcases ho with ⟨type, hmem, -⟩ | hread
  · exact absurd hmem (hopen type)
  · exact ⟨hread, pending_of_read hread⟩

section Fates

variable {taken kept : List Unconfirmed} {ended : List ReapResult}

lemma Fates.conserved (h : Fates maxAttempts taken kept ended) :
    (taken.map ticketOf).Perm (kept.map ticketOf ++ ended.map fun r => ticketOf r.entry) := by
  induction h with
  | nil => simp
  | reaped rest ih =>
    simp only [List.map_cons]
    exact (ih.cons _).trans List.perm_middle.symm
  | failed detail last hand rest ih =>
    simp only [List.map_cons]
    exact (ih.cons _).trans List.perm_middle.symm
  | kept error more rest ih =>
    simp only [List.map_cons, List.cons_append]
    exact ih.cons _

lemma Fates.sublist (h : Fates maxAttempts taken kept ended) :
    (kept.map ticketOf).Sublist (taken.map ticketOf) := by
  induction h with
  | nil => simp
  | reaped rest ih => exact ih.cons _
  | failed detail last hand rest ih => exact ih.cons _
  | kept error more rest ih => exact ih.cons_cons _

lemma Fates.kept_attempts (h : Fates maxAttempts taken kept ended) (ht : ∀ e ∈ taken, 0 ≤ e.attempts) :
    ∀ e ∈ kept, 0 ≤ e.attempts ∧ e.attempts < maxAttempts := by
  induction h with
  | nil => simp
  | reaped rest ih => exact ih fun e he => ht e (List.mem_cons_of_mem _ he)
  | failed detail last hand rest ih => exact ih fun e he => ht e (List.mem_cons_of_mem _ he)
  | kept error more rest ih =>
    intro e he
    rcases List.mem_cons.mp he with rfl | he
    · exact ⟨by have := ht _ List.mem_cons_self; simp only; omega, more⟩
    · exact ih (fun e he => ht e (List.mem_cons_of_mem _ he)) e he

lemma Fates.ended_attempts (h : Fates maxAttempts taken kept ended)
    (ht : ∀ e ∈ taken, 0 ≤ e.attempts ∧ e.attempts < maxAttempts) :
    ∀ r ∈ ended, r.attempts = r.entry.attempts + 1 ∧ 1 ≤ r.attempts ∧ r.attempts ≤ maxAttempts ∧
      (r.reaped = false → r.attempts = maxAttempts) := by
  induction h with
  | nil => simp
  | @reaped e es kept ended rest ih =>
    obtain ⟨he, hes⟩ := List.forall_mem_cons.mp ht
    refine List.forall_mem_cons.mpr ⟨⟨rfl, ?_, ?_, fun hf => by cases hf⟩, ih hes⟩
    · simp only; omega
    · simp only; omega
  | @failed e es kept ended detail last hand rest ih =>
    obtain ⟨he, hes⟩ := List.forall_mem_cons.mp ht
    refine List.forall_mem_cons.mpr ⟨⟨rfl, ?_, ?_, fun _ => ?_⟩, ih hes⟩
    · simp only; omega
    · simp only; omega
    · simp only; omega
  | kept error more rest ih => exact ih fun e he => ht e (List.mem_cons_of_mem _ he)

/-- The entries that have survived fewer passes. -/
def younger (n : ℕ) (entries : List Unconfirmed) : List Unconfirmed := entries.filter fun e => e.attempts < n

lemma Fates.younger (h : Fates maxAttempts taken kept ended) (n : ℕ) :
    ((younger (n + 1) kept).map ticketOf).Sublist ((younger n taken).map ticketOf) := by
  induction h with
  | nil => simp [ReaperRuns.younger]
  | @reaped e es kept ended rest ih =>
    exact ih.trans ((List.Sublist.filter _ (List.sublist_cons_self e es)).map _)
  | @failed e es kept ended detail last hand rest ih =>
    exact ih.trans ((List.Sublist.filter _ (List.sublist_cons_self e es)).map _)
  | @kept e es kept ended error more rest ih =>
    unfold ReaperRuns.younger at ih ⊢
    by_cases hlt : e.attempts < n
    · have hlt' : e.attempts + 1 < ((n + 1 : ℕ) : ℤ) := by push_cast; omega
      rw [List.filter_cons_of_pos (by simpa using hlt'), List.filter_cons_of_pos (by simpa using hlt)]
      exact ih.cons_cons _
    · have hlt' : ¬ e.attempts + 1 < ((n + 1 : ℕ) : ℤ) := by push_cast; omega
      rw [List.filter_cons_of_neg (by simpa using hlt'), List.filter_cons_of_neg (by simpa using hlt)]
      exact ih

lemma younger_append (n : ℕ) (es es' : List Unconfirmed) :
    ReaperRuns.younger n (es ++ es') = ReaperRuns.younger n es ++ ReaperRuns.younger n es' :=
  List.filter_append ..

lemma younger_sublist (n : ℕ) (es : List Unconfirmed) :
    ((ReaperRuns.younger n es).map ticketOf).Sublist ((ReaperRuns.younger (n + 1) es).map ticketOf) := by
  refine List.Sublist.map _ (List.monotone_filter_right es fun e he => ?_)
  simp only [decide_eq_true_eq] at he ⊢
  push_cast
  omega

end Fates

section Passed

variable {deadline : Option ℚ} {keep : List Unconfirmed} {ended : List ReapResult} {h : Log}

lemma Passed.conserved (hp : Passed maxAttempts deadline entries keep ended h) :
    (entries.map ticketOf).Perm (keep.map ticketOf ++ ended.map fun r => ticketOf r.entry) := by
  obtain ⟨taken, rest, kept, rfl, rfl, hfates, -⟩ := hp.fates
  simp only [List.map_append, List.append_assoc]
  exact (hfates.conserved.append_right _).trans
    (by rw [List.append_assoc]; exact List.perm_append_comm.append_left _)

lemma Passed.sublist (hp : Passed maxAttempts deadline entries keep ended h) :
    (keep.map ticketOf).Sublist (entries.map ticketOf) := by
  obtain ⟨taken, rest, kept, rfl, rfl, hfates, -⟩ := hp.fates
  simp only [List.map_append]
  exact hfates.sublist.append (List.Sublist.refl _)

lemma Passed.kept_attempts (hp : Passed maxAttempts deadline entries keep ended h)
    (he : ∀ e ∈ entries, 0 ≤ e.attempts ∧ e.attempts < maxAttempts) :
    ∀ e ∈ keep, 0 ≤ e.attempts ∧ e.attempts < maxAttempts := by
  obtain ⟨taken, rest, kept, rfl, rfl, hfates, -⟩ := hp.fates
  intro e hmem
  rcases List.mem_append.mp hmem with hmem | hmem
  · exact hfates.kept_attempts (fun e he' => (he e (List.mem_append_left _ he')).1) e hmem
  · exact he e (List.mem_append_right _ hmem)

lemma Passed.ended_attempts (hp : Passed maxAttempts deadline entries keep ended h)
    (he : ∀ e ∈ entries, 0 ≤ e.attempts ∧ e.attempts < maxAttempts) :
    ∀ r ∈ ended, r.attempts = r.entry.attempts + 1 ∧ 1 ≤ r.attempts ∧ r.attempts ≤ maxAttempts ∧
      (r.reaped = false → r.attempts = maxAttempts) := by
  obtain ⟨taken, rest, kept, rfl, rfl, hfates, -⟩ := hp.fates
  exact hfates.ended_attempts fun e he' => he e (List.mem_append_left _ he')

lemma Passed.younger (hp : Passed maxAttempts deadline entries keep ended h) (n : ℕ) :
    ((younger n keep).map ticketOf).Sublist ((younger n entries).map ticketOf) := by
  obtain ⟨taken, rest, kept, rfl, rfl, hfates, -⟩ := hp.fates
  simp only [younger_append, List.map_append]
  refine List.Sublist.append ?_ (List.Sublist.refl _)
  exact (younger_sublist n kept).trans (hfates.younger n)

/-- A pass without a deadline takes up every entry. -/
lemma Passed.younger_succ (hp : Passed maxAttempts none entries keep ended h) (n : ℕ) :
    ((ReaperRuns.younger (n + 1) keep).map ticketOf).Sublist ((ReaperRuns.younger n entries).map ticketOf) := by
  obtain ⟨taken, rest, kept, rfl, rfl, hfates, hrest⟩ := hp.fates
  obtain rfl : rest = [] := by
    by_contra hne
    obtain ⟨d, hd, -⟩ := hrest hne
    cases hd
  simpa using hfates.younger n

end Passed

section Steps

variable {container runId taskId : Text} {w : World face} {budget : Option ℚ}

lemma Accounts.read (ha : Accounts isPrintable trunc maxAttempts s) :
    entriesOf isPrintable trunc s.file = .ok (pending isPrintable trunc s.file) := by
  obtain ⟨entries, hread⟩ := ha.readable
  rw [hread, pending_of_read hread]

lemma Passed.containers {deadline : Option ℚ} {keep : List Unconfirmed} {ended : List ReapResult} {h : Log}
    (hp : Passed maxAttempts deadline entries keep ended h) :
    (keep.map (·.container)).Sublist (entries.map (·.container)) := by
  simpa [ticketOf, Function.comp_def] using hp.sublist.map Prod.fst

lemma Accounts.named_kept {deadline : Option ℚ} {keep : List Unconfirmed} {ended : List ReapResult} {h : Log}
    (ha : Accounts isPrintable trunc maxAttempts s)
    (hp : Passed maxAttempts deadline (pending isPrintable trunc s.file) keep ended h) :
    ∀ e ∈ keep, e.container ≠ [] := by
  intro e hmem
  obtain ⟨e', hmem', hcontainer⟩ := List.mem_map.mp (hp.containers.subset (List.mem_map_of_mem hmem))
  rw [← hcontainer]
  exact ha.named e' hmem'

/-- What a pass leaves in the file is what it keeps. -/
lemma Accounts.read_after {deadline : Option ℚ} {keep : List Unconfirmed} {ended : List ReapResult} {h : Log}
    (ha : Accounts isPrintable trunc maxAttempts s)
    (hp : Passed maxAttempts deadline (pending isPrintable trunc s.file) keep ended h) :
    entriesOf isPrintable trunc
      (if keep = pending isPrintable trunc s.file then s.file else written keep) = .ok keep := by
  split_ifs with hsame
  · rw [hsame]
    exact ha.read
  · exact entriesOf_written (ha.named_kept hp)

/-- What an addition does to the queue. -/
lemma add_cases (hsteady : Steady isPrintable trunc maxAttempts s (.add container runId taskId w)) :
    step isPrintable trunc maxAttempts s (.add container runId taskId w) = s ∨
      (∀ e ∈ pending isPrintable trunc s.file, e.container ≠ container) ∧ ∃ now,
        step isPrintable trunc maxAttempts s (.add container runId taskId w) = { s with
          file := written (pending isPrintable trunc s.file ++ [⟨container, runId, taskId, 0, now, []⟩])
          queued := s.queued ++ [(container, runId, taskId)] } := by
  have hadd := @holds_add F _ isPrintable trunc s.file container runId taskId w s.file [] ⟨rfl, rfl⟩
  have hopen := hsteady.opened
  unfold callsOf at hopen
  unfold step
  obtain ⟨r, file, h, hrun⟩ : ∃ r file h, add isPrintable trunc container runId taskId w s.file [] =
    (r, file, h) := ⟨_, _, _, rfl⟩
  simp only [hrun] at hadd hopen ⊢
  cases r with
  | error e => exact .inl (by rw [show file = s.file from hadd])
  | ok =>
    obtain ⟨entries, hopened, hcases⟩ := hadd
    obtain ⟨-, rfl⟩ := hopened.pending hopen
    rcases hcases with ⟨hin, rfl⟩ | ⟨hnew, now, rfl⟩
    · refine .inl ?_
      rw [if_pos (by simpa using hin), List.append_nil]
    · refine .inr ⟨hnew, now, ?_⟩
      rw [if_neg (by simpa using hnew)]

/-- What a pass does to the queue. -/
lemma pass_cases (hsteady : Steady isPrintable trunc maxAttempts s (.pass budget w)) :
    ((reapOnce isPrintable trunc maxAttempts budget w s.file []).1.toOption = none ∧
      step isPrintable trunc maxAttempts s (.pass budget w) = s) ∨
    ∃ deadline keep ended h, (budget = none → deadline = none) ∧
      Passed maxAttempts deadline (pending isPrintable trunc s.file) keep ended h ∧
      step isPrintable trunc maxAttempts s (.pass budget w) = { s with
        file := if keep = pending isPrintable trunc s.file then s.file else written keep
        reports := s.reports ++ ended } := by
  have hpass := @holds_reapOnce F _ isPrintable trunc s.file maxAttempts budget w s.file [] ⟨rfl, rfl⟩
  have hopen := hsteady.opened
  unfold callsOf at hopen
  unfold step
  obtain ⟨r, file, h, hrun⟩ : ∃ r file h, reapOnce isPrintable trunc maxAttempts budget w s.file [] =
    (r, file, h) := ⟨_, _, _, rfl⟩
  simp only [hrun] at hpass hopen ⊢
  cases r with
  | error e => exact .inl ⟨rfl, by rw [show file = s.file from hpass]⟩
  | ok ended =>
    obtain ⟨deadline, entries, keep, hstarted, hopened, -, hpassed, rfl⟩ := hpass
    obtain ⟨-, rfl⟩ := hopened.pending hopen
    refine .inr ⟨deadline, keep, ended, h, ?_, hpassed, rfl⟩
    rintro rfl
    exact hstarted

lemma Accounts.named_queued (ha : Accounts isPrintable trunc maxAttempts s)
    (hsteady : Steady isPrintable trunc maxAttempts s (.add container runId taskId w)) (now : Text) :
    ∀ e ∈ pending isPrintable trunc s.file ++ [⟨container, runId, taskId, 0, now, []⟩], e.container ≠ [] := by
  intro e hmem
  rcases List.mem_append.mp hmem with hmem | hmem
  · exact ha.named e hmem
  · obtain rfl := List.mem_singleton.mp hmem
    exact hsteady.named container runId taskId w rfl

lemma Accounts.add (ha : Accounts isPrintable trunc maxAttempts s) (hmax : 0 < maxAttempts)
    (hsteady : Steady isPrintable trunc maxAttempts s (.add container runId taskId w)) :
    Accounts isPrintable trunc maxAttempts
      (step isPrintable trunc maxAttempts s (.add container runId taskId w)) := by
  rcases add_cases hsteady with he | ⟨hnew, now, he⟩
  · rw [he]
    exact ha
  have hnamed := ha.named_queued hsteady now
  have hpending : pending isPrintable trunc (written _ : Stored F) = _ := pending_written hnamed
  rw [he]
  refine ⟨⟨_, entriesOf_written hnamed⟩, ?_, ?_, ?_, ?_, ?_, ha.reports⟩
  · rw [hpending]
    exact hnamed
  · rw [hpending, List.map_append, List.nodup_append]
    refine ⟨ha.distinct, List.nodup_singleton _, ?_⟩
    rintro a hmem b hb rfl
    obtain ⟨e, hmem, hcontainer⟩ := List.mem_map.mp hmem
    obtain rfl := List.mem_singleton.mp hb
    exact hnew e hmem hcontainer
  · rw [hpending]
    intro e hmem
    rcases List.mem_append.mp hmem with hmem | hmem
    · exact ha.attempts e hmem
    · obtain rfl := List.mem_singleton.mp hmem
      exact ⟨le_refl _, show (0 : ℤ) < maxAttempts by exact_mod_cast hmax⟩
  · rw [hpending, List.map_append]
    exact ha.order.append (List.Sublist.refl _)
  · rw [hpending, List.map_append, List.append_assoc]
    refine (ha.conserved.append_right _).trans ?_
    rw [List.append_assoc]
    exact List.perm_append_comm.append_left _

lemma Accounts.pass (ha : Accounts isPrintable trunc maxAttempts s)
    (hsteady : Steady isPrintable trunc maxAttempts s (.pass budget w)) :
    Accounts isPrintable trunc maxAttempts (step isPrintable trunc maxAttempts s (.pass budget w)) := by
  rcases pass_cases hsteady with ⟨-, he⟩ | ⟨deadline, keep, ended, h, -, hpassed, he⟩
  · rw [he]
    exact ha
  have hread := ha.read_after hpassed
  rw [he]
  refine ⟨⟨keep, hread⟩, ?_, ?_, ?_, ?_, ?_, ?_⟩
  · rw [pending_of_read hread]
    exact ha.named_kept hpassed
  · rw [pending_of_read hread]
    exact ha.distinct.sublist hpassed.containers
  · rw [pending_of_read hread]
    exact hpassed.kept_attempts ha.attempts
  · rw [pending_of_read hread]
    exact hpassed.sublist.trans ha.order
  · rw [pending_of_read hread, List.map_append]
    refine ha.conserved.trans ((hpassed.conserved.append_right _).trans ?_)
    rw [List.append_assoc]
    exact List.perm_append_comm.append_left _
  · intro r hr
    rcases List.mem_append.mp hr with hr | hr
    · exact ha.reports r hr
    · exact hpassed.ended_attempts ha.attempts r hr

lemma accounts_step (hmax : 0 < maxAttempts) {l : Label} (ha : Accounts isPrintable trunc maxAttempts s)
    (hsteady : Steady isPrintable trunc maxAttempts s l) :
    Accounts isPrintable trunc maxAttempts (step isPrintable trunc maxAttempts s l) := by
  cases l with
  | add container runId taskId w => exact ha.add hmax hsteady
  | pass budget w => exact ha.pass hsteady

end Steps

variable (isPrintable trunc maxAttempts) in
/-- A pass without a budget that came back. -/
def full (s : Reaping F) : Label → Bool
  | .pass none w => (reapOnce isPrintable trunc maxAttempts none w s.file []).1.toOption.isSome
  | _ => false

variable (isPrintable trunc maxAttempts) in
/-- How many such passes a run has. -/
def fullPasses (s : Reaping F) : List Label → ℕ
  | [] => 0
  | l :: labels => (if full isPrintable trunc maxAttempts s l then 1 else 0) +
      fullPasses (step isPrintable trunc maxAttempts s l) labels

variable (isPrintable trunc) in
/-- What has survived fewer passes than there were was queued since. -/
def Aged (queued : List Ticket) (n : ℕ) (s : Reaping F) : Prop :=
  ∃ new, s.queued = queued ++ new ∧
    ((younger n (pending isPrintable trunc s.file)).map ticketOf).Sublist new

lemma aged_step {queued : List Ticket} {n : ℕ} {l : Label} (ha : Accounts isPrintable trunc maxAttempts s)
    (hsteady : Steady isPrintable trunc maxAttempts s l) (haged : Aged isPrintable trunc queued n s) :
    Aged isPrintable trunc queued (n + if full isPrintable trunc maxAttempts s l then 1 else 0)
      (step isPrintable trunc maxAttempts s l) := by
  obtain ⟨new, hqueued, hyoung⟩ := haged
  cases l with
  | add container runId taskId w =>
    have hnone : full isPrintable trunc maxAttempts s (.add container runId taskId w) = false := rfl
    rw [hnone, if_neg Bool.false_ne_true, Nat.add_zero]
    rcases add_cases hsteady with he | ⟨hnew, now, he⟩
    · rw [he]
      exact ⟨new, hqueued, hyoung⟩
    rw [he]
    refine ⟨new ++ [(container, runId, taskId)], by rw [hqueued, List.append_assoc], ?_⟩
    rw [pending_written (ha.named_queued hsteady now), younger_append, List.map_append]
    refine hyoung.append ?_
    exact (List.filter_sublist (l := [_])).map ticketOf
  | pass budget w =>
    rcases pass_cases hsteady with ⟨hnone, he⟩ | ⟨deadline, keep, ended, h, hbudget, hpassed, he⟩
    · rw [he, if_neg, Nat.add_zero]
      · exact ⟨new, hqueued, hyoung⟩
      · cases budget with
        | none => simp [full, hnone]
        | some b => simp [full]
    rw [he]
    refine ⟨new, hqueued, ?_⟩
    dsimp only
    rw [pending_of_read (ha.read_after hpassed)]
    split_ifs with hfull
    · cases budget with
      | none =>
        obtain rfl := hbudget rfl
        exact (hpassed.younger_succ n).trans hyoung
      | some b => simp [full] at hfull
    · exact (hpassed.younger n).trans hyoung

section Sample

/-- A world in which every call comes back and no container runs. -/
def answering : World face := fun _ op =>
  match op with
  | .clock => .ok 0
  | .utcNow => .ok []
  | .openFile | .writeFile => .ok ()
  | .inspect .. => .ok ⟨0, "false".toList, []⟩
  | .remove .. => .ok ⟨0, [], []⟩

def sampleAdd : Label := .add ['c'] [] [] answering

def samplePass : Label := .pass none answering

def sampleEntry : Unconfirmed := ⟨['c'], [], [], 0, [], []⟩

abbrev sampleStep := step (F := Whole) (fun _ => true) (fun _ => .ok 0) 1

lemma sampleStep_add : sampleStep start sampleAdd = ⟨written [sampleEntry], [(['c'], [], [])], []⟩ := rfl

lemma sampleRead : ContainerReaper.read (F := Whole) (fun _ => true) (fun _ => .ok 0) answering
    (written [sampleEntry]) [] = (.ok [sampleEntry], written [sampleEntry], [⟨.openFile, .ok ()⟩]) := by
  have hopened : tried (ask (F := Whole) .openFile) answering (written [sampleEntry]) [] =
      (.ok (.ok ()), written [sampleEntry], [⟨.openFile, .ok ()⟩]) := rfl
  have hstored : (Prog.get : Step Whole _) answering (written [sampleEntry]) [⟨.openFile, .ok ()⟩] =
      (.ok (written [sampleEntry]), written [sampleEntry], [⟨.openFile, .ok ()⟩]) := rfl
  have hread : entriesOf (fun _ => true) (fun _ => .ok 0) (written [sampleEntry] : Stored Whole) =
      .ok [sampleEntry] := entriesOf_written (by simp [sampleEntry])
  unfold ContainerReaper.read
  rw [Prog.bind_ok hopened]
  dsimp only
  rw [Prog.bind_ok hstored, hread]
  rfl

lemma sampleReap (s : Stored Whole) (h : Log) : reapFrom 1 none [sampleEntry] answering s h =
    (.ok ([], [⟨sampleEntry, true, 1, []⟩]), s,
      h ++ [⟨.inspect ['c'] (max inspectTimeout (1 / 1000)), .ok ⟨0, "false".toList, []⟩⟩] ++
        [⟨.remove ['c'] rmTimeout, .ok ⟨0, [], []⟩⟩]) := rfl

lemma samplePass_run : reapOnce (F := Whole) (fun _ => true) (fun _ => .ok 0) 1 none answering
    (written [sampleEntry]) [] = (.ok [⟨sampleEntry, true, 1, []⟩], written [], [⟨.openFile, .ok ()⟩,
      ⟨.inspect ['c'] (max inspectTimeout (1 / 1000)), .ok ⟨0, "false".toList, []⟩⟩,
      ⟨.remove ['c'] rmTimeout, .ok ⟨0, [], []⟩⟩, ⟨.writeFile, .ok ()⟩]) := by
  unfold reapOnce
  rw [Prog.bind_ok (show deadlineOf none answering _ _ = (.ok none, _, _) from rfl), Prog.bind_ok sampleRead,
    if_neg (List.cons_ne_nil _ _), Prog.bind_ok (sampleReap _ _)]
  rfl

lemma sample_steady : Along sampleStep (Steady (fun _ => true) (fun _ => .ok 0) 1) start
    [sampleAdd, samplePass] := by
  refine ⟨⟨?_, ?_⟩, ⟨?_, ?_⟩, trivial⟩
  · intro container runId taskId w hl
    cases hl
    exact List.cons_ne_nil _ _
  · intro type hmem
    have hcalls : callsOf (F := Whole) (fun _ => true) (fun _ => .ok 0) 1 start sampleAdd =
        [⟨.openFile, .ok ()⟩, ⟨.utcNow, .ok []⟩, ⟨.writeFile, .ok ()⟩] := rfl
    rw [hcalls] at hmem
    simp at hmem
  · intro container runId taskId w hl
    cases hl
  · intro type hmem
    rw [sampleStep_add, samplePass, callsOf, samplePass_run] at hmem
    simp at hmem

end Sample

variable (isPrintable trunc maxAttempts)

lemma accounts_start : Accounts isPrintable trunc maxAttempts (start : Reaping F) := by
  have hpending : pending isPrintable trunc (Stored.missing : Stored F) = [] := rfl
  refine ⟨⟨[], rfl⟩, ?_, ?_, ?_, ?_, ?_, ?_⟩ <;> simp [hpending, start]

lemma accounts_run (hmax : 0 < maxAttempts) {labels : List Label} {s : Reaping F}
    (h : Along (step isPrintable trunc maxAttempts) (Steady isPrintable trunc maxAttempts) s labels)
    (ha : Accounts isPrintable trunc maxAttempts s) :
    Accounts isPrintable trunc maxAttempts (runFrom (step isPrintable trunc maxAttempts) s labels) :=
  h.preserves (fun _ _ ha hsteady => accounts_step hmax ha hsteady) ha

/-- Over any additions and passes, the queue's accounts are right: what was queued is pending, in its
order, or was reported exactly once, a container reported as not reaped was tried as often as may be, and
none is tried more often. -/
theorem run_accounts (hmax : 0 < maxAttempts) (labels : List Label)
    (h : Along (step isPrintable trunc maxAttempts) (Steady isPrintable trunc maxAttempts) start labels) :
    Accounts isPrintable trunc maxAttempts (runFrom (step isPrintable trunc maxAttempts) (start : Reaping F) labels) :=
  accounts_run isPrintable trunc maxAttempts hmax h (accounts_start isPrintable trunc maxAttempts)

theorem run_accounts_sample : Accounts (fun _ => true) (fun _ => .ok 0) 1
    (runFrom sampleStep start [sampleAdd, samplePass]) :=
  run_accounts (fun _ => true) (fun _ => .ok 0) 1 Nat.one_pos [sampleAdd, samplePass] sample_steady

variable {isPrintable trunc maxAttempts}

lemma run_aged (hmax : 0 < maxAttempts) {queued : List Ticket} {labels : List Label} {n : ℕ} {s : Reaping F}
    (h : Along (step isPrintable trunc maxAttempts) (Steady isPrintable trunc maxAttempts) s labels)
    (ha : Accounts isPrintable trunc maxAttempts s) (haged : Aged isPrintable trunc queued n s) :
    Aged isPrintable trunc queued (n + fullPasses isPrintable trunc maxAttempts s labels)
      (runFrom (step isPrintable trunc maxAttempts) s labels) := by
  induction labels generalizing n s with
  | nil => exact haged
  | cons l labels ih =>
    rw [fullPasses, ← Nat.add_assoc]
    exact ih h.2 (accounts_step hmax ha h.1) (aged_step ha h.1 haged)

variable (isPrintable trunc maxAttempts)

end Runs

end CommitReplay.ReaperRuns
