import CommitReplay.OracleScore

/-! What a score counts, and what scoring leaves of the tree: every outcome is of a run of its mutant, and
every file that was written holds what it held, each of its versions newer than the one before. -/
namespace CommitReplay.OracleRuns

open CommitReplay.PythonText CommitReplay.GradeRows CommitReplay.MutantSample CommitReplay.OrderedItems
open CommitReplay.TestRuns (TestRun)
open CommitReplay.OracleScore

variable {lab : Lab} {tools : Tools} {v2 : Bool} {digest : Bytes → String}

section Statuses

variable {o : MutantOutcome} {m : Mutant} {diff : Text} {run : TestRun}

lemma status_of_killed {b : Bool} (h : o.killed = some b) :
    o.status = if b then .killed else .escaped := by
  have hcompiled : o.uncompilable = false := by
    by_contra hc
    simp [o.compiled (by simpa using hc)] at h
  have hattributed : o.unattributed = false := by
    by_contra hc
    simp [o.attributed (by simpa using hc)] at h
  rw [MutantOutcome.status, hcompiled, hattributed, h]
  cases b <;> rfl

lemma status_of_none (h : o.killed = none) : o.status ≠ .killed ∧ o.status ≠ .escaped := by
  rw [MutantOutcome.status, h]
  dsimp only
  split_ifs <;> exact ⟨by decide, by decide⟩

lemma killed_of_status (h : o.status = .killed) : o.killed = some true := by
  cases hk : o.killed with
  | none => exact absurd h (status_of_none hk).1
  | some b =>
    rw [status_of_killed hk] at h
    cases b
    · cases h
    · rfl

lemma killed_of_escaped (h : o.status = .escaped) : o.killed = some false := by
  cases hk : o.killed with
  | none => exact absurd h (status_of_none hk).2
  | some b =>
    rw [status_of_killed hk] at h
    cases b
    · rfl
    · cases h

/-- Every outcome has one of the six. -/
lemma count_statuses (l : List MutantOutcome) :
    l.countP (·.killed = some true) + l.countP (·.killed = some false) + l.countP (·.status = .error) +
      l.countP (·.status = .uncompilable) + l.countP (·.status = .timeout) +
      l.countP (·.status = .unattributed) = l.length := by
  induction l with
  | nil => rfl
  | cons o l ih =>
    simp only [List.countP_cons, List.length_cons]
    cases hk : o.killed with
    | some b =>
      rw [status_of_killed hk]
      cases b <;> simp <;> omega
    | none =>
      cases hs : o.status with
      | killed => exact absurd hs (status_of_none hk).1
      | escaped => exact absurd hs (status_of_none hk).2
      | _ => simp; omega

/-- What a graded outcome says of its run. -/
lemma ofRun_graded {b : Bool} (h : (MutantOutcome.ofRun tools true m diff run).killed = some b) :
    b = !run.green ∧ run.timedOut = false ∧ ¬(run.returncode = 0 ∧ run.parseError ≠ "") ∧
      compileFailure run = false := by
  unfold MutantOutcome.ofRun at h
  split_ifs at h with hout hcompile
  · rw [not_and, not_or] at hout
    have hout := hout rfl
    exact ⟨(Option.some.inj h).symm, by simpa using hout.1, hout.2, by simpa using hcompile⟩

/-- An escaped mutant's run was green. -/
theorem green_of_escaped (h : (MutantOutcome.ofRun tools true m diff run).status = .escaped) :
    run.green = true := by
  have := (ofRun_graded (killed_of_escaped h)).1
  simpa using this.symm

/-- A killed mutant's run finished, was no build rejection, and exited other than 0. -/
theorem red_of_killed (h : (MutantOutcome.ofRun tools true m diff run).status = .killed) :
    run.timedOut = false ∧ run.returncode ≠ 0 ∧ compileFailure run = false := by
  obtain ⟨hgreen, htime, hparse, hcompile⟩ := ofRun_graded (killed_of_status h)
  refine ⟨htime, fun hzero => ?_, hcompile⟩
  simp [TestRun.green, htime, hzero] at hgreen
  exact hparse ⟨hzero, hgreen⟩

end Statuses

section Versions

variable {originals rest : List (String × Bytes)} {init : Files} {st : State} {p q : String} {raw : Bytes}

/-- The modification times a file has had: its own, and those of the versions written to it. -/
def mtimes (init : Files) (st : State) (p : String) : List ℚ :=
  ((init p).map Prod.snd).toList ++ (st.versions.filter (·.path = p)).map fun v => (v.mtime : ℚ)

lemma mtimes_write_self : mtimes init (st.write p raw) p = mtimes init st p ++ [(st.tick : ℚ)] := by
  simp [mtimes, State.write, List.filter_append]

lemma mtimes_write_ne (h : p ≠ q) : mtimes init (st.write q raw) p = mtimes init st p := by
  simp [mtimes, State.write, List.filter_append, h.symm]

/-- Only the targets are written, each version of one newer than what it was before, and none ahead of the
tick. -/
structure Ticked (originals : List (String × Bytes)) (init : Files) (st : State) : Prop where
  inside : ∀ v ∈ st.versions, v.path ∈ originals.map Prod.fst
  rising : ∀ p ∈ originals.map Prod.fst, (mtimes init st p).Pairwise (· < ·)
  under : ∀ p ∈ originals.map Prod.fst, ∀ t ∈ mtimes init st p, t < (st.tick : ℚ) + 1

lemma Ticked.congr {st' : State} (h : Ticked originals init st) (hversions : st'.versions = st.versions)
    (htick : st.tick ≤ st'.tick) : Ticked originals init st' := by
  have hmtimes : ∀ p, mtimes init st' p = mtimes init st p := fun p => by rw [mtimes, hversions, mtimes]
  have hcast : (st.tick : ℚ) ≤ st'.tick := by exact_mod_cast htick
  refine ⟨hversions ▸ h.inside, fun p hp => hmtimes p ▸ h.rising p hp, fun p hp t ht => ?_⟩
  have := h.under p hp t (hmtimes p ▸ ht)
  linarith

lemma tick_advance : st.tick + 1 ≤ (st.advance lab).tick := le_max_left _ _

/-- Once the tick has advanced, every version there is lies before it. -/
lemma Ticked.before (h : Ticked originals init st) (hp : p ∈ originals.map Prod.fst) :
    ∀ t ∈ mtimes init (st.advance lab) p, t < ((st.advance lab).tick : ℚ) := by
  intro t ht
  have hcast : ((st.tick + 1 : ℤ) : ℚ) ≤ ((st.advance lab).tick : ℚ) := by exact_mod_cast tick_advance
  have hunder := h.under p hp t ht
  push_cast at hcast
  linarith

/-- A version at the tick keeps the order, where every version of its file lies before the tick. -/
lemma Ticked.write (h : Ticked originals init st) (hp : p ∈ originals.map Prod.fst)
    (hbefore : ∀ t ∈ mtimes init st p, t < (st.tick : ℚ)) : Ticked originals init (st.write p raw) := by
  refine ⟨fun v hv => ?_, fun q hq => ?_, fun q hq t ht => ?_⟩
  · rcases List.mem_append.mp hv with hv | hv
    · exact h.inside v hv
    · rw [List.mem_singleton.mp hv]
      exact hp
  · by_cases hqp : q = p
    · rw [hqp, mtimes_write_self]
      exact List.pairwise_append.mpr ⟨h.rising p hp, List.pairwise_singleton _ _, fun t ht u hu =>
        List.mem_singleton.mp hu ▸ hbefore t ht⟩
    · rw [mtimes_write_ne hqp]
      exact h.rising q hq
  · show t < (st.tick : ℚ) + 1
    by_cases hqp : q = p
    · rw [hqp, mtimes_write_self] at ht
      rcases List.mem_append.mp ht with ht | ht
      · exact h.under p hp t ht
      · rw [List.mem_singleton.mp ht]
        exact lt_add_one _
    · rw [mtimes_write_ne hqp] at ht
      exact h.under q hq t ht

/-- A new version of a target, at the next tick. -/
lemma Ticked.version (h : Ticked originals init st) (hp : p ∈ originals.map Prod.fst) :
    Ticked originals init ((st.advance lab).write p raw) := by
  have hle : st.tick ≤ (st.advance lab).tick := (le_add_of_nonneg_right zero_le_one).trans tick_advance
  have hadvance : Ticked originals init (st.advance lab) := h.congr rfl hle
  exact hadvance.write hp (h.before hp)

/-- The last restore gives every target back. -/
theorem restoreAll_ok (hnodup : (rest.map Prod.fst).Nodup) (hsub : rest.map Prod.fst ⊆ originals.map Prod.fst)
    (h : Ticked originals init st)
    (hbefore : ∀ p ∈ rest.map Prod.fst, ∀ t ∈ mtimes init st p, t < (st.tick : ℚ)) :
    ∃ st', restoreAll digest st rest = (st', none) ∧ Ticked originals init st' ∧ st'.outcomes = st.outcomes ∧
      (∀ f ∈ rest, (st'.files f.1).map Prod.fst = some f.2) ∧
      ∀ p ∉ rest.map Prod.fst, st'.files p = st.files p := by
  induction rest generalizing st with
  | nil => exact ⟨st, rfl, h, rfl, fun f hf => absurd hf List.not_mem_nil, fun _ _ => rfl⟩
  | cons f rest ih =>
    obtain ⟨path, raw⟩ := f
    rw [List.map_cons, List.nodup_cons] at hnodup
    have hpath : path ∈ originals.map Prod.fst := hsub List.mem_cons_self
    have hwrite : Ticked originals init (st.write path raw) :=
      h.write hpath (hbefore path List.mem_cons_self)
    have hfile : (st.write path raw).files path = some (raw, (st.tick : ℚ)) := Function.update_self ..
    obtain ⟨st', hst', hticked, houtcomes, hrestored, hothers⟩ := ih hnodup.2
      (fun p hp => hsub (List.mem_cons_of_mem _ hp)) hwrite fun p hp t ht => by
        have hne : p ≠ path := fun he => hnodup.1 (he ▸ hp)
        rw [mtimes_write_ne hne] at ht
        exact hbefore p (List.mem_cons_of_mem _ hp) t ht
    refine ⟨st', ?_, hticked, houtcomes, fun f hf => ?_, fun p hp => ?_⟩
    · simp only [restoreAll, hfile, Option.any_some, decide_true, if_true]
      exact hst'
    · rcases List.mem_cons.mp hf with rfl | hf
      · rw [hothers _ hnodup.1, hfile]
        rfl
      · exact hrestored f hf
    · rw [List.map_cons, List.mem_cons, not_or] at hp
      rw [hothers p hp.2]
      exact Function.update_of_ne hp.1 ..

end Versions

section Tries

/-- An outcome is of a call of the runner on a tree that holds the mutant. -/
def Observed (lab : Lab) (tools : Tools) (v2 : Bool) (m : Mutant) (o : MutantOutcome) : Prop :=
  ∃ k files diff, (files m.path).map Prod.fst = some (utf8Encode m.mutatedSource.toList) ∧
    ((∃ run, (lab.run k files).2 = .ran run ∧ o = .ofRun tools v2 m diff run) ∨
      ∃ error, (lab.run k files).2 = .raised error ∧ o = .ofError tools m diff error)

/-- A mutant's try keeps the versions in order, and where it raises nothing adds the outcome of its run. -/
theorem tryMutant_ok (h : Ticked originals init st) :
    Ticked originals init (tryMutant lab tools v2 originals st m).1 ∧
      ((tryMutant lab tools v2 originals st m).2 = none → ∃ o, Observed lab tools v2 m o ∧
        (tryMutant lab tools v2 originals st m).1.outcomes = st.outcomes ++ [o]) := by
  rw [tryMutant]
  cases hlookup : originals.lookup m.path with
  | none => exact ⟨h, fun hraised => absurd hraised (Option.some_ne_none _)⟩
  | some original =>
    have hp : m.path ∈ originals.map Prod.fst :=
      List.mem_map.mpr ⟨_, mem_of_lookup hlookup, rfl⟩
    dsimp only
    generalize hwritten : (st.advance lab).write m.path (utf8Encode m.mutatedSource.toList) = written
    have hw : Ticked originals init written := hwritten ▸ h.version hp
    have hc : Ticked originals init (written.called lab) := hw.congr rfl le_rfl
    have hr : Ticked originals init (((written.called lab).advance lab).write m.path original) := hc.version hp
    have hfile : (written.files m.path).map Prod.fst = some (utf8Encode m.mutatedSource.toList) := by
      rw [← hwritten]
      simp [State.write]
    have hout : written.outcomes = st.outcomes := by
      rw [← hwritten]
      rfl
    generalize tools.diff ((utf8Decode original).getD []) m.mutatedSource.toList m.path.toList = diff
    cases hb : (lab.run written.calls written.files).2 with
    | unavailable => exact ⟨hr, fun hraised => absurd hraised (Option.some_ne_none _)⟩
    | raised error =>
      exact ⟨hr.congr rfl le_rfl, fun _ => ⟨_, ⟨written.calls, written.files, diff, hfile, .inr ⟨error, hb, rfl⟩⟩,
        congrArg (· ++ [_]) hout⟩⟩
    | ran run =>
      exact ⟨hr.congr rfl le_rfl, fun _ => ⟨_, ⟨written.calls, written.files, diff, hfile, .inl ⟨run, hb, rfl⟩⟩,
        congrArg (· ++ [_]) hout⟩⟩

/-- So do all of them. -/
theorem tryAll_ok (h : Ticked originals init st) :
    Ticked originals init (tryAll lab tools v2 originals st ms).1 ∧
      ((tryAll lab tools v2 originals st ms).2 = none → ∃ os, List.Forall₂ (Observed lab tools v2) ms os ∧
        (tryAll lab tools v2 originals st ms).1.outcomes = st.outcomes ++ os) := by
  induction ms generalizing st with
  | nil => exact ⟨h, fun _ => ⟨[], .nil, (List.append_nil _).symm⟩⟩
  | cons m ms ih =>
    obtain ⟨hticked, hone⟩ := @tryMutant_ok lab tools v2 originals init st m h
    rw [tryAll]
    cases hm : tryMutant lab tools v2 originals st m with
    | mk st' raised =>
      rw [hm] at hticked hone
      cases raised with
      | some e => exact ⟨hticked, fun hraised => absurd hraised (Option.some_ne_none _)⟩
      | none =>
        obtain ⟨o, ho, hout⟩ := hone rfl
        obtain ⟨hticked', hrest⟩ := ih hticked
        refine ⟨hticked', fun hraised => ?_⟩
        obtain ⟨os, hos, hout'⟩ := hrest hraised
        refine ⟨o :: os, .cons ho hos, hout'.trans ?_⟩
        rw [hout, List.append_assoc, List.singleton_append]

/-- Whatever the runs do, every target holds what it held. -/
theorem tryAndRestore_ok (hkeyed : Keyed originals) (h : Ticked originals init st) (hnew : st.outcomes = []) :
    Ticked originals init (tryAndRestore lab tools v2 digest originals st ms).1 ∧
      (∀ f ∈ originals, ((tryAndRestore lab tools v2 digest originals st ms).1.files f.1).map Prod.fst = some f.2) ∧
      ((tryAndRestore lab tools v2 digest originals st ms).2 = none →
        List.Forall₂ (Observed lab tools v2) ms (tryAndRestore lab tools v2 digest originals st ms).1.outcomes) := by
  obtain ⟨hticked, hall⟩ := @tryAll_ok lab tools v2 originals init st ms h
  have hle := (le_add_of_nonneg_right zero_le_one).trans
    (@tick_advance lab (tryAll lab tools v2 originals st ms).1)
  obtain ⟨st', hst', hticked', hout, hrestored, -⟩ := @restoreAll_ok digest originals originals init
    ((tryAll lab tools v2 originals st ms).1.advance lab) hkeyed (List.Subset.refl _) (hticked.congr rfl hle)
    fun p hp => hticked.before hp
  simp only [tryAndRestore, hst', Option.none_or]
  refine ⟨hticked', hrestored, fun hraised => ?_⟩
  obtain ⟨os, hos, hout'⟩ := hall hraised
  rw [hout]
  show List.Forall₂ _ ms (tryAll lab tools v2 originals st ms).1.outcomes
  rwa [hout', hnew, List.nil_append]

end Tries

section Scores

variable {F : Type} {arith : Arithmetic F} {sha256 : Sha256} {mutator : Mutator} {task : Task} {maxMutants : ℤ}
  {files : Files} {o : Originals} {targets : List String}

/-- What was read of the targets is what they hold. -/
lemma readTargets_ok {o' : Originals} (h : readTargets files targets o = .ok o')
    (ho : ∀ f ∈ o.files, (files f.1).map Prod.fst = some f.2) :
    ∀ f ∈ o'.files, (files f.1).map Prod.fst = some f.2 := by
  induction targets generalizing o with
  | nil =>
    obtain rfl := Except.ok.inj h
    exact ho
  | cons rel targets ih =>
    rw [readTargets] at h
    cases hfile : files rel with
    | none => rw [hfile] at h; cases h
    | some g =>
      rw [hfile] at h
      dsimp only at h
      split_ifs at h
      · refine ih h fun f hf => ?_
        rcases (mem_setItem o.keyed).mp hf with rfl | ⟨hf, -⟩
        · rw [hfile]
          rfl
        · exact ho f hf
      · exact ih h ho

lemma lt_seconds (q : ℚ) : q < (seconds q : ℚ) + 1 := by
  rw [seconds]
  split_ifs
  · exact Int.lt_floor_add_one q
  · exact (Int.le_ceil q).trans_lt (lt_add_one _)

/-- No target is newer than the newest. -/
lemma lt_newest {f : String × Bytes} (hf : f ∈ o.files) {g : Bytes × ℚ} (hg : files f.1 = some g) :
    g.2 < (newest files o : ℚ) + 1 := by
  have hin : seconds g.2 ∈ o.files.filterMap fun f => (files f.1).map fun g => seconds g.2 :=
    List.mem_filterMap.mpr ⟨f, hf, by rw [hg, Option.map_some]⟩
  obtain ⟨t, ht⟩ := Option.isSome_iff_exists.mp (List.isSome_max?_of_mem hin)
  have hle : seconds g.2 ≤ newest files o := by
    rw [newest, ht, Option.getD_some]
    exact (List.max?_le_iff ht).mp le_rfl _ hin
  have hcast : (seconds g.2 : ℚ) ≤ newest files o := by exact_mod_cast hle
  linarith [lt_seconds g.2]

/-- Before a mutant is tried, a target has the one version it was found with. -/
lemma ticked_start {st : State} (hversions : st.versions = []) (htick : st.tick = newest st.files o) :
    Ticked o.files st.files st := by
  have hone : ∀ p, mtimes st.files st p = ((st.files p).map Prod.snd).toList := fun p => by
    rw [mtimes, hversions]
    simp
  refine ⟨by simp [hversions], fun p _ => ?_, fun p hp t ht => ?_⟩
  · rw [hone]
    cases (st.files p).map Prod.snd with
    | none => exact List.Pairwise.nil
    | some t => exact List.pairwise_singleton _ _
  · rw [hone, Option.mem_toList, Option.map_eq_some_iff] at ht
    obtain ⟨g, hg, rfl⟩ := ht
    obtain ⟨f, hf, rfl⟩ := List.mem_map.mp hp
    rw [htick]
    exact lt_newest hf hg

/-- Every file that was written holds what it held, each of its versions newer than the one before. -/
def Restored (gold : Files) (st : State) : Prop :=
  ∀ v ∈ st.versions, (st.files v.path).map Prod.fst = (gold v.path).map Prod.fst ∧
    (mtimes gold st v.path).Pairwise (· < ·)

/-- What a score says of a plan. -/
structure Honest (lab : Lab) (tools : Tools) (arith : Arithmetic F) (planned : List Mutant) (score : Score F) :
    Prop where
  observed : List.Forall₂ (Observed lab tools true) planned score.outcomes
  killed : score.killed = score.outcomes.countP (·.status = .killed)
  escaped : score.total - score.killed = score.outcomes.countP (·.status = .escaped)
  counts : score.killed + (score.total - score.killed) + score.errors + score.uncompilable + score.timeouts +
    score.unattributed = planned.length
  /-- No strength without a green baseline, a verdict and a half of the plan. -/
  strength : score.strength = if score.baseline.any (·.green) = false ∨ score.total = 0 ∨
      planned.length < 2 * (planned.length - score.total) then none
    else some (arith.round4 (arith.div score.killed (score.killed + (score.total - score.killed))))

lemma honest_empty {srcPaths : List String} {note : Note} {baseline : Option TestRun} :
    Honest lab tools arith [] (.empty srcPaths note baseline : Score F) :=
  ⟨.nil, rfl, rfl, rfl, (if_pos (.inr (.inl rfl))).symm⟩

lemma countP_killed (l : List MutantOutcome) :
    l.countP (·.killed = some true) = l.countP (·.status = .killed) ∧
      l.countP (·.killed = some false) = l.countP (·.status = .escaped) := by
  refine ⟨List.countP_congr fun o _ => ?_, List.countP_congr fun o _ => ?_⟩
  · rw [decide_eq_true_eq, decide_eq_true_eq]
    exact ⟨fun h => (status_of_killed h).trans (if_pos rfl), killed_of_status⟩
  · rw [decide_eq_true_eq, decide_eq_true_eq]
    exact ⟨fun h => (status_of_killed h).trans (if_neg Bool.false_ne_true), killed_of_escaped⟩

/-- The tally of what a plan's runs came to. -/
lemma honest_tally {planned : List Mutant} {outcomes : List MutantOutcome} {baseline : TestRun}
    (hobserved : List.Forall₂ (Observed lab tools true) planned outcomes) (hgreen : baseline.green = true) :
    Honest lab tools arith planned (tally true arith planned.length outcomes targets baseline) := by
  have hlength := hobserved.length_eq
  have htrue : (outcomes.filter (·.killed.isSome)).countP (·.killed = some true) =
      outcomes.countP (·.killed = some true) := by
    rw [List.countP_filter]
    exact List.countP_congr fun o _ => by cases o.killed <;> simp
  have htotal : (outcomes.filter (·.killed.isSome)).length =
      outcomes.countP (·.killed = some true) + outcomes.countP (·.killed = some false) := by
    rw [← List.countP_eq_length_filter]
    clear htrue hlength hobserved
    induction outcomes with
    | nil => rfl
    | cons o outcomes ih =>
      simp only [List.countP_cons, ih]
      rcases o.killed with _ | _ | _ <;> simp <;> omega
  have hsum := count_statuses outcomes
  obtain ⟨hkilled, hescaped⟩ := countP_killed outcomes
  refine ⟨hobserved, htrue.trans hkilled, ?_, ?_, ?_⟩
  · simp only [tally, htrue, htotal, Nat.add_sub_cancel_left]
    exact hescaped
  · simp only [tally, htrue, htotal, Nat.add_sub_cancel_left]
    omega
  · have hback : outcomes.countP (·.killed = some true) + outcomes.countP (·.killed = some false) -
        outcomes.countP (·.killed = some true) = outcomes.countP (·.killed = some false) :=
      Nat.add_sub_cancel_left _ _
    simp only [tally, htrue, htotal, hback, Option.any_some, hgreen, Bool.true_eq_false, false_or, true_and,
      hlength]

/-- Once the baseline is green, the plan is tried and the tree is as it was. -/
theorem scoreGreen_honest {st : State} {baseline : TestRun} (hversions : st.versions = [])
    (hnew : st.outcomes = []) (hgreen : baseline.green = true) :
    Restored st.files (scoreGreen lab tools true digest arith sha256 mutator task maxMutants st targets baseline).1 ∧
      ∀ score, (scoreGreen lab tools true digest arith sha256 mutator task maxMutants st targets baseline).2 =
        .ok score → score.srcPaths = targets ∧ score.baseline = some baseline ∧
          ∃ o, readTargets st.files targets ⟨[], keyed_nil⟩ = .ok o ∧
            Honest lab tools arith (plan true sha256 mutator task maxMutants o) score := by
  have hnone : Restored st.files st := fun v hv => by simp [hversions] at hv
  rw [scoreGreen]
  cases hread : readTargets st.files targets ⟨[], keyed_nil⟩ with
  | error e => exact ⟨hnone, fun score h => by cases h⟩
  | ok o =>
    dsimp only
    split_ifs with hplan
    · refine ⟨hnone, fun score h => ?_⟩
      obtain rfl := Except.ok.inj h
      exact ⟨rfl, rfl, o, rfl, hplan ▸ honest_empty⟩
    · have hgold := readTargets_ok hread fun f hf => absurd hf List.not_mem_nil
      obtain ⟨hticked, hrestored, hall⟩ := @tryAndRestore_ok lab tools true digest o.files st.files
        { st with tick := newest st.files o } (plan true sha256 mutator task maxMutants o) o.keyed
        (@ticked_start o { st with tick := newest st.files o } hversions rfl) hnew
      have hback : Restored st.files (tryAndRestore lab tools true digest o.files
          { st with tick := newest st.files o } (plan true sha256 mutator task maxMutants o)).1 := by
        intro v hv
        obtain ⟨f, hf, hpath⟩ := List.mem_map.mp (hticked.inside v hv)
        refine ⟨?_, hticked.rising _ (hticked.inside v hv)⟩
        rw [← hpath, hrestored f hf, hgold f hf]
      cases hraised : (tryAndRestore lab tools true digest o.files { st with tick := newest st.files o }
          (plan true sha256 mutator task maxMutants o)).2 with
      | some e => exact ⟨hback, fun score h => by cases h⟩
      | none =>
        refine ⟨hback, fun score h => ?_⟩
        obtain rfl := Except.ok.inj h
        exact ⟨rfl, rfl, o, rfl, honest_tally (hall hraised) hgreen⟩

/-- A call of the runner on a tree that holds the mutant gave such a run. -/
def RunOf (lab : Lab) (m : Mutant) (p : TestRun → Prop) : Prop :=
  ∃ k tree run, (tree m.path).map Prod.fst = some (utf8Encode m.mutatedSource.toList) ∧
    (lab.run k tree).2 = .ran run ∧ p run

lemma Observed.runOf {m : Mutant} {out : MutantOutcome} {s : Status} {p : TestRun → Prop}
    (h : Observed lab tools true m out) (hs : out.status = s) (herror : s ≠ .error)
    (hp : ∀ diff run, (MutantOutcome.ofRun tools true m diff run).status = s → p run) : RunOf lab m p := by
  obtain ⟨k, tree, diff, htree, ⟨run, hrun, rfl⟩ | ⟨error, -, rfl⟩⟩ := h
  · exact ⟨k, tree, run, htree, hrun, hp diff run hs⟩
  · exact absurd hs.symm herror

/-- What a returned score rests on. -/
structure Sound (lab : Lab) (tools : Tools) (arith : Arithmetic F) (planned : List Mutant) (score : Score F) :
    Prop extends Honest lab tools arith planned score where
  green_of_escaped : ∀ p ∈ planned.zip score.outcomes, p.2.status = .escaped →
    RunOf lab p.1 fun run => run.green = true
  red_of_killed : ∀ p ∈ planned.zip score.outcomes, p.2.status = .killed →
    RunOf lab p.1 fun run => run.timedOut = false ∧ run.returncode ≠ 0 ∧ compileFailure run = false

lemma Honest.sound {planned : List Mutant} {score : Score F} (h : Honest lab tools arith planned score) :
    Sound lab tools arith planned score := by
  have hone : ∀ p ∈ planned.zip score.outcomes, Observed lab tools true p.1 p.2 := fun p hp =>
    (List.forall₂_iff_zip.mp h.observed).2 hp
  exact ⟨h, fun p hp hs => (hone p hp).runOf hs (by decide) fun diff run => green_of_escaped,
    fun p hp hs => (hone p hp).runOf hs (by decide) fun diff run => red_of_killed⟩

/-- Whatever the runner does at each of its calls, the tree survives, and a score that is returned rests on
what was observed of the plan. There is none where the baseline was not green. -/
theorem scoreTask_sound (lab : Lab) (tools : Tools) (digest : Bytes → String) (arith : Arithmetic F)
    (sha256 : Sha256) (task : Task) (maxMutants : ℤ) (mutator : Option Mutator) (files : Files) :
    Restored (lab.run 0 files).1
        (scoreTask lab tools true digest arith sha256 task maxMutants mutator files).1 ∧
      ∀ score, (scoreTask lab tools true digest arith sha256 task maxMutants mutator files).2 = .ok score →
        (score.baseline.any (·.green) = false → Sound lab tools arith [] score) ∧
        (score.baseline.any (·.green) = true → ∃ m o, mutator = some m ∧
          readTargets (lab.run 0 files).1 score.srcPaths ⟨[], keyed_nil⟩ = .ok o ∧
          Sound lab tools arith (plan true sha256 m task maxMutants o) score) := by
  have hempty : ∀ (gold files : Files), Restored gold (State.start files) := fun gold files v hv =>
    absurd hv List.not_mem_nil
  have hcalled : ∀ gold : Files, Restored gold ((State.start files).called lab) := fun gold v hv =>
    absurd hv List.not_mem_nil
  have hscore : ∀ {srcPaths : List String} {note : Note} {baseline : Option TestRun} {score : Score F},
      baseline.any (·.green) = false → (.ok (.empty srcPaths note baseline) : Except Raised (Score F)) = .ok score →
        (score.baseline.any (·.green) = false → Sound lab tools arith [] score) ∧
        (score.baseline.any (·.green) = true → ∃ m o, mutator = some m ∧
          readTargets (lab.run 0 files).1 score.srcPaths ⟨[], keyed_nil⟩ = .ok o ∧
          Sound lab tools arith (plan true sha256 m task maxMutants o) score) := by
    intro srcPaths note baseline score hred h
    obtain rfl := Except.ok.inj h
    exact ⟨fun _ => honest_empty.sound, fun hgreen => by
      rw [show (Score.empty srcPaths note baseline : Score F).baseline = baseline from rfl, hred] at hgreen
      cases hgreen⟩
  unfold scoreTask
  cases mutator with
  | none => exact ⟨hempty _ _, fun score h => hscore rfl h⟩
  | some m =>
    dsimp only
    split_ifs with htest
    · exact ⟨hempty _ _, fun score h => by cases h⟩
    · cases hb : (lab.run 0 files).2 with
      | unavailable => exact ⟨hcalled _, fun score h => by cases h⟩
      | raised error => exact ⟨hcalled _, fun score h => hscore rfl h⟩
      | ran baseline =>
        dsimp only
        split_ifs with hgreen
        · have hgold : ((State.start files).called lab).files = (lab.run 0 files).1 := rfl
          obtain ⟨hback, hall⟩ := @scoreGreen_honest lab tools digest F arith sha256 m task maxMutants
            (task.srcFiles.filter fun p => m.accepts p && (files p).isSome) ((State.start files).called lab)
            baseline rfl rfl hgreen
          refine ⟨hgold ▸ hback, fun score h => ?_⟩
          obtain ⟨hpaths, hbase, o, hread, hhonest⟩ := hall score h
          refine ⟨fun hred => ?_, fun _ => ⟨m, o, rfl, hpaths ▸ hread, hhonest.sound⟩⟩
          rw [hbase, Option.any_some, hgreen] at hred
          cases hred
        · exact ⟨hcalled _, fun score h => hscore (by simpa using hgreen) h⟩

end Scores

section Samples

/-- Quotients and their four decimals, as numbers. -/
def quotients : Arithmetic ℚ := ⟨fun k n => k / n, fun q => (round (q * 10000) : ℚ) / 10000⟩

def sampleMutant : Mutant := ⟨"", "flip", 1, 0, "", "b", "a"⟩

def sampleMutator : Mutator := ⟨fun _ => true, fun _ _ _ => List.replicate 3 sampleMutant⟩

def sampleTask : Task := ⟨"t", ["a"], [], fun _ => false⟩

def sampleFiles : Files := fun p => if p = "a" then some ([97], 0) else none

/-- Every run is green but that of the first mutant. -/
def sampleLab : Lab where
  now _ := 0
  run k files := (files, .ran ⟨if k = 1 then 1 else 0, ∅, [], false, "", "", none⟩)

def sampleTools : Tools := ⟨fun _ t => t, fun _ _ _ => []⟩

def sampleOriginals : Originals := ⟨[("a", [97])], List.nodup_singleton _⟩

lemma sample_ranked : ranked (markDigest []) "t" (candidates true sampleMutator 3 sampleOriginals) =
    [("a", List.replicate 3 sampleMutant)] := by
  simp [ranked, rank, candidates, sampleOriginals, sampleMutator, List.replicate_succ]

lemma sample_plan : plan true (markDigest []) sampleMutator sampleTask 3 sampleOriginals =
    [{ sampleMutant with mutantId := mutantId 1 sampleMutant },
      { sampleMutant with mutantId := mutantId 2 sampleMutant },
      { sampleMutant with mutantId := mutantId 3 sampleMutant }] := by
  have hsample : sampleMutants (markDigest []) "t" (candidates true sampleMutator 3 sampleOriginals) (max 0 3) =
      List.replicate 3 sampleMutant := by
    rw [sampleMutants_eq, sample_ranked]
    decide
  simp only [plan, sampleTask, if_true, hsample]
  rfl

lemma sample_read : readTargets sampleFiles ["a"] ⟨[], keyed_nil⟩ = .ok sampleOriginals := by
  have hdecode : utf8Decode [97] = some ['a'] := utf8Decode_encode ['a']
  simp [readTargets, sampleFiles, hdecode, Originals.set, setItem, sampleOriginals]

lemma sample_score : ∃ score : Score ℚ, (scoreTask sampleLab sampleTools true (fun _ => "") quotients
    (markDigest []) sampleTask 3 (some sampleMutator) sampleFiles).2 = .ok score ∧ score.killed = 1 ∧
      score.total = 3 ∧ score.strength = some (quotients.round4 (quotients.div 1 3)) := by
  have hgreen : (scoreTask sampleLab sampleTools true (fun _ => "") quotients (markDigest []) sampleTask 3
      (some sampleMutator) sampleFiles).2 = (scoreGreen sampleLab sampleTools true (fun _ => "") quotients
        (markDigest []) sampleMutator sampleTask 3 ((State.start sampleFiles).called sampleLab) ["a"]
        ⟨0, ∅, [], false, "", "", none⟩).2 := by
    rfl
  have hread : readTargets ((State.start sampleFiles).called sampleLab).files ["a"] ⟨[], keyed_nil⟩ =
      .ok sampleOriginals := sample_read
  rw [hgreen, scoreGreen, hread]
  dsimp only
  rw [sample_plan, if_neg (List.cons_ne_nil _ _)]
  exact ⟨_, rfl, rfl, rfl, rfl⟩

/-- A strength is rounded: with one mutant of three killed it is not the quotient. -/
theorem not_forall_strength_eq : ¬ ∀ (lab : Lab) (task : Task) (maxMutants : ℤ) (mutator : Option Mutator)
    (files : Files) (score : Score ℚ), (scoreTask lab sampleTools true (fun _ => "") quotients (markDigest [])
      task maxMutants mutator files).2 = .ok score → ∀ q, score.strength = some q →
        q = score.killed / (score.killed + (score.total - score.killed : ℕ)) := by
  intro h
  obtain ⟨score, hok, hkilled, htotal, hstrength⟩ := sample_score
  have heq := h _ _ _ _ _ score hok _ hstrength
  rw [hkilled, htotal] at heq
  norm_num [quotients, round_eq] at heq

end Samples

end CommitReplay.OracleRuns
