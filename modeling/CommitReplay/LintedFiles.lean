import CommitReplay.LintPlans

/-! Which files belt 5 judges. A step is handed no more than two hundred files, so a larger patch may pass with
files that no tool was handed. -/
namespace CommitReplay.LintedFiles

open CommitReplay.PythonText CommitReplay.RowChecks CommitReplay.LintPlans CommitReplay.Redaction
open CommitReplay.PriorityRegex

variable {Mount : Type} {isWide : Char → Bool} {normPath : Text → Text}

section Steps

variable {t : LintTool Mount} {changed : List Text} {answer : Except Text ExecResult} {ran : Ran Mount}

lemma redactAndCap_nil (maxChars : ℕ) : redactAndCap isWide maxChars [] = [] := by
  have hps : ∀ ps : List (Rx × (List (ℕ × Text) → Text)), ps.foldl (fun out p => sub p.1 p.2 out) [] = [] := by
    intro ps
    induction ps with
    | nil => rfl
    | cons p ps ih => exact ih
  rw [redactAndCap, redactText, hps]
  rfl

lemma runStep_ok (h : runStep isWide normPath t changed answer = .ok ran) :
    ran.tool = t ∧ ran.files = t.filesFor changed ∧ ran.answer = some answer := by
  unfold runStep at h
  cases answer with
  | error exc =>
    obtain rfl := Except.ok.inj h
    exact ⟨rfl, rfl, rfl⟩
  | ok r =>
    obtain ⟨⟨verdict, error, ⟨mine, other⟩, notes⟩, -, h⟩ := bind_eq_ok.mp h
    obtain rfl := Except.ok.inj h
    exact ⟨rfl, rfl, rfl⟩

/-- A reading that is a verdict says no more, and a step that timed out is not accepted. -/
lemma readExit_verdict {r : ExecResult} {b : Bool} {error : Text} (h : readExit t r = (some b, error)) :
    error = [] ∧ (r.timedOut = true → b = false) := by
  unfold readExit at h
  split_ifs at h with ht <;> simp only [Prod.mk.injEq, Option.some.injEq, reduceCtorEq, false_and] at h
  all_goals exact ⟨h.2.symm, fun h' => by first | exact h.1.symm | exact absurd h' ht⟩

lemma stepVerdict_accepts {r : ExecResult} {error : Text} {n : ℕ × ℕ} {notes : List Text}
    (h : stepVerdict normPath t changed r = .ok (some true, error, n, notes)) :
    error = [] ∧ r.timedOut = false := by
  unfold stepVerdict at h
  split at h
  · rename_i error' findings hread _
    split_ifs at h with ht
    · simp at h
    · obtain ⟨⟨mine, other⟩, -, h⟩ := bind_eq_ok.mp h
      dsimp only at h
      split_ifs at h
      · obtain ⟨rfl, -⟩ : error' = error ∧ _ := by simpa [pure, Except.pure] using h
        exact ⟨(readExit_verdict hread).1, by simpa using ht⟩
      all_goals simp [pure, Except.pure] at h
  · rename_i verdict error' hread _
    obtain ⟨rfl, rfl, -⟩ : verdict = some true ∧ error' = error ∧ _ := by simpa using h
    obtain ⟨he, ht⟩ := readExit_verdict hread
    exact ⟨he, by by_contra hc; simpa using ht (by simpa using hc)⟩

lemma recorded_error_nil {step : LintStep} (h : step.error = []) : (recorded isWide step).error = [] := by
  have hcap : (recorded isWide step).error = redactAndCap isWide 500 step.error := rfl
  rw [hcap, h, redactAndCap_nil]

/-- An accepted step holds no error and did not time out. -/
lemma accepted_plain (h : runStep isWide normPath t changed answer = .ok ran)
    (hv : ran.step.verdict = some true) : ran.step.error = [] ∧ ran.step.timedOut = false := by
  unfold runStep at h
  cases answer with
  | error exc =>
    obtain rfl := Except.ok.inj h
    cases hv
  | ok r =>
    obtain ⟨⟨verdict, error, ⟨mine, other⟩, notes⟩, hs, h⟩ := bind_eq_ok.mp h
    obtain rfl := Except.ok.inj h
    obtain rfl : verdict = some true := hv
    obtain ⟨rfl, ht⟩ := stepVerdict_accepts hs
    exact ⟨recorded_error_nil rfl, ht⟩

/-- The tool may run and accepts some answer to its call. -/
def CanAccept (isWide : Char → Bool) (normPath : Text → Text) (changed : List Text) (t : LintTool Mount) : Prop :=
  t.refuse = [] ∧ ∃ answer ran, runStep isWide normPath t changed answer = .ok ran ∧ ran.step.verdict = some true

end Steps

section Runs

variable {changed : List Text} {executor : Executor Mount} {root : Text} {timeout : ℕ}

/-- Where no step failed to accept, every tool that the files concern was run and accepted. -/
lemma ran_of_accepted {ts : List (LintTool Mount)} {given : List (Command Mount)} {rans : List (Ran Mount)}
    (h : runTools isWide normPath executor root timeout changed ts given = .ok rans)
    (hall : ∀ ran ∈ rans, ran.step.verdict = some true) :
    ∀ t ∈ ts, t.concerns changed = true → t.refuse = [] ∧
      ∃ ran ∈ rans, ∃ answer, runStep isWide normPath t changed answer = .ok ran := by
  induction ts generalizing given rans with
  | nil => intro t ht; cases ht
  | cons u ts ih =>
    intro t ht hc
    unfold runTools at h
    split_ifs at h with hu hr
    · obtain rfl | ht := List.mem_cons.mp ht
      · rw [hu] at hc
        cases hc
      · exact ih h hall t ht hc
    · obtain rfl := Except.ok.inj h
      cases hall _ (List.mem_singleton_self _)
    · obtain ⟨ran, hran, h⟩ := bind_eq_ok.mp h
      split_ifs at h with hv
      · obtain ⟨rest, hrest, h⟩ := bind_eq_ok.mp h
        obtain rfl := Except.ok.inj h
        obtain rfl | ht := List.mem_cons.mp ht
        · exact ⟨not_not.mp hr, ran, List.mem_cons_self, _, hran⟩
        · obtain ⟨href, x, hx, answer, hstep⟩ :=
            ih hrest (fun y hy => hall y (List.mem_cons_of_mem _ hy)) t ht hc
          exact ⟨href, x, List.mem_cons_of_mem _ hx, answer, hstep⟩
      · obtain rfl := Except.ok.inj h
        exact absurd (hall ran (List.mem_singleton_self _)) hv

lemma files_of_runTools {ts : List (LintTool Mount)} {given : List (Command Mount)} {rans : List (Ran Mount)}
    (h : runTools isWide normPath executor root timeout changed ts given = .ok rans) :
    ∀ ran ∈ rans, ran.files = ran.tool.filesFor changed := by
  induction ts generalizing given rans with
  | nil =>
    obtain rfl := Except.ok.inj h
    exact fun ran hran => nomatch hran
  | cons u ts ih =>
    intro ran hran
    unfold runTools at h
    split_ifs at h with hu hr
    · exact ih h ran hran
    · obtain rfl := Except.ok.inj h
      obtain rfl := List.mem_singleton.mp hran
      rfl
    · obtain ⟨x, hx, h⟩ := bind_eq_ok.mp h
      obtain ⟨htool, hfiles, -⟩ := runStep_ok hx
      have hfirst : x.files = x.tool.filesFor changed := by rw [hfiles, htool]
      split_ifs at h with hv
      · obtain ⟨rest, hrest, h⟩ := bind_eq_ok.mp h
        obtain rfl := Except.ok.inj h
        obtain rfl | hran := List.mem_cons.mp hran
        · exact hfirst
        · exact ih hrest ran hran
      · obtain rfl := Except.ok.inj h
        obtain rfl := List.mem_singleton.mp hran
        exact hfirst

/-- A run that is `ok` has accepted steps only. -/
lemma accepted_of_ok {detected : String} {rans : List (Ran Mount)} {run : LintRun}
    (h : summary detected rans = .ok run) (hok : run.ok = some true) :
    ∀ ran ∈ rans, ran.step.verdict = some true := by
  have hchecked : ∀ r : LintRun, r.checked = .ok run → r.steps = rans.map Ran.step →
      ∀ ran ∈ rans, ran.step.verdict = some true := by
    intro r hr hsteps ran hran
    unfold LintRun.checked at hr
    split_ifs at hr with h₁ h₂
    obtain rfl := Except.ok.inj hr
    by_contra hv
    refine h₁ ⟨hok, .inr (List.any_eq_true.mpr ⟨ran.step, ?_, by simpa using hv⟩)⟩
    rw [hsteps]
    exact List.mem_map_of_mem hran
  unfold summary at h
  dsimp only at h
  split at h
  · rename_i hnone
    rw [List.getLast?_eq_none_iff, List.map_eq_nil_iff] at hnone
    subst hnone
    exact fun ran hran => nomatch hran
  · split_ifs at h
    all_goals exact hchecked _ h rfl

/-- Accepted steps come to a run that is `ok`. -/
lemma ok_of_accepted (detected : String) {rans : List (Ran Mount)} (hne : rans ≠ [])
    (hall : ∀ ran ∈ rans, ran.step.verdict = some true ∧ ran.step.error = [] ∧ ran.step.timedOut = false) :
    ∃ run, summary detected rans = .ok run ∧ run.ok = some true := by
  obtain ⟨last, hlast⟩ := Option.ne_none_iff_exists'.mp
    (mt (List.getLast?_eq_none_iff.mp) (mt List.map_eq_nil_iff.mp hne) : (rans.map Ran.step).getLast? ≠ none)
  obtain ⟨ran, hran, rfl⟩ := List.mem_map.mp (List.mem_of_getLast? hlast)
  obtain ⟨hv, he, ht⟩ := hall ran hran
  refine ⟨⟨detected, rans.map Ran.step, some true, "; ".toList.intercalate (rans.flatMap Ran.notes), []⟩, ?_, rfl⟩
  unfold summary
  dsimp only
  rw [hlast]
  dsimp only
  rw [if_neg (by simp [he]), if_neg (by simp [ht]), if_neg (by simp [hv]), LintRun.checked, if_neg, if_neg]
  · simp
  · rintro ⟨-, h | h⟩
    · exact h rfl
    · obtain ⟨s, hs, hsv⟩ := List.any_eq_true.mp h
      obtain ⟨x, hx, rfl⟩ := List.mem_map.mp hs
      simp [(hall x hx).1] at hsv

/-- Where every tool that the files concern can accept, some executor lets all of them do so. -/
lemma exists_accepting (root : Text) (timeout : ℕ) {ts : List (LintTool Mount)}
    (h : ∀ t ∈ ts, t.concerns changed = true → CanAccept isWide normPath changed t) :
    ∃ executor rans, runTools isWide normPath executor root timeout changed ts [] = .ok rans ∧
      (∀ ran ∈ rans, ran.step.verdict = some true ∧ ran.step.error = [] ∧ ran.step.timedOut = false) ∧
      ∀ t ∈ ts, t.concerns changed = true → rans ≠ [] := by
  classical
  -- the n-th call is answered as its tool accepts
  let answer : LintTool Mount → Except Text ExecResult := fun t =>
    if ht : CanAccept isWide normPath changed t then ht.2.choose else .error []
  let concerned := ts.filter fun t => t.concerns changed
  let executor : Executor Mount := fun given _ => (concerned[given.length]?.map answer).getD (.error [])
  suffices hrun : ∀ us given, us.filter (fun t => t.concerns changed) = concerned.drop given.length →
      (∀ t ∈ us, t.concerns changed = true → CanAccept isWide normPath changed t) →
      ∃ rans, runTools isWide normPath executor root timeout changed us given = .ok rans ∧
        (∀ ran ∈ rans, ran.step.verdict = some true ∧ ran.step.error = [] ∧ ran.step.timedOut = false) ∧
        ∀ t ∈ us, t.concerns changed = true → rans ≠ [] by
    exact ⟨executor, hrun ts [] rfl h⟩
  intro us
  induction us with
  | nil => exact fun given _ _ => ⟨[], rfl, fun _ hr => (nomatch hr), fun _ ht => nomatch ht⟩
  | cons u us ih =>
    intro given hdrop hcan
    have hus := fun t ht => hcan t (List.mem_cons_of_mem u ht)
    unfold runTools
    by_cases hu : u.concerns changed = true
    · rw [if_neg (by simp [hu]), if_neg (not_not.mpr (hcan u List.mem_cons_self hu).1)]
      rw [List.filter_cons_of_pos (by exact hu)] at hdrop
      have hget : concerned[given.length]? = some u := by
        rw [← List.head?_drop, ← hdrop, List.head?_cons]
      have hanswer : executor given (u.command root timeout (u.filesFor changed)) = answer u := by
        simp only [executor, hget, Option.map_some, Option.getD_some]
      have hrun := (hcan u List.mem_cons_self hu).2.choose_spec
      obtain ⟨ran, hran, hv⟩ := hrun
      have hchosen : answer u = (hcan u List.mem_cons_self hu).2.choose := dif_pos (hcan u List.mem_cons_self hu)
      obtain ⟨rest, hrest, hall, -⟩ := ih (given ++ [u.command root timeout (u.filesFor changed)])
        (by rw [List.length_append, List.length_singleton, ← List.tail_drop, ← hdrop, List.tail_cons]) hus
      refine ⟨ran :: rest, ?_, ?_, fun _ _ _ => List.cons_ne_nil _ _⟩
      · dsimp only
        rw [hanswer, hchosen, hran]
        simp only [bind, Except.bind, hv, if_true, hrest, pure, Except.pure]
      · intro x hx
        obtain rfl | hx := List.mem_cons.mp hx
        · exact ⟨hv, accepted_plain hran hv⟩
        · exact hall x hx
    · rw [if_pos (by simpa using hu)]
      rw [List.filter_cons_of_neg (by exact hu)] at hdrop
      obtain ⟨rans, hrans, hall, hne⟩ := ih given hdrop hus
      refine ⟨rans, hrans, hall, fun t ht hc => ?_⟩
      obtain rfl | ht := List.mem_cons.mp ht
      · exact absurd hc hu
      · exact hne t ht hc

end Runs

section Judgement

/-- The tools that read the changed files reject what they are handed exactly when a bad file is in it. -/
def Faithful (bad : Text → Prop) (rans : List (Ran Mount)) : Prop :=
  ∀ ran ∈ rans, ran.tool.paths = .changed → ran.answer.isSome = true →
    (ran.step.verdict = some false ↔ ∃ f ∈ ran.files, bad f)

/-- Every changed file that a tool is for was handed to it, and is not bad. -/
def JudgesAll (plan : LintPlan Mount) (changed : List Text) (bad : Text → Prop) (rans : List (Ran Mount)) : Prop :=
  ∀ t ∈ plan.tools, t.paths = .changed → ∀ f ∈ changed, t.isFor f = true →
    (∃ ran ∈ rans, ran.tool = t ∧ ran.answer.isSome = true ∧ f ∈ ran.files) ∧ ¬ bad f

/-- Every file that a tool is for comes before two hundred others that it is for. -/
def Fits (plan : LintPlan Mount) (changed : List Text) : Prop :=
  ∀ t ∈ plan.tools, t.paths = .changed → ∀ f ∈ changed, t.isFor f = true →
    (changed.filter t.isFor).idxOf f < maxLintFiles

lemma mem_filesFor {t : LintTool Mount} {changed : List Text} {f : Text} (hp : t.paths = .changed)
    (hf : f ∈ changed) (ht : t.isFor f = true) :
    f ∈ t.filesFor changed ↔ (changed.filter t.isFor).idxOf f < maxLintFiles := by
  rw [LintTool.filesFor, hp]
  exact List.mem_take_iff_idxOf_lt (List.mem_filter.mpr ⟨hf, ht⟩)

lemma concerns_of_isFor {t : LintTool Mount} {changed : List Text} {f : Text} (hp : t.paths = .changed)
    (hf : f ∈ changed) (ht : t.isFor f = true) : t.concerns changed = true := by
  have hmem : f ∈ changed.filter t.isFor := List.mem_filter.mpr ⟨hf, ht⟩
  rw [LintTool.concerns, hp]
  refine decide_eq_true fun hnil => ?_
  rw [LintTool.filesFor, hp] at hnil
  cases hfilter : changed.filter t.isFor with
  | nil => rw [hfilter] at hmem; cases hmem
  | cons g gs => simp [hfilter, maxLintFiles] at hnil

/-- What passes is judged, with any executor, exactly where no tool is for more files than a step is handed, but
for the plans that cannot pass. -/
theorem judges_all_iff (plan : LintPlan Mount) (changed : List Text) :
    (∀ (executor : Executor Mount) (root : Text) (timeout : ℕ) (bad : Text → Prop) (run : LintRun)
      (rans : List (Ran Mount)),
      runPlan isWide normPath plan executor root changed timeout = .ok (run, rans) → Faithful bad rans →
      run.ok = some true → JudgesAll plan changed bad rans) ↔
    Fits plan changed ∨ ∃ t ∈ plan.tools, t.concerns changed = true ∧ ¬ CanAccept isWide normPath changed t := by
  constructor
  · intro h
    by_contra hno
    rw [not_or] at hno
    obtain ⟨hfits, hcan⟩ := hno
    have hcan' : ∀ t ∈ plan.tools, t.concerns changed = true → CanAccept isWide normPath changed t :=
      fun t ht hc => by_contra fun hn => hcan ⟨t, ht, hc, hn⟩
    obtain ⟨executor, rans, hrans, hall, hne⟩ := exists_accepting [] plan.timeout hcan'
    -- some file of a tool comes late, so the tool is concerned, and the run is not empty
    simp only [Fits, not_forall] at hfits
    obtain ⟨t, ht, hp, f, hf, hfor, hlate⟩ := hfits
    obtain ⟨run, hrun, hok⟩ := ok_of_accepted plan.detected (hne t ht (concerns_of_isFor hp hf hfor)) hall
    have hplan : runPlan isWide normPath plan executor [] changed 0 = .ok (run, rans) := by
      simp only [runPlan, if_true, hrans, hrun, bind, Except.bind, pure, Except.pure]
    have hfaithful : Faithful (fun _ => False) rans := by
      intro ran hran _ _
      rw [(hall ran hran).1]
      simp
    obtain ⟨⟨ran, hran, htool, -, hmem⟩, -⟩ := h executor [] 0 _ run rans hplan hfaithful hok t ht hp f hf hfor
    rw [files_of_runTools hrans ran hran, htool] at hmem
    exact hlate ((mem_filesFor hp hf hfor).mp hmem)
  · intro hcond executor root timeout bad run rans hplan hfaithful hok
    obtain ⟨rans', hrans, hplan⟩ := bind_eq_ok.mp hplan
    obtain ⟨run', hrun, hplan⟩ := bind_eq_ok.mp hplan
    obtain ⟨rfl, rfl⟩ := Prod.mk.inj (Except.ok.inj hplan)
    have hall := accepted_of_ok hrun hok
    obtain hfits | ⟨t, ht, hc, hno⟩ := hcond
    · intro t ht hp f hf hfor
      obtain ⟨-, ran, hran, answer, hstep⟩ := ran_of_accepted hrans hall t ht (concerns_of_isFor hp hf hfor)
      obtain ⟨htool, hfiles, hanswer⟩ := runStep_ok hstep
      have hmem : f ∈ ran.files := by
        rw [hfiles]
        exact (mem_filesFor hp hf hfor).mpr (hfits t ht hp f hf hfor)
      refine ⟨⟨ran, hran, htool, by rw [hanswer]; rfl, hmem⟩, fun hbad => ?_⟩
      have hreject := (hfaithful ran hran (htool ▸ hp) (by rw [hanswer]; rfl)).mpr ⟨f, hmem, hbad⟩
      rw [hall ran hran] at hreject
      cases hreject
    · obtain ⟨href, ran, hran, answer, hstep⟩ := ran_of_accepted hrans hall t ht hc
      exact absurd ⟨href, answer, ran, hstep, hall ran hran⟩ hno

/-- A formatter of whatever is changed. -/
def formatter : LintTool Unit where
  name := "fmt"
  argv := ["fmt".toList]
  hasName := by decide
  hasArgv := by simp

def formatPlan : LintPlan Unit where
  tools := [formatter]
  detected := "config"
  hasTools := by simp
  saysHow := by decide
  positive := by decide

/-- Two hundred and one files, of which the last is bad. -/
def manyFiles : List Text := (List.range 201).map fun n => List.replicate (n + 1) 'a'

def lastFile : Text := List.replicate 201 'a'

/-- It rejects what holds the last file. -/
def formatterRun : Executor Unit := fun _ cmd =>
  .ok ⟨if lastFile ∈ cmd.argv then 1 else 0, [], [], false, false⟩

lemma filesFor_manyFiles :
    formatter.filesFor manyFiles = (List.range 200).map fun n => List.replicate (n + 1) 'a' := by
  have hfilter : manyFiles.filter formatter.isFor = manyFiles := List.filter_eq_self.mpr fun f _ => rfl
  show (manyFiles.filter formatter.isFor).take maxLintFiles = _
  rw [hfilter, manyFiles, ← List.map_take, List.take_range]
  rfl

lemma lastFile_not_mem : lastFile ∉ formatter.filesFor manyFiles := by
  rw [filesFor_manyFiles, List.mem_map]
  rintro ⟨n, hn, he⟩
  have := congrArg List.length he
  simp only [lastFile, List.length_replicate] at this
  have := List.mem_range.mp hn
  omega

theorem not_judges_all_manyFiles : ∃ run rans,
    runPlan (fun _ => false) id formatPlan formatterRun [] manyFiles 0 = .ok (run, rans) ∧
      Faithful (· = lastFile) rans ∧ run.ok = some true ∧ ¬ JudgesAll formatPlan manyFiles (· = lastFile) rans := by
  have hlast : lastFile ∈ manyFiles := List.mem_map.mpr ⟨200, by simp, rfl⟩
  have hanswer : formatterRun [] (formatter.command [] 600 (formatter.filesFor manyFiles)) =
      .ok ⟨0, [], [], false, false⟩ := by
    have hnot : lastFile ∉ formatter.argv ++ formatter.filesFor manyFiles := by
      rw [List.mem_append, not_or]
      refine ⟨fun h => ?_, lastFile_not_mem⟩
      have hlen := congrArg List.length (List.mem_singleton.mp h)
      rw [lastFile, List.length_replicate] at hlen
      cases hlen
    rw [formatterRun, LintTool.command, if_neg hnot]
  have hconcerns : formatter.concerns manyFiles = true := concerns_of_isFor (f := lastFile) rfl hlast rfl
  have hrun : ∃ ran, runStep (fun _ => false) id formatter manyFiles (.ok ⟨0, [], [], false, false⟩) = .ok ran ∧
      ran.step.verdict = some true := ⟨_, rfl, rfl⟩
  obtain ⟨ran, hran, hv⟩ := hrun
  obtain ⟨htool, hfiles, -⟩ := runStep_ok hran
  have htools : runTools (fun _ => false) id formatterRun [] 600 manyFiles formatPlan.tools [] = .ok [ran] := by
    rw [formatPlan, runTools, if_neg (by rw [hconcerns]; decide),
      if_neg (show ¬ formatter.refuse ≠ [] from not_not.mpr rfl)]
    dsimp only
    rw [hanswer, hran]
    simp only [bind, Except.bind, hv, if_true, runTools, pure, Except.pure]
  have hall : ∀ x ∈ [ran], x.step.verdict = some true ∧ x.step.error = [] ∧ x.step.timedOut = false := by
    intro x hx
    obtain rfl := List.mem_singleton.mp hx
    exact ⟨hv, accepted_plain hran hv⟩
  obtain ⟨run, hsum, hok⟩ := ok_of_accepted formatPlan.detected (List.cons_ne_nil ran []) hall
  have hno : ∀ x ∈ [ran], lastFile ∉ x.files := by
    intro x hx
    obtain rfl := List.mem_singleton.mp hx
    rw [hfiles]
    exact lastFile_not_mem
  refine ⟨run, [ran], ?_, fun x hx _ _ => ?_, hok, fun hjudges => ?_⟩
  · simp only [runPlan, if_true, show formatPlan.timeout = 600 from rfl, htools, hsum, bind, Except.bind, pure,
      Except.pure]
  · rw [(hall x hx).1]
    refine iff_of_false (by simp) ?_
    rintro ⟨f, hf, rfl⟩
    exact hno x hx hf
  · obtain ⟨⟨x, hx, -, -, hmem⟩, -⟩ := hjudges formatter (List.mem_singleton_self _) rfl lastFile hlast rfl
    exact hno x hx hmem

end Judgement

end CommitReplay.LintedFiles
