import CommitReplay.GoRuns
import CommitReplay.JsonRoundTrip

/-! What a Go run that names no failure of its own says of its events: no test stayed without an end, no
package failed or passed without its own summary, and its ids are those of the events. -/
namespace CommitReplay.GoReports

open CommitReplay.PythonText CommitReplay.JsonValue CommitReplay.JsonText CommitReplay.JsonRoundTrip
open CommitReplay.PythonRepr CommitReplay.RowChecks CommitReplay.RelocatedIds CommitReplay.TestRuns
open CommitReplay.GoRuns

section Collects

variable {σ α β : Type} {step : σ → α → σ} {p : α → Prop} {f : α → β}

lemma mem_insert_ite [DecidableEq β] {c : Prop} [Decidable c] {a x : β} {s : Finset β} :
    x ∈ (if c then insert a s else s) ↔ x ∈ s ∨ (c ∧ a = x) := by
  split_ifs with h
  · rw [Finset.mem_insert, or_comm, and_iff_right h, eq_comm]
  · rw [or_iff_left fun hx => h hx.1]

/-- A field to which a step adds what its item says holds, in the end, what the items said. -/
lemma mem_foldl_collect (field : σ → Finset β)
    (h : ∀ s a x, x ∈ field (step s a) ↔ x ∈ field s ∨ (p a ∧ f a = x)) (as : List α) (s : σ) (x : β) :
    x ∈ field (as.foldl step s) ↔ x ∈ field s ∨ ∃ a ∈ as, p a ∧ f a = x := by
  induction as generalizing s with
  | nil => simp
  | cons a as ih =>
    rw [List.foldl_cons, ih, h]
    constructor
    · rintro ((hs | ha) | ⟨b, hb, hx⟩)
      · exact .inl hs
      · exact .inr ⟨a, List.mem_cons_self, ha⟩
      · exact .inr ⟨b, List.mem_cons_of_mem _ hb, hx⟩
    · rintro (hs | ⟨b, hb, hx⟩)
      · exact .inl (.inl hs)
      · rcases List.mem_cons.mp hb with rfl | hb
        · exact .inl (.inr hx)
        · exact .inr ⟨b, hb, hx⟩

end Collects

section Events

/-- The test an event is about. -/
def keyOf (e : Event) : Key := (e.package, e.test.getD "")

def OfTest (action : String) (e : Event) : Prop := e.test.isSome ∧ e.action = action

def OfPackage (action : String) (e : Event) : Prop := e.test = none ∧ e.action = action ∧ e.package ≠ ""

def EndsTest (e : Event) : Prop := e.test.isSome ∧ isTerminal e.action = true

/-- The binary's own `PASS` or `FAIL`. -/
def Summary (e : Event) : Prop := e.test = none ∧ e.action = "output" ∧ isSummary e.output = true

variable {s : Scan} {e : Event} {es : List Event}

/-- An event of a package is none of a test. -/
lemma stepPackage_eq (s : Scan) (e : Event) : (s.stepPackage e).failing = s.failing ∧
    (s.stepPackage e).passed = s.passed ∧ (s.stepPackage e).namedPkgs = s.namedPkgs ∧
    (s.stepPackage e).started = s.started := by
  unfold Scan.stepPackage
  split_ifs <;> exact ⟨rfl, rfl, rfl, rfl⟩

lemma mem_failing_step {k : Key} :
    k ∈ (s.step e).failing ↔ k ∈ s.failing ∨ (OfTest "fail" e ∧ keyOf e = k) := by
  rcases e with ⟨action, package, _ | test, output⟩
  · rw [Scan.step, (stepPackage_eq s _).1, or_iff_left fun h => Bool.false_ne_true h.1.1]
  · simp only [Scan.step, Scan.stepTest, mem_insert_ite, OfTest, keyOf, Option.isSome_some, true_and,
      Option.getD_some]

lemma mem_passed_step {k : Key} :
    k ∈ (s.step e).passed ↔ k ∈ s.passed ∨ (OfTest "pass" e ∧ keyOf e = k) := by
  rcases e with ⟨action, package, _ | test, output⟩
  · rw [Scan.step, (stepPackage_eq s _).2.1, or_iff_left fun h => Bool.false_ne_true h.1.1]
  · simp only [Scan.step, Scan.stepTest, mem_insert_ite, OfTest, keyOf, Option.isSome_some, true_and,
      Option.getD_some]

lemma mem_namedPkgs_step {p : String} :
    p ∈ (s.step e).namedPkgs ↔ p ∈ s.namedPkgs ∨ (OfTest "fail" e ∧ e.package = p) := by
  rcases e with ⟨action, package, _ | test, output⟩
  · rw [Scan.step, (stepPackage_eq s _).2.2.1, or_iff_left fun h => Bool.false_ne_true h.1.1]
  · simp only [Scan.step, Scan.stepTest, mem_insert_ite, OfTest, Option.isSome_some, true_and]

lemma mem_failedPkgs_step {p : String} :
    p ∈ (s.step e).failedPkgs ↔ p ∈ s.failedPkgs ∨ (OfPackage "fail" e ∧ e.package = p) := by
  rcases e with ⟨action, package, _ | test, output⟩
  · simp only [Scan.step, Scan.stepPackage, OfPackage, Bool.and_eq_true, decide_eq_true_eq, true_and]
    split_ifs with h1 h2 h3
    · simp [h1.1]
    · rw [Finset.mem_insert, or_comm, and_iff_right h2, eq_comm]
    · simp [h3.1]
    · rw [or_iff_left fun h => h2 h.1]
  · simp [Scan.step, Scan.stepTest, OfPackage]

lemma mem_passedPkgs_step {p : String} :
    p ∈ (s.step e).passedPkgs ↔ p ∈ s.passedPkgs ∨ (OfPackage "pass" e ∧ e.package = p) := by
  rcases e with ⟨action, package, _ | test, output⟩
  · simp only [Scan.step, Scan.stepPackage, OfPackage, Bool.and_eq_true, decide_eq_true_eq, true_and]
    split_ifs with h1 h2 h3
    · simp [h1.1]
    · simp [h2.1]
    · rw [Finset.mem_insert, or_comm, and_iff_right h3, eq_comm]
    · rw [or_iff_left fun h => h3 h.1]
  · simp [Scan.step, Scan.stepTest, OfPackage]

lemma mem_summarized_step {p : String} :
    p ∈ (s.step e).summarized ↔ p ∈ s.summarized ∨ (Summary e ∧ e.package = p) := by
  rcases e with ⟨action, package, _ | test, output⟩
  · simp only [Scan.step, Scan.stepPackage, Summary, Bool.and_eq_true, decide_eq_true_eq, true_and]
    split_ifs with h1 h2 h3
    · rw [Finset.mem_insert, or_comm, and_iff_right h1, eq_comm]
    all_goals rw [or_iff_left fun h => h1 h.1]
  · simp [Scan.step, Scan.stepTest, Summary]

/-- A test that has started and has not ended stays so until an event ends it. -/
lemma mem_started_step {k : Key} (h : k ∈ s.started) (hgo : ¬(EndsTest e ∧ keyOf e = k)) :
    k ∈ (s.step e).started := by
  rcases e with ⟨action, package, _ | test, output⟩
  · rw [Scan.step, (stepPackage_eq s _).2.2.2]
    exact h
  · simp only [Scan.step, Scan.stepTest]
    split_ifs with h1 h2 h3
    · exact h
    · exact List.mem_append_left _ h
    · refine List.mem_filter.mpr ⟨h, decide_eq_true fun he => hgo ⟨⟨rfl, h3⟩, he.symm⟩⟩
    · exact h

lemma mem_started_run (h : OfTest "run" e) : keyOf e ∈ (s.step e).started := by
  rcases e with ⟨action, package, _ | test, output⟩
  · cases h.1
  · obtain rfl : action = "run" := h.2
    simp only [Scan.step, Scan.stepTest, if_true, keyOf, Option.getD_some]
    split_ifs with hin
    · exact hin
    · exact List.mem_append_right _ (List.mem_singleton_self _)

lemma mem_started_foldl {k : Key} (h : k ∈ s.started) (hgo : ∀ d ∈ es, ¬(EndsTest d ∧ keyOf d = k)) :
    k ∈ (es.foldl Scan.step s).started := by
  induction es generalizing s with
  | nil => exact h
  | cons d es ih =>
    exact ih (mem_started_step h (hgo d List.mem_cons_self)) fun d hd => hgo d (List.mem_cons_of_mem _ hd)

/-- A test that ran and is not among those in flight at the end was ended after it ran. -/
lemma ends_of_notMem_started {before after : List Event} (hes : es = before ++ e :: after)
    (hrun : OfTest "run" e) (h : keyOf e ∉ (scan es).started) :
    ∃ d ∈ after, EndsTest d ∧ keyOf d = keyOf e := by
  by_contra hno
  refine h ?_
  rw [hes, scan, List.foldl_append, List.foldl_cons]
  exact mem_started_foldl (mem_started_run hrun) fun d hd hend => hno ⟨d, hd, hend⟩

/-- A field of the pass that starts empty and collects. -/
lemma mem_scan {β : Type} {p : Event → Prop} {f : Event → β} (field : Scan → Finset β)
    (hempty : field .empty = ∅)
    (h : ∀ s e x, x ∈ field (s.step e) ↔ x ∈ field s ∨ (p e ∧ f e = x)) {x : β} :
    x ∈ field (scan es) ↔ ∃ e ∈ es, p e ∧ f e = x := by
  rw [scan, mem_foldl_collect field h, hempty, or_iff_right (Finset.notMem_empty x)]

lemma mem_failing_scan {k : Key} : k ∈ (scan es).failing ↔ ∃ e ∈ es, OfTest "fail" e ∧ keyOf e = k :=
  mem_scan Scan.failing rfl fun _ _ _ => mem_failing_step

lemma mem_passed_scan {k : Key} : k ∈ (scan es).passed ↔ ∃ e ∈ es, OfTest "pass" e ∧ keyOf e = k :=
  mem_scan Scan.passed rfl fun _ _ _ => mem_passed_step

lemma mem_namedPkgs_scan {p : String} :
    p ∈ (scan es).namedPkgs ↔ ∃ e ∈ es, OfTest "fail" e ∧ e.package = p :=
  mem_scan Scan.namedPkgs rfl fun _ _ _ => mem_namedPkgs_step

lemma mem_failedPkgs_scan {p : String} :
    p ∈ (scan es).failedPkgs ↔ ∃ e ∈ es, OfPackage "fail" e ∧ e.package = p :=
  mem_scan Scan.failedPkgs rfl fun _ _ _ => mem_failedPkgs_step

lemma mem_passedPkgs_scan {p : String} :
    p ∈ (scan es).passedPkgs ↔ ∃ e ∈ es, OfPackage "pass" e ∧ e.package = p :=
  mem_scan Scan.passedPkgs rfl fun _ _ _ => mem_passedPkgs_step

lemma mem_summarized_scan {p : String} :
    p ∈ (scan es).summarized ↔ ∃ e ∈ es, Summary e ∧ e.package = p :=
  mem_scan Scan.summarized rfl fun _ _ _ => mem_summarized_step

end Events

section Reports

variable {isWide isPrintable : Char → Bool} {F : Type} [PyFloat F]

/-- The ids of the tests that have an event of an action. -/
def idsOf (action : String) (es : List Event) : Finset Text :=
  ((es.filter fun e => e.test.isSome ∧ e.action = action).map (idOf ∘ keyOf)).toFinset

lemma mem_idsOf {action : String} {es : List Event} {id : Text} :
    id ∈ idsOf action es ↔ ∃ e ∈ es, OfTest action e ∧ idOf (keyOf e) = id := by
  simp [idsOf, OfTest, and_assoc]

lemma image_idOf_failing (es : List Event) : (scan es).failing.image idOf = idsOf "fail" es := by
  ext id
  simp only [Finset.mem_image, mem_failing_scan, mem_idsOf]
  constructor
  · rintro ⟨_, ⟨e, he, ht, rfl⟩, rfl⟩
    exact ⟨e, he, ht, rfl⟩
  · rintro ⟨e, he, ht, rfl⟩
    exact ⟨_, ⟨e, he, ht, rfl⟩, rfl⟩

lemma image_idOf_passed (es : List Event) : (scan es).passed.image idOf = idsOf "pass" es := by
  ext id
  simp only [Finset.mem_image, mem_passed_scan, mem_idsOf]
  constructor
  · rintro ⟨_, ⟨e, he, ht, rfl⟩, rfl⟩
    exact ⟨e, he, ht, rfl⟩
  · rintro ⟨e, he, ht, rfl⟩
    exact ⟨_, ⟨e, he, ht, rfl⟩, rfl⟩

lemma sorted_eq_nil {s : Finset String} : sorted s = [] ↔ s = ∅ := by
  rw [sorted, ← List.toFinset_eq_empty_iff, Finset.sort_toFinset]

/-- A binary whose every shape is that of one that ran to its end. -/
structure Scan.Whole (s : Scan) : Prop where
  named : s.failing ≠ ∅ → s.failedPkgs ⊆ s.namedPkgs
  ended : s.started = []
  failed_summary : s.namedPkgs ⊆ s.summarized
  passed_summary : s.passedPkgs ⊆ s.summarized

lemma whole_of_problems_eq_nil {s : Scan} (h : problems s = []) : Scan.Whole s := by
  simp only [problems, List.append_eq_nil_iff, List.map_eq_nil_iff, sorted_eq_nil] at h
  obtain ⟨⟨⟨hnamed, hstarted⟩, hsummary⟩, hpass⟩ := h
  refine ⟨fun hfail p hp => ?_, hstarted, fun p hp => ?_, fun p hp => ?_⟩
  · by_contra hno
    have hne : sorted (s.failedPkgs.filter (· ∉ s.namedPkgs)) ≠ [] := fun he =>
      Finset.notMem_empty p (sorted_eq_nil.mp he ▸ Finset.mem_filter.mpr ⟨hp, hno⟩)
    simp only [unnamedProblems, if_pos (And.intro hfail hne)] at hnamed
    cases hnamed
  · by_contra hno
    exact Finset.notMem_empty p (hsummary ▸ Finset.mem_filter.mpr ⟨hp, hno, by simp [hstarted]⟩)
  · by_contra hno
    exact Finset.notMem_empty p (hpass ▸ Finset.mem_filter.mpr ⟨hp, hno⟩)

lemma problems_eq_nil {result : ExecResult} {root : Root}
    (h : (parse isWide isPrintable F result root).parseError = "") :
    problems (scan (events isPrintable F result.stdout)) = [] := by
  by_contra hne
  simp only [parse, if_neg hne] at h
  exact unattributed_ne _ h

/-- What the events say of a run that ended. -/
structure Reported (es : List Event) : Prop where
  /-- Every test that ran was ended after it ran. -/
  ended : ∀ before e after, es = before ++ e :: after → OfTest "run" e →
    ∃ d ∈ after, EndsTest d ∧ keyOf d = keyOf e
  /-- Every package that failed has a failing test of its own. -/
  named : ∀ e ∈ es, OfPackage "fail" e ∨ OfTest "fail" e →
    ∃ d ∈ es, OfTest "fail" d ∧ d.package = e.package
  /-- Every package that failed printed its own summary. -/
  failed_summary : ∀ e ∈ es, OfPackage "fail" e ∨ OfTest "fail" e →
    ∃ d ∈ es, Summary d ∧ d.package = e.package
  /-- Every package that passed printed its own summary. -/
  passed_summary : ∀ e ∈ es, OfPackage "pass" e → ∃ d ∈ es, Summary d ∧ d.package = e.package

/-- A pass over whole events, with a failing test wherever a package failed. -/
lemma Scan.Whole.reported {es : List Event} (h : Scan.Whole (scan es))
    (hfail : (∃ e ∈ es, OfPackage "fail" e) → (scan es).failing ≠ ∅) : Reported es := by
  have hnamed : ∀ e ∈ es, OfPackage "fail" e ∨ OfTest "fail" e → e.package ∈ (scan es).namedPkgs := by
    rintro e he (hp | ht)
    · exact h.named (hfail ⟨e, he, hp⟩) (mem_failedPkgs_scan.mpr ⟨e, he, hp, rfl⟩)
    · exact mem_namedPkgs_scan.mpr ⟨e, he, ht, rfl⟩
  refine ⟨fun before e after hes hrun => ?_, fun e he ht => ?_, fun e he ht => ?_, fun e he ht => ?_⟩
  · exact ends_of_notMem_started hes hrun (h.ended ▸ List.not_mem_nil)
  · exact mem_namedPkgs_scan.mp (hnamed e he ht)
  · exact mem_summarized_scan.mp (h.failed_summary (hnamed e he ht))
  · exact mem_summarized_scan.mp (h.passed_summary (mem_passedPkgs_scan.mpr ⟨e, he, ht, rfl⟩))

lemma Scan.Whole.failing_parse {result : ExecResult} {root : Root}
    (h : Scan.Whole (scan (events isPrintable F result.stdout))) :
    (parse isWide isPrintable F result root).failing =
      relocateIds isWide root (idsOf "fail" (events isPrintable F result.stdout)) := by
  simp only [parse, h.ended, List.toFinset_nil, Finset.union_empty, image_idOf_failing]

/-- A failing run over whole events that names its failures has no failure of its own. -/
lemma run_parseError_eq {result : ExecResult} {root : Root} (henv : result.envError = "")
    (htime : result.timedOut = false)
    (hproblems : problems (scan (events isPrintable F result.stdout)) = [])
    (hfail : relocateIds isWide root (idsOf "fail" (events isPrintable F result.stdout)) ≠ ∅) :
    (run (parse isWide isPrintable F) result root).parseError = "" := by
  rw [← (whole_of_problems_eq_nil hproblems).failing_parse] at hfail
  simp only [run, henv, htime, ne_eq, not_true_eq_false, if_false, Bool.false_eq_true]
  rw [if_neg fun h => hfail h.2.1]
  simp only [parse, if_pos hproblems]

/-- A run within its clock that names no failure of its own is one whose binaries ran to their ends, and its
ids are those of its events; a belt is green only with the build of the whole module. -/
theorem run_reported (result : ExecResult) (root : Root) :
    (result.timedOut = false →
      ((∃ e ∈ events isPrintable F result.stdout, OfPackage "fail" e) → result.returncode ≠ 0) →
      (run (parse isWide isPrintable F) result root).parseError = "" →
      Reported (events isPrintable F result.stdout) ∧
      (run (parse isWide isPrintable F) result root).failing =
        relocateIds isWide root (idsOf "fail" (events isPrintable F result.stdout)) ∧
      (run (parse isWide isPrintable F) result root).passed =
        some ((relocateIds isWide root (idsOf "pass" (events isPrintable F result.stdout))).filter
          (· ∉ relocateIds isWide root (idsOf "fail" (events isPrintable F result.stdout))))) ∧
    ∀ (exec : Executor) (scope : List String), scope ≠ [] → "./..." ∉ scope →
      (runBeltFor (parse isWide isPrintable F) moduleGateScope exec root scope).green = true →
      (run (parse isWide isPrintable F) (exec ["./..."] true) root).green = true := by
  refine ⟨fun htime hcode h => ?_, fun exec scope hne hall hgreen => ?_⟩
  · obtain ⟨hfailing, hpassed, herror, hclosed⟩ := run_parsed htime h
    have hwhole := whole_of_problems_eq_nil (problems_eq_nil herror)
    have hids := @Scan.Whole.failing_parse isWide isPrintable F _ result root hwhole
    refine ⟨hwhole.reported fun hpkg hempty => ?_, hfailing.trans hids, hpassed.trans ?_⟩
    · refine hclosed (hcode hpkg) ?_
      rw [hids, ← image_idOf_failing, hempty]
      rfl
    · rw [← hids]
      simp only [parse, image_idOf_passed]
  · exact gate_green (if_neg (not_or.mpr ⟨hne, hall⟩)) hgreen

end Reports

section Samples

def anyChar (_ : Char) : Bool := true

def sampleRoot : Root := ⟨"/work/calc".toList, "/work/calc".toList⟩

/-- The texts of an event, in the order of their keys. -/
abbrev Row := List (String × String)

def testRow (action : String) : Row := [("Action", action), ("Package", "calc"), ("Test", "TestAdd")]

def outputRow : Row := [("Action", "output"), ("Output", "FAIL\n"), ("Package", "calc")]

def packageRow : Row := [("Action", "fail"), ("Package", "calc")]

def fieldsOf (row : Row) : List (String × Json JsonRoundTrip.Whole) := row.map fun p => (p.1, .str p.2)

def lineOf (row : Row) : Text := dumps [] (.obj (fieldsOf row))

def sampleRun : Text := lineOf (testRow "run") ++ ['\n']

/-- A test that fails between lines that are no events, and the end of its binary. -/
def sampleFailure : Text :=
  sampleRun ++ "# calc\n".toList ++ lineOf (testRow "fail") ++ '\n' :: lineOf outputRow ++
    '\n' :: lineOf packageRow ++ ['\n']

lemma eventAt_lineOf {row : Row} (h : (row.map Prod.fst).Pairwise (· < ·)) :
    eventAt anyChar JsonRoundTrip.Whole (lineOf row) = some (eventOf anyChar (fieldsOf row)) := by
  have hcanon : Canonical (Json.obj (fieldsOf row)) := by
    refine .obj (List.pairwise_map.mpr (List.pairwise_map.mp h)) fun q hq => ?_
    obtain ⟨p, -, rfl⟩ := List.mem_map.mp hq
    exact .str p.2
  have hloads := loads_dumps (List.forall_mem_nil _) hcanon (List.forall_mem_nil _)
  rw [List.append_nil] at hloads
  simp only [eventAt, lineOf, hloads]

lemma eventAt_testRow (action : String) : eventAt anyChar JsonRoundTrip.Whole (lineOf (testRow action)) =
    some ⟨action, "calc", some "TestAdd", ""⟩ := by
  have hkeys : ["Action", "Package", "Test"].Pairwise (· < ·) := by decide
  rw [@eventAt_lineOf (testRow action) hkeys]
  rfl

lemma events_sampleRun :
    events anyChar JsonRoundTrip.Whole sampleRun = [⟨"run", "calc", some "TestAdd", ""⟩] := by
  have hlines : splitlines sampleRun = [lineOf (testRow "run")] := by rfl
  simp only [events, hlines, List.filterMap_cons, eventAt_testRow, List.filterMap_nil]

lemma events_sampleFailure : events anyChar JsonRoundTrip.Whole sampleFailure =
    [⟨"run", "calc", some "TestAdd", ""⟩, ⟨"fail", "calc", some "TestAdd", ""⟩,
      ⟨"output", "calc", none, "FAIL\n"⟩, ⟨"fail", "calc", none, ""⟩] := by
  have hlines : splitlines sampleFailure = [lineOf (testRow "run"), "# calc".toList,
      lineOf (testRow "fail"), lineOf outputRow, lineOf packageRow] := by rfl
  have hnone : eventAt anyChar JsonRoundTrip.Whole "# calc".toList = none := by decide
  have houtput := @eventAt_lineOf outputRow (by decide)
  have hpackage := @eventAt_lineOf packageRow (by decide)
  simp only [events, hlines, List.filterMap_cons, eventAt_testRow, hnone, houtput, hpackage,
    List.filterMap_nil]
  rfl

lemma failing_sample : relocateIds anyChar sampleRoot
    (idsOf "fail" (events anyChar JsonRoundTrip.Whole sampleFailure)) = {"calc::TestAdd".toList} := by
  rw [events_sampleFailure]
  rfl

theorem run_reported_sample :
    Reported (events anyChar JsonRoundTrip.Whole sampleFailure) ∧
      (run (parse anyChar anyChar JsonRoundTrip.Whole) ⟨1, sampleFailure, [], false, ""⟩ sampleRoot).failing =
        {"calc::TestAdd".toList} := by
  have hrun := @run_reported anyChar anyChar JsonRoundTrip.Whole _ ⟨1, sampleFailure, [], false, ""⟩ sampleRoot
  have hproblems : problems (scan (events anyChar JsonRoundTrip.Whole sampleFailure)) = [] := by
    rw [events_sampleFailure]
    decide +kernel
  obtain ⟨h, hfailing, -⟩ := hrun.1 rfl (fun _ => one_ne_zero)
    (run_parseError_eq rfl rfl hproblems (by rw [failing_sample]; exact Finset.singleton_ne_empty _))
  exact ⟨h, hfailing.trans failing_sample⟩

/-- A run that its clock cut says nothing of the test it cut, and names no failure. -/
theorem not_reported_timedOut :
    ¬∀ (result : ExecResult) (root : Root),
      ((∃ e ∈ events anyChar JsonRoundTrip.Whole result.stdout, OfPackage "fail" e) → result.returncode ≠ 0) →
      (run (parse anyChar anyChar JsonRoundTrip.Whole) result root).parseError = "" →
      Reported (events anyChar JsonRoundTrip.Whole result.stdout) := by
  intro h
  have hall := h ⟨124, sampleRun, [], true, ""⟩ sampleRoot (fun _ => by decide) rfl
  obtain ⟨d, hd, -⟩ := hall.ended [] _ [] events_sampleRun ⟨rfl, rfl⟩
  cases hd

end Samples

end CommitReplay.GoReports
