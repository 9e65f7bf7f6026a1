import CommitReplay.RelocatedIds

/-! What a toolchain said about the tests of a tree: the result of a command read by a runner, failing
closed where a failure names no test, and the run of a belt with the gate that builds the whole module.
Durations and the records of services pass through unread and are left out. -/
namespace CommitReplay.TestRuns

open CommitReplay.PythonText CommitReplay.RelocatedIds

section Results

/-- What a command did. -/
structure ExecResult where
  returncode : ℤ
  stdout : Text
  stderr : Text
  timedOut : Bool
  envError : String
deriving DecidableEq, Repr

/-- stdout, then stderr. -/
def ExecResult.combined (r : ExecResult) : Text :=
  r.stdout ++ if r.stderr = [] then [] else '\n' :: r.stderr

structure TestRun where
  returncode : ℤ
  failing : Finset Text
  tail : Text
  timedOut : Bool
  parseError : String
  envError : String
  /-- The tests that passed, for a runner that reports them. -/
  passed : Option (Finset Text)

/-- Exit 0, within the clock, and parseable. -/
def TestRun.green (r : TestRun) : Bool := r.returncode = 0 && !r.timedOut && r.parseError = ""

def tailLines : ℕ := 40

/-- The last lines of the output of a toolchain. -/
def tailOf (text : Text) : Text :=
  let lines := splitlines (strip text)
  ['\n'].intercalate (lines.drop (lines.length - tailLines))

end Results

section Runs

/-- A failure that no test answers for. -/
def unattributed (why : String) : String := "unattributed failure (" ++ why ++ ")"

lemma append_ne {s : String} (h : s ≠ "") (t : String) : s ++ t ≠ "" :=
  fun he => h (String.append_eq_empty_iff.mp he).1

lemma unattributed_ne (why : String) : unattributed why ≠ "" :=
  append_ne (append_ne (by decide) _) _

def environmentFailed (error : String) : String := "environment: " ++ error

lemma environmentFailed_ne (error : String) : environmentFailed error ≠ "" :=
  append_ne (by decide) _

/-- A run of a scope, or of the build of every package in it. -/
abbrev Executor := List String → Bool → ExecResult

/-- `BaseRunner.run`, on what the command did. -/
def run (parse : ExecResult → Root → TestRun) (result : ExecResult) (root : Root) : TestRun :=
  let tail := tailOf result.combined
  if result.envError ≠ "" then
    ⟨if result.returncode = 0 then 1 else result.returncode, ∅, tail, false,
      environmentFailed result.envError, result.envError, none⟩
  else if result.timedOut then ⟨124, ∅, tail, true, "", "", none⟩
  else
    let r := parse result root
    let parseError :=
      if r.returncode ≠ 0 ∧ r.failing = ∅ ∧ r.parseError = "" then
        unattributed s!"rc={r.returncode}, no failing ids parsed"
      else r.parseError
    ⟨r.returncode, r.failing, if r.tail = [] then tail else r.tail, false, parseError, "", r.passed⟩

/-- `run_belt_for`: the run of the scope, then the gate where the scope is narrower than the tree. -/
def runBeltFor (parse : ExecResult → Root → TestRun) (gateScope : List String → Option (List String))
    (exec : Executor) (root : Root) (scope : List String) : TestRun :=
  let r := run parse (exec scope false) root
  match gateScope scope with
  | none => r
  | some wide =>
    if r.envError ≠ "" || r.timedOut || r.parseError ≠ "" then r
    else
      let gate := run parse (exec wide true) root
      if gate.envError ≠ "" then gate
      else if gate.timedOut then ⟨124, r.failing, gate.tail, true, "", "", none⟩
      else if gate.green then r
      else
        let why := if gate.parseError = "" then s!"rc={gate.returncode}" else gate.parseError
        let code := if r.returncode ≠ 0 then r.returncode
          else if gate.returncode ≠ 0 then gate.returncode else 1
        ⟨code, r.failing, ['\n'].intercalate ([r.tail, gate.tail].filter (· ≠ [])), false,
          if r.parseError = "" then
            unattributed ("the module build gate failed over " ++ " ".intercalate wide ++ ": " ++ why)
          else r.parseError, "", none⟩

variable {parse : ExecResult → Root → TestRun} {gateScope : List String → Option (List String)}

/-- A run within its clock that names no failure of its own is what the parser made of it, closed where a
failure names no test. -/
lemma run_parsed {result : ExecResult} {root : Root} (htime : result.timedOut = false)
    (h : (run parse result root).parseError = "") :
    (run parse result root).failing = (parse result root).failing ∧
      (run parse result root).passed = (parse result root).passed ∧
      (parse result root).parseError = "" ∧
      ((parse result root).returncode ≠ 0 → (parse result root).failing ≠ ∅) := by
  by_cases henv : result.envError = ""
  · simp only [run, henv, htime, ne_eq, not_true_eq_false, if_false, Bool.false_eq_true] at h ⊢
    split_ifs at h with hclosed
    · exact absurd h (unattributed_ne _)
    · exact ⟨trivial, trivial, h, fun hcode hempty => hclosed ⟨hcode, hempty, h⟩⟩
  · simp only [run, ne_eq, henv, not_false_eq_true, if_true] at h
    exact absurd h (environmentFailed_ne _)

lemma green_eq_false {r : TestRun} (h : r.timedOut = true ∨ r.parseError ≠ "") : r.green = false := by
  unfold TestRun.green
  rcases h with h | h <;> simp [h]

/-- A failed environment is never green. -/
lemma not_green_of_envError {result : ExecResult} {root : Root}
    (h : (run parse result root).envError ≠ "") : (run parse result root).green = false := by
  by_cases henv : result.envError = ""
  · simp only [run, henv, ne_eq, not_true_eq_false, if_false] at h
    split_ifs at h <;> exact absurd rfl h
  · refine green_eq_false (.inr ?_)
    simp only [run, ne_eq, henv, not_false_eq_true, if_true]
    exact environmentFailed_ne _

/-- A belt whose scope does not cover the tree is green only with its gate. -/
lemma gate_green {exec : Executor} {root : Root} {scope wide : List String}
    (hwide : gateScope scope = some wide)
    (h : (runBeltFor parse gateScope exec root scope).green = true) :
    (run parse (exec wide true) root).green = true := by
  by_contra hgate
  rw [Bool.not_eq_true] at hgate
  refine Bool.false_ne_true (Eq.trans (Eq.symm ?_) h)
  simp only [runBeltFor, hwide, hgate, Bool.false_eq_true, if_false]
  by_cases hrun : ((run parse (exec scope false) root).envError ≠ "" ||
      (run parse (exec scope false) root).timedOut ||
      (run parse (exec scope false) root).parseError ≠ "") = true
  · rw [if_pos hrun]
    simp only [Bool.or_eq_true, decide_eq_true_eq] at hrun
    rcases hrun with (hrun | hrun) | hrun
    · exact not_green_of_envError hrun
    · exact green_eq_false (.inl hrun)
    · exact green_eq_false (.inr hrun)
  · rw [if_neg hrun]
    simp only [Bool.or_eq_true, decide_eq_true_eq, not_or, ne_eq, not_not] at hrun
    by_cases henv : (run parse (exec wide true) root).envError ≠ ""
    · rw [if_pos henv]
      exact hgate
    rw [if_neg henv]
    by_cases htime : (run parse (exec wide true) root).timedOut = true
    · rw [if_pos htime]
      rfl
    · rw [if_neg htime]
      refine green_eq_false (.inr ?_)
      rw [if_pos hrun.2]
      exact unattributed_ne _

end Runs

end CommitReplay.TestRuns
