import CommitReplay.PythonRepr
import CommitReplay.RowChecks
import CommitReplay.TestRuns

/-! What a Go run says: the events of `go test -json` in one pass, and the shapes of a test binary that died
before its tests reported. -/
namespace CommitReplay.GoRuns

open CommitReplay.PythonText CommitReplay.JsonValue CommitReplay.JsonText CommitReplay.PythonRepr
open CommitReplay.RowChecks CommitReplay.RelocatedIds CommitReplay.TestRuns

section Events

/-- What the runner reads of an event. An action and an output that are no texts are those of no event. -/
structure Event where
  action : String
  package : String
  test : Option String
  output : String
deriving DecidableEq, Repr

variable {F : Type} [PyFloat F] (isPrintable : Char → Bool)

def textOf : Option (Json F) → String
  | some (.str s) => s
  | _ => ""

def eventOf (d : List (String × Json F)) : Event where
  action := textOf (d.lookup "Action")
  package := pyStr isPrintable ((d.lookup "Package").getD (.str ""))
  test := ((d.lookup "Test").filter truthy).map (pyStr isPrintable)
  output := textOf (d.lookup "Output")

/-- The event on a line, for a line that is a JSON object. -/
def eventAt (F : Type) [PyFloat F] (line : Text) : Option Event :=
  match (loads line : Option (Json F)) with
  | some (.obj d) => some (eventOf isPrintable d)
  | _ => none

/-- The events of an output, in order. -/
def events (F : Type) [PyFloat F] (stdout : Text) : List Event :=
  (splitlines stdout).filterMap (eventAt isPrintable F)

end Events

section Scan

/-- A test of a package. -/
abbrev Key := String × String

/-- What one pass keeps of the events so far. -/
structure Scan where
  failing : Finset Key
  passed : Finset Key
  failedPkgs : Finset String
  namedPkgs : Finset String
  started : List Key
  summarized : Finset String
  passedPkgs : Finset String

def Scan.empty : Scan := ⟨∅, ∅, ∅, ∅, [], ∅, ∅⟩

def isTerminal (action : String) : Bool := action = "pass" || action = "fail" || action = "skip"

def isSummary (output : String) : Bool := output = "PASS\n" || output = "FAIL\n"

/-- An event of a test. -/
def Scan.stepTest (s : Scan) (action package test : String) : Scan :=
  let key := (package, test)
  { s with
    started := if action = "run" then (if key ∈ s.started then s.started else s.started ++ [key])
      else if isTerminal action then s.started.filter (· ≠ key) else s.started
    failing := if action = "fail" then insert key s.failing else s.failing
    namedPkgs := if action = "fail" then insert package s.namedPkgs else s.namedPkgs
    passed := if action = "pass" then insert key s.passed else s.passed }

/-- An event of a package. -/
def Scan.stepPackage (s : Scan) (e : Event) : Scan :=
  if e.action = "output" && isSummary e.output then
    { s with summarized := insert e.package s.summarized }
  else if e.action = "fail" && e.package ≠ "" then
    { s with failedPkgs := insert e.package s.failedPkgs }
  else if e.action = "pass" && e.package ≠ "" then
    { s with passedPkgs := insert e.package s.passedPkgs }
  else s

def Scan.step (s : Scan) (e : Event) : Scan :=
  match e.test with
  | some test => s.stepTest e.action e.package test
  | none => s.stepPackage e

def scan (es : List Event) : Scan := es.foldl Scan.step .empty

end Scan

section Parse

/-- `<Package>::<Test>`. -/
def idOf (key : Key) : Text := key.1.toList ++ "::".toList ++ key.2.toList

def sorted (s : Finset String) : List String := s.sort

/-- The first five, and how many more there are. -/
def shown (separator more : String) (parts : List String) : String :=
  separator.intercalate (parts.take 5) ++
    if 5 < parts.length then s!"{more}and {parts.length - 5} more" else ""

/-- Packages that failed and named no test, beside failures that name one. -/
def unnamedProblems (s : Scan) : List String :=
  let unnamed := sorted (s.failedPkgs.filter (· ∉ s.namedPkgs))
  let plural := if 1 < unnamed.length then "s" else ""
  if s.failing ≠ ∅ ∧ unnamed ≠ [] then
    ["package" ++ plural ++ " " ++ shown ", " " " unnamed ++ " failed without naming a test"]
  else []

def diedProblem (key : Key) : String :=
  s!"package {key.1} exited during {key.2}; later tests never ran"

def summaryProblem (package : String) : String :=
  s!"package {package}'s test binary ended without its own summary (a panic or an " ++
    "exit after a failure): later tests never ran"

def passProblem (package : String) : String :=
  s!"package {package} passed without its test binary reporting PASS: it exited " ++
    "before its tests ran"

/-- The shapes of a binary that ended early. -/
def problems (s : Scan) : List String :=
  let diedIn := s.started.map Prod.fst
  unnamedProblems s ++ s.started.map diedProblem ++
    (sorted (s.namedPkgs.filter fun p => p ∉ s.summarized ∧ p ∉ diedIn)).map summaryProblem ++
    (sorted (s.passedPkgs.filter (· ∉ s.summarized))).map passProblem

variable (isWide isPrintable : Char → Bool)

/-- `GoRunner.parse`. -/
def parse (F : Type) [PyFloat F] (result : ExecResult) (root : Root) : TestRun :=
  let s := scan (events isPrintable F result.stdout)
  let failing := relocateIds isWide root ((s.failing ∪ s.started.toFinset).image idOf)
  { returncode := result.returncode
    failing := failing
    tail := tailOf result.combined
    timedOut := false
    parseError := if problems s = [] then "" else unattributed (shown "; " "; " (problems s))
    envError := ""
    passed := some ((relocateIds isWide root (s.passed.image idOf)).filter (· ∉ failing)) }

/-- The module, where a scope does not cover it. -/
def moduleGateScope (scope : List String) : Option (List String) :=
  if scope = [] ∨ "./..." ∈ scope then none else some ["./..."]

end Parse

end CommitReplay.GoRuns
