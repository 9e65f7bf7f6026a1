import CommitReplay.LineRegex
import CommitReplay.TestRuns

/-! What a pytest run says: the ids of its short summary, and the sessions that did not run to their end. -/
namespace CommitReplay.PytestRuns

open CommitReplay.PythonText CommitReplay.PriorityRegex CommitReplay.LineRegex CommitReplay.Redaction
open CommitReplay.RelocatedIds CommitReplay.TestRuns

section Summary

def failedWord : Text := "FAILED".toList

def errorWord : Text := "ERROR".toList

def passedWord : Text := "PASSED".toList

/-- `\s+(\S+)`. -/
def idRx : Rx := .seq (.many 1 none isSpace) (.group 1 (.many 1 none fun c => !isSpace c))

/-- `_FAIL_LINE`. -/
def failLine : Rx := .seq (.alt (.lit id failedWord) (.lit id errorWord)) idRx

/-- `_PASS_LINE`. -/
def passLine : Rx := .seq (.lit id passedWord) idRx

/-- `parse_pytest_failures`. -/
def parsePytestFailures (text : Text) : Finset Text :=
  ((findall (lineRun failLine) text).map fun g => splitHead ' ' (groupText g 1)).toFinset

/-- `parse_pytest_passes`. -/
def parsePytestPasses (text : Text) : Finset Text :=
  ((findall (lineRun passLine) text).map fun g => groupText g 1).toFinset

end Summary

section Tail

/-- `_PASS_SUMMARY_LINE`, to the end of its line or of the text. -/
def passSummaryLine (s : At) : List At :=
  (lineRun (.concat [.lit id passedWord, .many 1 none isSpace, .many 1 none fun c => !isSpace c,
    .many 0 none (· ≠ '\n')]) s).flatMap fun t =>
      run (.lit id ['\n']) t ++ if t.rest = [] then [t] else []

/-- `_BARE_SUMMARY_BANNER`, with no failure under it. -/
def bareSummaryBanner (s : At) : List At :=
  (lineRun (.concat [.many 1 none (· = '='), .lit id " short test summary info ".toList,
    .many 1 none (· = '='), .lit id ['\n']]) s).filter fun t =>
      run (.seq (.alt (.lit id failedWord) (.lit id errorWord)) (.one isSpace)) t = []

/-- `without_pytest_passes`. -/
def withoutPytestPasses (text : Text) : Text := cut bareSummaryBanner (cut passSummaryLine text)

end Tail

section Ends

variable (isWide : Char → Bool)

def isDecimal (c : Char) : Bool := (decimalDigit c).isSome

/-- `_PYTEST_STOP` of a line: what is left of its match is white space, so it needs no other line. -/
def pytestStop : Rx :=
  .concat [.many 3 none (· = '!'), .lit id [' '],
    .group 1 (.seq
      (.alt (.lit id "KeyboardInterrupt".toList) (.alt (.lit id "Interrupted:".toList)
        (.alt (.seq (.many 0 none fun c => isWord isWide c || c = '.') (.lit id "Exit:".toList))
          (.lit id "stopping after".toList))))
      (.many 0 none fun c => c ≠ '!' && c ≠ '\n')),
    .lit id [' '], .many 3 none (· = '!'), .many 0 none isSpace]

def digits : Rx := .many 1 none isDecimal

/-- `\d+ [a-z]+`. -/
def countRx : Rx := .concat [digits, .lit id [' '], .many 1 none fun c => 'a' ≤ c && c ≤ 'z']

/-- So many of an expression, one after the other. -/
def upTo (r : Rx) : ℕ → Rx
  | 0 => .lit id []
  | n + 1 => .opt (.seq r (upTo r n))

/-- `(?: \(\d+:\d\d:\d\d\))?`. -/
def clockRx : Rx :=
  .opt (.concat [.lit id " (".toList, digits, .lit id [':'], .one isDecimal, .one isDecimal, .lit id [':'],
    .one isDecimal, .one isDecimal, .lit id [')']])

/-- `(?: in \d+(?:\.\d+)? ?s(?:econds)?…)?`. -/
def timeRx : Rx :=
  .opt (.concat [.lit id " in ".toList, digits, .opt (.seq (.lit id ['.']) digits), .opt (.lit id [' ']),
    .lit id ['s'], .opt (.lit id "econds".toList), clockRx])

/-- `_PYTEST_RESULT` of a line of some length: what it crosses of other lines it need not. -/
def pytestResult (length : ℕ) : Rx :=
  .concat [.many 0 none (· = '='), .many 0 none isSpace,
    .alt (.lit id "no tests ran".toList) (.seq countRx (upTo (.seq (.lit id ", ".toList) countRx) length)),
    timeRx, .many 0 none isSpace, .many 0 none (· = '='), .many 0 none isSpace]

end Ends

section Parse

variable (isWide : Char → Bool)

/-- Why the session did not run to its end. -/
def unfinished (result : ExecResult) (failing : Finset Text) : String :=
  let lines := result.combined.splitOn '\n'
  match lines.findSome? (onLine (pytestStop isWide)) with
  | some g => unattributed
      ("pytest stopped early: " ++ String.ofList (strip (groupText g 1)) ++ "; later tests never ran")
  | none =>
    if result.returncode ≠ 0 ∧ result.returncode ≠ 1 ∧ failing ≠ ∅ then
      unattributed s!"pytest stopped early: exit code {result.returncode}; later tests never ran"
    else if result.returncode = 0 ∧ lines.findSome? (fun l => onLine (pytestResult l.length) l) = none then
      unattributed "pytest exited 0 without reporting a result: the session never finished"
    else ""

/-- `PytestRunner.parse`. -/
def parse (result : ExecResult) (root : Root) : TestRun :=
  let text := result.combined
  let failing := relocateIds isWide root (parsePytestFailures text)
  { returncode := result.returncode
    failing := failing
    tail := tailOf (withoutPytestPasses text)
    timedOut := false
    parseError := unfinished isWide result failing
    envError := ""
    passed := some ((relocateIds isWide root (parsePytestPasses text)).filter (· ∉ failing)) }

end Parse

end CommitReplay.PytestRuns
