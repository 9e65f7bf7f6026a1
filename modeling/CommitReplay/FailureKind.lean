import CommitReplay.PythonText

/-! What an apparatus stamp allows a row to record, and the two rules that name why a row is not
clean: the live one, and the one frozen at apparatus 2.3. -/
namespace CommitReplay.FailureKind

open CommitReplay.PythonText

section Apparatus

/-- `major.minor[.patch]` as its first two numbers; `none` for a stamp outside that form. -/
def parseApparatusVersion (version : String) : Option (ℕ × ℕ) :=
  let digits := fun s : Text => s.takeWhile fun c => (decimalDigit c).isSome
  let s := strip version.toList
  let major := digits s
  match s.drop major.length with
  | '.' :: r =>
    let minor := digits r
    if major = [] ∨ minor = [] then none
    else
      let parsed := some (decimalValue major, decimalValue minor)
      match r.drop minor.length with
      | [] => parsed
      | '.' :: p => if p ≠ [] ∧ digits p = p then parsed else none
      | _ => none
  | _ => none

def atLeast (parsed : Option (ℕ × ℕ)) (v : ℕ × ℕ) : Bool :=
  parsed.any fun p => v.1 < p.1 || (v.1 == p.1 && v.2 ≤ p.2)

/-- A stamp of 2.4 or later: the row carries its own classification from write. -/
def isV2Apparatus (version : String) : Bool := atLeast (parseApparatusVersion version) (2, 4)

inductive BeltSet
  | v5 | v4 | v3Legacy
deriving DecidableEq, Repr

def BeltSet.name : BeltSet → String
  | .v5 => "v5"
  | .v4 => "v4"
  | .v3Legacy => "v3-legacy"

def beltSets : List BeltSet := [.v5, .v4, .v3Legacy]

inductive Belt
  | testsUnmodified | targetGreen | noNewFailures | sourceChanged | repoLintClean
deriving DecidableEq, Repr

def coreBelts : List Belt := [.testsUnmodified, .targetGreen, .noNewFailures, .sourceChanged]

def optionalBelts : List Belt := [.repoLintClean]

def recordedBelts : BeltSet → List Belt
  | .v3Legacy => coreBelts.take 3
  | .v4 => coreBelts
  | .v5 => coreBelts ++ optionalBelts

def legacyApparatusVersions : List String := ["1.0-census"]

/-- The belt sets a row of this stamp and provenance may claim. -/
def expectedBeltSets (version provenance : String) : List BeltSet :=
  let imported := startsWith provenance.toList "imported:".toList
  if version ∈ legacyApparatusVersions then if imported then [.v3Legacy, .v4] else []
  else
    let parsed := parseApparatusVersion version
    if !atLeast parsed (2, 0) then []
    else if atLeast parsed (2, 2) then [.v5] else [.v4]

end Apparatus

section Rules

def failureKinds : List String :=
  ["", "builder_red", "lint", "api", "budget", "protocol", "harness", "outage", "authoring",
    "disqualified"]

def modelFailureKinds : List String := ["builder_red", "lint", "api"]

def budgetStopReasons : List String :=
  ["max_turns", "max_tool_calls", "max_tokens", "max_cost_usd", "wall_clock"]

def outageErrorMarkers : List String :=
  ["hit your limit", "usage limit", "rate_limit", "rate limit", "429", "overloaded", "quota",
    "insufficient credit", "credit balance", "authentication failed",
    "oauth access token is invalid", "402", "503", "529"]

/-- The markers as they stood at apparatus 2.3, which the source keeps as its own list. -/
def outageErrorMarkersV1 : List String :=
  ["hit your limit", "usage limit", "rate_limit", "rate limit", "429", "overloaded", "quota",
    "insufficient credit", "credit balance", "authentication failed",
    "oauth access token is invalid", "402", "503", "529"]

def outage (error : Text) (markers : List String) : Bool :=
  startsWith (lower error) "model_error".toList &&
    markers.any fun m => contains (lower error) m.toList

def isOutageError (error : Text) : Bool := outage error outageErrorMarkers

def isOutageErrorV1 (error : Text) : Bool := outage error outageErrorMarkersV1

def authoringPrefix : Text := "authoring:".toList

/-- The author's own `model_error: …` at the head of an `authoring:` error, or no text. -/
def authoringModelError (error : Text) : Text :=
  if !startsWith error authoringPrefix then []
  else
    let rest := (error.drop authoringPrefix.length).dropWhile isSpace
    let failed := "the test author failed:".toList
    let rest := if startsWith rest failed then (rest.drop failed.length).dropWhile isSpace else rest
    if startsWith (lower rest) "model_error".toList then rest else []

def authoringOutage (error : Text) : Bool := isOutageError (authoringModelError error)

def authoringInstrumentFailure (error : Text) : Bool :=
  startsWith error authoringPrefix &&
    (authoringModelError error ≠ [] ||
      startsWith ((error.drop authoringPrefix.length).dropWhile isSpace)
        "harness error proving RED:".toList)

/-- What both rules read of a row. -/
structure Outcome where
  clean : Bool
  disqualified : Bool
  error : String
  builderError : String
  stopReason : String
  lintOnly : Bool
  apiOnly : Bool

def protocolPrefix : Text := "protocol violation:".toList

/-- The tail both rules share, after a row's errors were read. -/
def stoppedKind (o : Outcome) : String :=
  if o.stopReason ∈ budgetStopReasons then "budget"
  else if o.apiOnly then "api"
  else if o.lintOnly then "lint"
  else "builder_red"

def isProtocolViolation (o : Outcome) : Bool :=
  startsWith o.error.toList protocolPrefix || startsWith o.builderError.toList protocolPrefix

def deriveFailureKind (o : Outcome) : String :=
  if o.clean then ""
  else if o.disqualified then "disqualified"
  else if isProtocolViolation o then "protocol"
  else if startsWith o.error.toList authoringPrefix then
    if authoringOutage o.error.toList then "outage"
    else if authoringInstrumentFailure o.error.toList then "harness" else "authoring"
  else if o.error ≠ "" then if isOutageError o.error.toList then "outage" else "harness"
  else stoppedKind o

/-- The rule frozen at apparatus 2.3. -/
def deriveFailureKindV1 (o : Outcome) : String :=
  if o.clean then ""
  else if o.disqualified then "disqualified"
  else if isProtocolViolation o then "protocol"
  else if o.error ≠ "" then if isOutageErrorV1 o.error.toList then "outage" else "harness"
  else stoppedKind o

/-- Whichever rule reads a row, the kind is a named one and is empty exactly on a clean row. -/
theorem deriveFailureKind_mem (o : Outcome) :
    deriveFailureKind o ∈ failureKinds ∧ (deriveFailureKind o = "" ↔ o.clean = true) := by
  unfold deriveFailureKind stoppedKind
  split_ifs <;> simp_all [failureKinds]

theorem deriveFailureKindV1_mem (o : Outcome) :
    deriveFailureKindV1 o ∈ failureKinds ∧ (deriveFailureKindV1 o = "" ↔ o.clean = true) := by
  unfold deriveFailureKindV1 stoppedKind
  split_ifs <;> simp_all [failureKinds]

end Rules

section LintStatus

def lintStatuses : List String :=
  ["evaluated", "none_detected", "disabled_by_config", "error", "not_reached", "not_requested"]

/-- Whether a lint status contradicts belt 5, of which the rule reads only whether it is
`None` and whether it is `False`. -/
def lintStatusViolation (status : String) (beltNone beltFalse clean : Bool) : Bool :=
  if status ∉ lintStatuses then true
  else if status = "evaluated" ∧ beltNone then true
  else if status = "error" ∧ (!beltFalse ∨ clean) then true
  else status ∉ ["evaluated", "error"] ∧ !beltNone

end LintStatus

section ClassSet

/-- `<owner>/classes@v<N>` with an owner of lower-case letters, digits, `.`, `_` and `-`. -/
def isClassSetVersion (version : String) : Bool :=
  let lowerAlnum := fun c : Char => c.isLower || c.isDigit
  let s := strip version.toList
  let owner := splitHead '/' s
  let classes := "/classes@v".toList
  let n := s.drop (owner.length + classes.length)
  owner.head?.any lowerAlnum && owner.all (fun c => lowerAlnum c || "._-".toList.contains c) &&
    startsWith (s.drop owner.length) classes &&
    n.head?.any (fun c => c.isDigit && c ≠ '0') && n.all Char.isDigit

end ClassSet

end CommitReplay.FailureKind
