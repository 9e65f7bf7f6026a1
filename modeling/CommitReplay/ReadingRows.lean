import CommitReplay.GradeRows
import CommitReplay.LookRule

/-! What a reading reads of a row: its cell, the arms it pools in, where it was graded and built,
and what its held-out tests said. -/
namespace CommitReplay.ReadingRows

open CommitReplay.PythonText CommitReplay.JsonValue CommitReplay.JsonText
open CommitReplay.ContextArms CommitReplay.RowChecks CommitReplay.GradeRows CommitReplay.LookRule

/-- A dictionary of texts, its items in key order, so that equal dictionaries are equal values. -/
structure Dict where
  items : List (String × String)
  sorted : KeySorted items

instance : DecidableEq Dict := fun d e =>
  decidable_of_iff (d.items = e.items) ⟨fun h => by cases d; cases e; cases h; rfl, congrArg _⟩

def Dict.of (ps : List (String × String)) : Dict := ⟨ofPairs ps, keySorted_ofPairs ps⟩

def Dict.empty : Dict := ⟨[], List.Pairwise.nil⟩

/-- `d.get(k, "")`. -/
def Dict.get (d : Dict) (k : String) : String := (d.items.lookup k).getD ""

section Checks

/-- `arm_of`: the switches of the grader that are on. -/
def armOf (formatStep apiStable : Bool) : String :=
  match formatStep, apiStable with
  | true, true => "fmt,api"
  | true, false => "fmt"
  | false, true => "api"
  | false, false => "off"

/-- `p.split("=", 1)` of a part with an equals sign. -/
def splitField (p : Text) : Text × Text := (splitHead '=' p, (p.dropWhile (· ≠ '=')).drop 1)

/-- The arm a `checks` stamp names; of two fields of one name the last stands. -/
def armFromLabel (label : String) (belt6Recorded : Bool) : String :=
  let fields := ((label.toList.splitOn ';').filter ('=' ∈ ·)).map splitField
  let on (short : String) : Bool :=
    splitHead ':' ((fields.reverse.lookup short.toList).getD ['0']) = ['1']
  armOf (on "fmt") (on "api" || belt6Recorded)

example : armFromLabel "fmt=1:black;gate=0;api=0" false = "fmt" := by rfl

example : armFromLabel "" true = "api" := by rfl

end Checks

/-- A row as a reading is given it: its content and its recorded hash. The accessors below are for
rows of the declared types. -/
structure Row (F : Type) extends RowFields F where
  rowHash : String

variable {F : Type} [PyFloat F]

def ofGradeRow (r : GradeRow F) : Row F := ⟨r.toRowFields, r.rowHashStr⟩

namespace Row

variable (r : Row F)

/-- `r.cell.to_dict()`. -/
def cell : Dict :=
  .of [("process_step", r.str .processStep), ("capability_class", r.str .capabilityClass),
    ("size", r.str .size), ("language", r.str .language), ("builder", r.str .builder),
    ("model", r.str .model), ("provider", r.str .provider)]

def contextArm : String := r.labelStr "context_arm"

def taxonomy : String := r.labelStr "taxonomy"

def changeId : String := r.labelStr "change_id"

def postureClass : String := r.labelStr "posture_class"

def checksArm : String := armFromLabel (r.labelStr "checks") (r.hasLabel "api_stable")

/-- Rung `r1`: `r.trial.strip().lower() == RUNG_R1`. -/
def firstRung : Bool := lower (strip (r.str .trial).toList) = "r1".toList

def isSealedClass (postureClass : String) : Bool :=
  startsWith postureClass.toList "docker/".toList &&
    "/sealed".toList.isSuffixOf postureClass.toList

/-- Graded in the sealed posture, its builder in the sealed container. -/
def sealed : Bool := isSealedClass r.postureClass && r.labelStr "builder_executor" = "docker"

def clean : Bool := truthy (r.val .clean)

def disqualified : Bool := truthy (r.val .disqualified)

/-- `r.gold_clean is False`. -/
def goldRed : Bool := isBool false (r.val .goldClean)

def hasFailureKind (kind : String) : Bool :=
  match r.failureKind with
  | .ok v => eqStr kind v
  | .error _ => false

/-- Belt 5 was off by configuration, and the attempt passed every other belt. -/
def lintCouldChange : Bool :=
  r.labelStr "lint_reason" = "disabled_by_config" && r.clean && !r.disqualified

def results : List String := ["pass", "fail", "error"]

/-- Positive evidence of held-out acceptance tests, on the arm that has them. -/
def heldOutGraded : Bool :=
  (match parseArm r.contextArm with
    | some arm => arm.base = .S2
    | none => false) &&
  r.labelStr "acceptance" = "held_out" && r.labelStr "acceptance_sha256" ≠ "" &&
    r.labelStr "acceptance_result" ∈ results

def heldOutResult : String := if r.heldOutGraded then r.labelStr "acceptance_result" else ""

end Row

end CommitReplay.ReadingRows
