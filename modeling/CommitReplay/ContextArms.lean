import CommitReplay.PythonText

/-! The context arm of a row: which context its builder was given, as one identifier. The grammar
is a base, then the optional modifiers `+facts@`, `+library@` and `+L` in this order. -/
namespace CommitReplay.ContextArms

open CommitReplay.PythonText

inductive Base
  | A0 | S1 | S2 | S3
deriving DecidableEq, Repr

/-- One parsed arm. The author is named on the `S1` base and on no other. -/
structure ContextArm where
  base : Base
  author : String
  facts : String
  library : String
  loop : Bool
deriving DecidableEq, Repr

def ContextArm.certifies (a : ContextArm) : Bool := a.base = .S1 || a.base = .S2

def ContextArm.prospectiveOnly (a : ContextArm) : Bool := a.base = .S2

def ContextArm.descriptive (a : ContextArm) : Bool := a.base = .A0

def ContextArm.ceiling (a : ContextArm) : Bool := a.base = .S3

def isNameChar (c : Char) : Bool := c.isAlphanum || "._:/-".toList.contains c

/-- A name at the head of the text: a letter or digit, then any run of name characters. -/
def scanName : Text → Option (Text × Text)
  | [] => none
  | c :: cs =>
    if c.isAlphanum then some (c :: cs.takeWhile isNameChar, cs.dropWhile isNameChar) else none

def scanBase : Text → Option (Base × Text × Text)
  | 'A' :: '0' :: cs => some (.A0, [], cs)
  | 'S' :: '1' :: '@' :: cs => (scanName cs).map fun p => (.S1, p.1, p.2)
  | 'S' :: '2' :: cs => some (.S2, [], cs)
  | 'S' :: '3' :: cs => some (.S3, [], cs)
  | _ => none

/-- An optional modifier with its name; without a match nothing is read. -/
def scanModifier (modifier s : Text) : Text × Text :=
  if startsWith s modifier then (scanName (s.drop modifier.length)).getD ([], s) else ([], s)

def scanLoop : Text → Option Bool
  | [] => some false
  | ['+', 'L'] => some true
  | _ => none

/-- The arm an identifier names, and `none` where `parse_arm` raises a `ValueError`. -/
def parseArm (arm : String) : Option ContextArm := do
  let (base, author, r) ← scanBase (strip arm.toList)
  let (facts, r) := scanModifier "+facts@".toList r
  let (library, r) := scanModifier "+library@".toList r
  let loop ← scanLoop r
  some ⟨base, .ofList author, .ofList facts, .ofList library, loop⟩

def isArm (arm : String) : Bool := (parseArm arm).isSome

def Base.name : Base → String
  | .A0 => "A0"
  | .S1 => "S1"
  | .S2 => "S2"
  | .S3 => "S3"

/-- The identifier of an arm, in the order of the grammar. -/
def ContextArm.id (a : ContextArm) : String :=
  (if a.base = .S1 then "S1@" ++ a.author else a.base.name) ++
    (if a.facts = "" then "" else "+facts@" ++ a.facts) ++
    (if a.library = "" then "" else "+library@" ++ a.library) ++ if a.loop then "+L" else ""

/-- `_ARM_RE.match`, whose `$` stands before a line break at the end too. -/
def matchesArm (s : String) : Bool :=
  isArm s && (strip s.toList = s.toList || strip s.toList ++ ['\n'] = s.toList)

/-- The arms the constructor does not refuse. -/
def ContextArm.wellFormed (a : ContextArm) : Bool :=
  decide (a.base = .S1 ↔ a.author ≠ "") && matchesArm a.id

def ContextArm.withLoop (a : ContextArm) (on : Bool) : ContextArm := { a with loop := on }

example : parseArm "S1@claude-opus-5+facts@x+L" = some ⟨.S1, "claude-opus-5", "x", "", true⟩ := by
  rfl

example : isArm "S1@" = false := by rfl

end CommitReplay.ContextArms
