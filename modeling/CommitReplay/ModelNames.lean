import CommitReplay.LowerCase
import CommitReplay.PythonRepr

/-! The name of a model id, and the rule that who wrote a test does not build against it: two ids are one model where
their names are equal, or one is a family and the other of it. -/
namespace CommitReplay.ModelNames

open CommitReplay.PythonText CommitReplay.LowerCase

section Names

def familyAliases : List Text := ["opus".toList, "sonnet".toList, "haiku".toList]

def familyPrefix : Text := "family:".toList

def isIdBoundary (c : Char) : Bool := c ∈ ['-', '_', '.', ':']

/-- `_CONTEXT_SUFFIX_RE.sub("", m)`, of a text that does not end in a line feed. -/
def dropContext (s : Text) : Text :=
  if s.getLast? = some ']' then
    let last := s.dropLast.rtakeWhile (· ≠ ']')
    if '[' ∈ last then s.dropLast.rdropWhile (· ≠ ']') ++ last.takeWhile (· ≠ '[') else s
  else s

/-- `m.rsplit("/", 1)[1]`, where there is one to split at. -/
def dropVendor (s : Text) : Text := s.rtakeWhile (· ≠ '/')

/-- A key that the id equals, or starts with at an id boundary. -/
def keyMatches (m key : Text) : Bool :=
  m = key || key.isPrefixOf m && (m.drop key.length).head?.any isIdBoundary

/-- The pricing tables of a deployment: its own one, if it can be read, and the one that is shipped. -/
structure Deployment where
  cases : CaseTable
  loaded : Option (List Text)
  shipped : List Text

variable (d : Deployment) (table : Option (List Text))

/-- The keys a table is asked for, the longest first. -/
def sortedKeys : List Text :=
  ((table.getD (d.loaded.getD d.shipped)).map (lower d.cases)).mergeSort fun a b => b.length ≤ a.length

/-- An id without its provider, context suffix and vendor. -/
def core (m : Text) : Text :=
  dropVendor (strip (dropContext (strip (splitHead '@' (lower d.cases (strip m))))))

def canonicalModel (m : Text) : Text :=
  if core d m ∈ familyAliases then familyPrefix ++ core d m
  else ((sortedKeys d table).find? (keyMatches (core d m))).getD (core d m)

def removePrefix (p s : Text) : Text := if p.isPrefixOf s then s.drop p.length else s

/-- `fam` names a family that `other` is of. -/
def inFamily (fam other : Text) : Bool :=
  familyPrefix.isPrefixOf fam && removePrefix familyPrefix fam ∈
    ((removePrefix familyPrefix other).map fun c => if c = '_' then '-' else c).splitOn '-'

def sameModel (a b : Text) : Bool :=
  let ca := canonicalModel d table a
  let cb := canonicalModel d table b
  if ca = [] ∨ cb = [] then false
  else ca = cb || inFamily ca cb || inFamily cb ca

end Names

section Identities

def operatorAuthorPrefix : Text := "operator:".toList

variable (d : Deployment)

/-- The model of a rung label; a person has none. -/
def modelHalf (label : Text) : Text :=
  let s := strip label
  if operatorAuthorPrefix.isPrefixOf (lower d.cases s) || ':' ∉ s then []
  else strip ((s.dropWhile (· ≠ ':')).drop 1)

inductive SameIdentityError
  | blank
  | sameLabel (role other : Text)
  | sharedModel (role other name author : Text)
deriving DecidableEq

def SameIdentityError.message (isPrintable : Char → Bool) : SameIdentityError → Text
  | .blank => "both identities must be non-empty rung labels".toList
  | .sameLabel role other => "the ".toList ++ role ++ ' ' :: PythonRepr.reprStr isPrintable other ++
      (" is the identity that authored the oracle — the test author must never build or review against its " ++
        "own test").toList
  | .sharedModel role other name author => "the ".toList ++ role ++ ' ' :: PythonRepr.reprStr isPrintable other ++
      " runs the same model (".toList ++ name ++ ") as ".toList ++ PythonRepr.reprStr isPrintable author ++
      (", the identity that authored the oracle — one model on both sides of the test is correlated judgement, " ++
        "not independent evidence. Change the model of the ").toList ++ role ++
      (", or give the test author a different model (CRB_FACTORY__TEST_AUTHOR, or the run's test_author)").toList

def assertDistinctIdentity (author other role : Text) : Except SameIdentityError Unit :=
  let a := lower d.cases (strip author)
  let b := lower d.cases (strip other)
  if a = [] ∨ b = [] then .error .blank
  else if a = b then .error (.sameLabel role other)
  else
    let ma := modelHalf d author
    let mb := modelHalf d other
    if ma ≠ [] ∧ mb ≠ [] ∧ sameModel d none ma mb then
      .error (.sharedModel role (strip other) (canonicalModel d none mb) (strip author))
    else .ok ()

end Identities

end CommitReplay.ModelNames
