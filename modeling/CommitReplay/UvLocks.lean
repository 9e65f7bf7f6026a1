import CommitReplay.LockPins
import CommitReplay.PathClauses
import CommitReplay.PythonRepr
import CommitReplay.StagedEdits

/-! A uv lock read into pins: the project's own dependencies and the named groups, closed over the dependencies
of every package and over the extras an edge asks for, each pin with the markers of the ways that reach it. -/
namespace CommitReplay.UvLocks

open CommitReplay.PythonText CommitReplay.LockPins CommitReplay.PathClauses

section Documents

/-- What the interpreter knows of the characters: their lower case, and which of them `repr` writes as they are. -/
structure Unicode where
  lower : Text → Text
  printable : Char → Bool

def Unicode.repr (py : Unicode) (s : Text) : Text := PythonRepr.reprStr py.printable s

/-- The name of an extra. -/
abbrev Extra := {x : Text // x ≠ []}

/-- The table that says where a package comes from. -/
abbrev Source := List (Text × Text)

structure UvEdge where
  name : Text
  version : Option Text
  source : Option Source
  extra : List Extra
  marker : Option Text

structure UvPackage where
  name : Text
  version : Option Text
  source : Option Source
  dependencies : List UvEdge
  optionalDependencies : List (Extra × List UvEdge)
  devDependencies : List (Text × List UvEdge)
  /-- The hash of each wheel. -/
  wheels : List (Option Text)
  /-- The source distribution with its hash. -/
  sdist : Option (Option Text)

structure UvLock where
  version : Option ℤ
  package : List UvPackage

/-- Two tables that have the same values under the same keys. -/
def sameTable (a b : Source) : Bool := a.length = b.length && a.all fun kv => b.lookup kv.1 = some kv.2

/-- `_uv_is_project` -/
def isProject (p : UvPackage) : Bool :=
  p.source.any fun src => src.lookup "editable".toList = some ['.'] || src.lookup "virtual".toList = some ['.']

end Documents

section Checks

/-- `_NAME` -/
def isName (name : Text) : Bool :=
  name.head?.any isAlnum && name.getLast?.any isAlnum &&
    name.all fun c => isAlnum c || ['.', '_', '-'].contains c

/-- `_HASH` -/
def isHash (h : Text) : Bool := h.take 7 = "sha256:".toList && (h.drop 7).length = 64 && (h.drop 7).all isHex

/-- `_MARKER_CHARS` -/
def isMarkerChar (c : Char) : Bool := isAlnum c || "_.'\"()<>=!~ ,*+@/:-".toList.contains c

/-- `_OPTION_WORD`, with the character before the text: a `-` at the start or behind white space. -/
def hasOption : Option Char → Text → Bool
  | _, [] => false
  | prev, c :: cs => (c = '-' && prev.all isSpace) || hasOption (some c) cs

def safeMarker (marker : Text) : Bool := marker.all isMarkerChar && !hasOption none marker

def uvPublicIndex : List Text := ["https://pypi.org/simple".toList, "https://pypi.org/simple/".toList]

def isPublic (src : Option Source) : Bool :=
  match (src.getD []).head? with
  | some (kind, place) => kind = "registry".toList && uvPublicIndex.contains place
  | none => false

/-- `_uv_check_source`'s words for a source it refuses. -/
def sourceText (src : Option Source) : Text :=
  match (src.getD []).head? with
  | some (kind, place) =>
    if kind = "registry".toList then "the index ".toList ++ place
    else "a ".toList ++ (if kind = [] then "missing".toList else kind) ++ " source".toList
  | none => "a missing source".toList

end Checks

section Reading

variable (py : Unicode) (norm : Text)

def unsupported (why : Text) : ProvisionRefused := ⟨.lockUnsupported, norm ++ ": ".toList ++ why⟩

/-- The packages an edge may mean, each with its place in the lock. -/
def candidates (lock : UvLock) (e : UvEdge) : List (UvPackage × ℕ) :=
  let named := lock.package.zipIdx.filter fun c => normName py.lower c.1.name = normName py.lower e.name
  let versioned := match e.version with
    | some v => named.filter fun c => c.1.version = some v
    | none => named
  match e.source with
  | some src => if 1 < versioned.length then versioned.filter fun c => c.1.source.any (sameTable · src) else versioned
  | none => versioned

def resolve (lock : UvLock) (e : UvEdge) : Except ProvisionRefused (UvPackage × ℕ) :=
  match candidates py lock e with
  | [c] => .ok c
  | cs => .error (unsupported norm ("the dependency ".toList ++ normName py.lower e.name ++ " resolves to ".toList ++
      Nat.toDigits 10 cs.length ++ " packages".toList))

/-- A package, or one of its extras. -/
abbrev UvNode := ℕ × Option Extra

def edges (p : UvPackage) : Option Extra → List UvEdge
  | none => p.dependencies
  | some x => (p.optionalDependencies.lookup x).getD []

def UvLock.edgesOf (lock : UvLock) (n : UvNode) : List UvEdge := (lock.package[n.1]?).elim [] fun p => edges p n.2

def UvEdge.condition (e : UvEdge) : Option Text :=
  let marker := strip (e.marker.getD [])
  if marker = [] then none else some marker

/-- A package and the extras of it, and of the project the extras only. -/
def nodesOf (project : Bool) (extra : List Extra) : List (Option Extra) :=
  if project then extra.map some else none :: extra.map some

/-- The start of `reach`: the nodes an edge leads to, and its marker. -/
def targets (lock : UvLock) (root : UvPackage) (e : UvEdge) : Except ProvisionRefused (List UvNode × Option Text) :=
  match resolve py norm lock e with
  | .error why => .error why
  | .ok (p, i) =>
    match e.extra.filter (fun x => (root.optionalDependencies.lookup x).isNone), isProject p with
    | x :: _, true => .error ⟨.noLock, norm ++ ": the project declares no extra named ".toList ++ py.repr x.1⟩
    | _, project =>
      if project = true ∧ e.extra = [] then .ok ([], none)
      else if e.condition.all safeMarker = false then
        .error ⟨.sourceRefused, norm ++ ": the marker ".toList ++ py.repr (strip (e.marker.getD [])) ++
          " on ".toList ++ py.repr e.name ++ " is not a marker".toList⟩
      else .ok ((nodesOf project e.extra).map fun x => (i, x), e.condition)

/-- `_UV_MAX_PATHS` -/
def uvMaxPaths : ℕ := 32

def graph (lock : UvLock) (root : UvPackage) : Graph UvNode Text UvEdge ProvisionRefused where
  edges := lock.edgesOf
  targets := targets py norm lock root
  limit := uvMaxPaths
  tooMany n := unsupported norm (((lock.package[n.1]?).elim [] (·.name)) ++
    " is reached by too many marker paths".toList)

/-- The table a group is named by, and else that of an extra. -/
def groupTable (root : UvPackage) (g : Text) : Option (List UvEdge) :=
  (root.devDependencies.lookup g).or ((root.optionalDependencies.find? fun x => x.1.1 = g).map Prod.snd)

def groupEdges (root : UvPackage) : List Text → Except ProvisionRefused (List UvEdge)
  | [] => .ok []
  | g :: gs =>
    match groupTable root g with
    | none => .error ⟨.noLock, norm ++ " carries no dependency group or extra named ".toList ++ py.repr g⟩
    | some es => (groupEdges root gs).map (es ++ ·)

def startEdges (root : UvPackage) (groups : List Text) : Except ProvisionRefused (List UvEdge) :=
  (groupEdges py norm root groups).map (root.dependencies ++ ·)

end Reading

section Pins

/-- One marker as it is written, and several in parentheses. -/
def conj (c : Finset Text) : Text :=
  match c.sort (· ≤ ·) with
  | [m] => m
  | parts => joined andWord parts

def uvTerms (clauses : Finset (Finset Text)) : List Text := (clauses.val.map conj).sort (· ≤ ·)

/-- `_uv_marker` -/
def uvMarker (clauses : Finset (Finset Text)) : Text :=
  if clauses = ∅ ∨ ∅ ∈ clauses then []
  else "; ".toList ++ match uvTerms clauses with
    | [t] => t
    | ts => joined orWord ts

variable (py : Unicode) (norm : Text)

/-- The pin of a package that is reached under these markers, or why it has none. -/
def uvPin (p : UvPackage) (clauses : Finset (Finset Text)) : Except ProvisionRefused PyPin :=
  let version := p.version.getD []
  let marker := uvMarker clauses
  let wheels := p.wheels.map (·.getD [])
  let pinned := norm ++ ": ".toList ++ p.name ++ "==".toList ++ version
  let hashes := if wheels = [] then (p.sdist.map (·.getD [])).toList else wheels
  if version = [] then
    .error ⟨.unpinned, norm ++ ": ".toList ++ py.repr p.name ++ " has no version".toList⟩
  else if isName p.name = false ∨ isVersion version = false then
    .error ⟨.sourceRefused, norm ++ ": ".toList ++ py.repr p.name ++ "==".toList ++ py.repr version ++
      " is not a package name and version".toList⟩
  else if isPublic p.source = false then
    .error ⟨.sourceRefused, norm ++ ": ".toList ++ p.name ++ " comes from ".toList ++ sourceText p.source⟩
  else if wheels = [] ∧ marker = [] then .error ⟨.buildRequired, pinned ++ " publishes no wheel".toList⟩
  else if hashes = [] ∨ hashes.all isHash = false then
    .error ⟨.unpinned, pinned ++ " carries no sha256 hash".toList⟩
  else .ok ⟨p.name, version, hashes, marker, norm ++ ":".toList ++ p.name⟩

/-- The pins of the packages that were met; the project is passed over. -/
def uvPins (lock : UvLock) (held : UvNode → Finset (Finset Text)) : List ℕ → Except ProvisionRefused (List PyPin)
  | [] => .ok []
  | i :: is =>
    match (lock.package[i]?).filter (!isProject ·) with
    | none => uvPins lock held is
    | some p =>
      match uvPin py norm p (held (i, none)) with
      | .error why => .error why
      | .ok q => (uvPins lock held is).map (q :: ·)

/-- The packages of the nodes, in the order they were met. -/
def packagesOf (seen : List UvNode) : List ℕ := (seen.map Prod.fst).foldl meet []

def pinKey (q : PyPin) : Lex (Text × Text) := toLex (normName py.lower q.name, q.version)

def sortPins (qs : List PyPin) : List PyPin := qs.insertionSort fun a b => pinKey py a ≤ pinKey py b

/-- From the project and the edges of the start to the pins. -/
def closePins (lock : UvLock) (root : UvPackage) (start : List UvEdge) (k : ℕ) :
    Option (Except ProvisionRefused (List PyPin)) :=
  (closure (graph py norm lock root) start k).map fun r =>
    match r with
    | .error why => .error why
    | .ok s => (uvPins py norm lock s.held (packagesOf s.seen)).map (sortPins py)

/-- The document's own project, or why it cannot be read. -/
def uvRoot (lock : UvLock) : Except ProvisionRefused UvPackage :=
  if lock.version ≠ some 1 then
    .error (unsupported norm ("lock version ".toList ++ (lock.version.elim "None".toList JsonText.intText) ++
      " is not provisioned (only 1)".toList))
  else
    match lock.package.filter isProject with
    | [root] => .ok root
    | [] => .error (unsupported norm
        "names no project (no package whose source is the lock's own directory)".toList)
    | _ => .error (unsupported norm "a uv workspace is not provisioned".toList)

/-- `parse_uv_lock`, with so many rounds of its loop. `loads` reads the TOML document that the bytes are, or says
why they are none. -/
def parseUvLock (loads : Bytes → Except Text UvLock) (blob : Text → Option Bytes) (path : Text) (groups : List Text)
    (k : ℕ) : Option (Except ProvisionRefused ((Text × Bytes) × List PyPin)) :=
  let norm := StagedEdits.normpath path
  if startsWith norm "../".toList ∨ startsWith norm ['/'] then
    some (.error ⟨.sourceRefused, path ++ ": a lock outside the repository".toList⟩)
  else
    match blob norm with
    | none => some (.error ⟨.noLock, norm ++ " is not committed at this commit".toList⟩)
    | some data =>
      match loads data with
      | .error exc => some (.error (unsupported norm ("not a TOML lock (".toList ++ exc ++ [')'])))
      | .ok lock =>
        match uvRoot norm lock with
        | .error why => some (.error why)
        | .ok root =>
          match startEdges py norm root groups with
          | .error why => some (.error why)
          | .ok start => (closePins py norm lock root start k).map (·.map fun pins => ((norm, data), pins))

end Pins

end CommitReplay.UvLocks
