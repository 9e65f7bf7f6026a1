import CommitReplay.ClassSets
import CommitReplay.GradeRows
import CommitReplay.PythonRepr
import CommitReplay.Redaction

/-! The entries of a repository's library: one version of one entry with its provenance, checked as it is
built, and its version, the hash of its content. -/
namespace CommitReplay.LibraryEntries

open CommitReplay.PythonText CommitReplay.PythonRepr CommitReplay.JsonValue CommitReplay.JsonText
open CommitReplay.GradeRows CommitReplay.RowChecks CommitReplay.Redaction CommitReplay.PriorityRegex
open CommitReplay.ClassSets (trim isPerson)

section Names

def isLowerDigit (c : Char) : Bool := c.isLower || c.isDigit

/-- A pattern up to `$`, which lets one line break stand behind it. -/
def dollar (p : Text → Bool) (s : String) : Bool :=
  p s.toList || (s.toList.getLast? = some '\n' && p s.toList.dropLast)

/-- One character, and at most 63 more. -/
def named (first rest : Char → Bool) (s : Text) : Bool :=
  s.head?.any first && s.tail.all rest && s.length ≤ 64

/-- `SLUG_RE`. -/
def isSlug : String → Bool := dollar (named isLowerDigit fun c => isLowerDigit c || c ∈ ['.', '_', '-'])

/-- `_SLOT_RE`. -/
def isSlot : String → Bool := dollar (named Char.isLower fun c => isLowerDigit c || c = '_')

/-- `_CHECK_RE`. -/
def isCheck : String → Bool :=
  dollar (named Char.isAlphanum fun c => c.isAlphanum || c ∈ ['_', '.', ':', '-'])

def isHexDigit (c : Char) : Bool := c.isDigit || ('a' ≤ c && c ≤ 'f')

/-- `_SHA_RE`. -/
def isSha : String → Bool := dollar fun s => s.all isHexDigit && 7 ≤ s.length && s.length ≤ 40

/-- `_HASH_RE`. -/
def isHash : String → Bool := dollar fun s => s.all isHexDigit && s.length = 64

/-- `_is_process_proposer`. -/
def isProcessProposer (proposer : String) : Bool :=
  ["mined:", "drafted:"].any fun p =>
    startsWith proposer.toList p.toList && strip (proposer.toList.drop p.toList.length) ≠ []

end Names

section Credentials

variable {F : Type}

mutual

/-- The strings and keys of a value. -/
def texts : Json F → List String
  | .str s => [s]
  | .arr xs => textsAll xs
  | .obj ps => textsFields ps
  | _ => []
termination_by structural v => v

def textsAll : List (Json F) → List String
  | [] => []
  | v :: vs => texts v ++ textsAll vs
termination_by structural vs => vs

def textsFields : List (String × Json F) → List String
  | [] => []
  | p :: ps => textsField p ++ textsFields ps
termination_by structural ps => ps

def textsField : String × Json F → List String
  | (k, v) => k :: texts v
termination_by structural p => p

end

variable (isWide : Char → Bool)

/-- `carries_credential`. -/
def carriesCredential (v : Json F) : Bool :=
  (texts v).any fun s => redactText isWide s.toList ≠ s.toList

/-- A text with no mark of a credential: without an underscore, or without what begins a token that has one. -/
def unmarked (s : String) : Bool :=
  (s.toList.all fun c => c ∉ ['=', ':', '-', '@', 'K', 'A', 'J']) && ('_' ∉ s.toList || 'g' ∉ s.toList)

variable {isWide}

lemma dead_alt {q : Char → Prop} {a b : Rx} (ha : Dead q a) (hb : Dead q b) : Dead q (.alt a b) := by
  intro s hs
  have halt : PriorityRegex.run (.alt a b) s = PriorityRegex.run a s ++ PriorityRegex.run b s := rfl
  rw [halt, ha s hs, hb s hs]
  rfl

lemma dead_exact {q : Char → Prop} {w : String} (d : Char) (hd : d ∈ w.toList) (h : ∀ c, q c → c ≠ d) :
    Dead q (exact w) := dead_lit hd h

/-- No pattern has a match in a text without the characters each of them needs. -/
lemma dead_patterns_of {q : Char → Prop} (hq : ∀ c, q c → c ∉ ['=', ':', '-', '@', 'K', 'A', 'J'])
    (hunder : (∀ c, q c → c ≠ '_') ∨ ∀ c, q c → c ≠ 'g') : ∀ p ∈ patterns isWide, Dead q p.1 := by
  have hno : ∀ d ∈ ['=', ':', '-', '@', 'K', 'A', 'J'], ∀ c, q c → c ≠ d :=
    fun d hd c hc he => hq c hc (he ▸ hd)
  have hcolon : ∀ w : String, w.toList = ['=', ':'] ∨ w.toList = [':', '='] → Dead q (oneOf w) := by
    refine fun w hw => dead_one fun c hc => decide_eq_false fun hin => ?_
    have h1 := hno '=' (by simp) c hc
    have h2 := hno ':' (by simp) c hc
    rcases hw with hw | hw <;> rw [hw] at hin <;> simp [h1, h2] at hin
  intro p hp
  simp only [patterns, List.mem_cons, List.not_mem_nil, or_false] at hp
  rcases hp with rfl | rfl | rfl | rfl | rfl | rfl | rfl | rfl | rfl | rfl
  · exact dead_concat List.mem_cons_self (dead_group
      (dead_concat (a := oneOf ":=") (by simp) (hcolon _ (.inr rfl))))
  · exact dead_concat (a := exact "-") (by simp) (dead_exact '-' (by simp) (hno _ (by simp)))
  · rcases hunder with h | h
    · exact dead_concat (a := exact "_") (by simp) (dead_exact '_' (by simp) h)
    · refine dead_concat (List.mem_cons_of_mem _ List.mem_cons_self) (dead_alt ?_ ?_)
      · exact dead_seq_left (dead_exact 'g' (by simp) h)
      · exact dead_exact 'g' (by simp) h
  · exact dead_concat (a := exact "-") (by simp) (dead_exact '-' (by simp) (hno _ (by simp)))
  · exact dead_concat (a := exact "AKIA") (by simp) (dead_exact 'K' (by simp) (hno _ (by simp)))
  · exact dead_concat (a := exact "AIza") (by simp) (dead_exact 'A' (by simp) (hno _ (by simp)))
  · exact dead_concat (a := exact "eyJ") (by simp) (dead_exact 'J' (by simp) (hno _ (by simp)))
  · exact dead_concat (a := oneOf "=:") (by simp) (hcolon _ (.inl rfl))
  · exact dead_concat (a := .group 2 (exact "@")) (by simp)
      (dead_group (dead_exact '@' (by simp) (hno _ (by simp))))
  · exact dead_concat List.mem_cons_self (dead_exact '-' (by simp) (hno _ (by simp)))

lemma redactText_unmarked {s : String} (h : unmarked s = true) : redactText isWide s.toList = s.toList := by
  simp only [unmarked, Bool.and_eq_true, Bool.or_eq_true, List.all_eq_true, decide_eq_true_eq] at h
  have hdead : ∀ p ∈ patterns isWide, Dead (· ∈ s.toList) p.1 := dead_patterns_of h.1
    (h.2.imp (fun h c hc he => h (he ▸ hc)) fun h c hc he => h (he ▸ hc))
  unfold redactText
  generalize patterns isWide = ps at hdead
  induction ps with
  | nil => rfl
  | cons p ps ih =>
    rw [List.foldl_cons, sub_eq_self (hdead p List.mem_cons_self) fun c hc => hc]
    exact ih fun q hq => hdead q (List.mem_cons_of_mem _ hq)

/-- A value of unmarked texts carries no credential. -/
lemma carriesCredential_eq_false {v : Json F} (h : (texts v).all unmarked = true) :
    carriesCredential isWide v = false := by
  refine List.any_eq_false.mpr fun s hs => ?_
  rw [redactText_unmarked (List.all_eq_true.mp h s hs)]
  simp

end Credentials

section Provenance

inductive ProvenanceKind
  | file | rows | person
deriving DecidableEq, Repr

def ProvenanceKind.name : ProvenanceKind → String
  | .file => "file"
  | .rows => "rows"
  | .person => "person"

def ProvenanceKind.ofName (s : String) : Option ProvenanceKind :=
  [.file, .rows, .person].find? (·.name = s)

structure ProvenanceFields where
  kind : ProvenanceKind
  path : String
  commit : String
  digest : String
  rows : List String
  person : String
deriving DecidableEq, Repr

/-- `Provenance.__post_init__` raises nothing. -/
def ProvenanceFields.postInit (p : ProvenanceFields) : Bool :=
  (match p.kind with
    | .file => trim p.path ≠ "" && !startsWith p.path.toList ['/'] &&
        ['.', '.'] ∉ p.path.toList.splitOn '/' && isSha p.commit && isHash p.digest
    | _ => p.path = "" && p.commit = "" && p.digest = "") &&
  (match p.kind with
    | .rows => p.rows ≠ [] && p.rows.all isHash
    | _ => p.rows = []) &&
  match p.kind with
    | .person => isPerson p.person
    | _ => p.person = ""

/-- Where an entry came from. -/
structure Provenance extends ProvenanceFields where
  valid : toProvenanceFields.postInit = true
deriving DecidableEq

variable {F : Type}

def textArray (xs : List String) : Json F := .arr (xs.map .str)

def Provenance.toDict (p : Provenance) : Json F :=
  .obj (ofPairs [("kind", .str p.kind.name), ("path", .str p.path), ("commit", .str p.commit),
    ("digest", .str p.digest), ("rows", textArray p.rows), ("person", .str p.person)])

end Provenance

section Entries

inductive Kind
  | component | workType | decision | convention | pattern | standard
deriving DecidableEq, Repr

def Kind.name : Kind → String
  | .component => "component"
  | .workType => "work-type"
  | .decision => "decision"
  | .convention => "convention"
  | .pattern => "pattern"
  | .standard => "standard"

def Kind.ofName (s : String) : Option Kind :=
  [.component, .workType, .decision, .convention, .pattern, .standard].find? (·.name = s)

def characteristics : List String :=
  ["Functional suitability", "Performance efficiency", "Compatibility", "Interaction capability",
    "Reliability", "Security", "Maintainability", "Flexibility", "Safety"]

/-- `CLASS_VOCABULARY`, each member of which has a definition. -/
def classVocabulary : List String :=
  ["backend.migration.add", "backend.model.edit", "backend.route.add", "backend.route.edit",
    "behavior.change", "bug.fix", "ci.workflow.edit", "docs.update", "feature.add",
    "frontend.component.add", "frontend.component.edit", "frontend.route.add", "infra.helm.edit",
    "infra.terraform.edit", "perf", "refactor", "test.add", "test.fix"]

def isKnownClass (name : String) : Bool := name = "(unclassified)" || name ∈ classVocabulary

structure EntryFields where
  repo : String
  kind : Kind
  slug : String
  title : String
  statement : String
  provenance : Provenance
  proposedBy : String
  components : List String
  workTypes : List String
  characteristic : String
  check : String
  parentClass : String
  examples : List String
  slots : List String
deriving DecidableEq

/-- What `__post_init__` strips. -/
def EntryFields.stripped (e : EntryFields) : EntryFields :=
  { e with
    title := trim e.title
    statement := trim e.statement
    proposedBy := trim e.proposedBy
    components := e.components.map trim
    workTypes := e.workTypes.map trim
    examples := e.examples.map trim
    slots := e.slots.map trim }

/-- `_tuple` raises nothing, on stripped values. -/
def tupleOk (pattern : String → Bool) (limit : ℕ) (out : List String) : Bool :=
  out.length ≤ limit && out.all pattern && out.Nodup

/-- `_validate_kind_fields` raises nothing. -/
def EntryFields.kindFieldsOk (e : EntryFields) : Bool :=
  (if e.kind = .standard ∨ e.kind = .convention then
    (e.characteristic = "" || e.characteristic ∈ characteristics) &&
      (e.kind ≠ .standard || e.characteristic ≠ "") && (e.check = "" || isCheck e.check)
  else e.characteristic = "" && e.check = "") &&
  if e.kind = .workType then isKnownClass e.parentClass && !isKnownClass e.slug
  else e.parentClass = "" && e.examples = [] && e.slots = []

variable {F : Type}

/-- The versioned content. -/
def EntryFields.content (e : EntryFields) : Json F :=
  .obj (ofPairs [("repo", .str e.repo), ("kind", .str e.kind.name), ("slug", .str e.slug),
    ("title", .str e.title), ("statement", .str e.statement), ("provenance", e.provenance.toDict),
    ("proposed_by", .str e.proposedBy), ("components", textArray e.components),
    ("work_types", textArray e.workTypes), ("characteristic", .str e.characteristic),
    ("check", .str e.check), ("parent_class", .str e.parentClass), ("examples", textArray e.examples),
    ("slots", textArray e.slots)])

/-- The values of the content. -/
def EntryFields.contentValues (e : EntryFields) : List (Json F) :=
  match e.content with
  | .obj ps => ps.map Prod.snd
  | _ => []

variable (F) in
/-- `LibraryEntry.__post_init__` raises nothing, on stripped fields. -/
def EntryFields.postInit (isWide : Char → Bool) (e : EntryFields) : Bool :=
  trim e.repo ≠ "" && isSlug e.slug && e.title ≠ "" && e.title.toList.length ≤ 120 && e.statement ≠ "" &&
    e.statement.toList.length ≤ 400 && !contains e.statement.toList "```".toList &&
    redactText isWide e.statement.toList = e.statement.toList &&
    redactText isWide e.title.toList = e.title.toList &&
    (isPerson e.proposedBy || isProcessProposer e.proposedBy) &&
    (e.provenance.kind ≠ .person || isPerson e.proposedBy) &&
    tupleOk isSlug 32 e.components && tupleOk isSlug 32 e.workTypes && tupleOk isSha 10 e.examples &&
    tupleOk isSlot 16 e.slots && e.kindFieldsOk &&
    (e.contentValues (F := F)).all fun v => !carriesCredential isWide v

/-- One version of one entry. -/
structure LibraryEntry (F : Type) (isWide : Char → Bool) extends EntryFields where
  valid : toEntryFields.postInit F isWide = true

variable {isWide : Char → Bool}

/-- `<kind>/<slug>`. -/
def LibraryEntry.entryId (e : LibraryEntry F isWide) : String := e.kind.name ++ "/" ++ e.slug

/-- `version`: the hash of the content. -/
def LibraryEntry.version [PyFloat F] (sha256 : Sha256) (e : LibraryEntry F isWide) : String :=
  sha256.hex (canonicalJson (e.content : Json F))

/-- The constructor, and `none` where it raises. -/
def LibraryEntry.make (isWide : Char → Bool) (e : EntryFields) : Option (LibraryEntry F isWide) :=
  if h : e.stripped.postInit F isWide = true then some ⟨e.stripped, h⟩ else none

end Entries

section Reading

variable {F : Type} [PyFloat F] (isPrintable : Char → Bool)

/-- `str(d.get(key, ""))`. -/
def textAt (d : List (String × Json F)) (key : String) : String :=
  pyStr isPrintable ((d.lookup key).getD (.str ""))

/-- The items of `d.get(key) or ()` as texts, and `none` of what has no items. -/
def textsAt (d : List (String × Json F)) (key : String) : Option (List String) :=
  match (d.lookup key).filter truthy with
  | none => some []
  | some (.arr xs) => some (xs.map (pyStr isPrintable))
  | some (.str s) => some (s.toList.map fun c => .ofList [c])
  | some (.obj ps) => some (ps.map Prod.fst)
  | some _ => none

/-- `d.get(key) or {}`, and `none` of what is no dictionary. -/
def dictAt (d : List (String × Json F)) (key : String) : Option (List (String × Json F)) :=
  match (d.lookup key).filter truthy with
  | none => some []
  | some (.obj ps) => some ps
  | some _ => none

/-- `Provenance.from_dict`, and `none` where it raises. -/
def Provenance.fromDict (d : List (String × Json F)) : Option Provenance := do
  let kind ← ProvenanceKind.ofName (textAt isPrintable d "kind")
  let rows ← textsAt isPrintable d "rows"
  let p : ProvenanceFields :=
    { kind := kind
      path := textAt isPrintable d "path"
      commit := textAt isPrintable d "commit"
      digest := textAt isPrintable d "digest"
      rows := rows
      person := textAt isPrintable d "person" }
  if h : p.postInit = true then some ⟨p, h⟩ else none

/-- `LibraryEntry.from_dict`, and `none` where it raises. -/
def LibraryEntry.fromDict (isWide : Char → Bool) (d : List (String × Json F)) :
    Option (LibraryEntry F isWide) := do
  let provenance ← (dictAt d "provenance").bind (Provenance.fromDict isPrintable)
  let kind ← Kind.ofName (textAt isPrintable d "kind")
  let components ← textsAt isPrintable d "components"
  let workTypes ← textsAt isPrintable d "work_types"
  let examples ← textsAt isPrintable d "examples"
  let slots ← textsAt isPrintable d "slots"
  LibraryEntry.make isWide
    { repo := textAt isPrintable d "repo"
      kind := kind
      slug := textAt isPrintable d "slug"
      title := textAt isPrintable d "title"
      statement := textAt isPrintable d "statement"
      provenance := provenance
      proposedBy := textAt isPrintable d "proposed_by"
      components := components
      workTypes := workTypes
      characteristic := textAt isPrintable d "characteristic"
      check := textAt isPrintable d "check"
      parentClass := textAt isPrintable d "parent_class"
      examples := examples
      slots := slots }

end Reading

end CommitReplay.LibraryEntries
