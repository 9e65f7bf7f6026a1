import CommitReplay.KeyedGroups
import CommitReplay.PythonRepr
import CommitReplay.Redaction
import CommitReplay.JsonlObjects
import CommitReplay.StrippedText

/-! The triage of the rows a guard refused: the violations a row's text records, grouped by the
guard, the shape of its reason and the shape of the command, each group with the corpus line it
proposes. The two normalisers and the hash behind a group's id are parameters. -/
namespace CommitReplay.RefusalTriage

open CommitReplay.PythonText CommitReplay.PythonRepr CommitReplay.Redaction CommitReplay.JsonlObjects
open CommitReplay.KeyedGroups

section Violations

inductive GuardPrefix
  | tamper | archaeology | network | other
  deriving DecidableEq

def GuardPrefix.text : GuardPrefix → Text
  | .tamper => "tamper".toList
  | .archaeology => "archaeology".toList
  | .network => "network".toList
  | .other => "other".toList

def guardPrefixes : List GuardPrefix := [.tamper, .archaeology, .network]

/-- The prefixes the refused corpus takes. -/
def corpusRefusedPrefixes : List GuardPrefix := [.archaeology, .network]

structure Violation where
  guard : GuardPrefix
  reason : Text
  command : Text
  truncated : Bool

def attemptedCap : ℕ := 120

def attempted : Text := "(attempted: ".toList

def protocolViolationPrefix : Text := "protocol violation:".toList

/-- The guard whose name and a colon a text begins with. -/
def leadingGuard (s : Text) : Option GuardPrefix :=
  guardPrefixes.find? fun p => startsWith s (p.text ++ [':'])

def prefixOf (reason : Text) : GuardPrefix := (leadingGuard reason).getD .other

/-- `_SPLIT_RE.split`, with the blanks of a separator still to pass over. -/
def splitFragments : ℕ → Text → List Text
  | _, [] => [[]]
  | n + 1, _ :: cs => splitFragments n cs
  | 0, c :: cs =>
    if c = ';' ∧ cs.head?.any isSpace ∧ (leadingGuard (cs.dropWhile isSpace)).isSome then
      [] :: splitFragments (cs.takeWhile isSpace).length cs
    else match splitFragments 0 cs with
      | [] => [[c]]
      | l :: ls => (c :: l) :: ls

/-- What stands before and after the first place of a text. -/
def cutAt (w : Text) : Text → Option (Text × Text)
  | [] => if w = [] then some ([], []) else none
  | c :: cs =>
    if startsWith (c :: cs) w then some ([], (c :: cs).drop w.length)
    else (cutAt w cs).map fun p => (c :: p.1, p.2)

/-- Without its closing parenthesis, or at the recorder's cap, the command was cut. -/
def parseFragment (frag : Text) : Violation :=
  match cutAt attempted frag with
  | none => ⟨prefixOf frag, frag, [], false⟩
  | some (reason, cmd) =>
    if cmd.getLast? = some ')' then
      ⟨prefixOf (strip reason), strip reason, cmd.dropLast, attemptedCap ≤ cmd.dropLast.length⟩
    else ⟨prefixOf (strip reason), strip reason, cmd, true⟩

def parseViolations (text : Text) : List Violation :=
  let body := if startsWith (strip text) protocolViolationPrefix
    then strip ((strip text).drop protocolViolationPrefix.length) else strip text
  if body = [] then []
  else (((splitFragments 0 body).map strip).filter (· ≠ [])).map parseFragment

end Violations

section Lines

variable (isWide : Char → Bool)

/-- Free text as one line of a comment. -/
def oneLine (text : Text) : Text :=
  (universalNewlines text).map fun c => if isLineBreak c then ' ' else c

/-- The `unicode_escape` of a line break. -/
def escapeBreak (c : Char) : Text :=
  if c = '\n' then ['\\', 'n']
  else if c = '\r' then ['\\', 'r']
  else if c.toNat < 0x100 then '\\' :: 'x' :: hexText 2 c.toNat
  else '\\' :: 'u' :: hexText 4 c.toNat

def encodeCorpusLine (command : Text) : Text :=
  strip ((redactText isWide (universalNewlines command)).flatMap fun c =>
    if isLineBreak c then escapeBreak c else [c])

/-- One line, with no blank around it. -/
def OnLine (t : Text) : Prop := strip t = t ∧ ∀ c ∈ t, isLineBreak c = false

lemma onLine_nil : OnLine [] := ⟨rfl, by simp⟩

/-- The line boundaries one by one. -/
def lineBreaks : List Char := [10, 11, 12, 13, 28, 29, 30, 0x85, 0x2028, 0x2029].map Char.ofNat

lemma mem_lineBreaks {c : Char} (h : isLineBreak c = true) : c ∈ lineBreaks := by
  have hn : c.toNat ∈ [10, 11, 12, 13, 28, 29, 30, 0x85, 0x2028, 0x2029] := by
    simp only [isLineBreak, Bool.or_eq_true, Bool.and_eq_true, decide_eq_true_eq, beq_iff_eq] at h
    simp only [List.mem_cons, List.not_mem_nil, or_false]
    omega
  exact List.mem_map.mpr ⟨c.toNat, hn, Char.ofNat_toNat c⟩

lemma escapeBreak_plain {c : Char} (h : isLineBreak c = true) :
    ∀ d ∈ escapeBreak c, isLineBreak d = false := by
  have hall : (lineBreaks.all fun c => (escapeBreak c).all fun d => !isLineBreak d) = true := by rfl
  simp only [List.all_eq_true, Bool.not_eq_true'] at hall
  exact hall c (mem_lineBreaks h)

lemma onLine_encodeCorpusLine (command : Text) : OnLine (encodeCorpusLine isWide command) := by
  refine ⟨StrippedText.strip_strip _, fun c hc => ?_⟩
  have hmem := (List.dropWhile_sublist _).subset ((List.rdropWhile_prefix _ _).subset hc)
  obtain ⟨d, -, hd⟩ := List.mem_flatMap.mp hmem
  split_ifs at hd with hb
  · exact escapeBreak_plain hb c hd
  · rw [List.mem_singleton.mp hd]
    exact Bool.eq_false_iff.mpr hb

lemma oneLine_plain (text : Text) : ∀ c ∈ oneLine text, isLineBreak c = false := by
  intro c hc
  obtain ⟨d, -, rfl⟩ := List.mem_map.mp hc
  split_ifs with h
  · rfl
  · exact Bool.eq_false_iff.mpr h

end Lines

section Report

/-- What the triage reads of a row: `builderError` is the text of the label of that name. -/
structure RefusedRow where
  failureKind : Text
  error : Text
  builderError : Text
  repo : Text
  taskId : Text
  rowHash : Text
  rowId : Text

/-- The longer of the row's texts that begin with the prefix, the first of two as long. -/
def rowViolationText (row : RefusedRow) : Text :=
  let error := startsWith row.error protocolViolationPrefix
  let builderError := startsWith row.builderError protocolViolationPrefix
  if error ∧ (builderError → row.builderError.length ≤ row.error.length) then row.error
  else if builderError then row.builderError
  else []

def rowKey (row : RefusedRow) : Text := if row.rowHash = [] then row.rowId else row.rowHash

/-- How a violation's texts are reduced to the shapes that name its group, and the group's id. -/
structure Shapes where
  normaliseReason : Text → Text
  normaliseCommand : Text → Text
  shortHash : List Text → Text

structure RefusalGroup where
  groupId : Text
  guard : GuardPrefix
  reason : Text
  shape : Text
  n : ℕ
  repos : List Text
  tasks : List Text
  rows : List Text
  examples : List Text
  truncated : Bool
  candidateHonest : Text
  candidateRefused : Text

/-- `sorted` of a set. -/
def sortedSet (xs : List Text) : List Text := xs.eraseDups.insertionSort (· ≤ ·)

lemma mem_sortedSet {xs : List Text} {x : Text} : x ∈ sortedSet xs ↔ x ∈ xs := by
  rw [sortedSet, List.mem_insertionSort, List.mem_eraseDups]

variable (isWide : Char → Bool) (shapes : Shapes)

abbrev GroupKey := GuardPrefix × Text × Text

def Violation.key (v : Violation) : GroupKey :=
  (v.guard, shapes.normaliseReason v.reason, shapes.normaliseCommand v.command)

/-- The violations of the protocol rows, each row in each group once. -/
def violationsOf (rows : List RefusedRow) : List (RefusedRow × Violation) :=
  (rows.filter (·.failureKind = "protocol".toList)).flatMap fun r =>
    (firsts (Violation.key shapes) (parseViolations (rowViolationText r))).map (r, ·)

/-- The corpus lines of a group's violations: whole ones, and cut ones when there are no others. -/
def examplesOf (members : List (RefusedRow × Violation)) : List Text × Bool :=
  let lines (vs : List (RefusedRow × Violation)) := sortedSet (vs.map fun m => encodeCorpusLine isWide m.2.command)
  let whole := lines (members.filter fun m => m.2.command ≠ [] ∧ ¬ m.2.truncated)
  let cut := lines (members.filter (·.2.truncated))
  ((if whole = [] then cut else whole).take 3, cut ≠ [] ∧ whole = [])

def groupOf (k : GroupKey) (members : List (RefusedRow × Violation)) : RefusalGroup :=
  let examples := (examplesOf isWide members).1
  let cand := examples.headD []
  { groupId := shapes.shortHash [k.1.text, k.2.1, k.2.2]
    guard := k.1
    reason := k.2.1
    shape := k.2.2
    n := members.length
    repos := sortedSet (members.map (·.1.repo))
    tasks := sortedSet (members.map fun m => m.1.repo ++ '/' :: m.1.taskId.take 10)
    rows := sortedSet (members.map (rowKey ·.1))
    examples := examples
    truncated := (examplesOf isWide members).2
    candidateHonest := cand
    candidateRefused :=
      if cand ≠ [] ∧ k.1 ∈ corpusRefusedPrefixes then cand ++ '\t' :: (k.1.text ++ [':']) else [] }

structure RefusalReport where
  groups : List RefusalGroup

/-- The most frequent first, then by guard, reason and shape. -/
def RefusalGroup.before (g h : RefusalGroup) : Prop :=
  h.n < g.n ∨ g.n = h.n ∧ [g.guard.text, g.reason, g.shape] ≤ [h.guard.text, h.reason, h.shape]

instance : DecidableRel RefusalGroup.before := fun _ _ => inferInstanceAs (Decidable (_ ∨ _))

def triageRefusals (rows : List RefusedRow) : RefusalReport :=
  let pairs := violationsOf shapes rows
  let key (m : RefusedRow × Violation) := m.2.key shapes
  ⟨((keysOf key pairs).map fun k => groupOf isWide shapes k (group key pairs k)).insertionSort
    RefusalGroup.before⟩

def RefusalReport.get (report : RefusalReport) (groupId : Text) : Option RefusalGroup :=
  report.groups.find? (·.groupId = groupId)

/-- The lines a group proposes are lines. -/
def RefusalGroup.Lined (g : RefusalGroup) : Prop :=
  (∀ e ∈ g.examples, OnLine e) ∧ OnLine g.candidateHonest

variable {isWide}

lemma onLine_examplesOf (members : List (RefusedRow × Violation)) :
    ∀ e ∈ (examplesOf isWide members).1, OnLine e := by
  have hlines : ∀ vs : List (RefusedRow × Violation),
      ∀ e ∈ sortedSet (vs.map fun m => encodeCorpusLine isWide m.2.command), OnLine e := by
    intro vs e he
    obtain ⟨m, -, rfl⟩ := List.mem_map.mp (mem_sortedSet.mp he)
    exact onLine_encodeCorpusLine isWide _
  intro e he
  replace he := List.mem_of_mem_take he
  split_ifs at he
  exacts [hlines _ e he, hlines _ e he]

lemma lined_groupOf (k : GroupKey) (members : List (RefusedRow × Violation)) :
    (groupOf isWide shapes k members).Lined := by
  refine ⟨onLine_examplesOf members, ?_⟩
  have hall : ∀ e ∈ (examplesOf isWide members).1, OnLine e := onLine_examplesOf members
  change OnLine ((examplesOf isWide members).1.headD [])
  cases he : (examplesOf isWide members).1 with
  | nil => exact onLine_nil
  | cons e es => exact hall e (by simp [he])

theorem lined_triageRefusals {rows : List RefusedRow} {groupId : Text} {g : RefusalGroup}
    (h : (triageRefusals isWide shapes rows).get groupId = some g) : g.Lined := by
  have hg := List.mem_of_find?_eq_some h
  rw [triageRefusals, List.mem_insertionSort] at hg
  obtain ⟨k, -, rfl⟩ := List.mem_map.mp hg
  exact lined_groupOf shapes k _

end Report

end CommitReplay.RefusalTriage
