import CommitReplay.SignoffRecords

/-! The records of the review ledger. The statement of a record is redacted whenever the record is
constructed: when it is made, chained and read; the note and the file of a finding when the finding
is made and when it is read. -/
namespace CommitReplay.ReviewRecords

open CommitReplay.PythonText CommitReplay.JsonValue CommitReplay.JsonText CommitReplay.JsonRoundTrip
open CommitReplay.RowChecks CommitReplay.GradeRows CommitReplay.JsonlObjects CommitReplay.TailLedger
open CommitReplay.SignoffRecords (redactStripped strip_redactStripped)

/-- What a finding is about; the most severe first. -/
inductive Kind
  | regression | defect | apiChange | style
deriving DecidableEq, Repr

namespace Kind

def name : Kind → String
  | .regression => "regression"
  | .defect => "defect"
  | .apiChange => "api_change"
  | .style => "style"

/-- `FINDING_KINDS`, which is `SEVERITY`. -/
def severity : List Kind := [.regression, .defect, .apiChange, .style]

def ofName (s : String) : Option Kind := severity.find? (·.name = s)

lemma ofName_name (k : Kind) : ofName k.name = some k := by cases k <;> decide

end Kind

inductive Verdict
  | ok | finding (k : Kind) | notReviewed
deriving DecidableEq, Repr

namespace Verdict

def name : Verdict → String
  | .ok => "ok"
  | .finding k => k.name
  | .notReviewed => "not_reviewed"

def all : List Verdict := [.ok, .finding .defect, .finding .regression, .finding .apiChange,
  .finding .style, .notReviewed]

def ofName (s : String) : Option Verdict := all.find? (·.name = s)

lemma ofName_name (v : Verdict) : ofName v.name = some v := by
  rcases v with _ | k | _
  · decide
  · cases k <;> decide
  · decide

end Verdict

/-- The codes of `ReviewRefused`. -/
inductive Refusal
  | patchHashMismatch | patchHashMissing | noDiffInPack | rowHashMissing | rowMismatch | packMismatch
  | packRequired | mergeableContradicts (said : Bool) (mergeable : Option Bool)
deriving DecidableEq, Repr

def Refusal.code : Refusal → String
  | .patchHashMismatch => "patch_hash_mismatch"
  | .patchHashMissing => "patch_hash_missing"
  | .noDiffInPack => "no_diff_in_pack"
  | .rowHashMissing => "row_hash_missing"
  | .rowMismatch => "row_mismatch"
  | .packMismatch => "pack_hash_mismatch"
  | .packRequired => "pack_required"
  | .mergeableContradicts _ _ => "mergeable_contradicts_statement"

inductive ReviewError
  | unknownKind (kind : String) | noNote | badLine (line : ℤ)
  | refused (why : Refusal)
  | noRepo | noTask | noReviewer | unknownVerdict (verdict : String) | noStatement
  | unreadFindings | unreadMergeable | unreadPatch
  | otherVerdict (verdict derived : Verdict) | notSha256 | regressionMergeable | badMinutes (minutes : ℤ)
  /-- A value of another type than its field is declared with, which no writer of records gives. -/
  | untyped (field : String)
  | unreadableLine | lastWithoutHash
  | prevMismatch (n : ℕ) (reviewId : String) | hashMismatch (n : ℕ) (reviewId : String)
deriving DecidableEq, Repr

/-- One thing the reviewer saw. -/
structure Finding where
  kind : Kind
  note : String
  file : String
  line : Option ℤ
  noted : strip note.toList ≠ []
  line_pos : ∀ n ∈ line, 1 ≤ n
deriving DecidableEq

namespace Finding

variable (isWide isPrintable : Char → Bool)

def make (kind note file : String) (line : Option ℤ) : Except ReviewError Finding :=
  match Kind.ofName kind with
  | none => .error (.unknownKind kind)
  | some k =>
    if hn : strip note.toList = [] then .error .noNote
    else if hl : ∀ n ∈ line, 1 ≤ n then .ok {
      kind := k
      note := redactStripped isWide note
      file := redactStripped isWide file
      line := line
      noted := strip_redactStripped isWide hn
      line_pos := hl }
    else .error (.badLine (line.getD 0))

/-- The finding constructed again from what was stored of it. -/
def again (f : Finding) : Finding :=
  { f with
    note := redactStripped isWide f.note
    file := redactStripped isWide f.file
    noted := strip_redactStripped isWide f.noted }

attribute [local irreducible] redactStripped in
@[simp] lemma kind_again (f : Finding) : (f.again isWide).kind = f.kind := rfl

lemma make_self (f : Finding) : make isWide f.kind.name f.note f.file f.line = .ok (f.again isWide) := by
  simp only [make, Kind.ofName_name, dif_neg f.noted, dif_pos f.line_pos, again]

variable {F : Type}

def items (f : Finding) : List (String × Json F) :=
  [("kind", .str f.kind.name), ("note", .str f.note), ("file", .str f.file),
    ("line", f.line.elim .null .int)]

def toDict (f : Finding) : Json F := .obj (ofPairs f.items)

lemma items_nodup (f : Finding) : (f.items.map (Prod.fst (β := Json F))).Nodup := by
  simp [items]

lemma lookup_items {f : Finding} {k : String} {v : Json F} (h : (k, v) ∈ f.items) :
    (ofPairs f.items).lookup k = some v := by
  have hk := lookup_ofPairs_of_mem f.items_nodup h
  exact hk

/-- `None` or an empty text is no line. -/
def lineField (d : List (String × Json F)) : Except ReviewError (Option ℤ) :=
  match d.lookup "line" with
  | none | some .null | some (.str "") => .ok none
  | some (.int n) => .ok (some n)
  | some _ => .error (.untyped "line")

variable [PyFloat F]

/-- `str(d.get(key, "") or "")`. -/
def textItem (d : List (String × Json F)) (key : String) : String :=
  ((d.lookup key).filter truthy).elim "" (PythonRepr.pyStr isPrintable)

/-- `from_dict`, for what is read of a line. -/
def fromDict : Json F → Except ReviewError Finding
  | .obj d => do
    let line ← lineField d
    make isWide (SignoffRecords.Attestation.textItem isPrintable d "kind")
      (SignoffRecords.Attestation.textItem isPrintable d "note") (textItem isPrintable d "file") line
  | _ => .error (.untyped "findings")

/-- What was stored is what is read, constructed once more. -/
theorem fromDict_toDict (f : Finding) :
    fromDict (F := F) isWide isPrintable f.toDict = .ok (f.again isWide) := by
  have htext : ∀ {k v : String}, (k, Json.str (F := F) v) ∈ f.items →
      SignoffRecords.Attestation.textItem isPrintable (ofPairs (f.items (F := F))) k = v := by
    intro k v h
    rw [SignoffRecords.Attestation.textItem, lookup_items h]
    rfl
  have hfile : textItem isPrintable (ofPairs (f.items (F := F))) "file" = f.file := by
    rw [textItem, lookup_items (f := f) (v := .str f.file) (by simp [items])]
    by_cases hempty : f.file = ""
    · rw [hempty]
      rfl
    · have htruthy : truthy (F := F) (.str f.file) = true := by simpa [truthy] using hempty
      rw [Option.filter_some, if_pos htruthy]
      rfl
  have hline : lineField (ofPairs (f.items (F := F))) = .ok f.line := by
    rw [lineField, lookup_items (f := f) (v := f.line.elim .null .int) (by simp [items])]
    cases f.line <;> rfl
  rw [toDict, fromDict, hline, hfile, @htext "kind" f.kind.name (by simp [items]),
    @htext "note" f.note (by simp [items])]
  exact f.make_self isWide

end Finding

section Constants

def maxReviewMinutes : ℤ := 480

def reviewSchema : String := "crb.review.v1"

/-- A 64-character lowercase hex digest. -/
def isSha256 (value : String) : Bool :=
  value.toList.length = 64 && value.toList.all (· ∈ hexDigits.toList)

/-- The most severe kind among the findings, or `ok`. -/
def deriveVerdict (findings : List Finding) : Verdict :=
  ((Kind.severity.find? fun k => findings.any (·.kind = k)).map Verdict.finding).getD .ok

def hasRegression (findings : List Finding) : Bool := findings.any (·.kind = .regression)

end Constants

/-- The fields of a record but its verdict. -/
structure Fields where
  gradeRowHash : String
  repo : String
  taskId : String
  reviewer : String
  statement : String
  findings : List Finding
  mergeable : Option Bool
  patchSha256Reviewed : String
  evidencePackHash : String
  minutes : Option ℤ
  apparatusVersion : String
  created : String
  schema : String
  reviewId : String
  prevHash : String
  rowHash : String
deriving DecidableEq

namespace Fields

/-- The checks before the verdict is looked at. -/
def unnamed (f : Fields) : Option ReviewError :=
  if f.gradeRowHash = "" then some (.refused .rowHashMissing)
  else if f.repo = "" then some .noRepo
  else if f.taskId = "" then some .noTask
  else if f.reviewer = "" then some .noReviewer
  else none

/-- What a record without a review may not say. -/
def unread (f : Fields) : Option ReviewError :=
  if f.findings ≠ [] then some .unreadFindings
  else if f.mergeable ≠ none then some .unreadMergeable
  else if f.patchSha256Reviewed ≠ "" then some .unreadPatch
  else none

/-- What is wrong with a review of this verdict. -/
def misread (f : Fields) (v : Verdict) : Option ReviewError :=
  if v ≠ deriveVerdict f.findings then some (.otherVerdict v (deriveVerdict f.findings))
  else if f.patchSha256Reviewed = "" then some (.refused .patchHashMissing)
  else if !isSha256 f.patchSha256Reviewed then some .notSha256
  else if f.mergeable = some true ∧ hasRegression f.findings then some .regressionMergeable
  else none

def badMinutes (f : Fields) : Option ReviewError :=
  f.minutes.bind fun m => if 1 ≤ m ∧ m ≤ maxReviewMinutes then none else some (.badMinutes m)

/-- The first check that fails. -/
def refusal (f : Fields) (v : Verdict) : Option ReviewError :=
  f.unnamed.or <|
    if strip f.statement.toList = [] then some .noStatement
    else (if v = .notReviewed then f.unread else f.misread v).or f.badMinutes

/-- What holds of a reviewed record the constructor lets through. -/
structure Read (f : Fields) (v : Verdict) : Prop where
  derived : v = deriveVerdict f.findings
  patch : f.patchSha256Reviewed ≠ ""
  sha256 : isSha256 f.patchSha256Reviewed = true
  mergeable : ¬ (f.mergeable = some true ∧ hasRegression f.findings = true)

/-- What holds of a record the constructor lets through. -/
structure Accepted (f : Fields) (v : Verdict) : Prop where
  row : f.gradeRowHash ≠ ""
  repo : f.repo ≠ ""
  task : f.taskId ≠ ""
  reviewer : f.reviewer ≠ ""
  stated : strip f.statement.toList ≠ []
  unread : v = .notReviewed → f.findings = [] ∧ f.mergeable = none ∧ f.patchSha256Reviewed = ""
  read : v ≠ .notReviewed → f.Read v
  minutes : ∀ m ∈ f.minutes, 1 ≤ m ∧ m ≤ maxReviewMinutes

lemma unnamed_eq_none_iff (f : Fields) : f.unnamed = none ↔
    f.gradeRowHash ≠ "" ∧ f.repo ≠ "" ∧ f.taskId ≠ "" ∧ f.reviewer ≠ "" := by
  rw [unnamed]
  split_ifs <;> simp_all

lemma unread_eq_none_iff (f : Fields) : f.unread = none ↔
    f.findings = [] ∧ f.mergeable = none ∧ f.patchSha256Reviewed = "" := by
  rw [unread]
  split_ifs <;> simp_all

lemma misread_eq_none_iff (f : Fields) (v : Verdict) : f.misread v = none ↔ f.Read v := by
  constructor
  · intro h
    simp only [misread] at h
    split_ifs at h with hv hp hs hm
    exact ⟨not_not.mp hv, hp, by simpa using hs, hm⟩
  · intro h
    rw [misread, if_neg (not_not.mpr h.derived), if_neg h.patch, if_neg (by simp [h.sha256]),
      if_neg h.mergeable]

lemma badMinutes_eq_none_iff (f : Fields) :
    f.badMinutes = none ↔ ∀ m ∈ f.minutes, 1 ≤ m ∧ m ≤ maxReviewMinutes := by
  simp only [badMinutes, Option.bind_eq_none_iff, ite_eq_left_iff, reduceCtorEq, imp_false, not_not,
    Option.mem_def]

theorem refusal_eq_none_iff (f : Fields) (v : Verdict) : f.refusal v = none ↔ f.Accepted v := by
  rw [refusal, Option.or_eq_none_iff, unnamed_eq_none_iff]
  constructor
  · rintro ⟨⟨hrow, hrepo, htask, hreviewer⟩, h⟩
    split_ifs at h with hs hv
    · rw [Option.or_eq_none_iff, unread_eq_none_iff, badMinutes_eq_none_iff] at h
      exact ⟨hrow, hrepo, htask, hreviewer, hs, fun _ => h.1, fun hn => absurd hv hn, h.2⟩
    · rw [Option.or_eq_none_iff, misread_eq_none_iff, badMinutes_eq_none_iff] at h
      exact ⟨hrow, hrepo, htask, hreviewer, hs, fun hn => absurd hn hv, fun _ => h.1, h.2⟩
  · intro h
    refine ⟨⟨h.row, h.repo, h.task, h.reviewer⟩, ?_⟩
    rw [if_neg h.stated, Option.or_eq_none_iff, badMinutes_eq_none_iff]
    refine ⟨?_, h.minutes⟩
    split_ifs with hv
    · exact (unread_eq_none_iff f).mpr (h.unread hv)
    · exact (misread_eq_none_iff f v).mpr (h.read hv)

end Fields

/-- A record that exists: its constructor's checks passed. -/
structure ReviewRecord extends Fields where
  verdict : Verdict
  accepted : toFields.Accepted verdict
  named : reviewId ≠ ""
deriving DecidableEq

namespace ReviewRecord

variable (isWide : Char → Bool)

/-- Whether the reviewer read the patch. -/
def reviewed (r : ReviewRecord) : Bool := r.verdict ≠ .notReviewed

lemma accepted_restated {f : Fields} {v : Verdict} (h : f.Accepted v) (reviewId : String) :
    Fields.Accepted { f with
      statement := redactStripped isWide f.statement
      reviewId := reviewId } v :=
  ⟨h.row, h.repo, h.task, h.reviewer, strip_redactStripped isWide h.stated, h.unread,
    fun hv => ⟨(h.read hv).derived, (h.read hv).patch, (h.read hv).sha256, (h.read hv).mergeable⟩,
    h.minutes⟩

/-- The constructor; `uuid` is for a record without an id. -/
def make (uuid : Uuid) (verdict : String) (f : Fields) : Except ReviewError ReviewRecord :=
  match Verdict.ofName verdict with
  | none => .error (f.unnamed.getD (.unknownVerdict verdict))
  | some v =>
    match h : f.refusal v with
    | some e => .error e
    | none => .ok { f with
        statement := redactStripped isWide f.statement
        reviewId := if f.reviewId = "" then uuid.1 else f.reviewId
        verdict := v
        accepted := accepted_restated isWide ((f.refusal_eq_none_iff v).mp h) _
        named := by
          split_ifs with hid
          · exact uuid.2
          · exact hid }

/-- A copy of a record, constructed again. -/
def again (r : ReviewRecord) : ReviewRecord :=
  { r with
    statement := redactStripped isWide r.statement
    accepted := accepted_restated isWide r.accepted r.reviewId }

lemma make_of_accepted (uuid : Uuid) {f : Fields} {v : Verdict} (h : f.Accepted v) :
    ∃ r, make isWide uuid v.name f = .ok r ∧ r.verdict = v ∧ r.toFields = { f with
      statement := redactStripped isWide f.statement
      reviewId := if f.reviewId = "" then uuid.1 else f.reviewId } := by
  rw [make, Verdict.ofName_name]
  dsimp only
  split
  · rename_i e he
    rw [(f.refusal_eq_none_iff v).mpr h] at he
    cases he
  · exact ⟨_, rfl, rfl, rfl⟩

lemma make_self (uuid : Uuid) (r : ReviewRecord) :
    make isWide uuid r.verdict.name r.toFields = .ok (r.again isWide) := by
  rw [make, Verdict.ofName_name]
  dsimp only
  split
  · rename_i e he
    rw [(r.refusal_eq_none_iff r.verdict).mpr r.accepted] at he
    cases he
  · simp only [if_neg r.named, again]

variable {F : Type} [PyFloat F] (sha256 : Sha256)

/-- The fields that hold a text. -/
def textItems (r : ReviewRecord) : List (String × String) :=
  [("grade_row_hash", r.gradeRowHash), ("repo", r.repo), ("task_id", r.taskId),
    ("reviewer", r.reviewer), ("statement", r.statement), ("verdict", r.verdict.name),
    ("patch_sha256_reviewed", r.patchSha256Reviewed), ("evidence_pack_hash", r.evidencePackHash),
    ("apparatus_version", r.apparatusVersion), ("created", r.created), ("schema", r.schema),
    ("review_id", r.reviewId)]

/-- The fields a record brings to the ledger; the minutes only where they are stated. -/
def ownItems (r : ReviewRecord) : List (String × Json F) :=
  r.textItems.map (fun p => (p.1, .str p.2)) ++
    [("findings", .arr (r.findings.map Finding.toDict)),
      ("mergeable", r.mergeable.elim .null .bool)] ++
    (r.minutes.map fun m => ("minutes", Json.int m)).toList

/-- `to_dict`. -/
def items (r : ReviewRecord) : List (String × Json F) := hashed r.ownItems r.prevHash r.rowHash

/-- `body()`: every field but the record's own hash. -/
def body (r : ReviewRecord) : Json F := .obj (ofPairs (r.ownItems ++ [("prev_hash", .str r.prevHash)]))

def computeHash (F : Type) [PyFloat F] (r : ReviewRecord) : String :=
  sha256.hex (canonicalJson (r.body (F := F)))

/-- A copy with other hashes. -/
def withHashes (r : ReviewRecord) (prevHash rowHash : String) : ReviewRecord :=
  { r with
    prevHash := prevHash
    rowHash := rowHash
    accepted := ⟨r.accepted.row, r.accepted.repo, r.accepted.task, r.accepted.reviewer,
      r.accepted.stated, r.accepted.unread, fun hv => ⟨(r.accepted.read hv).derived,
        (r.accepted.read hv).patch, (r.accepted.read hv).sha256, (r.accepted.read hv).mergeable⟩,
      r.accepted.minutes⟩ }

omit [PyFloat F] in
@[simp] lemma withHashes_withHashes (r : ReviewRecord) (prev row prev' row' : String) :
    (r.withHashes prev row).withHashes prev' row' = r.withHashes prev' row' := rfl

omit [PyFloat F] in
lemma ownItems_withHashes (r : ReviewRecord) (prev row : String) :
    (r.withHashes prev row).ownItems (F := F) = r.ownItems := rfl

omit [PyFloat F] in
/-- The body does not hold the record's own hash. -/
lemma body_withHashes (r : ReviewRecord) (prev row row' : String) :
    (r.withHashes prev row).body (F := F) = (r.withHashes prev row').body := rfl

/-- `chained`: the copy on the chain after `prevHash`. -/
def chained (F : Type) [PyFloat F] (prevHash : String) (r : ReviewRecord) : ReviewRecord :=
  let copy := (r.again isWide).withHashes prevHash r.rowHash
  copy.withHashes prevHash (copy.computeHash sha256 F)

lemma rowHash_chained (prevHash : String) (r : ReviewRecord) :
    (r.chained isWide sha256 F prevHash).rowHash =
      ((r.again isWide).withHashes prevHash r.rowHash).computeHash sha256 F := rfl

section Rereading

lemma any_again (findings : List Finding) (k : Kind) :
    (findings.map (·.again isWide)).any (·.kind = k) = findings.any (·.kind = k) := by
  induction findings with
  | nil => rfl
  | cons f fs ih => rw [List.map_cons, List.any_cons, List.any_cons, ih, Finding.kind_again]

lemma deriveVerdict_again (findings : List Finding) :
    deriveVerdict (findings.map (·.again isWide)) = deriveVerdict findings := by
  simp only [deriveVerdict, any_again]

lemma accepted_again {f : Fields} {v : Verdict} (h : f.Accepted v) :
    Fields.Accepted { f with findings := f.findings.map (·.again isWide) } v := by
  refine ⟨h.row, h.repo, h.task, h.reviewer, h.stated, fun hv => ?_, fun hv => ?_, h.minutes⟩
  · obtain ⟨hf, hm, hp⟩ := h.unread hv
    exact ⟨by simp [hf], hm, hp⟩
  · have hr := h.read hv
    refine ⟨?_, hr.patch, hr.sha256, ?_⟩
    · rw [deriveVerdict_again]
      exact hr.derived
    · dsimp only
      rw [hasRegression, any_again]
      exact hr.mergeable

/-- The record with its findings constructed again. -/
def withFindings (r : ReviewRecord) : ReviewRecord :=
  { r with
    findings := r.findings.map (·.again isWide)
    accepted := accepted_again isWide r.accepted }

/-- The record constructed again from what was stored of it. -/
def reread (r : ReviewRecord) : ReviewRecord := (r.withFindings isWide).again isWide

end Rereading

end ReviewRecord

section Reading

variable {F : Type} [PyFloat F] (isWide isPrintable : Char → Bool) (now : String) (uuid : Uuid)

/-- A field that holds a text; one without a default must be there. -/
def textField (d : List (String × Json F)) (k : String) (default : Option String) :
    Except ReviewError String :=
  match d.lookup k with
  | some (.str s) => .ok s
  | none => default.elim (.error (.untyped k)) .ok
  | some _ => .error (.untyped k)

def mergeableField (d : List (String × Json F)) : Except ReviewError (Option Bool) :=
  match d.lookup "mergeable" with
  | none | some .null => .ok none
  | some (.bool b) => .ok (some b)
  | some _ => .error (.untyped "mergeable")

def minutesField (d : List (String × Json F)) : Except ReviewError (Option ℤ) :=
  match d.lookup "minutes" with
  | none | some .null => .ok none
  | some (.int m) => .ok (some m)
  | some _ => .error (.untyped "minutes")

def findingsField (d : List (String × Json F)) : Except ReviewError (List Finding) :=
  match d.lookup "findings" with
  | none | some .null => .ok []
  | some (.arr xs) => xs.mapM (Finding.fromDict isWide isPrintable)
  | some _ => .error (.untyped "findings")

/-- `from_dict`. -/
def ReviewRecord.fromDict : Json F → Except ReviewError ReviewRecord
  | .obj d => do
    let gradeRowHash ← textField d "grade_row_hash" none
    let repo ← textField d "repo" none
    let taskId ← textField d "task_id" none
    let reviewer ← textField d "reviewer" none
    let statement ← textField d "statement" none
    let verdict ← textField d "verdict" (some Verdict.ok.name)
    let patchSha256Reviewed ← textField d "patch_sha256_reviewed" (some "")
    let evidencePackHash ← textField d "evidence_pack_hash" (some "")
    let apparatusVersion ← textField d "apparatus_version" (some SignoffRecords.apparatusVersion)
    let created ← textField d "created" (some now)
    let schema ← textField d "schema" (some reviewSchema)
    let reviewId ← textField d "review_id" (some "")
    let prevHash ← textField d "prev_hash" (some "")
    let rowHash ← textField d "row_hash" (some "")
    let mergeable ← mergeableField d
    let minutes ← minutesField d
    let findings ← findingsField isWide isPrintable d
    make isWide uuid verdict {
      gradeRowHash := gradeRowHash
      repo := repo
      taskId := taskId
      reviewer := reviewer
      statement := statement
      findings := findings
      mergeable := mergeable
      patchSha256Reviewed := patchSha256Reviewed
      evidencePackHash := evidencePackHash
      minutes := minutes
      apparatusVersion := apparatusVersion
      created := created
      schema := schema
      reviewId := reviewId
      prevHash := prevHash
      rowHash := rowHash }
  | _ => .error .unreadableLine

omit [PyFloat F] in
lemma items_nodup (r : ReviewRecord) : (r.items.map (Prod.fst (β := Json F))).Nodup := by
  cases hm : r.minutes <;>
    simp [ReviewRecord.items, hashed, ReviewRecord.ownItems, ReviewRecord.textItems, hm]

omit [PyFloat F] in
lemma lookup_items {r : ReviewRecord} {k : String} {v : Json F} (h : (k, v) ∈ r.items) :
    (ofPairs r.items).lookup k = some v := by
  have hk := lookup_ofPairs_of_mem (items_nodup r) h
  exact hk

omit [PyFloat F] in
lemma textField_items {r : ReviewRecord} {k v : String} (default : Option String)
    (h : (k, v) ∈ r.textItems ++ [("prev_hash", r.prevHash), ("row_hash", r.rowHash)]) :
    textField (ofPairs (r.items (F := F))) k default = .ok v := by
  have hmem : (k, Json.str (F := F) v) ∈ r.items := by
    rw [ReviewRecord.items, hashed, ReviewRecord.ownItems]
    rcases List.mem_append.mp h with h | h
    · simp only [List.mem_append, List.mem_map]
      exact .inl (.inl (.inl ⟨(k, v), h, rfl⟩))
    · simp only [List.mem_append]
      exact .inr (by simpa using h)
  have hk := lookup_items hmem
  rw [textField, hk]

omit [PyFloat F] in
lemma minutesField_items (r : ReviewRecord) : minutesField (ofPairs (r.items (F := F))) = .ok r.minutes := by
  cases hm : r.minutes with
  | none =>
    have hk : (ofPairs (r.items (F := F))).lookup "minutes" = none := by
      refine lookup_ofPairs_eq_none ?_
      simp [ReviewRecord.items, hashed, ReviewRecord.ownItems, ReviewRecord.textItems, hm]
    rw [minutesField, hk]
  | some m =>
    have hk := @lookup_items F r "minutes" (.int m) (by
      simp [ReviewRecord.items, hashed, ReviewRecord.ownItems, hm])
    rw [minutesField, hk]

omit [PyFloat F] in
lemma mergeableField_items (r : ReviewRecord) :
    mergeableField (ofPairs (r.items (F := F))) = .ok r.mergeable := by
  have hk := @lookup_items F r "mergeable" (r.mergeable.elim .null .bool) (by
    simp [ReviewRecord.items, hashed, ReviewRecord.ownItems])
  rw [mergeableField, hk]
  cases r.mergeable <;> rfl

lemma findingsField_items (r : ReviewRecord) :
    findingsField isWide isPrintable (ofPairs (r.items (F := F))) =
      .ok (r.findings.map (·.again isWide)) := by
  have hk := @lookup_items F r "findings" (.arr (r.findings.map Finding.toDict)) (by
    simp [ReviewRecord.items, hashed, ReviewRecord.ownItems])
  rw [findingsField, hk]
  dsimp only
  induction r.findings with
  | nil => rfl
  | cons f fs ih =>
    rw [List.map_cons, List.mapM_cons, ih, Finding.fromDict_toDict]
    rfl

/-- What was stored is what is read, constructed once more. -/
theorem fromDict_items (r : ReviewRecord) :
    ReviewRecord.fromDict (F := F) isWide isPrintable now uuid (.obj (ofPairs r.items)) =
      .ok (r.reread isWide) := by
  have htext := @textField_items F r
  have hmem : ∀ p ∈ r.textItems, ∀ default, textField (ofPairs (r.items (F := F))) p.1 default = .ok p.2 :=
    fun p hp default => htext default (List.mem_append_left _ hp)
  simp only [ReviewRecord.textItems, List.forall_mem_cons] at hmem
  obtain ⟨hrow, hrepo, htask, hreviewer, hstatement, hverdict, hpatch, hpack, hversion, hcreated,
    hschema, hid, -⟩ := hmem
  rw [ReviewRecord.fromDict, hrow, hrepo, htask, hreviewer, hstatement, hverdict, hpatch, hpack, hversion,
    hcreated, hschema, hid, htext _ (k := "prev_hash") (v := r.prevHash) (by simp),
    htext _ (k := "row_hash") (v := r.rowHash) (by simp), mergeableField_items, minutesField_items,
    findingsField_items]
  simp only [bind, Except.bind]
  exact (r.withFindings isWide).make_self isWide uuid

end Reading

end CommitReplay.ReviewRecords
