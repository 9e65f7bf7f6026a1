import CommitReplay.MergeableStatement
import CommitReplay.ReadingReplay

/-! The review ledger: a review is anchored to the pack of the row it is about, and what is appended
is read back and verified as long as the lines can be found again and a record that is constructed
once more is the same record. -/
namespace CommitReplay.ReviewLedger

open CommitReplay.PythonText CommitReplay.JsonValue CommitReplay.JsonText CommitReplay.JsonRoundTrip
open CommitReplay.RowChecks CommitReplay.GradeRows CommitReplay.HashChain CommitReplay.JsonlObjects
open CommitReplay.TailLedger CommitReplay.ReviewRecords CommitReplay.MergeableStatement
open CommitReplay.SignoffRecords (redactStripped)

variable {F : Type} [PyFloat F]

section Anchor

/-- An evidence pack, as a dictionary. -/
abbrev Pack (F : Type) := List (String × Json F)

/-- What the anchor rule reads of a graded row. -/
structure ReviewedRow where
  rowHash : String
  evidencePackHash : String
deriving DecidableEq, Repr

variable (sha256 : Sha256) (isPrintable : Char → Bool)

/-- `pack_diff_sha256`. -/
def packDiffSha256 (pack : Pack F) : String :=
  match pack.lookup "grade" with
  | some (.obj grade) =>
    match grade.lookup "diff" with
    | some (.obj diff) => Finding.textItem isPrintable diff "diff_sha256"
    | _ => ""
  | _ => ""

/-- `check_patch_anchor`. -/
def checkPatchAnchor (r : ReviewRecord) (pack : Pack F) : Except ReviewError Unit :=
  if !r.reviewed then .ok ()
  else if packDiffSha256 isPrintable pack = "" then .error (.refused .noDiffInPack)
  else if r.patchSha256Reviewed ≠ packDiffSha256 isPrintable pack then
    .error (.refused .patchHashMismatch)
  else .ok ()

/-- The text under a key, if a text is there. -/
def textAt (d : Pack F) (key : String) : Option String :=
  match d.lookup key with
  | some (.str s) => some s
  | _ => none

/-- `verify_pack`. -/
def verifyPack (pack : Pack F) : Bool :=
  textAt pack "pack_hash" =
    some (sha256.hex (canonicalJson (.obj (ofPairs (pack.filter (·.1 ≠ "pack_hash"))))))

/-- `pack_is_authentic`. -/
def packIsAuthentic (pack : Pack F) (packHash : String) : Bool :=
  packHash ≠ "" && textAt pack "pack_hash" = some packHash && verifyPack sha256 pack

/-- `check_review_anchor`. -/
def checkReviewAnchor (r : ReviewRecord) (pack : Option (Pack F)) (row : Option ReviewedRow) :
    Except ReviewError Unit :=
  if row.any fun row => row.rowHash ≠ r.gradeRowHash then .error (.refused .rowMismatch)
  else if row.any fun row => row.evidencePackHash ≠ r.evidencePackHash then
    .error (.refused .packMismatch)
  else if pack.any fun pack => !packIsAuthentic sha256 pack r.evidencePackHash then
    .error (.refused .packMismatch)
  else if !r.reviewed then .ok ()
  else match pack with
    | none => .error (.refused .packRequired)
    | some pack => checkPatchAnchor isPrintable r pack

/-- A record given to the ledger, with the pack and the row of the caller. -/
structure Write (F : Type) where
  record : ReviewRecord
  pack : Option (Pack F)
  row : Option ReviewedRow

variable (isWide : Char → Bool)

/-- The checks of an append; the record itself goes on the chain. -/
def prepare (w : Write F) : Except ReviewError ReviewRecord := do
  checkMergeableStatement isWide w.record
  checkReviewAnchor sha256 isPrintable w.record w.pack w.row
  return w.record

/-- An append whose checks pass. -/
structure Write.Passes (w : Write F) : Prop where
  mergeable : checkMergeableStatement isWide w.record = .ok ()
  anchor : checkReviewAnchor sha256 isPrintable w.record w.pack w.row = .ok ()

lemma mapM_prepare {ws : List (Write F)} (h : ∀ w ∈ ws, w.Passes sha256 isPrintable isWide) :
    ws.mapM (prepare sha256 isPrintable isWide) = .ok (ws.map Write.record) := by
  induction ws with
  | nil => rfl
  | cons w ws ih =>
    obtain ⟨hw, hws⟩ := List.forall_mem_cons.mp h
    rw [List.mapM_cons, ih hws, prepare, hw.mergeable, hw.anchor]
    rfl

end Anchor

section Objects

omit [PyFloat F] in
lemma canonical_finding (f : Finding) : Canonical (F := F) f.toDict := by
  refine .obj (keySorted_ofPairs _) fun p hp => ?_
  have hp := mem_ofPairs hp
  simp only [Finding.items, List.mem_cons, List.not_mem_nil, or_false] at hp
  rcases hp with rfl | rfl | rfl | rfl
  · exact .str _
  · exact .str _
  · exact .str _
  · cases f.line with
    | none => exact .null
    | some n => exact .int n

omit [PyFloat F] in
lemma canonical_items (r : ReviewRecord) : ∀ p ∈ r.items (F := F), Canonical p.2 := by
  intro p hp
  simp only [ReviewRecord.items, hashed, ReviewRecord.ownItems, List.mem_append, List.mem_map,
    Option.mem_toList, Option.map_eq_some_iff] at hp
  rcases hp with ((⟨q, -, rfl⟩ | hp) | ⟨m, -, rfl⟩) | hp
  · exact .str _
  · simp only [List.mem_cons, List.not_mem_nil, or_false] at hp
    rcases hp with rfl | rfl
    · refine .arr fun v hv => ?_
      obtain ⟨f, -, rfl⟩ := List.mem_map.mp hv
      exact canonical_finding f
    · cases r.mergeable with
      | none => exact .null
      | some b => exact .bool b
  · exact .int m
  · simp only [List.mem_cons, List.not_mem_nil, or_false] at hp
    rcases hp with rfl | rfl <;> exact .str _

/-- The object a record's line is the text of. -/
def object (F : Type) [PyFloat F] (r : ReviewRecord) : Object F :=
  ⟨ofPairs r.items, .obj (keySorted_ofPairs _) fun p hp => canonical_items r p (mem_ofPairs hp)⟩

lemma object_val (r : ReviewRecord) : (object F r).1 = ofPairs r.items := by
  rw [object]

end Objects

section Ledger

variable (sha256 : Sha256) (isWide isPrintable : Char → Bool) (now : String) (uuid : Uuid)

lemma lookup_rowHash (r : ReviewRecord) :
    (object F r).1.lookup "row_hash" = some (.str r.rowHash) := by
  have hk := @lookup_items F r "row_hash" (.str r.rowHash) (by simp [ReviewRecord.items, hashed])
  rw [object_val, hk]

lemma rowHash_ne (prev : String) (r : ReviewRecord) : (r.chained isWide sha256 F prev).rowHash ≠ "" := by
  rw [ReviewRecord.rowHash_chained, ReviewRecord.computeHash]
  exact hex_ne_empty sha256 _

/-- The hash of a record on the chain is computed from the record itself. -/
lemma computeHash_chained (prev : String) (r : ReviewRecord) :
    (r.chained isWide sha256 F prev).rowHash = (r.chained isWide sha256 F prev).computeHash sha256 F := by
  have hbody : (r.chained isWide sha256 F prev).body (F := F) =
      ((r.again isWide).withHashes prev r.rowHash).body := by
    simp only [ReviewRecord.chained, ReviewRecord.withHashes_withHashes]
    exact (r.again isWide).body_withHashes prev _ _
  rw [ReviewRecord.rowHash_chained, ReviewRecord.computeHash, ReviewRecord.computeHash, hbody]

/-- `JsonlReviewLedger`. -/
def keeping : Keeping F ReviewRecord ReviewError where
  object := object F
  read := ReviewRecord.fromDict isWide isPrintable now uuid
  chained := ReviewRecord.chained isWide sha256 F
  prevHash r := r.prevHash
  rowHash r := r.rowHash
  computeHash r := r.computeHash sha256 F
  unreadable := .unreadableLine
  withoutHash := .lastWithoutHash
  prevMismatch n r := .prevMismatch n r.reviewId
  hashMismatch n r := .hashMismatch n r.reviewId
  lookup_rowHash := lookup_rowHash
  prevHash_chained _ _ := rfl
  rowHash_chained := computeHash_chained sha256 isWide
  rowHash_ne := rowHash_ne sha256 isWide

end Ledger

section Keeping

attribute [local irreducible] redactStripped

variable {isWide : Char → Bool}

/-- The bytes the writer looks for the last line in. -/
def tailSize : ℕ := 65536

/-- A record as it stands on the chain, up to the hashes there. -/
def onGenesis (isWide : Char → Bool) (r : ReviewRecord) : ReviewRecord :=
  (r.again isWide).withHashes genesisHash genesisHash

/-- The text of a record's line, up to the hashes on it. -/
def lineOf (F : Type) [PyFloat F] (isWide : Char → Bool) (r : ReviewRecord) : Text :=
  (object F (onGenesis isWide r)).line

/-- Reading a record construct it and its findings once more; that changes nothing. -/
structure Settled (isWide : Char → Bool) (r : ReviewRecord) : Prop where
  statement : redactStripped isWide (redactStripped isWide r.statement) =
    redactStripped isWide r.statement
  findings : ∀ f ∈ r.findings, redactStripped isWide f.note = f.note ∧
    redactStripped isWide f.file = f.file

lemma again_eq_iff (r : ReviewRecord) :
    r.again isWide = r ↔ redactStripped isWide r.statement = r.statement := by
  constructor
  · exact fun h => congrArg (fun r : ReviewRecord => r.statement) h
  · intro h
    obtain ⟨f, verdict, accepted, named⟩ := r
    simp only [ReviewRecord.again, h]

lemma finding_again_eq_iff (f : Finding) : f.again isWide = f ↔
    redactStripped isWide f.note = f.note ∧ redactStripped isWide f.file = f.file := by
  constructor
  · exact fun h => ⟨congrArg Finding.note h, congrArg Finding.file h⟩
  · rintro ⟨hnote, hfile⟩
    obtain ⟨kind, note, file, line, noted, hline⟩ := f
    simp only [Finding.again, hnote, hfile]

lemma withFindings_eq_self {r : ReviewRecord} (h : r.findings.map (·.again isWide) = r.findings) :
    r.withFindings isWide = r := by
  obtain ⟨f, verdict, accepted, named⟩ := r
  simp only [ReviewRecord.withFindings, h]

lemma reread_chained_iff (sha256 : Sha256) (r : ReviewRecord) (prev : String) :
    (r.chained isWide sha256 F prev).reread isWide = r.chained isWide sha256 F prev ↔
      Settled isWide r := by
  set c := r.chained isWide sha256 F prev with hc
  have hstatement : c.statement = redactStripped isWide r.statement := rfl
  have hfindings : c.findings = r.findings := rfl
  have hmap : c.findings.map (·.again isWide) = c.findings ↔
      ∀ f ∈ r.findings, redactStripped isWide f.note = f.note ∧ redactStripped isWide f.file = f.file := by
    rw [hfindings]
    conv_lhs => rw [← List.map_id r.findings, List.map_map]
    rw [List.map_inj_left]
    exact forall₂_congr fun f _ => finding_again_eq_iff f
  constructor
  · intro h
    refine ⟨?_, hmap.mp (congrArg (fun r : ReviewRecord => r.findings) h)⟩
    rw [← hstatement]
    exact congrArg (fun r : ReviewRecord => r.statement) h
  · intro h
    rw [ReviewRecord.reread, withFindings_eq_self (hmap.mpr h.findings), again_eq_iff, hstatement,
      h.statement]

/-- Neither the separators nor the length of a line depend on its place in the chain. -/
lemma line_chained (sha256 : Sha256) (r : ReviewRecord) {prev : String} (hprev : IsHash prev) :
    (object F (r.chained isWide sha256 F prev)).hasSeparator =
      (object F (onGenesis isWide r)).hasSeparator ∧
    (utf8Encode (object F (r.chained isWide sha256 F prev)).line).length =
      (utf8Encode (lineOf F isWide r)).length := by
  have hitems : ∀ p h, (object F ((r.again isWide).withHashes p h)).1 =
      ofPairs (hashed (r.again isWide).ownItems p h) := fun p h => by
    rw [object_val, ReviewRecord.items, ReviewRecord.ownItems_withHashes]
    rfl
  have hrow : IsHash (r.chained isWide sha256 F prev).rowHash := by
    rw [ReviewRecord.rowHash_chained, ReviewRecord.computeHash]
    exact isHash_hex sha256 _
  have hc : (object F (r.chained isWide sha256 F prev)).1 =
      ofPairs (hashed (r.again isWide).ownItems prev (r.chained isWide sha256 F prev).rowHash) := by
    rw [ReviewRecord.chained]
    exact hitems _ _
  exact line_hashed hc (hitems _ _) hprev hrow isHash_genesisHash isHash_genesisHash

variable (sha256 : Sha256) (isWide) (isPrintable : Char → Bool) (now : String) (uuid : Uuid)

/-- After every run of appends that pass, with short lines, the ledger stands exactly if each record
is settled and no record but the last holds a separator. -/
theorem stands_of_passes {ws : List (Write F)} (hpass : ∀ w ∈ ws, w.Passes sha256 isPrintable isWide)
    (hshort : ∀ w ∈ ws.dropLast, (utf8Encode (lineOf F isWide w.record)).length < tailSize) :
    (keeping (F := F) sha256 isWide isPrintable now uuid).Stands tailSize genesisHash isPrintable
        (prepare sha256 isPrintable isWide) ws ↔
      (∀ w ∈ ws, Settled isWide w.record) ∧
        ∀ w ∈ ws.dropLast, (object F (onGenesis isWide w.record)).hasSeparator = false := by
  set K : Keeping F ReviewRecord ReviewError := keeping sha256 isWide isPrintable now uuid
  have hhash : ∀ prev r, IsHash (K.rowHash (K.chained prev r)) := fun prev r => by
    change IsHash (r.chained isWide sha256 F prev).rowHash
    rw [ReviewRecord.rowHash_chained, ReviewRecord.computeHash]
    exact isHash_hex sha256 _
  have hdrop : (ws.map Write.record).dropLast = ws.dropLast.map Write.record := List.map_dropLast.symm
  have hlines : ∀ c ∈ (K.chainOf genesisHash (ws.map Write.record)).dropLast,
      (utf8Encode (K.object c).line).length < tailSize := by
    rw [Keeping.dropLast_chainOf, hdrop]
    refine (Keeping.forall_chainOf (q := fun r => (utf8Encode (lineOf F isWide r)).length < tailSize)
      isHash_genesisHash hhash (fun prev r hprev => ?_) _).mpr (List.forall_mem_map.mpr hshort)
    exact iff_of_eq (congrArg (· < tailSize) (line_chained sha256 r hprev).2)
  rw [Keeping.stands_iff K (mapM_prepare sha256 isPrintable isWide hpass) hlines, and_comm]
  refine and_congr ?_ ?_
  · rw [← List.forall_mem_map (f := Write.record) (P := Settled isWide)]
    refine Keeping.forall_chainOf isHash_genesisHash hhash (fun prev r _ => ?_) _
    rw [← reread_chained_iff (F := F) sha256 r prev]
    change ReviewRecord.fromDict isWide isPrintable now uuid
      (.obj (object F (r.chained isWide sha256 F prev)).1) = _ ↔ _
    rw [object_val, fromDict_items]
    exact ⟨fun h => Except.ok.inj h, fun h => congrArg Except.ok h⟩
  · rw [Keeping.dropLast_chainOf, hdrop, ← List.forall_mem_map (f := Write.record)
      (P := fun r => (object F (onGenesis isWide r)).hasSeparator = false)]
    refine Keeping.forall_chainOf isHash_genesisHash hhash (fun prev r hprev => ?_) _
    exact iff_of_eq (congrArg (· = false) (line_chained sha256 r hprev).1)

end Keeping

end CommitReplay.ReviewLedger
