import CommitReplay.FactoryChain
import CommitReplay.ReadingReplay
import CommitReplay.RoutingBar
import CommitReplay.SignoffGate

/-! The sign-off ledger: what is appended to it is read back and verified, as long as the lines it
holds can be found again and a record that is constructed once more is the same record. -/
namespace CommitReplay.SignoffLedger

open CommitReplay.PythonText CommitReplay.JsonValue CommitReplay.JsonText CommitReplay.JsonRoundTrip
open CommitReplay.GradeRows CommitReplay.HashChain CommitReplay.JsonlObjects CommitReplay.TailLedger
open CommitReplay.FactoryEvents CommitReplay.Redaction CommitReplay.RoutingRule
open CommitReplay.SignoffRecords CommitReplay.SignoffGate

variable {F R : Type} [PyFloat F] [Floats R]

section Objects

omit [PyFloat F] in
lemma canonical_attestation (a : Option Attestation) :
    Canonical (F := F) (a.elim .null Attestation.toDict) := by
  cases a with
  | none => exact .null
  | some a =>
    refine .obj (keySorted_ofPairs _) fun p hp => ?_
    have hp := mem_ofPairs hp
    simp only [Attestation.items, List.mem_cons, List.not_mem_nil, or_false] at hp
    rcases hp with rfl | rfl | rfl | rfl <;> exact .str _

omit [PyFloat F] in
lemma canonical_items (f : Fields F) : ∀ p ∈ f.items, Canonical p.2 := by
  intro p hp
  simp only [Fields.items, hashed, Fields.ownItems, List.mem_append, List.mem_map] at hp
  rcases hp with ((⟨q, -, rfl⟩ | hp) | ⟨k, -, rfl⟩) | hp
  · exact .str _
  · simp only [List.mem_cons, List.not_mem_nil, or_false] at hp
    rcases hp with rfl | rfl | rfl | rfl
    · exact .bool _
    · exact .int _
    · exact f.policyThresholds.2
    · exact canonical_attestation f.attestation
  · exact f.stamp_inOrder k
  · simp only [List.mem_cons, List.not_mem_nil, or_false] at hp
    rcases hp with rfl | rfl <;> exact .str _

/-- The object a record's line is the text of. -/
def object (f : Fields F) : Object F :=
  ⟨ofPairs f.items, .obj (keySorted_ofPairs _) fun p hp => canonical_items f p (mem_ofPairs hp)⟩

omit [PyFloat F] in
lemma object_val (f : Fields F) : (object f).1 = ofPairs f.items := by
  rw [object]

end Objects

section Ledger

variable (sha256 : Sha256) (isWide isPrintable : Char → Bool) (now : String) (uuid : Uuid)

omit [PyFloat F] in
lemma lookup_rowHash (r : SignoffRecord F) :
    (object r.toFields).1.lookup "row_hash" = some (.str r.rowHash) := by
  have hk := @lookup_items F r.toFields "row_hash" (.str r.rowHash) (by simp [Fields.items, hashed])
  rw [object_val, hk]

lemma rowHash_ne (prev : String) (r : SignoffRecord F) : (r.chained isWide sha256 prev).rowHash ≠ "" := by
  rw [SignoffRecord.rowHash_chained, Fields.computeHash]
  exact hex_ne_empty sha256 _

omit [PyFloat F] in
/-- No schema hashes the record's own hash. -/
lemma body_withHashes (r : SignoffRecord F) (prev row row' : String) :
    (r.withHashes prev row).body = (r.withHashes prev row').body := by
  have hown : isHashed r.schema "row_hash" = false := by
    rw [isHashed]
    split_ifs <;> simp [v1BodyFields, v2BodyFields, v3BodyFields, v4BodyFields]
  have hitems : ∀ row, (r.withHashes prev row).items.filter (fun p => isHashed r.schema p.1) =
      (r.ownItems ++ [("prev_hash", Json.str prev)]).filter fun p => isHashed r.schema p.1 := by
    intro row
    have hsplit : (r.withHashes prev row).items =
        (r.ownItems ++ [("prev_hash", Json.str prev)]) ++ [("row_hash", Json.str row)] := by
      rw [Fields.items, hashed, List.append_assoc]
      rfl
    rw [hsplit, List.filter_append, List.filter_singleton]
    simp [hown]
  rw [Fields.body, Fields.body]
  exact congrArg (fun ps => Json.obj (ofPairs ps)) ((hitems row).trans (hitems row').symm)

/-- The hash of a record on the chain is computed from the record itself. -/
lemma computeHash_chained (prev : String) (r : SignoffRecord F) :
    (r.chained isWide sha256 prev).rowHash = (r.chained isWide sha256 prev).computeHash sha256 := by
  have hbody : (r.chained isWide sha256 prev).body =
      ((r.again isWide).withHashes prev r.rowHash).body := by
    simp only [SignoffRecord.chained, SignoffRecord.withHashes_withHashes]
    exact body_withHashes (r.again isWide) prev _ _
  rw [SignoffRecord.rowHash_chained, Fields.computeHash, Fields.computeHash, hbody]

/-- `JsonlSignoffLedger`. -/
def keeping : Keeping F (SignoffRecord F) SignoffError where
  object r := object r.toFields
  read := SignoffRecord.fromDict isWide isPrintable now uuid
  chained := SignoffRecord.chained isWide sha256
  prevHash r := r.prevHash
  rowHash r := r.rowHash
  computeHash r := r.computeHash sha256
  unreadable := .unreadableLine
  withoutHash := .lastWithoutHash
  prevMismatch n r := .prevMismatch n r.recordId
  hashMismatch n r := .hashMismatch n r.recordId
  lookup_rowHash := lookup_rowHash
  prevHash_chained _ _ := rfl
  rowHash_chained := computeHash_chained sha256 isWide
  rowHash_ne := rowHash_ne sha256 isWide

end Ledger

section Keeping

attribute [local irreducible] redact redactStripped

variable {isWide : Char → Bool} {now : String}

/-- The bytes the writer looks for the last line in. -/
def tailSize : ℕ := 65536

/-- A record as it stands on the chain, up to the hashes there. -/
def onGenesis (isWide : Char → Bool) (r : SignoffRecord F) : SignoffRecord F :=
  (r.again isWide).withHashes genesisHash genesisHash

/-- The text of a record's line, up to the hashes on it. -/
def lineOf (isWide : Char → Bool) (r : SignoffRecord F) : Text := (object (onGenesis isWide r).toFields).line

/-- Chaining a record and reading it back construct it twice more; the second time changes nothing. -/
structure Settled (isWide : Char → Bool) (now : String) (r : SignoffRecord F) : Prop where
  note : redact isWide (redact isWide r.note) = redact isWide r.note
  attestation : ∀ a ∈ r.attestation, redactStripped isWide a.statement = a.statement ∧
    (a.attestedAt = "" → now = "")

omit [PyFloat F] in
lemma again_eq_iff (r : SignoffRecord F) : r.again isWide = r ↔ redact isWide r.note = r.note := by
  constructor
  · exact fun h => congrArg (fun r : SignoffRecord F => r.note) h
  · intro h
    rw [SignoffRecord.again, h]

lemma attestation_reread_eq_iff (a : Attestation) : a.reread isWide now = a ↔
    redactStripped isWide a.statement = a.statement ∧ (a.attestedAt = "" → now = "") := by
  constructor
  · intro h
    refine ⟨congrArg Attestation.statement h, fun hempty => ?_⟩
    have hat := congrArg Attestation.attestedAt h
    rw [Attestation.reread, Attestation.restated, if_pos hempty, hempty] at hat
    exact hat
  · rintro ⟨hstatement, hat⟩
    obtain ⟨task, row, statement, attestedAt, ht, hr, hs⟩ := a
    have hwhen : (if attestedAt = "" then now else attestedAt) = attestedAt := by
      split_ifs with hempty
      · rw [hempty, hat hempty]
      · rfl
    simp only [Attestation.reread, Attestation.restated, hwhen, hstatement]

lemma reread_chained_iff (sha256 : Sha256) (r : SignoffRecord F) (prev : String) :
    (r.chained isWide sha256 prev).reread isWide now = r.chained isWide sha256 prev ↔
      Settled isWide now r := by
  set c := r.chained isWide sha256 prev with hc
  have hnote : c.note = redact isWide r.note := rfl
  have hattestation : c.attestation = r.attestation := rfl
  constructor
  · intro h
    refine ⟨?_, fun a ha => ?_⟩
    · rw [← hnote]
      exact congrArg (fun r : SignoffRecord F => r.note) h
    · have hopt : c.attestation.map (·.reread isWide now) = c.attestation :=
        congrArg (fun r : SignoffRecord F => r.attestation) h
      rw [hattestation, Option.mem_def.mp ha] at hopt
      exact (attestation_reread_eq_iff a).mp (Option.some.inj hopt)
  · intro h
    have hopt : c.attestation.map (·.reread isWide now) = c.attestation := by
      rw [hattestation]
      cases ha : r.attestation with
      | none => rfl
      | some a => exact congrArg some ((attestation_reread_eq_iff a).mpr (h.attestation a ha))
    rw [SignoffRecord.reread, hopt, (again_eq_iff c).mpr (by rw [hnote, h.note])]
    rfl

/-- Neither the separators nor the length of a line depend on its place in the chain. -/
lemma line_chained (sha256 : Sha256) (r : SignoffRecord F) {prev : String} (hprev : IsHash prev) :
    (object (r.chained isWide sha256 prev).toFields).hasSeparator =
      (object (onGenesis isWide r).toFields).hasSeparator ∧
    (utf8Encode (object (r.chained isWide sha256 prev).toFields).line).length =
      (utf8Encode (lineOf isWide r)).length := by
  have hitems : ∀ p h, (object ((r.again isWide).withHashes p h).toFields).1 =
      ofPairs (hashed (r.again isWide).ownItems p h) := fun p h => by
    rw [object_val, Fields.items]
    rfl
  have hrow : IsHash (r.chained isWide sha256 prev).rowHash := by
    rw [SignoffRecord.rowHash_chained, Fields.computeHash]
    exact isHash_hex sha256 _
  have hc : (object (r.chained isWide sha256 prev).toFields).1 =
      ofPairs (hashed (r.again isWide).ownItems prev (r.chained isWide sha256 prev).rowHash) := by
    rw [SignoffRecord.chained]
    exact hitems _ _
  exact line_hashed hc (hitems _ _) hprev hrow isHash_genesisHash isHash_genesisHash

end Keeping

section Claim

attribute [local irreducible] redact redactStripped

variable (sha256 : Sha256) (isWide isPrintable : Char → Bool) (now : String) (uuid : Uuid)
variable (float : Num R → F)

/-- The ledger stands after appending records that were checked and stamped. -/
lemma stands_of_prepared {ws : List (Write F R)} {given : List (SignoffRecord F)}
    (hgiven : ws.mapM (prepare float isWide isPrintable) = .ok given)
    (hshort : ∀ r ∈ given.dropLast, (utf8Encode (lineOf isWide r)).length < tailSize) :
    (keeping sha256 isWide isPrintable now uuid).Stands tailSize genesisHash isPrintable
        (prepare float isWide isPrintable) ws ↔
      (∀ r ∈ given, Settled isWide now r) ∧
        ∀ r ∈ given.dropLast, (object (onGenesis isWide r).toFields).hasSeparator = false := by
  set K : Keeping F (SignoffRecord F) SignoffError := keeping sha256 isWide isPrintable now uuid
  have hhash : ∀ prev r, IsHash (K.rowHash (K.chained prev r)) := fun prev r => by
    change IsHash (r.chained isWide sha256 prev).rowHash
    rw [SignoffRecord.rowHash_chained, Fields.computeHash]
    exact isHash_hex sha256 _
  have hlines : ∀ c ∈ (K.chainOf genesisHash given).dropLast,
      (utf8Encode (K.object c).line).length < tailSize := by
    rw [Keeping.dropLast_chainOf]
    refine (Keeping.forall_chainOf isHash_genesisHash hhash (fun prev r hprev => ?_)
      given.dropLast).mpr hshort
    exact iff_of_eq (congrArg (· < tailSize) (line_chained sha256 r hprev).2)
  rw [Keeping.stands_iff K hgiven hlines, and_comm]
  refine and_congr ?_ ?_
  · refine Keeping.forall_chainOf isHash_genesisHash hhash (fun prev r _ => ?_) given
    rw [← reread_chained_iff sha256 r prev]
    change SignoffRecord.fromDict isWide isPrintable now uuid
      (.obj (object (r.chained isWide sha256 prev).toFields).1) = _ ↔ _
    rw [object_val, fromDict_items]
    exact ⟨fun h => Except.ok.inj h, fun h => congrArg Except.ok h⟩
  · rw [Keeping.dropLast_chainOf]
    refine Keeping.forall_chainOf isHash_genesisHash hhash (fun prev r hprev => ?_) given.dropLast
    exact iff_of_eq (congrArg (· = false) (line_chained sha256 r hprev).1)

end Claim

section Samples

/-- A revocation of every cell of one class. -/
def revocation (note : String) : SignoffRecord Whole where
  repo := "acme/app"
  scope := ⟨"*", "feature", "*", "*", "*", "*", "*"⟩
  verifier := "u1"
  tier := "human-verified"
  revoked := true
  falseQ1AtSignoff := 0
  verifierKind := "local"
  checksArm := ""
  note := redact (fun _ => false) note
  apparatusVersion := apparatusVersion
  policyThresholds := Payload.of []
  attestation := none
  postureClass := ""
  contextArm := ""
  taxonomy := ""
  readingId := ""
  schema := signoffSchema
  recordId := "r1"
  prevHash := ""
  rowHash := ""
  stamp f := normal (f.default "2026-01-01T00:00:00Z")
  stamp_inOrder _ := canonical_normal _
  accepted := ⟨by simp, by simp [wildcard], by simp, by simp [verifierKinds], by simp [earnedTiers], .inl rfl,
    .inr rfl⟩
  named := by simp

/-- The published policy. -/
def publishedPolicy : SignoffPolicy ℚ where
  nMin := 10
  requireRouteDeliver := true
  requireControlsPassed := true
  maxControlsEscapes := 0
  minConstructibleShare := .num (1 / 2)
  minOracleStrength := .num (4 / 5)
  policyVersion := "signoff-policy.v4"
  nMin_bounds := by omega
  escapes_bounds := by omega
  share_bounds := by norm_num [Num.atLeast, zero, Floats.ofRat]
  strength_bounds := by norm_num [Num.atLeast, zero, Floats.ofRat]
  versioned := by simp

def revoking (note : String) : Write Whole ℚ :=
  ⟨revocation note, none, "acme/app", none, none, publishedPolicy, none, none⟩

def noFloat : Num ℚ → Whole := fun _ => PyFloat.zero

lemma prepare_revoking (note : String) :
    [revoking note].mapM (prepare noFloat (fun _ => false) fun _ => false) = .ok [revocation note] := rfl

end Samples

end CommitReplay.SignoffLedger
