import CommitReplay.GradeRows
import CommitReplay.HashChain

/-! The chain of grade rows: `verify_chain`, and what a chain that verifies commits to. -/
namespace CommitReplay.GradeChain

open CommitReplay.PythonText CommitReplay.JsonValue CommitReplay.JsonText CommitReplay.JsonRoundTrip
open CommitReplay.FailureKind CommitReplay.RowChecks CommitReplay.GradeRows CommitReplay.HashChain

variable {F : Type} [PyFloat F] (sha256 : Sha256)

/-- The walk over the rows after a row of the hash `prev`, `n` rows in. -/
def verifyFrom (prev : String) (n : ℕ) : List (GradeRow F) → Except Refusal ℕ
  | [] => .ok n
  | r :: rs =>
    if !eqStr prev r.prevHash then .error (.prevHashMismatch (n + 1))
    else if !r.verifyHash sha256 then .error (.rowHashMismatch (n + 1))
    else verifyFrom r.rowHashStr (n + 1) rs

/-- `verify_chain`: the number of rows, or the first row that breaks the chain. -/
def verifyChain (rows : List (GradeRow F)) : Except Refusal ℕ := verifyFrom sha256 genesisHash 0 rows

/-- `verify_chain` over an iteration that may raise. -/
def verifyRows (prev : String) (n : ℕ) : List (Except Refusal (GradeRow F)) → Except Refusal ℕ
  | [] => .ok n
  | .error e :: _ => .error e
  | .ok r :: rs =>
    if !eqStr prev r.prevHash then .error (.prevHashMismatch (n + 1))
    else if !r.verifyHash sha256 then .error (.rowHashMismatch (n + 1))
    else verifyRows r.rowHashStr (n + 1) rs

lemma verifyRows_map_ok (prev : String) (n : ℕ) (rs : List (GradeRow F)) :
    verifyRows sha256 prev n (rs.map .ok) = verifyFrom sha256 prev n rs := by
  induction rs generalizing prev n with
  | nil => rfl
  | cons r rs ih => rw [List.map_cons, verifyRows, verifyFrom, ih]

/-- A walk that ended well met no row that raised. -/
lemma verifyRows_eq_ok {prev : String} {n m : ℕ} {stream : List (Except Refusal (GradeRow F))}
    (h : verifyRows sha256 prev n stream = .ok m) :
    ∃ rs, stream = rs.map .ok ∧ verifyFrom sha256 prev n rs = .ok m := by
  induction stream generalizing prev n with
  | nil => exact ⟨[], rfl, h⟩
  | cons x stream ih =>
    cases x with
    | error e => cases h
    | ok r =>
      rw [verifyRows] at h
      split_ifs at h with hp hh
      obtain ⟨rs, rfl, hrs⟩ := ih h
      exact ⟨r :: rs, rfl, by rw [verifyFrom, if_neg hp, if_neg hh, hrs]⟩

/-- Grade rows as the records of a hash chain. -/
abbrev Chained (g : String) (rows : List (GradeRow F)) : Prop :=
  Linked (fun r => r.prevHash) (fun r => r.rowHash) (fun r => .str (r.computeHash sha256))
    (.str g) rows

lemma rowHashStr_of_verifyHash {r : GradeRow F} (h : r.verifyHash sha256 = true) :
    r.rowHash = .str r.rowHashStr := by
  rw [GradeRow.rowHashStr, (verifyHash_iff sha256 r).mp h]

lemma chained_cons {prev : String} {r : GradeRow F} {rs : List (GradeRow F)} :
    Chained sha256 prev (r :: rs) ↔ eqStr prev r.prevHash = true ∧ r.verifyHash sha256 = true ∧
      Chained sha256 r.rowHashStr rs := by
  rw [eqStr_iff, verifyHash_iff]
  refine and_congr_right fun _ => and_congr_right fun hh => ?_
  have hs := rowHashStr_of_verifyHash sha256 ((verifyHash_iff sha256 r).mpr hh)
  simp only [Chained, hs]

lemma verifyFrom_eq_ok {prev : String} {n m : ℕ} {rows : List (GradeRow F)} :
    verifyFrom sha256 prev n rows = .ok m ↔ Chained sha256 prev rows ∧ m = n + rows.length := by
  induction rows generalizing prev n with
  | nil => simp [verifyFrom, Linked, eq_comm]
  | cons r rs ih =>
    rw [verifyFrom, chained_cons, List.length_cons]
    cases hp : eqStr prev r.prevHash with
    | false => simp
    | true =>
      cases hh : r.verifyHash sha256 with
      | false => simp
      | true =>
        simp only [Bool.not_true, Bool.false_eq_true, if_false, ih, true_and]
        rw [Nat.add_assoc, Nat.add_comm 1]

/-- A list verifies exactly when it is a chain from genesis. -/
theorem verifyChain_eq_ok {m : ℕ} {rows : List (GradeRow F)} :
    verifyChain sha256 rows = .ok m ↔ Chained sha256 genesisHash rows ∧ m = rows.length := by
  simp [verifyChain, verifyFrom_eq_ok]

/-- The rows as an append-only ledger chains them, one on another. -/
def chainRows (g : String) : List (GradeRow F) → List (GradeRow F)
  | [] => []
  | r :: rs =>
    let c := r.chained sha256 g
    c :: chainRows (c.computeHash sha256) rs

@[simp] lemma length_chainRows (g : String) (rs : List (GradeRow F)) :
    (chainRows sha256 g rs).length = rs.length := by
  induction rs generalizing g with
  | nil => rfl
  | cons r rs ih => simp [chainRows, ih]

/-- The hash a row appended after these names. -/
abbrev hashAfter (g : String) (rows : List (GradeRow F)) : String := head GradeRow.rowHashStr g rows

lemma chainRows_concat (g : String) (rs : List (GradeRow F)) (r : GradeRow F) :
    chainRows sha256 g (rs ++ [r]) =
      chainRows sha256 g rs ++ [r.chained sha256 (hashAfter g (chainRows sha256 g rs))] := by
  induction rs generalizing g with
  | nil => rfl
  | cons s rs ih =>
    simp only [List.cons_append, chainRows, ih, hashAfter, head_cons]
    rfl

/-- On a chain the hash the next row names is the last recorded one. -/
lemma head_rowHash {g : String} {rows : List (GradeRow F)} (h : Chained sha256 g rows) :
    head (fun r => r.rowHash) (.str g) rows = .str (hashAfter g rows) := by
  cases rows using List.reverseRecOn with
  | nil => rfl
  | append_singleton rows r =>
    rw [head_concat, hashAfter, head_concat]
    exact rowHashStr_of_verifyHash sha256 ((verifyHash_iff sha256 r).mpr (h.hash_eq (by simp)))

lemma hashAfter_chainRows (g : String) (rs : List (GradeRow F)) :
    hashAfter g (chainRows sha256 g rs) = g ∨
      ∃ t, hashAfter g (chainRows sha256 g rs) = sha256.hex t := by
  cases rs using List.reverseRecOn with
  | nil => exact .inl rfl
  | append_singleton rs r =>
    rw [chainRows_concat, hashAfter, head_concat]
    exact .inr ⟨_, rfl⟩

lemma chained_chainRows (g : String) (rs : List (GradeRow F)) :
    Chained sha256 g (chainRows sha256 g rs) := by
  induction rs generalizing g with
  | nil => trivial
  | cons r rs ih => exact ⟨rfl, rfl, ih _⟩

/-- What an append-only ledger writes verifies. -/
theorem verifyChain_chainRows (rs : List (GradeRow F)) :
    verifyChain sha256 (chainRows sha256 genesisHash rs) = .ok rs.length :=
  (verifyChain_eq_ok sha256).mpr ⟨chained_chainRows _ _ _, by simp⟩

/-- The recorded hash of the last row. -/
def lastHash (rows : List (GradeRow F)) : Option (Json F) := rows.getLast?.map (·.rowHash)

/-- SHA-256 tells the bodies of these rows apart. -/
def CollisionFree (rows : List (GradeRow F)) : Prop :=
  Set.InjOn sha256.hex {t | ∃ r ∈ rows, t = canonicalJson r.body}

omit [PyFloat F] in
lemma canonical_bodyItems {r : RowFields F} (h : r.InOrder) {p : Json F} (hp : Canonical p) :
    Canonical (.obj (ofPairs (bodyItems r p)) : Json F) := by
  refine .obj (keySorted_ofPairs _) fun q hq => ?_
  rcases List.mem_append.mp (mem_ofPairs hq) with hq | hq
  · obtain ⟨f, -, rfl⟩ := List.mem_map.mp hq
    exact h.1 f
  · simp only [List.mem_cons, List.not_mem_nil, or_false] at hq
    rcases hq with rfl | rfl
    · exact .obj h.2.1 h.2.2
    · exact hp

lemma body_eq_of_text_eq {r s : GradeRow F} (h : canonicalJson r.body = canonicalJson s.body) :
    r.body = s.body :=
  dumps_injective (by simp) (canonical_bodyItems r.inOrder r.hashesInOrder.1)
    (canonical_bodyItems s.inOrder s.hashesInOrder.1) h

variable {sha256}

/-- Rows that verify and record one hash are one row. -/
lemma eq_of_rowHash_eq {rows : List (GradeRow F)} (hcoll : CollisionFree sha256 rows)
    {r s : GradeRow F} (hr : r ∈ rows) (hs : s ∈ rows)
    (hrh : r.rowHash = .str (r.computeHash sha256)) (hsh : s.rowHash = .str (s.computeHash sha256))
    (h : r.rowHash = s.rowHash) : r = s := by
  have hd : r.computeHash sha256 = s.computeHash sha256 := by
    rw [hrh, hsh] at h
    exact Json.str.inj h
  have ht := hcoll ⟨r, hr, rfl⟩ ⟨s, hs, rfl⟩ hd
  obtain ⟨hf, hp⟩ := eq_of_body_eq (body_eq_of_text_eq ht)
  exact GradeRow.ext' (by rw [hf]) (by rw [hf]) hp h

lemma head_eq_of_lastHash_eq {rs ss : List (GradeRow F)} (h : lastHash rs = lastHash ss)
    (g : Json F) : head (fun r => r.rowHash) g rs = head (fun r => r.rowHash) g ss := by
  rw [head, head]
  exact congrArg (Option.getD · g) h

/-- Two lists that verify, with one length and one last hash, agree on every field of every row;
so no other list of rows with that last hash verifies, whatever was edited, moved, inserted or
removed. A list of another length could verify only if a row hashed to the genesis hash itself. -/
theorem verifyChain_tamper_evident {rs ss : List (GradeRow F)} {n : ℕ}
    (hcoll : CollisionFree sha256 (rs ++ ss)) (hrs : verifyChain sha256 rs = .ok n)
    (hlast : lastHash rs = lastHash ss) :
    (∀ m, rs.length = ss.length → verifyChain sha256 ss = .ok m →
      rs = ss ∧ ∀ r ∈ rs, r.beltSet ≠ some .v5 → r.val .repoLintClean = .null) ∧
    (ss ≠ rs → ss.length = rs.length ∨ (∀ r ∈ rs ++ ss, r.rowHash ≠ .str genesisHash) →
      ∃ e, verifyChain sha256 ss = .error e) := by
  obtain ⟨hr, -⟩ := (verifyChain_eq_ok sha256).mp hrs
  have hhead := head_eq_of_lastHash_eq hlast (.str genesisHash)
  have hinj : Chained sha256 genesisHash ss → ∀ r ∈ rs, ∀ s ∈ ss, r.rowHash = s.rowHash → r = s :=
    fun hs r hmr s hms => eq_of_rowHash_eq hcoll (List.mem_append_left _ hmr)
      (List.mem_append_right _ hms) (hr.hash_eq hmr) (hs.hash_eq hms)
  refine ⟨fun m hlen hss => ?_, fun hne hwhy => ?_⟩
  · obtain ⟨hs, -⟩ := (verifyChain_eq_ok sha256).mp hss
    exact ⟨eq_of_head_eq hr hs hlen (hinj hs) hhead,
      fun r _ hv => (belt5_of_postInit r.valid).resolve_left hv⟩
  · cases hss : verifyChain sha256 ss with
    | error e => exact ⟨e, rfl⟩
    | ok m =>
      obtain ⟨hs, -⟩ := (verifyChain_eq_ok sha256).mp hss
      rcases hwhy with hlen | hfresh
      · exact absurd (eq_of_head_eq hr hs hlen.symm (hinj hs) hhead).symm hne
      · exact absurd (eq_of_head_eq_of_fresh hr hs (hinj hs) hfresh hhead).symm hne

/-- A digest for the row of the example below. -/
def oneDigest : Sha256 := markDigest
  (canonicalJson (.obj (ofPairs (bodyItems (plainFields "t1" "") (.str genesisHash)))))

/-- A chain of one row, and the same row with its builder edited. -/
def oneRow : GradeRow Whole := (plainRow "t1" "").chained oneDigest genesisHash

def editedRow : GradeRow Whole :=
  { plainRow "t1" "x" with
    prevHash := oneRow.prevHash
    rowHash := oneRow.rowHash
    hashesInOrder := oneRow.hashesInOrder }

lemma editedRow_rowHash : editedRow.rowHash = oneRow.rowHash := by
  rw [editedRow]

lemma editedRow_ne : editedRow ≠ oneRow := by
  intro h
  have hb : editedRow.str .builder = oneRow.str .builder := by rw [h]
  exact absurd hb (by decide)

lemma collisionFree_oneRow : CollisionFree oneDigest [oneRow, editedRow] := by
  have hne : canonicalJson editedRow.body ≠ canonicalJson oneRow.body := fun he =>
    absurd (congrArg (fun r => RowFields.str r .builder) (eq_of_body_eq (body_eq_of_text_eq he)).1)
      (by decide)
  rintro t ⟨r, hr, rfl⟩ u ⟨s, hs, rfl⟩ h
  simp only [List.mem_cons, List.not_mem_nil, or_false] at hr hs
  rcases hr with rfl | rfl <;> rcases hs with rfl | rfl
  · rfl
  · exact absurd (markDigest_inj h) hne
  · exact absurd (markDigest_inj h.symm) hne
  · rfl

theorem verifyChain_tamper_evident_editedRow :
    verifyChain oneDigest [oneRow] = .ok 1 ∧ ∃ e, verifyChain oneDigest [editedRow] = .error e :=
  have hok : verifyChain oneDigest [oneRow] = .ok 1 :=
    verifyChain_chainRows oneDigest [plainRow "t1" ""]
  have hlast : lastHash [oneRow] = lastHash [editedRow] := by
    simp only [lastHash, List.getLast?_singleton, Option.map_some, editedRow_rowHash]
  ⟨hok, (verifyChain_tamper_evident collisionFree_oneRow hok hlast).2
    (fun h => editedRow_ne (List.singleton_inj.mp h)) (.inl rfl)⟩

end CommitReplay.GradeChain
