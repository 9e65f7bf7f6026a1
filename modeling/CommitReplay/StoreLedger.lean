import CommitReplay.GradeChain
import CommitReplay.TransitionRuns

/-! The database ledger: each row is chained in memory, stored through the types of its columns
and read back through them. The chain is taken over the values in memory, so it verifies exactly
as long as every value stored is one its column gives back as it was. -/
namespace CommitReplay.StoreLedger

open CommitReplay.PythonText CommitReplay.JsonValue CommitReplay.JsonText CommitReplay.JsonRoundTrip
open CommitReplay.FailureKind CommitReplay.RowChecks CommitReplay.GradeRows CommitReplay.HashChain
open CommitReplay.GradeChain CommitReplay.TransitionRuns

variable {F : Type} [PyFloat F]

section Columns

/-- The columns of the `grades` table with the driver under them. A column has the type its field
declares, and `none` is a value the insert refuses (NULL in a column that is never null, a text
too long). Whatever a column gives back has the column's type; a value of that type comes back as
it is, but for the floats the column does not keep (SQLite stores a NaN as NULL and drops the
sign of a zero). The JSON column gives back what it was given. -/
structure Columns (F : Type) where
  readBack : Field → Json F → Option (Json F)
  readLabels : List (String × Json F) → Option (List (String × Json F))
  keeps : F → Bool
  typed : ∀ f v w, readBack f v = some w → f.type.has w = true
  same : ∀ f v w, f.type.has v = true → (∀ x, v = .float x → keeps x = true) →
    readBack f v = some w → w = v
  lossy : ∀ f x, keeps x = false → readBack f (.float x) ≠ some (.float x)
  labels : ∀ ps qs, readLabels ps = some qs → qs = ps

/-- A row as the table holds it, read back through its columns. -/
structure Stored (F : Type) extends RowFields F where
  prevHash : Json F
  rowHash : Json F

variable (columns : Columns F)

/-- `_to_model` and the insert. The hashes of a chained row are texts of the length of their
columns. -/
def toModel (r : GradeRow F) : Option (Stored F) :=
  match columns.readLabels r.labels with
  | none => none
  | some labels =>
    if Field.all.all fun f => (columns.readBack f (r.val f)).isSome then
      some ⟨⟨fun f => (columns.readBack f (r.val f)).getD .null, labels⟩, r.prevHash, r.rowHash⟩
    else none

/-- `_from_model`: the constructor again, on what the columns gave back. -/
def fromModel (uuid : Uuid) (m : Stored F) : Except Refusal (GradeRow F) :=
  GradeRow.make uuid m.val (.obj m.labels) m.prevHash m.rowHash

lemma toModel_eq_some {r : GradeRow F} {m : Stored F} (h : toModel columns r = some m) :
    (∀ f, columns.readBack f (r.val f) = some (m.val f)) ∧ m.labels = r.labels ∧
      m.prevHash = r.prevHash ∧ m.rowHash = r.rowHash := by
  unfold toModel at h
  split at h
  · cases h
  · rename_i labels hl
    split_ifs at h with ha
    obtain rfl := Option.some.inj h
    refine ⟨fun f => ?_, columns.labels _ _ hl, rfl, rfl⟩
    obtain ⟨v, hv⟩ := Option.isSome_iff_exists.mp (List.all_eq_true.mp ha f (Field.mem_all f))
    simp [hv]

/-- Every value of the row is one its column gives back as it is: it has the type its field
declares, and a float is one the column keeps. -/
def ColumnTyped (r : RowFields F) : Prop :=
  ∀ f, f.type.has (r.val f) = true ∧ ∀ x, r.val f = .float x → columns.keeps x = true

lemma toModel_of_columnTyped {r : GradeRow F} {m : Stored F} (h : toModel columns r = some m)
    (hr : ColumnTyped columns r.toRowFields) :
    m = ⟨r.toRowFields, r.prevHash, r.rowHash⟩ := by
  obtain ⟨hv, hl, hp, hh⟩ := toModel_eq_some columns h
  have hval : m.val = r.val := by
    funext f
    exact columns.same f _ _ (hr f).1 (hr f).2 (hv f)
  obtain ⟨⟨v, l⟩, p, q⟩ := m
  simp only at hval hl hp hh
  subst hval hl hp hh
  rfl

lemma fromModel_of_columnTyped (uuid : Uuid) {r : GradeRow F} {m : Stored F}
    (h : toModel columns r = some m) (hr : ColumnTyped columns r.toRowFields) :
    fromModel uuid m = .ok r := by
  rw [toModel_of_columnTyped columns h hr]
  exact GradeRow.make_self uuid r

omit [PyFloat F] in
lemma normal_of_has {t : PyType} {v : Json F} (h : t.has v = true) : normal v = v := by
  cases v <;> cases t <;> first | rfl | cases h

/-- What the constructor makes of a stored row. -/
lemma fromModel_eq_ok {uuid : Uuid} {r s : GradeRow F} {m : Stored F}
    (h : toModel columns r = some m) (hs : fromModel uuid m = .ok s) :
    (∀ f, s.val f = m.val f ∨ f = .rowId ∧ s.val f = .str uuid.1) ∧
      s.prevHash = normal r.prevHash ∧ s.rowHash = normal r.rowHash := by
  obtain ⟨hv, -, hp, hh⟩ := toModel_eq_some columns h
  simp only [fromModel, GradeRow.make, dictOf] at hs
  split at hs
  · cases hs
  · obtain rfl := Except.ok.inj hs
    refine ⟨fun f => ?_, by rw [hp], by rw [hh]⟩
    simp only
    split_ifs with hc
    · exact .inr ⟨hc.1, rfl⟩
    · exact .inl (normal_of_has (columns.typed f _ _ (hv f)))

/-- A row that reads back with its own fields was of the columns' types. -/
lemma columnTyped_of_fields_eq {uuid : Uuid} {r s : GradeRow F} {m : Stored F}
    (h : toModel columns r = some m) (hs : fromModel uuid m = .ok s)
    (he : s.toRowFields = r.toRowFields) : ColumnTyped columns r.toRowFields := by
  obtain ⟨hv, -, -, -⟩ := toModel_eq_some columns h
  obtain ⟨hsv, -, -⟩ := fromModel_eq_ok columns h hs
  rw [he] at hsv
  intro f
  rcases hsv f with hf | ⟨rfl, hf⟩
  · rw [hf]
    refine ⟨columns.typed f _ _ (hv f), fun x hx => ?_⟩
    by_contra hk
    have hb := hv f
    rw [hf, hx] at hb
    exact columns.lossy f x (by simpa using hk) hb
  · rw [hf]
    exact ⟨rfl, fun x hx => by cases hx⟩

end Columns

section Ledger

variable (columns : Columns F) (sha256 : Sha256)
/- What else the table refuses of a new row: a row identifier or a row hash it holds already. -/
variable (accepts : List (Stored F) → Stored F → Bool)

def rowHashOf (m : Stored F) : String :=
  match m.rowHash with
  | .str s => s
  | _ => ""

/-- `_last_hash`: `last or GENESIS_HASH`. -/
def lastHash (table : List (Stored F)) : String :=
  match table.getLast? with
  | none => genesisHash
  | some m => if rowHashOf m = "" then genesisHash else rowHashOf m

/-- `append` with what its guard finds within the transaction: the table after the commit, and
the row as it was chained. -/
def append (table : List (Stored F)) (row : GradeRow F) (guard : Except Refusal Unit) :
    Except Refusal (List (Stored F) × GradeRow F) := do
  row.assertInvariants
  row.assertExecutorRecorded
  guard
  let chained := row.chained sha256 (lastHash table)
  match toModel columns chained with
  | none => .error .insertRefused
  | some m => if accepts table m then .ok (table ++ [m], chained) else .error .insertRefused

/-- `append_many`: one transaction, so a refused row leaves the table as it was. -/
def appendMany (table : List (Stored F)) (rows : List (GradeRow F)) :
    Except Refusal (List (Stored F) × List (GradeRow F)) :=
  rows.foldlM (fun s row => do
    let (table, chained) ← append columns sha256 accepts s.1 row (.ok ())
    return (table, s.2 ++ [chained])) (table, [])

/-- Who imports, when, and from which file. -/
structure ImportStamp where
  importedBy : String
  importedAt : String
  importSha256 : String

/-- `labels.setdefault(k, v)`. -/
def setDefault (k : String) (v : Json F) (d : List (String × Json F)) : List (String × Json F) :=
  if (d.lookup k).isSome then d else insertKey k v d

/-- `v or ""`. -/
def orEmpty (v : Json F) : Json F := if truthy v then v else .str ""

/-- `import_stamp` and the constructor: the row as a row imported into this ledger. -/
def importRow (uuid : Uuid) (stamp : ImportStamp) (row : GradeRow F) :
    Except Refusal (GradeRow F) := do
  let v2 ← row.isV2
  let labels ←
    if v2 && !row.hasLabel "failure_kind" then do
      let kind ← row.failureKind
      pure (insertKey "failure_kind" kind row.labels)
    else pure row.labels
  let labels := insertKey "imported" (.str "true") labels
  let labels := setDefault "source_row_hash" (orEmpty row.rowHash) labels
  let labels := setDefault "source_actor" (row.val .actor) labels
  let labels := setDefault "source_provenance" (row.val .provenance) labels
  let labels := insertKey "imported_by" (.str stamp.importedBy) labels
  let labels := insertKey "imported_at" (.str stamp.importedAt) labels
  let labels := insertKey "import_sha256" (.str stamp.importSha256) labels
  let provenance ← asStr (row.val .provenance)
  let val : Field → Json F := fun f =>
    if f = .actor then .str "import"
    else if f = .provenance ∧ startsWith provenance.toList "imported:".toList = false then
      .str "imported:ledger"
    else row.val f
  GradeRow.make uuid val (.obj labels) (.str "") (.str "")

def importRows (uuid : Uuid) (stamp : ImportStamp) (table : List (Stored F))
    (rows : List (GradeRow F)) : Except Refusal (List (Stored F) × List (GradeRow F)) := do
  let prepared ← rows.mapM (importRow uuid stamp)
  appendMany columns sha256 accepts table prepared

/-- The calls a caller may make. -/
inductive Call (F : Type) [PyFloat F] where
  | append (row : GradeRow F) (guard : Except Refusal Unit)
  | appendMany (rows : List (GradeRow F))
  | importRows (stamp : ImportStamp) (rows : List (GradeRow F))

/-- The table, and the chained rows its calls have returned. -/
structure State (F : Type) [PyFloat F] where
  table : List (Stored F)
  appended : List (GradeRow F)

def Call.run (uuid : Uuid) (table : List (Stored F)) :
    Call F → Except Refusal (List (Stored F) × List (GradeRow F))
  | .append row guard => do
    let (table, chained) ← StoreLedger.append columns sha256 accepts table row guard
    return (table, [chained])
  | .appendMany rows => StoreLedger.appendMany columns sha256 accepts table rows
  | .importRows stamp rows => StoreLedger.importRows columns sha256 accepts uuid stamp table rows

/-- One call; a refused one is rolled back. -/
def step (uuid : Uuid) (s : State F) (c : Call F) : State F :=
  match c.run columns sha256 accepts uuid s.table with
  | .ok (table, rows) => ⟨table, s.appended ++ rows⟩
  | .error _ => s

/-- The state after a sequence of calls on an empty table. -/
def run (uuid : Uuid) (calls : List (Call F)) : State F :=
  runFrom (step columns sha256 accepts uuid) ⟨[], []⟩ calls

/-- `rows()` and `verify()`. -/
def rows (uuid : Uuid) (table : List (Stored F)) : List (Except Refusal (GradeRow F)) :=
  table.map (fromModel uuid)

def verify (uuid : Uuid) (table : List (Stored F)) : Except Refusal ℕ :=
  verifyRows sha256 genesisHash 0 (rows uuid table)

end Ledger

section Runs

variable {columns : Columns F} {sha256 : Sha256} {accepts : List (Stored F) → Stored F → Bool}

/-- The table holds exactly these rows, each as its columns store it. -/
def Holds (columns : Columns F) (appended : List (GradeRow F)) (table : List (Stored F)) : Prop :=
  appended.map (toModel columns) = table.map some

lemma Holds.concat {appended : List (GradeRow F)} {table : List (Stored F)} {r : GradeRow F}
    (h : Holds columns (appended ++ [r]) table) :
    ∃ before m, table = before ++ [m] ∧ toModel columns r = some m := by
  rw [Holds, List.map_append] at h
  obtain ⟨before, last, rfl, -, hl⟩ := List.append_eq_map_iff.mp h
  obtain ⟨m, rfl, hm⟩ := List.map_eq_singleton_iff.mp hl
  exact ⟨before, m, rfl, hm.symm⟩

/-- What every call keeps: the rows appended are a chain from genesis, and the table holds them. -/
structure Inv (columns : Columns F) (sha256 : Sha256) (s : State F) : Prop where
  holds : Holds columns s.appended s.table
  chained : Chained sha256 genesisHash s.appended

lemma lastHash_eq {s : State F} (hi : Inv columns sha256 s) :
    lastHash s.table = hashAfter genesisHash s.appended := by
  obtain ⟨table, appended⟩ := s
  cases appended using List.reverseRecOn with
  | nil =>
    obtain rfl : table = [] := by simpa [Holds] using hi.holds
    rfl
  | append_singleton appended r =>
    obtain ⟨before, m, ht, hm⟩ := hi.holds.concat
    have hr := hi.chained.hash_eq (show r ∈ appended ++ [r] by simp)
    have hh : rowHashOf m = r.computeHash sha256 := by
      rw [rowHashOf, (toModel_eq_some columns hm).2.2.2, hr]
    have hs : r.rowHashStr = r.computeHash sha256 := by rw [GradeRow.rowHashStr, hr]
    rw [lastHash, ht, List.getLast?_concat]
    simp only [hh]
    rw [if_neg (computeHash_ne_empty sha256 r), hashAfter, head_concat, hs]

lemma append_inv {s : State F} (hi : Inv columns sha256 s) {row chained : GradeRow F}
    {table : List (Stored F)} {guard : Except Refusal Unit}
    (h : append columns sha256 accepts s.table row guard = .ok (table, chained)) :
    Inv columns sha256 ⟨table, s.appended ++ [chained]⟩ := by
  simp only [append, bind_eq_ok] at h
  obtain ⟨_, -, _, -, _, -, h⟩ := h
  split at h
  · cases h
  · rename_i m hm
    split_ifs at h
    obtain ⟨rfl, rfl⟩ := Prod.mk.inj (Except.ok.inj h)
    rw [lastHash_eq hi] at hm ⊢
    refine ⟨?_, linked_concat.mpr ⟨hi.chained, ?_, rfl⟩⟩
    · rw [Holds, List.map_append, hi.holds, List.map_append, List.map_cons, hm]
      rfl
    · rw [head_rowHash sha256 hi.chained]
      rfl

lemma appendMany_inv {s : State F} (hi : Inv columns sha256 s) {rows chained : List (GradeRow F)}
    {table : List (Stored F)}
    (h : appendMany columns sha256 accepts s.table rows = .ok (table, chained)) :
    Inv columns sha256 ⟨table, s.appended ++ chained⟩ := by
  suffices hgen : ∀ (table₀ : List (Stored F)) (acc : List (GradeRow F)),
      Inv columns sha256 ⟨table₀, s.appended ++ acc⟩ →
      rows.foldlM (fun (t : List (Stored F) × List (GradeRow F)) row => do
        let (table, chained) ← append columns sha256 accepts t.1 row (.ok ())
        return (table, t.2 ++ [chained])) (table₀, acc) = .ok (table, chained) →
      Inv columns sha256 ⟨table, s.appended ++ chained⟩ from
    hgen s.table [] (by simpa using hi) h
  clear h
  induction rows with
  | nil =>
    intro table₀ acc hacc h
    obtain ⟨rfl, rfl⟩ := Prod.mk.inj (Except.ok.inj h)
    exact hacc
  | cons row rows ih =>
    intro table₀ acc hacc h
    rw [List.foldlM_cons] at h
    obtain ⟨⟨t, c⟩, h₁, h₂⟩ := bind_eq_ok.mp h
    obtain ⟨⟨t', c'⟩, ha, hp⟩ := bind_eq_ok.mp h₁
    obtain ⟨rfl, rfl⟩ := Prod.mk.inj (Except.ok.inj hp)
    refine ih _ _ ?_ h₂
    rw [← List.append_assoc]
    exact append_inv hacc ha

theorem step_inv (uuid : Uuid) {s : State F} (hi : Inv columns sha256 s) (c : Call F) :
    Inv columns sha256 (step columns sha256 accepts uuid s c) := by
  rw [step]
  split
  · rename_i table rows hrun
    cases c with
    | append row guard =>
      obtain ⟨⟨t, r⟩, ha, hp⟩ := bind_eq_ok.mp hrun
      obtain ⟨rfl, rfl⟩ := Prod.mk.inj (Except.ok.inj hp)
      exact append_inv hi ha
    | appendMany given => exact appendMany_inv hi hrun
    | importRows stamp given =>
      obtain ⟨prepared, -, ha⟩ := bind_eq_ok.mp hrun
      exact appendMany_inv hi ha
  · exact hi

variable (columns sha256 accepts) in
theorem run_inv (uuid : Uuid) (calls : List (Call F)) :
    Inv columns sha256 (run columns sha256 accepts uuid calls) :=
  (along_of_forall (P := fun _ _ => True) fun _ _ _ => trivial).preserves
    (I := Inv columns sha256) (fun _ c hi _ => step_inv uuid hi c) ⟨rfl, trivial⟩

/-- Rows of the columns' types read back as they were appended. -/
lemma Holds.rows_eq (uuid : Uuid) {appended : List (GradeRow F)} {table : List (Stored F)}
    (h : Holds columns appended table)
    (ht : ∀ r ∈ appended, ColumnTyped columns r.toRowFields) :
    rows uuid table = appended.map .ok := by
  induction appended generalizing table with
  | nil =>
    obtain rfl : table = [] := by simpa [Holds] using h
    rfl
  | cons r appended ih =>
    obtain ⟨m, table, rfl, hm, htable⟩ := List.map_eq_cons_iff.mp h.symm
    rw [rows, List.map_cons, fromModel_of_columnTyped columns uuid hm.symm (ht r (by simp))]
    exact congrArg _ (ih htable.symm fun s hs => ht s (by simp [hs]))

lemma Holds.exists_stored {appended : List (GradeRow F)} {table : List (Stored F)}
    (h : Holds columns appended table) {r : GradeRow F} (hr : r ∈ appended) :
    ∃ m ∈ table, toModel columns r = some m := by
  have hmem : toModel columns r ∈ table.map some := h ▸ List.mem_map_of_mem hr
  obtain ⟨m, hm, he⟩ := List.mem_map.mp hmem
  exact ⟨m, hm, he.symm⟩

/-- The rows that can be read from the table. -/
def readable (uuid : Uuid) (table : List (Stored F)) : List (GradeRow F) :=
  (rows uuid table).filterMap Except.toOption

lemma columnTyped_of_verify {uuid : Uuid} {s : State F} (hi : Inv columns sha256 s)
    (hcoll : CollisionFree sha256 (s.appended ++ readable uuid s.table)) {n : ℕ}
    (h : verify sha256 uuid s.table = .ok n) :
    ∀ r ∈ s.appended, ColumnTyped columns r.toRowFields := by
  intro r hr
  obtain ⟨rs, hrows, hver⟩ := verifyRows_eq_ok sha256 h
  obtain ⟨hchain, -⟩ := (verifyFrom_eq_ok sha256).mp hver
  obtain ⟨m, hm, hmodel⟩ := hi.holds.exists_stored hr
  have hread : fromModel uuid m ∈ rs.map Except.ok := hrows ▸ List.mem_map_of_mem hm
  obtain ⟨t, ht, hfrom⟩ := List.mem_map.mp hread
  have hmem : t ∈ readable uuid s.table := by
    rw [readable, hrows]
    exact List.mem_filterMap.mpr ⟨.ok t, List.mem_map_of_mem ht, rfl⟩
  have hhash := (fromModel_eq_ok columns hmodel hfrom.symm).2.2
  rw [normal_of_canonical r.hashesInOrder.2] at hhash
  have heq := eq_of_rowHash_eq hcoll (List.mem_append_right _ hmem) (List.mem_append_left _ hr)
    (hchain.hash_eq ht) (hi.chained.hash_eq hr) hhash
  exact columnTyped_of_fields_eq columns hmodel hfrom.symm (by rw [heq])

/-- Whatever calls were made on an empty table, the ledger verifies with the number of rows it
accepted exactly when each value of each of them has the type its field declares, which is its
column's, and each float is one its column keeps. -/
theorem verify_run_iff (uuid : Uuid) (calls : List (Call F))
    (hcoll : CollisionFree sha256 ((run columns sha256 accepts uuid calls).appended ++
      readable uuid (run columns sha256 accepts uuid calls).table)) :
    verify sha256 uuid (run columns sha256 accepts uuid calls).table =
        .ok (run columns sha256 accepts uuid calls).appended.length ↔
      ∀ r ∈ (run columns sha256 accepts uuid calls).appended,
        ColumnTyped columns r.toRowFields := by
  have hi := run_inv columns sha256 accepts uuid calls
  refine ⟨columnTyped_of_verify hi hcoll, fun ht => ?_⟩
  rw [verify, hi.holds.rows_eq uuid ht, verifyRows_map_ok]
  exact (verifyFrom_eq_ok sha256).mpr ⟨hi.chained, (Nat.zero_add _).symm⟩

end Runs

section OneRow

/-- A column that converts a value of another type when it can. -/
def convert : PyType → Json Whole → Option (Json Whole)
  | .str, .str s => some (.str s)
  | .bool, .bool b | .optBool, .bool b => some (.bool b)
  | .bool, .int n | .optBool, .int n =>
    if n = 0 then some (.bool false) else if n = 1 then some (.bool true) else none
  | .int, .int n => some (.int n)
  | .int, .bool b => some (.int (if b then 1 else 0))
  | .float, .float x | .optFloat, .float x => some (.float x)
  | .float, .int n | .optFloat, .int n => some (.float ⟨n⟩)
  | .optBool, .null | .optFloat, .null => some .null
  | _, _ => none

lemma convert_typed {t : PyType} {v w : Json Whole} (h : convert t v = some w) :
    t.has w = true := by
  cases t <;> cases v <;> simp only [convert] at h <;> (try split_ifs at h) <;> cases h <;> rfl

lemma convert_same {t : PyType} {v w : Json Whole} (ht : t.has v = true)
    (h : convert t v = some w) : w = v := by
  cases t <;> cases v <;> simp_all [PyType.has, convert]

/-- Columns that convert what they can and keep every whole float. -/
def convertingColumns : Columns Whole where
  readBack f v := convert f.type v
  readLabels ps := some ps
  keeps _ := true
  typed _ _ _ h := convert_typed h
  same _ _ _ ht _ h := convert_same ht h
  lossy _ _ h := by cases h
  labels _ _ h := (Option.some.inj h).symm

def bodyText (r : GradeRow Whole) : Text :=
  canonicalJson (.obj (ofPairs (bodyItems r.toRowFields (.str genesisHash))))

/-- The run of one append to an empty table, under a digest that marks the row's body. -/
def oneAppend (r : GradeRow Whole) : State Whole :=
  run convertingColumns (markDigest (bodyText r)) (fun _ _ => true) ⟨"row", by decide⟩
    [.append r (.ok ())]

lemma oneAppend_cases (r : GradeRow Whole) :
    oneAppend r = ⟨[], []⟩ ∨
      ∃ m, oneAppend r = ⟨[m], [r.chained (markDigest (bodyText r)) genesisHash]⟩ := by
  rw [oneAppend, run, runFrom_cons, runFrom_nil, step]
  split
  · rename_i table rows h
    simp only [Call.run, append, bind_eq_ok] at h
    obtain ⟨p, ⟨_, -, _, -, _, -, hp⟩, hret⟩ := h
    split at hp
    · cases hp
    · obtain ⟨rfl, rfl⟩ := Prod.mk.inj (Except.ok.inj hret)
      obtain rfl := Except.ok.inj hp
      exact .inr ⟨_, rfl⟩
  · exact .inl rfl

lemma collisionFree_oneAppend (r : GradeRow Whole) : CollisionFree (markDigest (bodyText r))
    ((oneAppend r).appended ++ readable ⟨"row", by decide⟩ (oneAppend r).table) := by
  rcases oneAppend_cases r with h | ⟨m, h⟩
  · rw [h]
    rintro t ⟨s, hs, -⟩
    simp [readable, rows] at hs
  · rw [h]
    cases hm : fromModel ⟨"row", by decide⟩ m with
    | error e =>
      refine (markDigest_injOn (bodyText r) []).mono ?_
      rintro t ⟨s, hs, rfl⟩
      have : s = r.chained (markDigest (bodyText r)) genesisHash := by
        simpa [readable, rows, hm, Except.toOption] using hs
      exact .inl (by rw [this]; rfl)
    | ok u =>
      refine (markDigest_injOn (bodyText r) (canonicalJson u.body)).mono ?_
      rintro t ⟨s, hs, rfl⟩
      have : s = r.chained (markDigest (bodyText r)) genesisHash ∨ s = u := by
        simpa [readable, rows, hm, Except.toOption] using hs
      rcases this with rfl | rfl
      · exact .inl rfl
      · exact .inr rfl

theorem verify_run_iff_plainRow :
    (verify (markDigest (bodyText (plainRow "t1" ""))) ⟨"row", by decide⟩
        (oneAppend (plainRow "t1" "")).table = .ok (oneAppend (plainRow "t1" "")).appended.length ↔
      ∀ r ∈ (oneAppend (plainRow "t1" "")).appended,
        ColumnTyped convertingColumns r.toRowFields) :=
  verify_run_iff _ _ (collisionFree_oneAppend (plainRow "t1" ""))

/-- The plain row with the integer `0` for its cost, as a JSON import may spell it. -/
def intCostRow : GradeRow Whole :=
  { plainRow "t1" "" with
    val := fun f => if f = .costUsd then .int 0 else (plainFields "t1" "").val f
    inOrder := by
      refine ⟨fun f => ?_, (plainFields_inOrder "t1" "").2⟩
      dsimp only
      split_ifs
      · exact .int 0
      · exact (plainFields_inOrder "t1" "").1 f
    valid := rfl }

/-- The ledger accepts that row and never verifies again. -/
theorem not_verify_intCostRow :
    (oneAppend intCostRow).appended.length = 1 ∧
      ∀ n, verify (markDigest (bodyText intCostRow)) ⟨"row", by decide⟩
        (oneAppend intCostRow).table ≠ .ok n := by
  have hlen : (oneAppend intCostRow).appended.length = 1 := rfl
  refine ⟨hlen, fun n hn => ?_⟩
  obtain ⟨m, hm⟩ := (oneAppend_cases intCostRow).resolve_left fun h => by
    rw [h] at hlen
    cases hlen
  have hi : Inv convertingColumns (markDigest (bodyText intCostRow)) (oneAppend intCostRow) :=
    run_inv _ _ _ _ _
  have hmem : intCostRow.chained (markDigest (bodyText intCostRow)) genesisHash ∈
      (oneAppend intCostRow).appended := by
    rw [hm]
    exact List.mem_singleton.mpr rfl
  have ht := columnTyped_of_verify hi (collisionFree_oneAppend intCostRow) hn _ hmem .costUsd
  exact absurd ht.1 (by decide)

end OneRow

end CommitReplay.StoreLedger
