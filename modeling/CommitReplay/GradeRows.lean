import CommitReplay.RowChecks
import CommitReplay.JsonRoundTrip

/-! Grade rows: rows whose content passed its checks, with their place in a chain; the body their
hash is taken over, and the dictionary a ledger stores them as. -/
namespace CommitReplay.GradeRows

open CommitReplay.PythonText CommitReplay.JsonValue CommitReplay.JsonText CommitReplay.JsonRoundTrip
open CommitReplay.FailureKind CommitReplay.RowChecks

def hexDigits : String := "0123456789abcdef"

/-- SHA-256 of a text, of which the model keeps the form of its digest. -/
structure Sha256 where
  hex : Text → String
  isHex : ∀ t, (hex t).toList.length = 64 ∧ ∀ c ∈ (hex t).toList, c ∈ hexDigits.toList

def genesisHash : String := String.ofList (List.replicate 64 '0')

/-- `canonical_json`: sorted keys and no white space. -/
def canonicalJson {F : Type} [PyFloat F] (v : Json F) : Text := dumps [] v

/-- A row that exists: its constructor's checks passed. The values are in key order, so two
rows are equal when they have equal fields. -/
structure GradeRow (F : Type) [PyFloat F] extends RowFields F where
  prevHash : Json F
  rowHash : Json F
  inOrder : toRowFields.InOrder
  hashesInOrder : Canonical prevHash ∧ Canonical rowHash
  named : truthy (val .rowId) = true
  valid : toRowFields.postInit = .ok ()

variable {F : Type} [PyFloat F]

lemma GradeRow.ext' {r s : GradeRow F} (hv : r.val = s.val) (hl : r.labels = s.labels)
    (hp : r.prevHash = s.prevHash) (hh : r.rowHash = s.rowHash) : r = s := by
  obtain ⟨⟨v, l⟩, p, h, _, _, _, _⟩ := r
  obtain ⟨⟨v', l'⟩, p', h', _, _, _, _⟩ := s
  simp only at hv hl hp hh
  subst hv hl hp hh
  rfl

section Construction

/-- One item of what `dict(labels)` reads: a pair with a string for its key. -/
def pairOf : Json F → Option (String × Json F)
  | .arr [.str k, v] => some (k, v)
  | .str s =>
    match s.toList with
    | [a, b] => some (.ofList [a], .str (.ofList [b]))
    | _ => none
  | _ => none

/-- `dict(labels)`. -/
def dictOf : Json F → Option (List (String × Json F))
  | .obj ps => some ps
  | .arr xs => xs.mapM pairOf
  | .str s => if s = "" then some [] else none
  | _ => none

/-- `uuid4().hex`, of which only that it is not empty matters. -/
abbrev Uuid := { s : String // s ≠ "" }

/-- The constructor: it copies the labels, names a row that has no name, and runs the checks. -/
def GradeRow.make (uuid : Uuid) (val : Field → Json F) (labels prevHash rowHash : Json F) :
    Except Refusal (GradeRow F) :=
  match dictOf labels with
  | none => .error .labelsNotMapping
  | some ps =>
    let named : Field → Json F := fun f =>
      if f = .rowId ∧ truthy (normal (val f)) = false then .str uuid.1 else normal (val f)
    let fields : RowFields F := ⟨named, ofPairs (normalFields ps)⟩
    match h : fields.postInit with
    | .error e => .error e
    | .ok () => .ok {
        toRowFields := fields
        prevHash := normal prevHash
        rowHash := normal rowHash
        inOrder := by
          refine ⟨fun f => ?_, keySorted_ofPairs _, fun p hp => ?_⟩
          · simp only [fields, named]
            split_ifs
            · exact .str _
            · exact canonical_normal _
          · have hq := mem_ofPairs hp
            rw [normalFields_eq] at hq
            obtain ⟨q, -, rfl⟩ := List.mem_map.mp hq
            exact canonical_normal _
        hashesInOrder := ⟨canonical_normal _, canonical_normal _⟩
        named := by
          simp only [fields, named]
          split_ifs with hc
          · simpa [truthy] using uuid.2
          · simpa using hc
        valid := h }

omit [PyFloat F] in
lemma normalFields_inOrder {ps : List (String × Json F)} (hs : KeySorted ps)
    (hc : ∀ p ∈ ps, Canonical p.2) : ofPairs (normalFields ps) = ps := by
  have hn := normal_of_canonical (Canonical.obj hs hc)
  rw [normal] at hn
  exact Json.obj.inj hn

/-- Constructing a row from its own fields gives a row with these fields. -/
lemma GradeRow.make_self (uuid : Uuid) (r : GradeRow F) :
    GradeRow.make uuid r.val (.obj r.labels) r.prevHash r.rowHash = .ok r := by
  have hv : (fun f => if f = .rowId ∧ truthy (normal (r.val f)) = false then Json.str uuid.1
      else normal (r.val f)) = r.val := by
    funext f
    rw [normal_of_canonical (r.inOrder.1 f), if_neg]
    rintro ⟨rfl, ht⟩
    rw [r.named] at ht
    cases ht
  have hl := normalFields_inOrder r.inOrder.2.1 r.inOrder.2.2
  have hp := normal_of_canonical r.hashesInOrder.1
  have hh := normal_of_canonical r.hashesInOrder.2
  have hvalid := r.valid
  simp only [GradeRow.make, dictOf]
  split
  · rename_i e he
    simp only [hv, hl] at he
    rw [show (⟨r.val, r.labels⟩ : RowFields F) = r.toRowFields from rfl, hvalid] at he
    cases he
  · exact congrArg Except.ok (GradeRow.ext' hv hl hp hh)

end Construction

section Body

/-- The fields the row's belt set records. -/
def RowFields.records (r : RowFields F) (f : Field) : Bool :=
  f ≠ .repoLintClean || Belt.repoLintClean ∈ r.recordedBelts

/-- The items of the hashed body: every field but the row's own hash, without the belts its
belt set does not record. -/
def bodyItems (r : RowFields F) (prevHash : Json F) : List (String × Json F) :=
  (Field.all.filter (RowFields.records r)).map (fun f => (f.name, r.val f)) ++
    [("labels", .obj r.labels), ("prev_hash", prevHash)]

def GradeRow.body (r : GradeRow F) : Json F := .obj (ofPairs (bodyItems r.toRowFields r.prevHash))

variable (sha256 : Sha256)

def hashOf (r : RowFields F) (prevHash : Json F) : String :=
  sha256.hex (canonicalJson (.obj (ofPairs (bodyItems r prevHash))))

def GradeRow.computeHash (r : GradeRow F) : String := hashOf sha256 r.toRowFields r.prevHash

/-- `chained`: the row placed after the row of the given hash. -/
def GradeRow.chained (r : GradeRow F) (prevHash : String) : GradeRow F :=
  { r with
    prevHash := .str prevHash
    rowHash := .str (hashOf sha256 r.toRowFields (.str prevHash))
    hashesInOrder := ⟨.str _, .str _⟩ }

def GradeRow.verifyHash (r : GradeRow F) : Bool :=
  truthy r.rowHash && eqStr (r.computeHash sha256) r.rowHash

/-- A recorded hash as the text the next row must name. -/
def GradeRow.rowHashStr (r : GradeRow F) : String :=
  match r.rowHash with
  | .str s => s
  | _ => ""

@[simp] lemma chained_toRowFields (r : GradeRow F) (p : String) :
    (r.chained sha256 p).toRowFields = r.toRowFields := rfl

@[simp] lemma chained_prevHash (r : GradeRow F) (p : String) :
    (r.chained sha256 p).prevHash = .str p := rfl

@[simp] lemma chained_rowHash (r : GradeRow F) (p : String) :
    (r.chained sha256 p).rowHash = .str ((r.chained sha256 p).computeHash sha256) := rfl

lemma hex_ne_empty (t : Text) : sha256.hex t ≠ "" := by
  intro h
  have := (sha256.isHex t).1
  simp [h] at this

lemma computeHash_ne_empty (r : GradeRow F) : r.computeHash sha256 ≠ "" := hex_ne_empty sha256 _

omit [PyFloat F] in
lemma eqStr_iff {s : String} {v : Json F} : eqStr s v = true ↔ v = .str s := by
  cases v <;> simp [eqStr, eq_comm]

lemma verifyHash_iff (r : GradeRow F) :
    r.verifyHash sha256 = true ↔ r.rowHash = .str (r.computeHash sha256) := by
  rw [GradeRow.verifyHash, Bool.and_eq_true, eqStr_iff]
  refine ⟨fun h => h.2, fun h => ⟨?_, h⟩⟩
  rw [h]
  exact decide_eq_true (hex_ne_empty sha256 _)

/-- `chained` leaves a row that verifies. -/
lemma verifyHash_chained (r : GradeRow F) (p : String) :
    (r.chained sha256 p).verifyHash sha256 = true := (verifyHash_iff _ _).mpr rfl

end Body

section Dictionary

def Field.default (now : String) : Field → Option (Json F)
  | .repo | .taskId | .clean | .testsUnmodified | .targetGreen | .noNewFailures
  | .sourceChanged => none
  | .repoLintClean | .oracleStrength | .goldClean => some .null
  | .pool => some (.str "standard")
  | .mode => some (.str "sighted")
  | .processStep => some (.str "replay")
  | .created => some (.str now)
  | .disqualified => some (.bool false)
  | .newFailuresCount | .tokensIn | .tokensOut => some (.int 0)
  | .attempts => some (.int 1)
  | .costUsd | .latencyS => some (.float PyFloat.zero)
  | .apparatusVersion => some (.str "2.4")
  | .beltSet => some (.str BeltSet.v5.name)
  | .provenance => some (.str "measured")
  | .schema => some (.str "crb.grade.v2")
  | _ => some (.str "")

/-- The items of `to_dict` but for the two derived ones. -/
def dictItems (r : GradeRow F) : List (String × Json F) :=
  Field.all.map (fun f => (f.name, r.val f)) ++
    [("labels", .obj r.labels), ("prev_hash", r.prevHash), ("row_hash", r.rowHash)]

/-- `to_dict`: every field, and the two derived ones for readers. -/
def GradeRow.toDict (r : GradeRow F) : Except Refusal (Json F) := do
  let kind ← r.failureKind
  let known ← r.costKnown
  return .obj (ofPairs (dictItems r ++ [("failure_kind", kind), ("cost_known", .bool known)]))

/-- `from_dict`: the known keys, a default for each missing one, and the checks again. -/
def GradeRow.fromDict (now : String) (uuid : Uuid) (d : List (String × Json F)) :
    Except Refusal (GradeRow F) :=
  match Field.all.find? fun f => (d.lookup f.name).isNone && (@Field.default F _ now f).isNone with
  | some f => .error (.missingField f)
  | none =>
    let get := fun (k : String) (v : Json F) => (d.lookup k).getD v
    GradeRow.make uuid (fun f => get f.name ((Field.default now f).getD .null))
      (get "labels" (.obj [])) (get "prev_hash" (.str "")) (get "row_hash" (.str ""))

lemma dictKeys_nodup : (Field.all.map Field.name ++
    ["labels", "prev_hash", "row_hash", "failure_kind", "cost_known"]).Nodup := by
  decide

/-- A dictionary that holds a row's fields reads back as the row. -/
lemma GradeRow.fromDict_of_lookup (now : String) (uuid : Uuid) {r : GradeRow F}
    {d : List (String × Json F)} (hf : ∀ f : Field, d.lookup f.name = some (r.val f))
    (hl : d.lookup "labels" = some (.obj r.labels)) (hp : d.lookup "prev_hash" = some r.prevHash)
    (hh : d.lookup "row_hash" = some r.rowHash) : GradeRow.fromDict now uuid d = .ok r := by
  have hall : Field.all.find? (fun f =>
      (d.lookup f.name).isNone && (@Field.default F _ now f).isNone) = none :=
    List.find?_eq_none.mpr fun f _ => by simp [hf]
  rw [GradeRow.fromDict, hall]
  simp only [hf, hl, hp, hh, Option.getD_some]
  exact GradeRow.make_self uuid r

/-- Reading a stored row back gives the row, whatever derived items were stored with it. -/
theorem GradeRow.fromDict_toDict (now : String) (uuid : Uuid) (r : GradeRow F) (kind known : Json F) :
    GradeRow.fromDict now uuid
      (ofPairs (dictItems r ++ [("failure_kind", kind), ("cost_known", known)])) = .ok r := by
  have hn : ((dictItems r ++ [("failure_kind", kind), ("cost_known", known)]).map
      Prod.fst).Nodup := by
    have h := dictKeys_nodup
    simpa only [dictItems, List.map_append, List.map_map, Function.comp_def, List.map_cons,
      List.map_nil, List.append_assoc, List.cons_append, List.nil_append] using h
  have hmem : ∀ p ∈ dictItems r, (ofPairs (dictItems r ++
      [("failure_kind", kind), ("cost_known", known)])).lookup p.1 = some p.2 := fun p hp =>
    lookup_ofPairs_of_mem hn (List.mem_append_left _ hp)
  refine GradeRow.fromDict_of_lookup now uuid (fun f => ?_) ?_ ?_ ?_
  · exact hmem (f.name, r.val f) (List.mem_append_left _ (List.mem_map_of_mem (Field.mem_all f)))
  · exact hmem ("labels", .obj r.labels) (List.mem_append_right _ (by simp))
  · exact hmem ("prev_hash", r.prevHash) (List.mem_append_right _ (by simp))
  · exact hmem ("row_hash", r.rowHash) (List.mem_append_right _ (by simp))

end Dictionary

section BodyDeterminesRow

omit [PyFloat F] in
lemma bodyKeys_nodup (r : RowFields F) (p : Json F) :
    ((bodyItems r p).map Prod.fst).Nodup := by
  have hsub : List.Sublist ((bodyItems r p).map Prod.fst) (Field.all.map Field.name ++
      ["labels", "prev_hash", "row_hash", "failure_kind", "cost_known"]) := by
    simp only [bodyItems, List.map_append, List.map_map, Function.comp_def, List.map_cons,
      List.map_nil]
    exact (List.filter_sublist.map _).append (by simp)
  exact dictKeys_nodup.sublist hsub

omit [PyFloat F] in
lemma lookup_body (r : RowFields F) (p : Json F) {f : Field} (hf : RowFields.records r f = true) :
    (ofPairs (bodyItems r p)).lookup f.name = some (r.val f) :=
  lookup_ofPairs_of_mem (bodyKeys_nodup r p) (p := (f.name, _))
    (List.mem_append_left _ (List.mem_map_of_mem (List.mem_filter.mpr ⟨Field.mem_all f, hf⟩)))

omit [PyFloat F] in
lemma lookup_body_labels (r : RowFields F) (p : Json F) :
    (ofPairs (bodyItems r p)).lookup "labels" = some (.obj r.labels) :=
  lookup_ofPairs_of_mem (bodyKeys_nodup r p) (p := ("labels", _)) (by simp [bodyItems])

omit [PyFloat F] in
lemma lookup_body_prevHash (r : RowFields F) (p : Json F) :
    (ofPairs (bodyItems r p)).lookup "prev_hash" = some p :=
  lookup_ofPairs_of_mem (bodyKeys_nodup r p) (p := ("prev_hash", _)) (by simp [bodyItems])

/-- What the constructor checks of belt 5: no belt set but `v5` records it. -/
lemma belt5_of_postInit {r : RowFields F} (h : r.postInit = .ok ()) :
    r.beltSet = some .v5 ∨ r.val .repoLintClean = .null := by
  simp only [RowFields.postInit, bind_eq_ok, refuseIf_eq_ok] at h
  obtain ⟨_, _, _, _, _, _, _, h5, _⟩ := h
  by_cases hv : r.beltSet = some .v5
  · exact .inl hv
  · right
    cases hb : r.val .repoLintClean <;> simp_all [isNone]

omit [PyFloat F] in
lemma records_repoLintClean (r : RowFields F) :
    RowFields.records r .repoLintClean = true ↔ r.beltSet = some .v5 := by
  rw [RowFields.records, RowFields.recordedBelts]
  rcases r.beltSet with _ | _ | _ | _ <;> decide

/-- The hashed body determines the content of a row and the hash it names, for every belt set. -/
theorem eq_of_body_eq {r s : GradeRow F} (h : r.body = s.body) :
    r.toRowFields = s.toRowFields ∧ r.prevHash = s.prevHash := by
  have hi := Json.obj.inj h
  have hlook : ∀ k, (ofPairs (bodyItems r.toRowFields r.prevHash)).lookup k =
      (ofPairs (bodyItems s.toRowFields s.prevHash)).lookup k := fun k => by rw [hi]
  have hp : r.prevHash = s.prevHash := by
    have := hlook "prev_hash"
    simpa only [lookup_body_prevHash, Option.some.injEq] using this
  have hl : r.labels = s.labels := by
    have := hlook "labels"
    simpa only [lookup_body_labels, Option.some.injEq, Json.obj.injEq] using this
  have hcore : ∀ f : Field, f ≠ .repoLintClean → r.val f = s.val f := by
    intro f hf
    have := hlook f.name
    rw [lookup_body _ _ (by simp [RowFields.records, hf]),
      lookup_body _ _ (by simp [RowFields.records, hf])] at this
    exact Option.some.inj this
  have hset : r.beltSet = s.beltSet := by
    rw [RowFields.beltSet, RowFields.beltSet, hcore .beltSet (by decide)]
  have hbelt : r.val .repoLintClean = s.val .repoLintClean := by
    by_cases hv : r.beltSet = some .v5
    · have := hlook Field.repoLintClean.name
      rw [lookup_body _ _ ((records_repoLintClean _).mpr hv),
        lookup_body _ _ ((records_repoLintClean _).mpr (hset ▸ hv))] at this
      exact Option.some.inj this
    · rw [(belt5_of_postInit r.valid).resolve_left hv,
        (belt5_of_postInit s.valid).resolve_left (hset ▸ hv)]
  refine ⟨?_, hp⟩
  have hv : r.val = s.val := by
    funext f
    by_cases hf : f = .repoLintClean
    · rw [hf, hbelt]
    · exact hcore f hf
  cases hr : r.toRowFields
  cases hs : s.toRowFields
  simp_all

end BodyDeterminesRow

section PlainRow

/-- A failed replay of apparatus 2.2 with no label, named by its task and by its builder. -/
def plainFields (taskId builder : String) : RowFields Whole where
  val
    | .taskId => .str taskId
    | .builder => .str builder
    | .clean => .bool false
    | .testsUnmodified | .targetGreen | .noNewFailures | .sourceChanged => .bool true
    | .apparatusVersion => .str "2.2"
    | .rowId => .str "row"
    | f => (Field.default "2026-01-01T00:00:00Z" f).getD (.str "")
  labels := []

lemma plainFields_typed (taskId builder : String) : (plainFields taskId builder).Typed := by
  refine ⟨fun f => ?_, by simp [plainFields]⟩
  cases f <;> rfl

lemma plainFields_inOrder (taskId builder : String) : (plainFields taskId builder).InOrder := by
  refine ⟨fun f => ?_, List.Pairwise.nil, by simp [plainFields]⟩
  cases f <;> constructor

lemma plainFields_postInit (taskId builder : String) :
    (plainFields taskId builder).postInit = .ok () := by
  rfl

/-- The row of these fields before it is chained. -/
def plainRow (taskId builder : String) : GradeRow Whole where
  toRowFields := plainFields taskId builder
  prevHash := .str ""
  rowHash := .str ""
  inOrder := plainFields_inOrder taskId builder
  hashesInOrder := ⟨.str _, .str _⟩
  named := rfl
  valid := plainFields_postInit taskId builder

/-- A digest that tells one text from every other. -/
def markDigest (t₀ : Text) : Sha256 where
  hex t := .ofList (List.replicate 64 (if t = t₀ then 'a' else 'b'))
  isHex t := by
    rw [String.toList_ofList]
    refine ⟨List.length_replicate, fun c hc => ?_⟩
    rw [List.eq_of_mem_replicate hc]
    split_ifs <;> decide

lemma markDigest_inj {t₀ u : Text} (h : (markDigest t₀).hex t₀ = (markDigest t₀).hex u) :
    u = t₀ := by
  by_contra hu
  simp [markDigest, hu] at h

lemma markDigest_injOn (t₀ u : Text) : Set.InjOn (markDigest t₀).hex {t | t = t₀ ∨ t = u} := by
  rintro a (rfl | rfl) b (rfl | rfl) h
  · rfl
  · exact (markDigest_inj h).symm
  · exact markDigest_inj h.symm
  · rfl

end PlainRow

end CommitReplay.GradeRows
