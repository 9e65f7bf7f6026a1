import CommitReplay.GradeChain
import CommitReplay.JsonlTail

/-! The portable ledger: one JSON object a line, appended and chained on the hash of the line
before it. It stays appendable and verifiable exactly as long as no string in its rows holds one
of the line separators that JSON leaves as they are and `str.splitlines` splits at. -/
namespace CommitReplay.JsonlLedger

open CommitReplay.PythonText CommitReplay.JsonValue CommitReplay.JsonText CommitReplay.JsonRoundTrip
open CommitReplay.FailureKind CommitReplay.RowChecks CommitReplay.GradeRows CommitReplay.HashChain
open CommitReplay.GradeChain CommitReplay.JsonlTail

variable {F : Type} [PyFloat F]

section Ledger

variable (sha256 : Sha256) (now : String) (uuid : Uuid)

/-- `str(v)` of a value that is no array or object. -/
def pyStr : Json F → Option String
  | .str s => some s
  | .null => some "None"
  | .bool b => some (if b then "True" else "False")
  | .int n => some (.ofList (intText n))
  | .float x => some (.ofList (PyFloat.text x))
  | _ => none

/-- The hash the next row chains on. -/
def lastHashOf (file : Bytes) : Except Refusal String :=
  match jsonlLastLine file with
  | [] => .ok genesisHash
  | last => match loads last with
    | some (.obj d : Json F) => match pyStr ((d.lookup "row_hash").getD (.str "")) with
      | some "" => .error .lastRowWithoutHash
      | some h => .ok h
      | none => .error .unreadableLine
    | _ => .error .unreadableLine

/-- The text of a row's line. -/
def lineOf (r : GradeRow F) : Except Refusal Text := do
  let d ← r.toDict
  return dumps [' '] d

/-- `append`: the row is checked, chained on the last line and written. -/
def append (file : Bytes) (row : GradeRow F) : Except Refusal (Bytes × GradeRow F) := do
  row.assertInvariants
  row.assertExecutorRecorded
  let last ← lastHashOf (F := F) file
  let chained := row.chained sha256 last
  let line ← lineOf chained
  return (file ++ utf8Encode (line ++ ['\n']), chained)

/-- One `append` after another, with the rows they return. -/
def appendEach (rows : List (GradeRow F)) : Except Refusal (Bytes × List (GradeRow F)) :=
  rows.foldlM (fun s row => do
    let (file, chained) ← append sha256 s.1 row
    return (file, s.2 ++ [chained])) ([], [])

def readLine (line : Text) : Except Refusal (GradeRow F) :=
  match loads line with
  | some (.obj d) => GradeRow.fromDict now uuid d
  | _ => .error .unreadableLine

/-- `rows()`: what the iteration yields, line by line. -/
def rows (file : Bytes) : List (Except Refusal (GradeRow F)) :=
  match utf8Decode file with
  | none => [.error .unreadableLine]
  | some text => ((fileLines text).filter fun l => strip l ≠ []).map (readLine now uuid)

def verify (file : Bytes) : Except Refusal ℕ :=
  verifyRows sha256 genesisHash 0 (rows (F := F) now uuid file)

end Ledger

/-- A row a caller may append: of the declared types, and saying where its builder ran. -/
structure ValidRow (F : Type) [PyFloat F] extends GradeRow F where
  typed : toRowFields.Typed
  executor : toRowFields.assertExecutorRecorded = .ok ()

/-- The characters of a row's own strings, label keys and label values. -/
def rowChars (r : RowFields F) : Text :=
  Field.all.flatMap (fun f => chars (r.val f)) ++ chars (.obj r.labels)

section TypedRows

omit [PyFloat F] in
lemma str_of_typed {r : RowFields F} (h : r.Typed) {f : Field} (hf : f.type = .str) :
    ∃ s, r.val f = .str s := by
  have := h.1 f
  rw [hf] at this
  cases hv : r.val f <;> simp_all [PyType.has]

omit [PyFloat F] in
lemma label_of_typed {r : RowFields F} (h : r.Typed) {k : String} {v : Json F}
    (hk : r.labels.lookup k = some v) : ∃ s, v = .str s ∧ (k, v) ∈ r.labels := by
  obtain ⟨l₁, l₂, he, -⟩ := List.lookup_eq_some_iff.mp hk
  have hm : (k, v) ∈ r.labels := by simp [he]
  have := h.2 _ hm
  cases v <;> simp_all [PyType.has]

omit [PyFloat F] in
lemma labelOr_of_typed {r : RowFields F} (h : r.Typed) (k : String) : ∃ s, r.labelOr k = .str s := by
  rw [RowFields.labelOr]
  cases hk : r.labels.lookup k with
  | none => exact ⟨"", rfl⟩
  | some v =>
    obtain ⟨s, rfl, -⟩ := label_of_typed h hk
    exact ⟨s, rfl⟩

lemma derivedKind_typed {r : RowFields F} (h : r.Typed) (v2 : Bool) :
    ∃ k, r.derivedKind v2 = .ok k ∧ k ∈ failureKinds := by
  obtain ⟨e, he⟩ := str_of_typed h (f := .error) rfl
  obtain ⟨b, hb⟩ := labelOr_of_typed h "builder_error"
  rw [RowFields.derivedKind, he, hb]
  by_cases hc : truthy (r.val .clean) = true
  · exact ⟨"", by rw [if_pos hc]; rfl, by decide⟩
  · by_cases hd : truthy (r.val .disqualified) = true
    · exact ⟨"disqualified", by rw [if_neg hc, if_pos hd]; rfl, by decide⟩
    · rw [if_neg hc, if_neg hd]
      simp only [asStr, bind, Except.bind, pure, Except.pure]
      split_ifs
      all_goals first
        | exact ⟨_, rfl, (deriveFailureKind_mem _).1⟩
        | exact ⟨_, rfl, (deriveFailureKindV1_mem _).1⟩

/-- The kind of a typed row is a text: one of the rule's own, or the row's own label. -/
lemma failureKind_typed {r : RowFields F} (h : r.Typed) :
    ∃ k, r.failureKind = .ok (.str k) ∧
      (k ∈ failureKinds ∨ ("failure_kind", Json.str k) ∈ r.labels) := by
  obtain ⟨e, he⟩ := str_of_typed h (f := .error) rfl
  obtain ⟨ver, hver⟩ := str_of_typed h (f := .apparatusVersion) rfl
  have hv2 : r.isV2 = .ok (isV2Apparatus ver) := by rw [RowFields.isV2, hver]; rfl
  obtain ⟨k, hk, hmem⟩ := derivedKind_typed h (isV2Apparatus ver)
  rw [RowFields.failureKind, hv2]
  cases hl : r.label "failure_kind" with
  | none => exact ⟨k, by simp [bind, Except.bind, hk, pure, Except.pure], .inl hmem⟩
  | some v =>
    have hlook : r.labels.lookup "failure_kind" = some v := by
      rw [RowFields.label, Option.filter_eq_some_iff] at hl
      exact hl.1
    obtain ⟨s, rfl, hs⟩ := label_of_typed h hlook
    simp only [bind, Except.bind, he, asStr, pure, Except.pure]
    split_ifs
    · exact ⟨"outage", rfl, .inl (by decide)⟩
    · exact ⟨s, rfl, .inr hs⟩
    · exact ⟨s, rfl, .inr hs⟩

lemma pyPositive_of_has {v : Json F}
    (h : PyType.has .int v = true ∨ PyType.has .float v = true) : ∃ b, pyPositive v = .ok b := by
  rcases h with h | h <;> cases v <;> simp_all [PyType.has, pyPositive]

lemma costKnown_typed {r : RowFields F} (h : r.Typed) : ∃ b, r.costKnown = .ok b := by
  obtain ⟨p, hp⟩ := str_of_typed h (f := .provenance) rfl
  obtain ⟨c, hc⟩ := pyPositive_of_has (.inr (h.1 .costUsd))
  obtain ⟨i, hi⟩ := pyPositive_of_has (.inl (h.1 .tokensIn))
  obtain ⟨o, ho⟩ := pyPositive_of_has (.inl (h.1 .tokensOut))
  rw [RowFields.costKnown]
  cases r.label "cost_known" with
  | some v => exact ⟨_, rfl⟩
  | none =>
    simp only [hc, hi, ho, hp, asStr, bind, Except.bind, pure, Except.pure]
    split_ifs <;> exact ⟨_, rfl⟩

/-- The value a typed row's line is the text of. -/
def lineValue (r : GradeRow F) (kind : String) (known : Bool) : Json F :=
  .obj (ofPairs (dictItems r ++ [("failure_kind", .str kind), ("cost_known", .bool known)]))

lemma lineOf_typed (r : GradeRow F) (h : r.Typed) :
    ∃ kind known, lineOf r = .ok (dumps [' '] (lineValue r kind known)) ∧
      (kind ∈ failureKinds ∨ ("failure_kind", Json.str kind) ∈ r.labels) := by
  obtain ⟨k, hk, hmem⟩ := failureKind_typed h
  obtain ⟨b, hb⟩ := costKnown_typed h
  refine ⟨k, b, ?_, hmem⟩
  rw [lineOf, GradeRow.toDict, hk, hb]
  rfl

end TypedRows

section Lines

variable {sha256 : Sha256}

lemma lineItems_nodup (r : GradeRow F) (kind known : Json F) :
    ((dictItems r ++ [("failure_kind", kind), ("cost_known", known)]).map Prod.fst).Nodup := by
  have h := dictKeys_nodup
  simpa only [dictItems, List.map_append, List.map_map, Function.comp_def, List.map_cons,
    List.map_nil, List.append_assoc, List.cons_append, List.nil_append] using h

lemma canonical_lineValue (r : GradeRow F) (kind : String) (known : Bool) :
    Canonical (lineValue r kind known) := by
  refine .obj (keySorted_ofPairs _) fun p hp => ?_
  rcases List.mem_append.mp (mem_ofPairs hp) with hp | hp
  · rcases List.mem_append.mp hp with hp | hp
    · obtain ⟨f, -, rfl⟩ := List.mem_map.mp hp
      exact r.inOrder.1 f
    · simp only [List.mem_cons, List.not_mem_nil, or_false] at hp
      rcases hp with rfl | rfl | rfl
      · exact .obj r.inOrder.2.1 r.inOrder.2.2
      · exact r.hashesInOrder.1
      · exact r.hashesInOrder.2
  · simp only [List.mem_cons, List.not_mem_nil, or_false] at hp
    rcases hp with rfl | rfl
    · exact .str _
    · exact .bool _

lemma lookup_rowHash (r : GradeRow F) (kind known : Json F) :
    (ofPairs (dictItems r ++ [("failure_kind", kind), ("cost_known", known)])).lookup "row_hash" =
      some r.rowHash :=
  lookup_ofPairs_of_mem (lineItems_nodup r kind known) (p := ("row_hash", r.rowHash))
    (by simp [dictItems])

/-- The line of a row: its value, and a text without any line boundary. -/
structure LineOk (r : GradeRow F) (line : Text) : Prop where
  written : lineOf r = .ok line
  value : ∃ kind known, line = dumps [' '] (lineValue r kind known)
  unbroken : ∀ c ∈ line, isLineBreak c = false

lemma LineOk.brace {r : GradeRow F} {line : Text} (h : LineOk r line) : '\x7b' ∈ line := by
  obtain ⟨kind, known, rfl⟩ := h.value
  rw [lineValue, dumps]
  simp

lemma LineOk.strip_ne_nil {r : GradeRow F} {line : Text} (h : LineOk r line) : strip line ≠ [] :=
  PythonText.strip_ne_nil h.brace (by decide)

lemma LineOk.loads_eq {r : GradeRow F} {line : Text} (h : LineOk r line) (ws : Text)
    (hws : ∀ c ∈ ws, isJsonSpace c = true) : ∃ kind known,
      loads (line ++ ws) = some (lineValue r kind known) := by
  obtain ⟨kind, known, rfl⟩ := h.value
  exact ⟨kind, known, loads_dumps (by simp [isJsonSpace]) (canonical_lineValue r kind known) hws⟩

lemma LineOk.readLine_eq {r : GradeRow F} {line : Text} (h : LineOk r line) (now : String)
    (uuid : Uuid) : readLine now uuid (line ++ ['\n']) = .ok r := by
  obtain ⟨kind, known, he⟩ := h.loads_eq ['\n'] (by simp [isJsonSpace])
  rw [readLine, he, lineValue]
  exact GradeRow.fromDict_toDict now uuid r (.str kind) (.bool known)

/-- The file holds the lines of these rows and nothing else. -/
def Written (out : List (GradeRow F)) (file : Bytes) : Prop :=
  ∃ ps : List (GradeRow F × Text), out = ps.map Prod.fst ∧ (∀ p ∈ ps, LineOk p.1 p.2) ∧
    file = utf8Encode (fileText (ps.map Prod.snd))

lemma Written.append {out : List (GradeRow F)} {file : Bytes} (h : Written out file)
    {r : GradeRow F} {line : Text} (hl : LineOk r line) :
    Written (out ++ [r]) (file ++ utf8Encode (line ++ ['\n'])) := by
  obtain ⟨ps, rfl, hps, rfl⟩ := h
  refine ⟨ps ++ [(r, line)], by simp, fun p hp => ?_, by simp⟩
  rcases List.mem_append.mp hp with hp | hp
  · exact hps p hp
  · obtain rfl := List.mem_singleton.mp hp
    exact hl

lemma Written.lastLine {out : List (GradeRow F)} {file : Bytes} {r : GradeRow F}
    (h : Written (out ++ [r]) file) : LineOk r (jsonlLastLine file) := by
  obtain ⟨ps, hout, hps, rfl⟩ := h
  obtain ⟨qs, us, rfl, rfl, hr⟩ := List.append_eq_map_iff.mp hout
  obtain ⟨p, rfl, rfl⟩ := List.map_eq_singleton_iff.mp hr
  have hp := hps p (by simp)
  rw [List.map_append, List.map_cons, List.map_nil,
    jsonlLastLine_fileText _ hp.strip_ne_nil hp.unbroken]
  exact hp

lemma Written.lastHashOf_eq {out : List (GradeRow F)} {file : Bytes} (h : Written out file)
    (hout : ∀ r ∈ out, r.verifyHash sha256 = true) :
    lastHashOf (F := F) file = .ok (hashAfter genesisHash out) := by
  cases out using List.reverseRecOn with
  | nil =>
    obtain ⟨ps, hout, -, rfl⟩ := h
    obtain rfl := List.map_eq_nil_iff.mp hout.symm
    rfl
  | append_singleton out r =>
    have hl := h.lastLine
    obtain ⟨kind, known, he⟩ := hl.loads_eq [] (List.forall_mem_nil _)
    have hv := hout r (by simp)
    have hne : jsonlLastLine file ≠ [] := by
      intro hnil
      exact hl.strip_ne_nil (by rw [hnil]; rfl)
    have hs : r.rowHashStr ≠ "" := by
      have ht := (Bool.and_eq_true _ _ ▸ hv : _ ∧ _).1
      rw [rowHashStr_of_verifyHash sha256 hv] at ht
      simpa [truthy] using ht
    rw [List.append_nil, lineValue] at he
    rw [lastHashOf]
    split
    · exact absurd ‹_› hne
    · rw [he]
      simp only [lookup_rowHash, Option.getD_some]
      rw [rowHashStr_of_verifyHash sha256 hv]
      simp only [pyStr, hashAfter, head_concat]

lemma Written.rows_eq {out : List (GradeRow F)} {file : Bytes} (h : Written out file)
    (now : String) (uuid : Uuid) : rows now uuid file = out.map .ok := by
  obtain ⟨ps, rfl, hps, rfl⟩ := h
  rw [rows, utf8Decode_encode]
  dsimp only
  induction ps with
  | nil => rfl
  | cons p ps ih =>
    have hp := hps p (by simp)
    have hn : '\n' ∉ p.2 := fun hm => by simpa [isLineBreak] using hp.unbroken _ hm
    have hr : '\r' ∉ p.2 := fun hm => by simpa [isLineBreak] using hp.unbroken _ hm
    have hs : strip (p.2 ++ ['\n']) ≠ [] :=
      strip_ne_nil (List.mem_append_left _ hp.brace) (by decide)
    have hlines : fileLines (fileText ((p :: ps).map Prod.snd)) =
        (p.2 ++ ['\n']) :: fileLines (fileText (ps.map Prod.snd)) := by
      rw [← fileLines_line hn hr]
      simp [fileText]
    rw [hlines, List.filter_cons_of_pos (by simpa using hs), List.map_cons,
      hp.readLine_eq now uuid, ih fun q hq => hps q (by simp [hq])]
    rfl

end Lines

section WideBreaks

/-- No character of the text is a line boundary that JSON leaves as it is. -/
def NoWideBreak (s : Text) : Prop := ∀ c ∈ s, isWideBreak c = false

lemma noWideBreak_of_printable {s : Text} (h : ∀ c ∈ s, Printable c) : NoWideBreak s := by
  intro c hc
  have hp := h c hc
  simp only [Printable, isWideBreak, Bool.or_eq_false_iff, beq_eq_false_iff_ne] at hp ⊢
  omega

lemma noWideBreak_of_all (ks : List String)
    (h : (ks.all fun k => k.toList.all fun c => !isWideBreak c) = true) :
    ∀ k ∈ ks, NoWideBreak k.toList := by
  intro k hk c hc
  simpa using List.all_eq_true.mp (List.all_eq_true.mp h k hk) c hc

lemma noWideBreak_name (f : Field) : NoWideBreak f.name.toList :=
  noWideBreak_of_all (Field.all.map Field.name) (by rfl) _
    (List.mem_map_of_mem (Field.mem_all f))

lemma noWideBreak_kinds : ∀ k ∈ failureKinds, NoWideBreak k.toList :=
  noWideBreak_of_all _ (by rfl)

lemma noWideBreak_genesisHash : NoWideBreak genesisHash.toList := by
  have hlist : genesisHash.toList = List.replicate 64 '0' := String.toList_ofList
  have hzero : isWideBreak '0' = false := by decide
  rw [hlist]
  exact fun c hc => List.eq_of_mem_replicate hc ▸ hzero

lemma noWideBreak_hex (sha256 : Sha256) (t : Text) : NoWideBreak (sha256.hex t).toList := by
  have hdigits := noWideBreak_of_all [hexDigits] (by rfl) hexDigits (by simp)
  intro c hc
  exact hdigits c ((sha256.isHex t).2 c hc)

omit [PyFloat F] in
lemma mem_rowChars {r : RowFields F} {c : Char} :
    c ∈ rowChars r ↔ (∃ f, c ∈ chars (r.val f)) ∨ ∃ p ∈ r.labels, c ∈ p.1.toList ++ chars p.2 := by
  simp only [rowChars, chars, charsFields_eq, List.mem_append, List.mem_flatMap]
  refine or_congr_left (exists_congr fun f => ?_)
  exact and_iff_right (Field.mem_all f)

lemma noWideBreak_lineValue {r : GradeRow F} {prev hash kind : String} {known : Bool}
    (hprev : r.prevHash = .str prev) (hhash : r.rowHash = .str hash)
    (hr : NoWideBreak (rowChars r.toRowFields)) (hp : NoWideBreak prev.toList)
    (hh : NoWideBreak hash.toList) (hk : NoWideBreak kind.toList) :
    NoWideBreak (chars (lineValue r kind known)) := by
  have hkey : ∀ k ∈ ["labels", "prev_hash", "row_hash", "failure_kind", "cost_known"],
      NoWideBreak k.toList := noWideBreak_of_all _ (by rfl)
  intro c hc
  rw [lineValue, chars, charsFields_eq] at hc
  obtain ⟨p, hmem, hc⟩ := List.mem_flatMap.mp hc
  have hp' := mem_ofPairs hmem
  simp only [dictItems, hprev, hhash, List.mem_append, List.mem_map, List.mem_cons,
    List.not_mem_nil, or_false] at hp'
  rcases hp' with (⟨f, -, rfl⟩ | rfl | rfl | rfl) | rfl | rfl <;>
    rcases List.mem_append.mp hc with hc | hc
  · exact noWideBreak_name f c hc
  · exact hr c (mem_rowChars.mpr (.inl ⟨f, hc⟩))
  · exact hkey "labels" (by simp) c hc
  · refine hr c (mem_rowChars.mpr (.inr ?_))
    rw [chars, charsFields_eq] at hc
    exact List.mem_flatMap.mp hc
  · exact hkey "prev_hash" (by simp) c hc
  · exact hp c (by simpa [chars] using hc)
  · exact hkey "row_hash" (by simp) c hc
  · exact hh c (by simpa [chars] using hc)
  · exact hkey "failure_kind" (by simp) c hc
  · exact hk c (by simpa [chars] using hc)
  · exact hkey "cost_known" (by simp) c hc
  · simp [chars] at hc

lemma mem_of_lookup {α : Type} {k : String} {v : α} {ps : List (String × α)}
    (h : ps.lookup k = some v) : (k, v) ∈ ps := by
  obtain ⟨l₁, l₂, rfl, -⟩ := List.lookup_eq_some_iff.mp h
  simp

lemma rowChars_subset (r : GradeRow F) (kind : String) (known : Bool) :
    rowChars r.toRowFields ⊆ chars (lineValue r kind known) := by
  have hmem : ∀ p ∈ dictItems r, chars p.2 ⊆ chars (lineValue r kind known) := by
    intro p hp c hc
    have hin := mem_of_lookup (lookup_ofPairs_of_mem (lineItems_nodup r (.str kind) (.bool known))
      (List.mem_append_left _ hp))
    rw [lineValue, chars, charsFields_eq]
    exact List.mem_flatMap.mpr ⟨_, hin, List.mem_append_right _ hc⟩
  intro c hc
  rcases List.mem_append.mp hc with hc | hc
  · obtain ⟨f, hf, hc⟩ := List.mem_flatMap.mp hc
    exact hmem (f.name, r.val f) (List.mem_append_left _ (List.mem_map_of_mem hf)) hc
  · exact hmem ("labels", .obj r.labels) (List.mem_append_right _ (by simp)) hc

/-- A line has no boundary inside exactly when its value's strings have no wide one. -/
lemma unbroken_iff {v : Json F} :
    (∀ c ∈ dumps [' '] v, isLineBreak c = false) ↔ NoWideBreak (chars v) := by
  have hpad : ∀ c ∈ [' '], c = ' ' := by simp
  constructor
  · intro h c hc
    by_contra hw
    have hw : isWideBreak c = true := by simpa using hw
    have hbig : 127 < c.toNat := by
      simp only [isWideBreak, Bool.or_eq_true, beq_iff_eq] at hw
      omega
    have := h c ((mem_dumps_iff hpad v hbig).mpr hc)
    rw [isLineBreak_of_isWideBreak hw] at this
    cases this
  · intro h c hc
    by_contra hb
    have hb : isLineBreak c = true := by simpa using hb
    rcases mem_dumps hpad hc with hp | ⟨hm, h32⟩
    · have hw := isWideBreak_of_isLineBreak hb hp.1
      rw [noWideBreak_of_printable (s := [c]) (by simpa using hp) c (by simp)] at hw
      cases hw
    · have hw := isWideBreak_of_isLineBreak hb h32
      rw [h c hm] at hw
      cases hw

end WideBreaks

section Runs

variable (sha256 : Sha256)

/-- A typed row that was chained on a hash has an unbroken line when its strings hold no wide
boundary. -/
lemma lineOk_chained {r : ValidRow F} (hr : NoWideBreak (rowChars r.toRowFields)) {prev : String}
    (hp : NoWideBreak prev.toList) : ∃ line, LineOk (r.chained sha256 prev) line := by
  obtain ⟨kind, known, hl, hk⟩ := lineOf_typed (r.chained sha256 prev) r.typed
  have hkind : NoWideBreak kind.toList := by
    rcases hk with hk | hk
    · exact noWideBreak_kinds _ hk
    · exact fun c hc => hr c (mem_rowChars.mpr (.inr ⟨_, hk, by simp [chars, hc]⟩))
  exact ⟨_, hl, ⟨kind, known, rfl⟩, unbroken_iff.mpr
    (noWideBreak_lineValue rfl rfl hr hp (noWideBreak_hex sha256 _) hkind)⟩

/-- Conversely an unbroken line shows that the row's strings hold none. -/
lemma noWideBreak_of_lineOf {r : ValidRow F} {prev : String} {line : Text}
    (h : lineOf (r.chained sha256 prev) = .ok line) (hl : ∀ c ∈ line, isLineBreak c = false) :
    NoWideBreak (rowChars r.toRowFields) := by
  obtain ⟨kind, known, hk, -⟩ := lineOf_typed (r.chained sha256 prev) r.typed
  obtain rfl := Except.ok.inj (h.symm.trans hk)
  exact fun c hc => unbroken_iff.mp hl c (rowChars_subset (r.chained sha256 prev) kind known hc)

/-- One append to a ledger that holds the lines of its rows. -/
lemma append_eq {out : List (GradeRow F)} {file : Bytes} (h : Written out file)
    (hout : ∀ r ∈ out, r.verifyHash sha256 = true) {r : ValidRow F} {line : Text}
    (hl : LineOk (r.chained sha256 (hashAfter genesisHash out)) line) :
    append sha256 file r.toGradeRow = .ok (file ++ utf8Encode (line ++ ['\n']),
      r.chained sha256 (hashAfter genesisHash out)) := by
  have hinv : r.assertInvariants = .ok () := by
    have := r.valid
    simp only [RowFields.postInit, bind_eq_ok, refuseIf_eq_ok] at this
    obtain ⟨_, _, _, _, _, _, _, _, hi⟩ := this
    exact hi
  rw [append, hinv, r.executor, h.lastHashOf_eq hout]
  simp only [bind, Except.bind, hl.written]
  rfl

/-- Appending rows without a wide boundary writes the lines of the chained rows. -/
lemma appendEach_eq (rows : List (ValidRow F))
    (h : ∀ r ∈ rows, NoWideBreak (rowChars r.toRowFields)) : ∃ file,
      appendEach sha256 (rows.map ValidRow.toGradeRow) =
        .ok (file, chainRows sha256 genesisHash (rows.map ValidRow.toGradeRow)) ∧
      Written (chainRows sha256 genesisHash (rows.map ValidRow.toGradeRow)) file := by
  induction rows using List.reverseRecOn with
  | nil => exact ⟨[], rfl, [], rfl, by simp, rfl⟩
  | append_singleton rows r ih =>
    obtain ⟨file, hrun, hw⟩ := ih fun s hs => h s (by simp [hs])
    set out := chainRows sha256 genesisHash (rows.map ValidRow.toGradeRow) with hout
    have hver : ∀ s ∈ out, s.verifyHash sha256 = true := fun s hs =>
      (verifyHash_iff _ _).mpr ((chained_chainRows sha256 _ _).hash_eq hs)
    have hprev : NoWideBreak (hashAfter genesisHash out).toList := by
      rcases hashAfter_chainRows sha256 genesisHash (rows.map ValidRow.toGradeRow) with hg | ⟨t, ht⟩
      · rw [hout, hg]
        exact noWideBreak_genesisHash
      · rw [hout, ht]
        exact noWideBreak_hex sha256 t
    obtain ⟨line, hl⟩ := lineOk_chained sha256 (h r (by simp)) hprev
    refine ⟨file ++ utf8Encode (line ++ ['\n']), ?_, ?_⟩
    · rw [List.map_append, List.map_cons, List.map_nil, appendEach, List.foldlM_append,
        ← appendEach, hrun, chainRows_concat]
      simp only [bind, Except.bind, List.foldlM_cons, List.foldlM_nil, append_eq sha256 hw hver hl]
      rfl
    · rw [List.map_append, List.map_cons, List.map_nil, chainRows_concat]
      exact hw.append hl

/-- What the ledger promises of a sequence of appends: after each of them the rows stand chained
in the order appended, the ledger verifies and reads them back, and its last line is the row's. -/
def Appendable (sha256 : Sha256) (now : String) (uuid : Uuid) (given : List (ValidRow F)) : Prop :=
  ∀ done, done <+: given → ∃ file,
    let out := chainRows sha256 genesisHash (done.map ValidRow.toGradeRow)
    appendEach sha256 (done.map ValidRow.toGradeRow) = .ok (file, out) ∧
      verify (F := F) sha256 now uuid file = .ok done.length ∧
      rows now uuid file = out.map .ok ∧
      ∀ r ∈ out.getLast?, lineOf r = .ok (jsonlLastLine file)

/-- An exact last line after each append leaves no room for a wide boundary in a row. -/
lemma noWideBreak_of_appendable {now : String} {uuid : Uuid} {given : List (ValidRow F)}
    (h : Appendable sha256 now uuid given) :
    ∀ r ∈ given, NoWideBreak (rowChars r.toRowFields) := by
  intro r hr
  obtain ⟨done, rest, rfl⟩ := List.append_of_mem hr
  obtain ⟨file, -, -, -, hlast⟩ := h (done ++ [r]) ⟨rest, by simp⟩
  rw [List.map_append, List.map_cons, List.map_nil, chainRows_concat,
    List.getLast?_concat] at hlast
  exact noWideBreak_of_lineOf sha256 (hlast _ rfl) (no_break_in_lastLine file)

lemma appendable_of_noWideBreak (now : String) (uuid : Uuid) {given : List (ValidRow F)}
    (h : ∀ r ∈ given, NoWideBreak (rowChars r.toRowFields)) :
    Appendable sha256 now uuid given := by
  intro done hdone
  obtain ⟨file, hrun, hw⟩ := appendEach_eq sha256 done fun r hr => h r (hdone.subset hr)
  refine ⟨file, hrun, ?_, hw.rows_eq now uuid, fun r hr => ?_⟩
  · rw [verify, hw.rows_eq now uuid, verifyRows_map_ok]
    simpa [verifyChain] using verifyChain_chainRows sha256 (done.map ValidRow.toGradeRow)
  · obtain ⟨out, hout⟩ := List.getLast?_eq_some_iff.mp hr
    rw [hout] at hw
    exact hw.lastLine.written

/-- The JSONL ledger keeps its promise for a sequence of valid rows exactly when no string, label
key or label value in them holds U+0085, U+2028 or U+2029. -/
theorem appendable_iff (now : String) (uuid : Uuid) (given : List (ValidRow F)) :
    Appendable sha256 now uuid given ↔ ∀ r ∈ given, NoWideBreak (rowChars r.toRowFields) :=
  ⟨noWideBreak_of_appendable sha256, appendable_of_noWideBreak sha256 now uuid⟩

/-- A valid row whose builder's name holds a line separator, U+2028. -/
def separatorRow : ValidRow Whole where
  toGradeRow := plainRow "t1" "a\u2028b"
  typed := plainFields_typed _ _
  executor := rfl

/-- One such row is enough: the last line read is not the line written. -/
theorem not_appendable_separatorRow :
    ¬ Appendable (markDigest []) "2026-01-01T00:00:00Z" ⟨"row", by decide⟩ [separatorRow] := by
  intro h
  have hbuilder : isWideBreak (Char.ofNat 0x2028) = false :=
    noWideBreak_of_appendable _ h separatorRow (by simp) _
      (mem_rowChars.mpr (.inl ⟨.builder, by decide⟩))
  exact absurd hbuilder (by decide)

end Runs

end CommitReplay.JsonlLedger
