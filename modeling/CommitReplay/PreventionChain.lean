import CommitReplay.FactoryStores
import CommitReplay.PreventionRecords

/-! When the prevention chain reads back what was appended to it: exactly if no record has more
to redact or to cut than its append found, and none holds a separator of `str.splitlines`. -/
namespace CommitReplay.PreventionChain

open CommitReplay.PythonText CommitReplay.JsonValue CommitReplay.JsonText CommitReplay.JsonRoundTrip
open CommitReplay.RowChecks CommitReplay.GradeRows CommitReplay.HashChain CommitReplay.JsonlTail
open CommitReplay.JsonlLedger (NoWideBreak noWideBreak_of_all noWideBreak_hex noWideBreak_genesisHash)
open CommitReplay.JsonlObjects CommitReplay.FactoryEvents CommitReplay.PreventionRecords

variable {F : Type} [PyFloat F]

section Records

variable {sha256 : Sha256} {isWide isPrintable : Char → Bool}

omit [PyFloat F] in
lemma items_nodup (r : PreventionRecord F) : (r.items.map Prod.fst).Nodup := by
  simp [PreventionRecord.items, PreventionRecord.bodyItems, PreventionRecord.ownItems]

omit [PyFloat F] in
lemma lookup_items {r : PreventionRecord F} {k : String} {v : Json F} (h : (k, v) ∈ r.items) :
    (ofPairs r.items).lookup k = some v := by
  have hk := lookup_ofPairs_of_mem (items_nodup r) h
  exact hk

omit [PyFloat F] in
lemma canonical_rules (rs : Rules) : Canonical (F := F) (.obj (rs.1.map fun p => (p.1, .str p.2))) := by
  refine .obj ?_ fun p hp => ?_
  · rw [KeySorted, List.pairwise_map]
    exact rs.2
  · obtain ⟨q, -, rfl⟩ := List.mem_map.mp hp
    exact .str _

omit [PyFloat F] in
lemma canonical_items (r : PreventionRecord F) : ∀ p ∈ r.items, Canonical p.2 := by
  intro p hp
  simp only [PreventionRecord.items, PreventionRecord.bodyItems, PreventionRecord.ownItems,
    List.cons_append, List.nil_append, List.mem_cons, List.not_mem_nil, or_false] at hp
  rcases hp with rfl | rfl | rfl | rfl | rfl | rfl | rfl | rfl | rfl | rfl | rfl | rfl <;>
    first | exact .str _ | exact r.payload.2 | exact canonical_rules r.rules

/-- The object a record's line is the text of. -/
def object (r : PreventionRecord F) : Object F :=
  ⟨ofPairs r.items, .obj (keySorted_ofPairs _) fun p hp => canonical_items r p (mem_ofPairs hp)⟩

omit [PyFloat F] in
lemma object_val (r : PreventionRecord F) : (object r).1 = ofPairs r.items := by
  rw [object]

lemma line_object (r : PreventionRecord F) : (object r).line = dumps [' '] r.toDict := by
  rw [Object.line, object, PreventionRecord.toDict]

lemma rulesOf_rules (rs : Rules) :
    rulesOf (F := F) isPrintable (rs.1.map fun p => (p.1, .str p.2)) = rs := by
  have hid : (rs.1.map fun p => (p.1, Json.str (F := F) p.2)).map
      (fun p => (p.1, PythonRepr.pyStr isPrintable p.2)) = rs.1 := by
    rw [List.map_map]
    exact List.map_id _
  refine Subtype.ext ?_
  change ofPairs _ = rs.1
  rw [hid]
  exact ofPairs_of_sorted rs.2

/-- A dictionary that is empty is read as the default, which is empty too. -/
lemma dictItem_items {r : PreventionRecord F} {k : String} {ps : List (String × Json F)}
    (h : (k, .obj ps) ∈ r.items) : dictItem (ofPairs r.items) k = .ok ps := by
  rw [dictItem, lookup_items h]
  cases ps with
  | nil => rfl
  | cons p ps => rfl

/-- What was stored is what is read, constructed once more. -/
theorem fromDict_toDict (r : PreventionRecord F) :
    PreventionRecord.fromDict sha256 isWide isPrintable (.obj (ofPairs r.items)) =
      .ok (r.reread isWide) := by
  have htext : ∀ {k v : String} (d : String), (k, Json.str v) ∈ r.items →
      textItem isPrintable (ofPairs r.items) k d = v := by
    intro k v d h
    rw [textItem, lookup_items h]
    rfl
  have hkind : RecordKind.ofText (textItem isPrintable (ofPairs r.items) "kind" "") = some r.kind := by
    rw [@htext "kind" r.kind.text "" (by
      simp [PreventionRecord.items, PreventionRecord.bodyItems, PreventionRecord.ownItems])]
    exact RecordKind.ofText_text r.kind
  have hpayload : dictItem (ofPairs r.items) "payload" = .ok r.payload.1 := dictItem_items (by
    simp [PreventionRecord.items, PreventionRecord.bodyItems, PreventionRecord.ownItems])
  have hrules : dictItem (ofPairs r.items) "rules" =
      .ok (r.rules.1.map fun p => (p.1, .str p.2)) := dictItem_items (by
    simp [PreventionRecord.items, PreventionRecord.bodyItems, PreventionRecord.ownItems])
  rw [← PreventionRecord.make_self sha256 isWide r, PreventionRecord.fromDict, hpayload, hrules]
  simp only [bind, Except.bind, hkind, pure, Except.pure, rulesOf_rules]
  rw [FactoryStores.payload_of, @htext "repo" r.repo, @htext "actor" r.actor,
    @htext "on_behalf_of" r.onBehalfOf, @htext "reason" r.reason, @htext "created" r.created,
    @htext "schema" r.schema, @htext "record_id" r.recordId, @htext "prev_hash" r.prevHash,
    @htext "row_hash" r.rowHash]
  all_goals simp [PreventionRecord.items, PreventionRecord.bodyItems, PreventionRecord.ownItems]

end Records

section Chain

variable (sha256 : Sha256) (isWide isPrintable : Char → Bool)

/-- The chain some appends build when each of them succeeds. -/
def chainOf (given : List (PreventionRecord F)) : List (PreventionRecord F) :=
  given.foldl (fun chain r =>
    chain ++ [r.chained sha256 isWide (head PreventionRecord.rowHash genesisHash chain)]) []

/-- Each append succeeds, and the records read back, verified, are those it returned. -/
def ReadsBack (given : List (PreventionRecord F)) : Prop :=
  ∃ file returned, appendEach sha256 isWide isPrintable given = .ok (file, returned) ∧
    records sha256 isWide isPrintable file = .ok returned

/-- The characters a record brings to its line, redacted and cut as it is stored. -/
def ownChars (r : PreventionRecord F) : Text := chars (.obj (r.reread isWide).ownItems)

variable {sha256 isWide}

lemma chainOf_concat (given : List (PreventionRecord F)) (r : PreventionRecord F) :
    chainOf sha256 isWide (given ++ [r]) = chainOf sha256 isWide given ++ [r.chained sha256 isWide
      (head PreventionRecord.rowHash genesisHash (chainOf sha256 isWide given))] := by
  rw [chainOf, List.foldl_append, List.foldl_cons, List.foldl_nil, chainOf]

lemma rowHash_ne_empty (prev : String) (r : PreventionRecord F) :
    (r.chained sha256 isWide prev).rowHash ≠ "" := by
  intro he
  have hlen := (sha256.isHex (canonicalJson { r.reread isWide with prevHash := prev }.body)).1
  rw [show sha256.hex _ = "" from he] at hlen
  simp at hlen

lemma noWideBreak_head (given : List (PreventionRecord F)) : NoWideBreak
    (head PreventionRecord.rowHash genesisHash (chainOf sha256 isWide given)).toList := by
  cases given using List.reverseRecOn with
  | nil => exact noWideBreak_genesisHash
  | append_singleton given r =>
    rw [chainOf_concat, head_concat]
    exact noWideBreak_hex sha256 _

/-- A property of the records on the chain, by what the appended records had to satisfy. -/
lemma forall_chainOf {p q : PreventionRecord F → Prop}
    (h : ∀ r prev, NoWideBreak prev.toList → (p (r.chained sha256 isWide prev) ↔ q r))
    (given : List (PreventionRecord F)) :
    (∀ r ∈ chainOf sha256 isWide given, p r) ↔ ∀ r ∈ given, q r := by
  induction given using List.reverseRecOn with
  | nil => exact ⟨fun _ => List.forall_mem_nil q, fun _ => List.forall_mem_nil p⟩
  | append_singleton given r ih =>
    rw [chainOf_concat, List.forall_mem_append, List.forall_mem_append, ih,
      List.forall_mem_singleton, List.forall_mem_singleton, h r _ (noWideBreak_head given)]

lemma rowHash_chainOf (given : List (PreventionRecord F)) :
    ∀ r ∈ chainOf sha256 isWide given, r.rowHash ≠ "" :=
  (forall_chainOf (q := fun _ => True) (fun r prev _ => iff_true_intro (rowHash_ne_empty prev r))
    given).mpr fun _ _ => trivial

lemma linked_chainOf (given : List (PreventionRecord F)) :
    Linked PreventionRecord.prevHash PreventionRecord.rowHash
      (PreventionRecord.computeHash sha256) genesisHash (chainOf sha256 isWide given) := by
  induction given using List.reverseRecOn with
  | nil => trivial
  | append_singleton given r ih =>
    rw [chainOf_concat, linked_concat]
    exact ⟨ih, rfl, rfl⟩

end Chain

section Files

lemma all_iff_last_dropLast {α : Type} (p : α → Bool) (l : List α) :
    l.getLast?.any p = false ∧ (∀ a ∈ l.dropLast, p a = false) ↔ ∀ a ∈ l, p a = false := by
  cases l using List.reverseRecOn with
  | nil => simp
  | append_singleton l a =>
    rw [List.getLast?_concat, Option.any_some, List.dropLast_concat, List.forall_mem_append,
      List.forall_mem_singleton, and_comm]

variable {sha256 : Sha256} {isWide : Char → Bool} (isPrintable : Char → Bool)

/-- The hash the next line chains on can be read while the last record holds no separator. -/
lemma lastHashOf_fileOf {chain : List (PreventionRecord F)} (hhash : ∀ r ∈ chain, r.rowHash ≠ "") :
    lastHashOf (F := F) isPrintable (fileOf (chain.map object)) =
      if chain.getLast?.any fun r => (object r).hasSeparator then .error .unreadableLine
      else .ok (head PreventionRecord.rowHash genesisHash chain) := by
  cases chain using List.reverseRecOn with
  | nil => rfl
  | append_singleton chain r =>
    have hne := hhash r (by simp)
    have hrow : textItem isPrintable (ofPairs r.items) "row_hash" "" = r.rowHash := by
      rw [textItem, lookup_items (v := .str r.rowHash) (by simp [PreventionRecord.items])]
      rfl
    obtain ⟨hline, hloads⟩ := lastLine_fileOf (chain.map object) (object r)
    rw [← List.map_singleton, ← List.map_append] at hline hloads
    rw [lastHashOf]
    split
    · rename_i hnil
      exact absurd hnil hline
    · rw [hloads, List.getLast?_concat, Option.any_some, head_concat]
      cases (object r).hasSeparator with
      | true => rfl
      | false =>
        simp only [Bool.false_eq_true, if_false, object_val, hrow]

lemma append_fileOf {chain : List (PreventionRecord F)} (hhash : ∀ r ∈ chain, r.rowHash ≠ "")
    (r : PreventionRecord F) : append sha256 isWide isPrintable (fileOf (chain.map object)) r =
      if chain.getLast?.any fun r => (object r).hasSeparator then .error .unreadableLine
      else
        let c := r.chained sha256 isWide (head PreventionRecord.rowHash genesisHash chain)
        .ok (fileOf ((chain ++ [c]).map object), c) := by
  rw [append, lastHashOf_fileOf isPrintable hhash]
  split_ifs
  · rfl
  · simp [fileOf, line_object, bind, Except.bind, pure, Except.pure]

/-- The appends succeed as long as no record but the last holds a separator. -/
lemma appendEach_eq_ok_iff (given : List (PreventionRecord F)) (file : Bytes)
    (returned : List (PreventionRecord F)) :
    appendEach sha256 isWide isPrintable given = .ok (file, returned) ↔
      returned = chainOf sha256 isWide given ∧ file = fileOf (returned.map object) ∧
        ∀ r ∈ returned.dropLast, (object r).hasSeparator = false := by
  induction given using List.reverseRecOn generalizing file returned with
  | nil =>
    constructor
    · intro h
      obtain ⟨rfl, rfl⟩ := Prod.mk.inj (Except.ok.inj h)
      exact ⟨rfl, rfl, List.forall_mem_nil _⟩
    · rintro ⟨rfl, rfl, -⟩
      rfl
  | append_singleton given r ih =>
    have hstep : appendEach sha256 isWide isPrintable (given ++ [r]) =
        appendEach sha256 isWide isPrintable given >>= fun s =>
          append sha256 isWide isPrintable s.1 r >>= fun t => pure (t.1, s.2 ++ [t.2]) := by
      rw [appendEach, List.foldlM_append]
      simp [List.foldlM_cons, List.foldlM_nil, appendEach]
    have happ := @append_fileOf F _ sha256 isWide isPrintable _
      (@rowHash_chainOf F _ sha256 isWide given) r
    have hopen : (chainOf sha256 isWide given).getLast?.any (fun r => (object r).hasSeparator) =
        false ∧ (∀ r ∈ (chainOf sha256 isWide given).dropLast, (object r).hasSeparator = false) ↔
        ∀ r ∈ chainOf sha256 isWide given, (object r).hasSeparator = false :=
      all_iff_last_dropLast _ _
    rw [hstep, bind_eq_ok]
    constructor
    · rintro ⟨⟨file', returned'⟩, hgiven, hlast⟩
      obtain ⟨rfl, rfl, hdrop⟩ := (ih _ _).mp hgiven
      rw [bind_eq_ok] at hlast
      obtain ⟨t, ht, hpure⟩ := hlast
      rw [happ] at ht
      split_ifs at ht with hsep
      obtain rfl := Except.ok.inj ht
      obtain ⟨rfl, rfl⟩ := Prod.mk.inj (Except.ok.inj hpure)
      refine ⟨(chainOf_concat given r).symm, rfl, ?_⟩
      rw [List.dropLast_concat]
      exact hopen.mp ⟨by simpa using hsep, hdrop⟩
    · rintro ⟨rfl, rfl, hdrop⟩
      rw [chainOf_concat, List.dropLast_concat, ← hopen] at hdrop
      rw [if_neg (by simpa using hdrop.1)] at happ
      exact ⟨_, (ih _ _).mpr ⟨rfl, rfl, hdrop.2⟩, bind_eq_ok.mpr ⟨_, happ, by rw [chainOf_concat]; rfl⟩⟩

lemma verifyRecords_of_linked {prev : String} {n : ℕ} {rs : List (PreventionRecord F)}
    (h : Linked PreventionRecord.prevHash PreventionRecord.rowHash
      (PreventionRecord.computeHash sha256) prev rs) (hhash : ∀ r ∈ rs, r.rowHash ≠ "") :
    verifyRecords sha256 prev n rs = .ok (n + rs.length) := by
  induction rs generalizing prev n with
  | nil => rfl
  | cons r rs ih =>
    obtain ⟨hp, hr, hrs⟩ := h
    obtain ⟨hne, hhash⟩ := List.forall_mem_cons.mp hhash
    have hv : r.verifyHash sha256 = true := by
      simp [PreventionRecord.verifyHash, hne, ← hr]
    rw [verifyRecords, if_neg (not_not.mpr hp), if_neg (by simp [hv]), ih hrs hhash,
      List.length_cons]
    congr 1
    omega

lemma readObject_object (r : PreventionRecord F) : readObject .unreadableLine
    (PreventionRecord.fromDict sha256 isWide isPrintable) (object r) =
      if (object r).hasSeparator then .error .unreadableLine else .ok (r.reread isWide) := by
  rw [readObject, object_val, fromDict_toDict]

/-- The records of a file are read one by one, each constructed again. -/
lemma mapM_readObject (rs out : List (PreventionRecord F)) : (rs.map object).mapM
    (readObject .unreadableLine (PreventionRecord.fromDict sha256 isWide isPrintable)) = .ok out ↔
      (∀ r ∈ rs, (object r).hasSeparator = false) ∧ out = rs.map (·.reread isWide) := by
  induction rs generalizing out with
  | nil => exact ⟨fun h => ⟨List.forall_mem_nil _, (Except.ok.inj h).symm⟩,
      fun h => congrArg Except.ok h.2.symm⟩
  | cons r rs ih =>
    rw [List.map_cons, List.mapM_cons, bind_eq_ok, List.forall_mem_cons, readObject_object]
    constructor
    · rintro ⟨a, ha, hrest⟩
      split_ifs at ha with hsep
      obtain rfl := Except.ok.inj ha
      obtain ⟨as, has, hpure⟩ := bind_eq_ok.mp hrest
      obtain ⟨hrs, rfl⟩ := (ih as).mp has
      exact ⟨⟨by simpa using hsep, hrs⟩, (Except.ok.inj hpure).symm⟩
    · rintro ⟨⟨hsep, hrs⟩, rfl⟩
      rw [if_neg (by simp [hsep])]
      exact ⟨r.reread isWide, rfl, bind_eq_ok.mpr ⟨_, (ih _).mpr ⟨hrs, rfl⟩, rfl⟩⟩

lemma records_fileOf {chain : List (PreventionRecord F)} :
    records sha256 isWide isPrintable (fileOf (chain.map object)) = .ok chain ↔
      (∀ r ∈ chain, (object r).hasSeparator = false) ∧ (∀ r ∈ chain, r.reread isWide = r) ∧
        ∃ n, verifyRecords sha256 genesisHash 0 chain = .ok n := by
  have hsame : chain.map (·.reread isWide) = chain ↔ ∀ r ∈ chain, r.reread isWide = r := by
    conv_lhs => rhs; rw [← List.map_id chain]
    exact List.map_inj_left
  rw [records, fileOf, utf8Decode_encode]
  dsimp only
  rw [universalNewlines_fileText, readLines_fileText, bind_eq_ok]
  constructor
  · rintro ⟨out, hread, hverify⟩
    obtain ⟨hsep, hout⟩ := (mapM_readObject isPrintable chain out).mp hread
    obtain ⟨n, hn, hpure⟩ := bind_eq_ok.mp hverify
    obtain rfl := Except.ok.inj hpure
    exact ⟨hsep, hsame.mp hout.symm, n, hn⟩
  · rintro ⟨hsep, hall, n, hn⟩
    have hread := (@mapM_readObject F _ sha256 isWide isPrintable chain chain).mpr
      ⟨hsep, (hsame.mpr hall).symm⟩
    exact ⟨chain, hread, bind_eq_ok.mpr ⟨n, hn, rfl⟩⟩

end Files

section Claim

variable {sha256 : Sha256} {isWide : Char → Bool}

omit [PyFloat F] in
lemma reread_eq_iff (r : PreventionRecord F) : r.reread isWide = r ↔
    r.payload.redact isWide = r.payload ∧ cutReason isWide r.reason = r.reason := by
  constructor
  · intro h
    rw [← PreventionRecord.payload_reread, ← PreventionRecord.reason_reread, h]
    exact ⟨rfl, rfl⟩
  · rintro ⟨hpayload, hreason⟩
    rw [PreventionRecord.reread, hpayload, hreason]

lemma reread_chained_iff (r : PreventionRecord F) (prev : String) :
    (r.chained sha256 isWide prev).reread isWide = r.chained sha256 isWide prev ↔
      (r.reread isWide).reread isWide = r.reread isWide := by
  rw [reread_eq_iff, reread_eq_iff]
  rfl

omit [PyFloat F] in
lemma mem_chars_object {r : PreventionRecord F} {c : Char} :
    c ∈ chars (.obj (object r).1) ↔ ∃ p ∈ r.items, c ∈ p.1.toList ∨ c ∈ chars p.2 := by
  rw [object_val, chars, charsFields_eq]
  simp only [List.mem_flatMap, List.mem_append]
  refine exists_congr fun p => and_congr_left' ⟨mem_ofPairs, fun hp => ?_⟩
  have hlook : (ofPairs r.items).lookup p.1 = some p.2 := lookup_items hp
  exact JsonlLedger.mem_of_lookup hlook

/-- The hashes of a stored record bring no separator to its line. -/
lemma hasSeparator_chained (r : PreventionRecord F) (prev : String) (hp : NoWideBreak prev.toList) :
    (object (r.chained sha256 isWide prev)).hasSeparator = false ↔
      NoWideBreak (ownChars isWide r) := by
  have hitems : ∃ hash, NoWideBreak hash.toList ∧ (r.chained sha256 isWide prev).items =
      (r.reread isWide).ownItems ++ [("prev_hash", .str prev)] ++ [("row_hash", .str hash)] :=
    ⟨_, noWideBreak_hex sha256 _, rfl⟩
  obtain ⟨hash, hhash, hitems⟩ := hitems
  have hkeys : ∀ k ∈ ["prev_hash", "row_hash"], NoWideBreak k.toList :=
    noWideBreak_of_all _ (by rfl)
  rw [Object.hasSeparator, List.any_eq_false, NoWideBreak, ownChars]
  simp only [mem_chars_object, hitems, Bool.not_eq_true]
  constructor
  · intro h c hc
    rw [chars, charsFields_eq] at hc
    obtain ⟨p, hmem, hc⟩ := List.mem_flatMap.mp hc
    exact h c ⟨p, by simp [hmem], List.mem_append.mp hc⟩
  · rintro h c ⟨p, hmem, hc⟩
    rw [List.mem_append, List.mem_append, List.mem_singleton, List.mem_singleton] at hmem
    rcases hmem with (hmem | rfl) | rfl
    · refine h c ?_
      rw [chars, charsFields_eq]
      exact List.mem_flatMap.mpr ⟨p, hmem, List.mem_append.mpr hc⟩
    · exact hc.elim (hkeys _ (by simp) c) (hp c)
    · exact hc.elim (hkeys _ (by simp) c) (hhash c)

/-- The prevention chain reads back what its appends returned exactly when constructing a record
once more than its append did changes nothing, and no record holds a separator. -/
theorem readsBack_iff (sha256 : Sha256) (isWide isPrintable : Char → Bool)
    (given : List (PreventionRecord F)) : ReadsBack sha256 isWide isPrintable given ↔
      ∀ r ∈ given, (r.reread isWide).reread isWide = r.reread isWide ∧
        NoWideBreak (ownChars isWide r) := by
  have hstable : (∀ r ∈ chainOf sha256 isWide given, r.reread isWide = r) ↔
      ∀ r ∈ given, (r.reread isWide).reread isWide = r.reread isWide :=
    forall_chainOf (fun r prev _ => reread_chained_iff r prev) given
  have hplain : (∀ r ∈ chainOf sha256 isWide given, (object r).hasSeparator = false) ↔
      ∀ r ∈ given, NoWideBreak (ownChars isWide r) := forall_chainOf hasSeparator_chained given
  rw [forall₂_and, ← hstable, ← hplain]
  constructor
  · rintro ⟨file, returned, happend, hrecords⟩
    obtain ⟨rfl, rfl, -⟩ := (appendEach_eq_ok_iff isPrintable given file returned).mp happend
    obtain ⟨hsep, hreread, -⟩ := (records_fileOf isPrintable).mp hrecords
    exact ⟨hreread, hsep⟩
  · rintro ⟨hreread, hsep⟩
    have hverify := @verifyRecords_of_linked F _ sha256 genesisHash 0 _
      (@linked_chainOf F _ sha256 isWide given) (@rowHash_chainOf F _ sha256 isWide given)
    exact ⟨_, _, (appendEach_eq_ok_iff isPrintable given _ _).mpr
      ⟨rfl, rfl, fun r hr => hsep r (List.mem_of_mem_dropLast hr)⟩,
      (records_fileOf isPrintable).mpr ⟨hsep, hreread, _, hverify⟩⟩

end Claim

section Samples

lemma noRules_sorted : KeySorted ([] : List (String × String)) := List.Pairwise.nil

/-- A switch record with one reason. -/
def reasonRecord (reason : String) : PreventionRecord Whole :=
  PreventionRecord.make (markDigest []) (fun _ => false) .switched "acme/app" (Payload.of []) "" ""
    reason "2026-01-01T00:00:00Z" ⟨[], noRules_sorted⟩ recordSchema "" "" ""

/-- A reason that is a line separator cuts its record's line. -/
theorem not_readsBack_separator : ¬ ReadsBack (markDigest []) (fun _ => false) (fun _ => false)
    [reasonRecord (.ofList [Char.ofNat 0x2028])] := by
  rw [readsBack_iff, List.forall_mem_singleton]
  rintro ⟨-, hplain⟩
  have hmem : Char.ofNat 0x2028 ∈ ownChars (fun _ => false)
      (reasonRecord (.ofList [Char.ofNat 0x2028])) := by decide
  exact absurd (hplain _ hmem) (by decide)

end Samples

end CommitReplay.PreventionChain
