import CommitReplay.FactoryStores

/-! When the factory's chain verifies what was appended to it. A payload is redacted before it is
hashed and once more when it is read, so the chain verifies exactly if that pass finds nothing
left to redact, and if each event but the last leaves the file appendable. -/
namespace CommitReplay.FactoryChain

open CommitReplay.PythonText CommitReplay.JsonValue CommitReplay.JsonText CommitReplay.JsonRoundTrip
open CommitReplay.RowChecks CommitReplay.GradeRows CommitReplay.HashChain CommitReplay.JsonlTail
open CommitReplay.JsonlLedger (NoWideBreak noWideBreak_of_all noWideBreak_hex noWideBreak_genesisHash)
open CommitReplay.FactoryEvents CommitReplay.FactoryStores

variable {F : Type} [PyFloat F]

section Chain

variable (sha256 : Sha256) (isWide isPrintable : Char → Bool) (now : String) (uuid : Uuid)

/-- The chain some appends build when each of them succeeds. -/
def chainOf (given : List (FactoryEvent F)) : Chain F :=
  given.foldl (fun chain e => chain ++ [e.chained sha256 isWide (lastHash chain)]) []

/-- Each append succeeds, and the events read back verify. -/
def Verifies (given : List (FactoryEvent F)) : Prop :=
  ∃ file, appendEach sha256 isWide isPrintable given = .ok file ∧
    verify (F := F) sha256 isWide now uuid file = .ok given.length

/-- The strings of an event that the store does not compute, but for its payload's. -/
def ownStrings (e : FactoryEvent F) : List String :=
  [e.itemId, e.actor, e.repo, e.created, e.schema, e.eventId]

/-- The characters an event itself brings to its line, its payload as it is stored. -/
def ownChars (e : FactoryEvent F) : Text :=
  chars (.obj (e.payload.redact isWide).1) ++ (ownStrings e).flatMap String.toList

/-- The texts whose digests are compared: the events as they are stored and as they are read. -/
def hashedTexts (chain : Chain F) : Set Text :=
  {t | ∃ e ∈ chain, t = canonicalJson e.body ∨ t = canonicalJson (e.reread isWide).body}

variable {sha256 isWide}

lemma chainOf_concat (given : List (FactoryEvent F)) (e : FactoryEvent F) :
    chainOf sha256 isWide (given ++ [e]) = chainOf sha256 isWide given ++
      [e.chained sha256 isWide (lastHash (chainOf sha256 isWide given))] := by
  rw [chainOf, List.foldl_append, List.foldl_cons, List.foldl_nil, chainOf]

lemma chainOf_singleton (e : FactoryEvent F) :
    chainOf sha256 isWide [e] = [e.chained sha256 isWide genesisHash] := rfl

variable (sha256 isWide) in
/-- The payloads are stored redacted once more. -/
lemma map_payload_chainOf (given : List (FactoryEvent F)) :
    (chainOf sha256 isWide given).map (·.payload) = given.map (·.payload.redact isWide) := by
  induction given using List.reverseRecOn with
  | nil => rfl
  | append_singleton given e ih =>
    rw [chainOf_concat, List.map_append, ih, List.map_append]
    rfl

variable (sha256 isWide) in
lemma rowHash_chainOf (given : List (FactoryEvent F)) :
    ∀ e ∈ chainOf sha256 isWide given, e.rowHash ≠ "" := by
  induction given using List.reverseRecOn with
  | nil => simp [chainOf]
  | append_singleton given e ih =>
    rw [chainOf_concat]
    intro d hd
    rcases List.mem_append.mp hd with hd | hd
    · exact ih d hd
    · obtain rfl := List.mem_singleton.mp hd
      exact rowHash_ne_empty _ e

lemma linked_chainOf (given : List (FactoryEvent F)) :
    Linked FactoryEvent.prevHash FactoryEvent.rowHash (FactoryEvent.computeHash sha256) genesisHash
      (chainOf sha256 isWide given) := by
  induction given using List.reverseRecOn with
  | nil => trivial
  | append_singleton given e ih =>
    rw [chainOf_concat, linked_concat]
    exact ⟨ih, rfl, rfl⟩

end Chain

section Verification

variable {sha256 : Sha256} {isWide : Char → Bool}

lemma verifyHash_iff {e : FactoryEvent F} :
    e.verifyHash sha256 = true ↔ e.rowHash ≠ "" ∧ e.rowHash = e.computeHash sha256 := by
  simp [FactoryEvent.verifyHash]

/-- The walk counts the events exactly when they continue the chain. -/
lemma verifyEvents_map_ok {prev : String} {n : ℕ} {es : List (FactoryEvent F)}
    (hes : ∀ e ∈ es, e.rowHash ≠ "") :
    verifyEvents sha256 prev n (es.map .ok) = .ok (n + es.length) ↔
      Linked FactoryEvent.prevHash FactoryEvent.rowHash (FactoryEvent.computeHash sha256) prev es := by
  induction es generalizing prev n with
  | nil => simp [verifyEvents.eq_1, Linked]
  | cons e es ih =>
    obtain ⟨he, hes⟩ := List.forall_mem_cons.mp hes
    rw [List.map_cons, verifyEvents, Linked]
    by_cases hp : e.prevHash = prev
    · by_cases hv : e.verifyHash sha256 = true
      · have hlen : n + (e :: es).length = n + 1 + es.length := by
          simp only [List.length_cons]
          omega
        rw [if_neg (not_not.mpr hp), if_neg (by simp [hv]), hlen, ih hes]
        exact ⟨fun h => ⟨hp, (verifyHash_iff.mp hv).2, h⟩, fun h => h.2.2⟩
      · rw [if_neg (not_not.mpr hp), if_pos (by simpa using hv)]
        exact ⟨fun h => (by cases h), fun h => absurd (verifyHash_iff.mpr ⟨he, h.2.1⟩) hv⟩
    · rw [if_pos hp]
      exact ⟨fun h => (by cases h), fun h => absurd h.1 hp⟩

/-- Read again the chain verifies exactly where no event's hash changes. -/
lemma linked_reread {prev : String} {es : List (FactoryEvent F)}
    (h : Linked FactoryEvent.prevHash FactoryEvent.rowHash (FactoryEvent.computeHash sha256)
      prev es) :
    Linked FactoryEvent.prevHash FactoryEvent.rowHash (FactoryEvent.computeHash sha256) prev
      (Store.jsonl.events isWide es) ↔
      ∀ e ∈ es, e.computeHash sha256 = (e.reread isWide).computeHash sha256 := by
  induction es generalizing prev with
  | nil => simp [Store.events, Linked]
  | cons e es ih =>
    obtain ⟨hp, hh, hes⟩ := h
    rw [Store.events, List.map_cons, Linked, List.forall_mem_cons, ← hh]
    constructor
    · rintro ⟨-, he, hrest⟩
      exact ⟨he, (ih hes).mp hrest⟩
    · rintro ⟨he, hrest⟩
      exact ⟨hp, he, (ih hes).mpr hrest⟩

omit [PyFloat F] in
lemma payload_of_body_eq {d e : FactoryEvent F} (h : d.body = e.body) : d.payload = e.payload := by
  have hlook : ∀ e : FactoryEvent F,
      (ofPairs e.bodyItems).lookup "payload" = some (.obj e.payload.1) := fun e =>
    lookup_ofPairs_of_mem (p := ("payload", Json.obj e.payload.1))
      (by simp [FactoryEvent.bodyItems]) (by simp [FactoryEvent.bodyItems])
  have hd := hlook d
  rw [Json.obj.inj h, hlook e] at hd
  exact Subtype.ext (Json.obj.inj (Option.some.inj hd)).symm

omit [PyFloat F] in
lemma body_reread_eq {e : FactoryEvent F} (h : e.payload.redact isWide = e.payload) :
    (e.reread isWide).body = e.body := by
  rw [FactoryEvent.body, FactoryEvent.bodyItems, FactoryEvent.reread, h]
  rfl

variable (isPrintable : Char → Bool) (now : String) (uuid : Uuid)

omit [PyFloat F] in
lemma accepts_iff {chain : Chain F} : Store.jsonl.accepts chain = true ∧
    (∀ e ∈ chain.dropLast, hasSeparator e = false) ↔ ∀ e ∈ chain, hasSeparator e = false := by
  cases chain using List.reverseRecOn with
  | nil => simp [Store.accepts]
  | append_singleton chain e =>
    simp only [Store.accepts, List.getLast?_concat, Option.any_some, List.dropLast_concat,
      Bool.not_eq_true', List.mem_append, List.mem_singleton]
    constructor
    · rintro ⟨he, h⟩ d (hd | rfl)
      · exact h d hd
      · exact he
    · exact fun h => ⟨h e (.inr rfl), fun d hd => h d (.inl hd)⟩

/-- The appends succeed as long as no event but the last holds a separator. -/
lemma appendEach_eq_ok_iff (given : List (FactoryEvent F)) (file : Bytes) :
    appendEach sha256 isWide isPrintable given = .ok file ↔
      file = fileOf (chainOf sha256 isWide given) ∧
        ∀ e ∈ (chainOf sha256 isWide given).dropLast, hasSeparator e = false := by
  induction given using List.reverseRecOn generalizing file with
  | nil =>
    exact ⟨fun h => ⟨(Except.ok.inj h).symm, List.forall_mem_nil _⟩,
      fun h => congrArg Except.ok h.1.symm⟩
  | append_singleton given e ih =>
    have hstep : appendEach sha256 isWide isPrintable (given ++ [e]) =
        appendEach sha256 isWide isPrintable given >>= fun file =>
          Prod.fst <$> append sha256 isWide isPrintable file e := by
      rw [appendEach, List.foldlM_append]
      simp [List.foldlM_cons, List.foldlM_nil, appendEach]
    have happ := @append_fileOf F _ sha256 isWide isPrintable _
      (rowHash_chainOf sha256 isWide given) e
    rw [Store.append] at happ
    rw [hstep, bind_eq_ok, chainOf_concat, List.dropLast_concat, ← accepts_iff]
    constructor
    · rintro ⟨prior, hprior, hlast⟩
      obtain ⟨rfl, hgiven⟩ := (ih prior).mp hprior
      rw [happ] at hlast
      split_ifs at hlast with hopen
      · exact ⟨(Except.ok.inj hlast).symm, hopen, hgiven⟩
    · rintro ⟨rfl, hopen, hgiven⟩
      refine ⟨_, (ih _).mpr ⟨rfl, hgiven⟩, ?_⟩
      rw [happ, if_pos hopen]

/-- The file of a chain verifies where no event's hash changes when it is read. -/
lemma verify_fileOf (given : List (FactoryEvent F)) :
    verify (F := F) sha256 isWide now uuid (fileOf (chainOf sha256 isWide given)) =
        .ok given.length ↔
      ∀ e ∈ chainOf sha256 isWide given,
        e.computeHash sha256 = (e.reread isWide).computeHash sha256 := by
  have hlen : given.length = 0 + (Store.jsonl.events isWide (chainOf sha256 isWide given)).length := by
    have h := congrArg List.length (map_payload_chainOf sha256 isWide given)
    simpa [Store.events] using h.symm
  rw [verify, eventsOf_fileOf, hlen, verifyEvents_map_ok, linked_reread (linked_chainOf given)]
  intro e he
  obtain ⟨d, hd, rfl⟩ := List.mem_map.mp he
  exact rowHash_chainOf sha256 isWide given d hd

omit [PyFloat F] in
lemma canonical_body (e : FactoryEvent F) : Canonical e.body :=
  .obj (keySorted_ofPairs _) fun p hp =>
    canonical_items e p (List.mem_append_left _ (mem_ofPairs hp))

lemma computeHash_reread_iff {chain : Chain F} {e : FactoryEvent F} (he : e ∈ chain)
    (hinj : Set.InjOn sha256.hex (hashedTexts isWide chain)) :
    e.computeHash sha256 = (e.reread isWide).computeHash sha256 ↔
      e.payload.redact isWide = e.payload := by
  refine ⟨fun h => ?_, fun h => ?_⟩
  · have htext := hinj ⟨e, he, .inl rfl⟩ ⟨e, he, .inr rfl⟩ h
    have hbody := dumps_injective (List.forall_mem_nil _) (canonical_body _) (canonical_body _) htext
    exact (payload_of_body_eq hbody).symm
  · rw [FactoryEvent.computeHash, FactoryEvent.computeHash, body_reread_eq h]

omit [PyFloat F] in
lemma mem_chars_toDict {e : FactoryEvent F} {c : Char} :
    c ∈ chars e.toDict ↔ ∃ p ∈ e.items, c ∈ p.1.toList ∨ c ∈ chars p.2 := by
  rw [FactoryEvent.toDict, chars, charsFields_eq]
  simp only [List.mem_flatMap, List.mem_append]
  constructor
  · rintro ⟨p, hp, hc⟩
    exact ⟨p, mem_ofPairs hp, hc⟩
  · rintro ⟨p, hp, hc⟩
    exact ⟨p, JsonlLedger.mem_of_lookup (lookup_items hp), hc⟩

lemma noWideBreak_kind (k : EventKind) : NoWideBreak k.text.toList :=
  noWideBreak_of_all (EventKind.all.map EventKind.text) (by rfl) _
    (List.mem_map_of_mem (by cases k <;> simp [EventKind.all]))

omit [PyFloat F] in
lemma noWideBreak_key (e : FactoryEvent F) : ∀ p ∈ e.items, NoWideBreak p.1.toList := by
  intro p hp
  refine noWideBreak_of_all ["kind", "item_id", "payload", "actor", "repo", "created", "schema",
    "event_id", "prev_hash", "row_hash"] (by rfl) p.1 ?_
  simpa [FactoryEvent.items, FactoryEvent.bodyItems] using List.mem_map_of_mem (f := Prod.fst) hp

lemma item_chained (e : FactoryEvent F) {prev : String} (hp : NoWideBreak prev.toList) :
    ∀ p ∈ (e.chained sha256 isWide prev).items, p.2 = .obj (e.payload.redact isWide).1 ∨
      ∃ s, p.2 = .str s ∧ (s ∈ ownStrings e ∨ NoWideBreak s.toList) := by
  intro p h
  simp only [FactoryEvent.items, FactoryEvent.bodyItems, List.cons_append, List.nil_append,
    List.mem_cons, List.not_mem_nil, or_false] at h
  rcases h with rfl | rfl | rfl | rfl | rfl | rfl | rfl | rfl | rfl | rfl
  · exact .inr ⟨_, rfl, .inr (noWideBreak_kind _)⟩
  on_goal 2 => exact .inl rfl
  on_goal 7 => exact .inr ⟨_, rfl, .inr hp⟩
  on_goal 7 => exact .inr ⟨_, rfl, .inr (noWideBreak_hex sha256 _)⟩
  all_goals
    exact .inr ⟨_, rfl, .inl (by simp [ownStrings, FactoryEvent.chained, FactoryEvent.reread])⟩

lemma ownChars_subset (e : FactoryEvent F) (prev : String) :
    ownChars isWide e ⊆ chars (e.chained sha256 isWide prev).toDict := by
  intro c hc
  rw [mem_chars_toDict]
  rcases List.mem_append.mp hc with hc | hc
  · exact ⟨("payload", .obj (e.payload.redact isWide).1),
      by simp [FactoryEvent.items, FactoryEvent.bodyItems, FactoryEvent.chained,
        FactoryEvent.reread], .inr hc⟩
  · obtain ⟨s, hs, hc⟩ := List.mem_flatMap.mp hc
    have hitem : ∃ k, (k, Json.str s) ∈ (e.chained sha256 isWide prev).items := by
      simp only [ownStrings, List.mem_cons, List.not_mem_nil, or_false] at hs
      rcases hs with rfl | rfl | rfl | rfl | rfl | rfl
      on_goal 1 => refine ⟨"item_id", ?_⟩
      on_goal 2 => refine ⟨"actor", ?_⟩
      on_goal 3 => refine ⟨"repo", ?_⟩
      on_goal 4 => refine ⟨"created", ?_⟩
      on_goal 5 => refine ⟨"schema", ?_⟩
      on_goal 6 => refine ⟨"event_id", ?_⟩
      all_goals
        simp [FactoryEvent.items, FactoryEvent.bodyItems, FactoryEvent.chained, FactoryEvent.reread]
    obtain ⟨k, hk⟩ := hitem
    exact ⟨_, hk, .inr (by simpa [chars] using hc)⟩

/-- A separator stands in a stored event where it stands in what the event brings to its line. -/
lemma hasSeparator_chained (e : FactoryEvent F) {prev : String} (hp : NoWideBreak prev.toList) :
    hasSeparator (e.chained sha256 isWide prev) = (ownChars isWide e).any isWideBreak := by
  rw [Bool.eq_iff_iff, hasSeparator, List.any_eq_true, List.any_eq_true]
  constructor
  swap
  · rintro ⟨c, hc, hw⟩
    exact ⟨c, ownChars_subset e prev hc, hw⟩
  rintro ⟨c, hc, hw⟩
  obtain ⟨p, hmem, hkey | hval⟩ := mem_chars_toDict.mp hc
  · exact absurd hw (by simp [noWideBreak_key _ p hmem c hkey])
  · rcases item_chained e hp p hmem with hobj | ⟨s, hstr, hs | hs⟩
    · exact ⟨c, List.mem_append_left _ (hobj ▸ hval), hw⟩
    · rw [hstr, chars] at hval
      exact ⟨c, List.mem_append_right _ (List.mem_flatMap_of_mem hs hval), hw⟩
    · rw [hstr, chars] at hval
      exact absurd hw (by simp [hs c hval])

variable (sha256 isWide) in
lemma noWideBreak_lastHash (given : List (FactoryEvent F)) :
    NoWideBreak (lastHash (chainOf sha256 isWide given)).toList := by
  cases given using List.reverseRecOn with
  | nil => exact noWideBreak_genesisHash
  | append_singleton given e =>
    rw [chainOf_concat, lastHash, List.getLast?_concat]
    exact noWideBreak_hex sha256 _

lemma map_hasSeparator (given : List (FactoryEvent F)) :
    (chainOf sha256 isWide given).map hasSeparator =
      given.map fun e => (ownChars isWide e).any isWideBreak := by
  induction given using List.reverseRecOn with
  | nil => simp only [chainOf, List.foldl_nil, List.map_nil]
  | append_singleton given e ih =>
    have he := @hasSeparator_chained F _ sha256 isWide e _ (noWideBreak_lastHash sha256 isWide given)
    simp only [chainOf_concat, List.map_append, ih, List.map_cons, List.map_nil, he]

lemma verifies_iff_computeHash (given : List (FactoryEvent F)) :
    Verifies sha256 isWide isPrintable now uuid given ↔
      (∀ e ∈ chainOf sha256 isWide given,
        e.computeHash sha256 = (e.reread isWide).computeHash sha256) ∧
      ∀ e ∈ given.dropLast, NoWideBreak (ownChars isWide e) := by
  have hsep : (∀ e ∈ (chainOf sha256 isWide given).dropLast, hasSeparator e = false) ↔
      ∀ e ∈ given.dropLast, NoWideBreak (ownChars isWide e) := by
    have hmap : (chainOf sha256 isWide given).dropLast.map hasSeparator =
        given.dropLast.map fun e => (ownChars isWide e).any isWideBreak := by
      rw [List.map_dropLast, List.map_dropLast, map_hasSeparator]
    have hall := congrArg (fun bs : List Bool => ∀ b ∈ bs, b = false) hmap
    simpa only [List.forall_mem_map, List.any_eq_false, Bool.not_eq_true, NoWideBreak, eq_iff_iff]
      using hall
  rw [← verify_fileOf now uuid given, ← hsep]
  constructor
  · rintro ⟨file, happ, hver⟩
    obtain ⟨rfl, hopen⟩ := (appendEach_eq_ok_iff isPrintable given file).mp happ
    exact ⟨hver, hopen⟩
  · rintro ⟨hver, hopen⟩
    exact ⟨_, (appendEach_eq_ok_iff isPrintable given _).mpr ⟨rfl, hopen⟩, hver⟩

end Verification

section Samples

lemma body_chained (e : FactoryEvent F) (prev : String) : (e.chained sha256 isWide prev).body =
    { e.reread isWide with prevHash := prev }.body := rfl

/-- The digest that tells the body an event is stored with from any other text. -/
def bodyDigest (isWide : Char → Bool) (e : FactoryEvent F) : Sha256 :=
  markDigest (canonicalJson { e.reread isWide with prevHash := genesisHash }.body)

lemma injOn_bodyDigest (e : FactoryEvent F) : Set.InjOn (bodyDigest isWide e).hex
    (hashedTexts isWide (chainOf (bodyDigest isWide e) isWide [e])) := by
  rw [chainOf_singleton, bodyDigest]
  refine (markDigest_injOn _ (canonicalJson
    ((e.chained (bodyDigest isWide e) isWide genesisHash).reread isWide).body)).mono ?_
  rintro t ⟨c, hc, ht⟩
  obtain rfl := List.mem_singleton.mp hc
  rw [body_chained] at ht
  exact ht

/-- An event the second redaction leaves something to redact in breaks the chain at once. -/
lemma not_verifies_of_unstable {e : FactoryEvent F}
    (h : (e.payload.redact isWide).redact isWide ≠ e.payload.redact isWide)
    (isPrintable : Char → Bool) (now : String) (uuid : Uuid) :
    ¬ Verifies (bodyDigest isWide e) isWide isPrintable now uuid [e] := by
  rw [verifies_iff_computeHash, chainOf_singleton, List.forall_mem_singleton,
    FactoryEvent.computeHash, body_chained]
  rintro ⟨hstored, -⟩
  have htext := markDigest_inj hstored
  have hbody := dumps_injective (List.forall_mem_nil _) (canonical_body _) (canonical_body _) htext
  exact h (payload_of_body_eq hbody)

/-- A readiness event whose payload holds one note. -/
def noteEvent (note : String) : FactoryEvent Whole :=
  FactoryEvent.make (fun _ => false) ⟨"e1", by decide⟩ .readiness "item-1"
    (Payload.of [("note", .str note)]) "" "" "2026-01-01T00:00:00Z" factoryEvidenceSchema "" "" ""

lemma redact_single (isWide : Char → Bool) (k s : String) :
    (Payload.of (F := Whole) [(k, .str s)]).redact isWide =
      Payload.of [(k, .str (Redaction.redact isWide s))] := by
  simp [Payload.of, Payload.redact, ofPairs, insertKey, normal, mapStrings]

lemma noteEvent_payload {note s : String} (h : Redaction.redact (fun _ => false) note = s) :
    (noteEvent note).payload = Payload.of [("note", .str s)] := by
  simp only [noteEvent, FactoryEvent.make, redact_single, h]

lemma redact_of_toList {isWide : Char → Bool} {s t : String}
    (h : Redaction.redactText isWide s.toList = t.toList) : Redaction.redact isWide s = t := by
  rw [Redaction.redact, h, String.ofList_toList]

/-- A note in which each redaction uncovers something more to redact, up to the third. -/
def leakyEvent : FactoryEvent Whole := noteEvent "https://token:'x@'secret:'y@"

end Samples

end CommitReplay.FactoryChain
