import CommitReplay.FactoryStores
import CommitReplay.TransitionRuns

/-! Grants of calibration builds. An approver's grant waits until a run claims it or an outcome
names it. Both granting and claiming check the whole chain under the lock they append under, so in
every order of calls a grant funds one run. -/
namespace CommitReplay.FactoryGrants

open CommitReplay.PythonText CommitReplay.JsonValue CommitReplay.JsonText CommitReplay.RowChecks
open CommitReplay.GradeRows CommitReplay.Redaction CommitReplay.FactoryEvents
open CommitReplay.FactoryStores CommitReplay.TransitionRuns

variable {F : Type} [PyFloat F]

section Reading

variable (isPrintable : Char → Bool)

/-- `str(payload[key])` of a value that is given and not falsy. -/
def payloadText (key : String) (p : Payload F) : Option String :=
  ((p.get key).filter truthy).map (PythonRepr.pyStr isPrintable)

/-- The grant an event spends. -/
def spentGrant (e : FactoryEvent F) : Option String :=
  if e.kind = .calibrationClaimed then payloadText isPrintable "grant" e.payload
  else if e.kind = .itemOutcome then payloadText isPrintable "calibration_event" e.payload
  else none

/-- The event is a claim of this grant. -/
def claims (grant : String) (e : FactoryEvent F) : Bool :=
  e.kind = .calibrationClaimed && payloadText isPrintable "grant" e.payload = some grant

def spentGrants (events : List (FactoryEvent F)) : List String :=
  events.filterMap (spentGrant isPrintable)

def isFunded (itemId : String) (e : FactoryEvent F) : Bool :=
  e.kind = .calibrationFunded && e.itemId = itemId

/-- The item's newest grant, unless it is spent. -/
def waitingGrant (events : List (FactoryEvent F)) (itemId : String) : Option (FactoryEvent F) :=
  match (events.filter (isFunded itemId)).getLast? with
  | none => none
  | some newest => if newest.eventId ∈ spentGrants isPrintable events then none else some newest

end Reading

section Steps

/-- `uuid4().hex`. -/
abbrev HexId := { s : String // s ≠ "" ∧ ∀ c ∈ s.toList, c ∈ hexDigits.toList }

/-- Who appends, to which repository, when, and the identifier drawn for the event. -/
structure Stamp where
  actor : String
  repo : String
  created : String
  id : HexId

/-- A kind of event that neither grants nor claims. -/
abbrev OtherKind := { k : EventKind // k ≠ .calibrationFunded ∧ k ≠ .calibrationClaimed }

/-- A call of any process; what its process read before shows in its arguments only. -/
inductive Label (F : Type)
  | recordCalibration (stamp : Stamp) (itemId approver reason answers : String)
  | claimCalibration (stamp : Stamp) (itemId grant runId : String)
  | recordItemOutcome (stamp : Stamp) (itemId : String) (outcome : Payload F)
  | append (stamp : Stamp) (kind : OtherKind) (itemId : String) (payload : Payload F)

variable (store : Store) (sha256 : Sha256) (isWide isPrintable : Char → Bool)

def eventOf (stamp : Stamp) (kind : EventKind) (itemId : String) (payload : Payload F) :
    FactoryEvent F :=
  FactoryEvent.make isWide ⟨stamp.id.1, stamp.id.2.1⟩ kind itemId payload stamp.actor stamp.repo
    stamp.created factoryEvidenceSchema "" "" ""

/-- `record_calibration`; without an approver and a reason nothing is appended. -/
def recordCalibration (stamp : Stamp) (itemId approver reason answers : String) (chain : Chain F) :
    Option (Chain F) :=
  if strip approver.toList = [] ∨ strip reason.toList = [] then none
  else store.appendIf sha256 isWide chain
    (eventOf isWide stamp .calibrationFunded itemId (Payload.of [("approver", .str approver),
      ("reason", .str reason), ("answers", .str answers)]))
    fun events => (waitingGrant isPrintable events itemId).isNone

def claimCalibration (stamp : Stamp) (itemId grant runId : String) (chain : Chain F) :
    Option (Chain F) :=
  store.appendIf sha256 isWide chain
    (eventOf isWide stamp .calibrationClaimed itemId
      (Payload.of [("grant", .str grant), ("run_id", .str runId)]))
    fun events => decide (grant ∉ spentGrants isPrintable events)

/-- One call; the chain stays as it is where nothing is appended. -/
def step (chain : Chain F) : Label F → Chain F
  | .recordCalibration stamp itemId approver reason answers =>
    (recordCalibration store sha256 isWide isPrintable stamp itemId approver reason answers
      chain).getD chain
  | .claimCalibration stamp itemId grant runId =>
    (claimCalibration store sha256 isWide isPrintable stamp itemId grant runId chain).getD chain
  | .recordItemOutcome stamp itemId outcome =>
    (store.append sha256 isWide chain (eventOf isWide stamp .itemOutcome itemId outcome)).getD chain
  | .append stamp kind itemId payload =>
    (store.append sha256 isWide chain (eventOf isWide stamp kind.1 itemId payload)).getD chain

end Steps

section Redacted

variable {isWide isPrintable : Char → Bool}

lemma bracket_not_hex : '[' ∉ hexDigits.toList ∧ '\x7b' ∉ hexDigits.toList := by
  decide

/-- A text redacted to an identifier was that identifier. -/
lemma redact_eq_hex_iff (id : HexId) (s : String) : redact isWide s = id.1 ↔ s = id.1 := by
  constructor
  · intro h
    rcases @redactText_eq_or_mem isWide s.toList with he | hm
    · rw [redact, he, String.ofList_toList] at h
      exact h
    · have hc : '[' ∈ id.1.toList := by
        rw [← h, redact, String.toList_ofList]
        exact hm
      exact absurd (id.2.2 _ hc) bracket_not_hex.1
  · rintro rfl
    exact redact_hex id.2.2

omit [PyFloat F] in
lemma lookup_map_snd {α β : Type} (g : α → β) (ps : List (String × α)) (k : String) :
    (ps.map fun p => (p.1, g p.2)).lookup k = (ps.lookup k).map g := by
  induction ps with
  | nil => rfl
  | cons p ps ih =>
    rw [List.map_cons, lookup_cons_ite, lookup_cons_ite, ih]
    split_ifs <;> rfl

omit [PyFloat F] in
lemma get_redact (p : Payload F) (k : String) :
    (p.redact isWide).get k = (p.get k).map (mapStrings (redact isWide)) := by
  have h := lookup_map_snd (mapStrings (redact isWide)) p.1 k
  rwa [← mapStringsFields_eq] at h

/-- A value names an identifier exactly when it does once it is redacted. -/
lemma named_redact (id : HexId) (v : Json F) :
    (truthy (mapStrings (redact isWide) v) = true ∧
      PythonRepr.pyStr isPrintable (mapStrings (redact isWide) v) = id.1) ↔
    (truthy v = true ∧ PythonRepr.pyStr isPrintable v = id.1) := by
  have hbracket : ∀ {c : Char} {t : Text}, c ∉ hexDigits.toList →
      String.ofList (c :: t) ≠ id.1 := by
    intro c t hc he
    exact hc (id.2.2 c (by rw [← he, String.toList_ofList]; simp))
  cases v with
  | str s =>
    simp only [mapStrings, truthy, PythonRepr.pyStr, redact_eq_hex_iff, decide_eq_true_eq]
    refine and_congr_left fun hs => ?_
    rw [hs, redact_hex id.2.2]
  | arr xs =>
    simp only [mapStrings, PythonRepr.pyStr, PythonRepr.pyRepr, List.cons_append,
      hbracket bracket_not_hex.1, and_false]
  | obj ps =>
    simp only [mapStrings, PythonRepr.pyStr, PythonRepr.pyRepr, List.cons_append,
      hbracket bracket_not_hex.2, and_false]
  | _ => rfl

lemma payloadText_eq_some {key t : String} {p : Payload F} :
    payloadText isPrintable key p = some t ↔
      ∃ v, p.get key = some v ∧ truthy v = true ∧ PythonRepr.pyStr isPrintable v = t := by
  simp only [payloadText, Option.map_eq_some_iff, Option.filter_eq_some_iff, and_assoc]

lemma payloadText_redact (key : String) (id : HexId) (p : Payload F) :
    payloadText isPrintable key (p.redact isWide) = some id.1 ↔
      payloadText isPrintable key p = some id.1 := by
  rw [payloadText_eq_some, payloadText_eq_some, get_redact]
  constructor
  · rintro ⟨w, hw, hnamed⟩
    obtain ⟨v, hv, rfl⟩ := Option.map_eq_some_iff.mp hw
    exact ⟨v, hv, (named_redact id v).mp hnamed⟩
  · rintro ⟨v, hv, hnamed⟩
    exact ⟨_, Option.map_eq_some_iff.mpr ⟨v, hv, rfl⟩, (named_redact id v).mpr hnamed⟩

/-- Which grant an event spends does not change when it is read. -/
lemma spentGrant_read (store : Store) (id : HexId) (e : FactoryEvent F) :
    spentGrant isPrintable (store.read isWide e) = some id.1 ↔
      spentGrant isPrintable e = some id.1 := by
  cases store with
  | memory => rfl
  | jsonl =>
    have hk : (e.reread isWide).kind = e.kind := rfl
    rw [Store.read, spentGrant, spentGrant, FactoryEvent.payload_reread]
    by_cases hc : e.kind = .calibrationClaimed
    · rw [if_pos hc, if_pos (hk.trans hc), payloadText_redact]
    · by_cases ho : e.kind = .itemOutcome
      · rw [if_neg hc, if_neg (hk ▸ hc), if_pos ho, if_pos (hk.trans ho), payloadText_redact]
      · rw [if_neg hc, if_neg (hk ▸ hc), if_neg ho, if_neg (hk ▸ ho)]

lemma mem_spentGrants_events (store : Store) (id : HexId) (chain : Chain F) :
    id.1 ∈ spentGrants isPrintable (store.events isWide chain) ↔
      id.1 ∈ spentGrants isPrintable chain := by
  simp only [spentGrants, Store.events, List.mem_filterMap, List.mem_map,
    exists_exists_and_eq_and, spentGrant_read]

omit [PyFloat F] in
lemma filter_funded_events (store : Store) (itemId : String) (chain : Chain F) :
    (store.events isWide chain).filter (isFunded itemId) =
      (chain.filter (isFunded itemId)).map (store.read isWide) := by
  have hread : isFunded itemId ∘ store.read isWide = isFunded (F := F) itemId := by
    funext e
    cases store <;> rfl
  rw [Store.events, List.filter_map, hread]

omit [PyFloat F] in
lemma eventId_read (store : Store) (e : FactoryEvent F) :
    (store.read isWide e).eventId = e.eventId := by
  cases store <;> rfl

end Redacted

section Invariant

variable (store : Store) (sha256 : Sha256) (isWide isPrintable : Char → Bool)

/-- What holds of the grants of a chain: each is claimed once at most, and an item's are spent
but for the newest. -/
structure Accounted (chain : Chain F) : Prop where
  named : ∀ e ∈ chain, ∃ id : HexId, e.eventId = id.1
  claimedOnce : ∀ id : HexId, chain.countP (claims isPrintable id.1) ≤ 1
  olderSpent : ∀ itemId, ∀ f ∈ (chain.filter (isFunded itemId)).dropLast,
    f.eventId ∈ spentGrants isPrintable chain

/-- An event the chain may be continued by. -/
structure Admitted (chain : Chain F) (e : FactoryEvent F) : Prop where
  named : ∃ id : HexId, e.eventId = id.1
  funded : e.kind = .calibrationFunded →
    waitingGrant isPrintable (store.events isWide chain) e.itemId = none
  claimed : ∀ id : HexId, claims isPrintable id.1 e = true → id.1 ∉ spentGrants isPrintable chain

variable {store sha256 isWide isPrintable}

lemma append_getD (chain : Chain F) (e : FactoryEvent F) :
    (store.append sha256 isWide chain e).getD chain = chain ∨
      (store.append sha256 isWide chain e).getD chain =
        chain ++ [e.chained sha256 isWide (lastHash chain)] := by
  rw [Store.append]
  split_ifs
  · exact .inr rfl
  · exact .inl rfl

lemma appendIf_getD (chain : Chain F) (e : FactoryEvent F)
    (admits : List (FactoryEvent F) → Bool) :
    (store.appendIf sha256 isWide chain e admits).getD chain = chain ∨
      admits (store.events isWide chain) = true ∧
      (store.appendIf sha256 isWide chain e admits).getD chain =
        chain ++ [e.chained sha256 isWide (lastHash chain)] := by
  rw [Store.appendIf]
  split_ifs with h
  · exact (append_getD chain e).imp_right fun he => ⟨h, he⟩
  · exact .inl rfl

lemma grant_eq_of_payloadText {grant runId t : String} (h : payloadText isPrintable "grant"
    (Payload.of (F := F) [("grant", .str grant), ("run_id", .str runId)]) = some t) :
    grant = t := by
  obtain ⟨v, hv, -, rfl⟩ := payloadText_eq_some.mp h
  have hget : (Payload.of (F := F) [("grant", .str grant), ("run_id", .str runId)]).get "grant" =
      some (normal (.str grant)) := Payload.get_of (by simp) (by simp)
  obtain rfl := Option.some.inj (hget.symm.trans hv)
  rfl

/-- A call leaves the chain as it is or continues it by one admitted event. -/
lemma step_cases (chain : Chain F) (label : Label F) :
    step store sha256 isWide isPrintable chain label = chain ∨
      ∃ e, step store sha256 isWide isPrintable chain label = chain ++ [e] ∧
        Admitted store isWide isPrintable chain e := by
  have hother : ∀ (stamp : Stamp) (kind : EventKind) (itemId : String) (payload : Payload F) prev,
      kind ≠ .calibrationFunded → kind ≠ .calibrationClaimed → Admitted store isWide isPrintable
        chain ((eventOf isWide stamp kind itemId payload).chained sha256 isWide prev) :=
    fun stamp kind itemId payload prev hf hc =>
      ⟨⟨stamp.id, rfl⟩, fun h => absurd h hf, fun id h => by
        simp only [claims, Bool.and_eq_true, decide_eq_true_eq] at h
        exact absurd h.1 hc⟩
  cases label with
  | recordCalibration stamp itemId approver reason answers =>
    rw [step, recordCalibration]
    split_ifs
    · exact .inl rfl
    · refine (appendIf_getD chain _ _).imp_right fun ⟨hadmits, he⟩ => ⟨_, he, ⟨stamp.id, rfl⟩, ?_, ?_⟩
      · exact fun _ => Option.isNone_iff_eq_none.mp hadmits
      · intro id h
        simp only [claims, Bool.and_eq_true, decide_eq_true_eq] at h
        cases h.1
  | claimCalibration stamp itemId grant runId =>
    rw [step, claimCalibration]
    refine (appendIf_getD chain _ _).imp_right fun ⟨hadmits, he⟩ => ⟨_, he, ⟨stamp.id, rfl⟩, ?_, ?_⟩
    · intro h
      cases h
    · intro id h
      simp only [claims, Bool.and_eq_true, decide_eq_true_eq] at h
      have hgrant := (payloadText_redact _ id _).mp ((payloadText_redact _ id _).mp h.2)
      obtain rfl := grant_eq_of_payloadText hgrant
      rw [← mem_spentGrants_events store]
      exact of_decide_eq_true hadmits
  | recordItemOutcome stamp itemId outcome =>
    exact (append_getD chain _).imp_right fun he =>
      ⟨_, he, hother _ _ _ _ _ (by decide) (by decide)⟩
  | append stamp kind itemId payload =>
    exact (append_getD chain _).imp_right fun he =>
      ⟨_, he, hother _ _ _ _ _ kind.2.1 kind.2.2⟩

lemma spentGrant_of_claims {id : String} {e : FactoryEvent F} (h : claims isPrintable id e = true) :
    spentGrant isPrintable e = some id := by
  simp only [claims, Bool.and_eq_true, decide_eq_true_eq] at h
  rw [spentGrant, if_pos h.1, h.2]

lemma spentGrants_append {chain : Chain F} {id : String} (e : FactoryEvent F)
    (h : id ∈ spentGrants isPrintable chain) : id ∈ spentGrants isPrintable (chain ++ [e]) := by
  rw [spentGrants, List.filterMap_append]
  exact List.mem_append_left _ h

lemma waitingGrant_eq_some {events : List (FactoryEvent F)} {itemId : String} {g : FactoryEvent F} :
    waitingGrant isPrintable events itemId = some g ↔
      (events.filter (isFunded itemId)).getLast? = some g ∧
        g.eventId ∉ spentGrants isPrintable events := by
  rw [waitingGrant]
  split
  · rename_i hlast
    simp [hlast]
  · rename_i newest hlast
    rw [hlast]
    split_ifs with hs
    · simp only [Option.some.injEq, false_iff, not_and, not_not]
      rintro rfl
      exact hs
    · simp only [Option.some.injEq]
      exact ⟨fun h => ⟨h, h ▸ hs⟩, fun h => h.1⟩

/-- The grant that waits is the newest on the chain, if nothing has spent it. -/
lemma waitingGrant_events {chain : Chain F} (hn : ∀ e ∈ chain, ∃ id : HexId, e.eventId = id.1)
    {itemId : String} {w : FactoryEvent F} :
    waitingGrant isPrintable (store.events isWide chain) itemId = some w ↔
      ∃ g, (chain.filter (isFunded itemId)).getLast? = some g ∧ store.read isWide g = w ∧
        g.eventId ∉ spentGrants isPrintable chain := by
  rw [waitingGrant_eq_some, filter_funded_events, List.getLast?_map]
  constructor
  · rintro ⟨hlast, hspent⟩
    obtain ⟨g, hg, rfl⟩ := Option.map_eq_some_iff.mp hlast
    obtain ⟨id, hid⟩ := hn g (List.mem_of_mem_filter (List.mem_of_getLast? hg))
    rw [eventId_read, hid, mem_spentGrants_events] at hspent
    exact ⟨g, hg, rfl, hid ▸ hspent⟩
  · rintro ⟨g, hg, rfl, hspent⟩
    obtain ⟨id, hid⟩ := hn g (List.mem_of_mem_filter (List.mem_of_getLast? hg))
    refine ⟨by rw [hg]; rfl, ?_⟩
    rwa [eventId_read, hid, mem_spentGrants_events, ← hid]

lemma Accounted.append {chain : Chain F} (h : Accounted isPrintable chain) {e : FactoryEvent F}
    (he : Admitted store isWide isPrintable chain e) : Accounted isPrintable (chain ++ [e]) where
  named := by
    intro d hd
    rcases List.mem_append.mp hd with hd | hd
    · exact h.named d hd
    · exact List.mem_singleton.mp hd ▸ he.named
  claimedOnce := by
    intro id
    rw [List.countP_append, List.countP_singleton]
    split_ifs with hclaim
    · -- no claim of the grant stands on the chain, for it would have spent it
      have hnone : chain.countP (claims isPrintable id.1) = 0 := by
        rw [List.countP_eq_zero]
        intro d hd hc
        exact he.claimed id hclaim (List.mem_filterMap.mpr ⟨d, hd, spentGrant_of_claims hc⟩)
      omega
    · exact h.claimedOnce id
  olderSpent := by
    intro itemId f hf
    rw [List.filter_append] at hf
    by_cases hfunded : isFunded itemId e = true
    · rw [List.filter_cons_of_pos hfunded, List.filter_nil, List.dropLast_concat] at hf
      refine spentGrants_append e ?_
      obtain ⟨hkind, rfl⟩ : e.kind = .calibrationFunded ∧ e.itemId = itemId := by
        simpa [isFunded] using hfunded
      rcases List.eq_nil_or_concat (chain.filter (isFunded e.itemId)) with hnil | ⟨older, newest, hc⟩
      · rw [hnil] at hf
        cases hf
      · rw [List.concat_eq_append] at hc
        have holder := h.olderSpent e.itemId
        rw [hc, List.dropLast_concat] at holder
        rw [hc] at hf
        rcases List.mem_append.mp hf with hf | hf
        · exact holder f hf
        · -- the newest grant so far is spent, or the new one would not have been admitted
          obtain rfl := List.mem_singleton.mp hf
          by_contra hspent
          have hwait := (@waitingGrant_events F _ store isWide isPrintable chain h.named e.itemId _).mpr
            ⟨f, by rw [hc, List.getLast?_concat], rfl, hspent⟩
          rw [he.funded hkind] at hwait
          cases hwait
    · rw [List.filter_cons_of_neg hfunded, List.filter_nil, List.append_nil] at hf
      exact spentGrants_append e (h.olderSpent itemId f hf)

theorem accounted_run (labels : List (Label F)) :
    Accounted isPrintable (runFrom (step store sha256 isWide isPrintable) [] labels) := by
  refine Along.preserves (P := fun _ _ => True) (fun chain label h _ => ?_)
    (along_of_forall fun _ _ _ => trivial) ⟨by simp, by simp, by simp⟩
  rcases step_cases chain label with he | ⟨e, he, hadm⟩
  · rwa [he]
  · rw [he]
    exact h.append hadm

/-- One grant funds one run. After any calls in any order: a grant is claimed by one event at
most; of an item's two grants the older is spent, and is not the one that waits; and the grant
that waits is the newest, which nothing has spent. -/
theorem one_grant_one_run (store : Store) (sha256 : Sha256) (isWide isPrintable : Char → Bool)
    (labels : List (Label F)) :
    let chain := runFrom (step store sha256 isWide isPrintable) [] labels
    (∀ f ∈ chain, f.kind = .calibrationFunded → chain.countP (claims isPrintable f.eventId) ≤ 1) ∧
    (∀ itemId before f between g after, chain = before ++ f :: between ++ g :: after →
      isFunded itemId f = true → isFunded itemId g = true →
      f.eventId ∈ spentGrants isPrintable chain ∧
        ∀ w ∈ waitingGrant isPrintable (store.events isWide chain) itemId,
          w.eventId ≠ f.eventId) ∧
    ∀ itemId, ∀ w ∈ waitingGrant isPrintable (store.events isWide chain) itemId,
      w.eventId ∉ spentGrants isPrintable chain := by
  intro chain
  have hacc : Accounted isPrintable chain := accounted_run labels
  have hwaits : ∀ itemId, ∀ w ∈ waitingGrant isPrintable (store.events isWide chain) itemId,
      w.eventId ∉ spentGrants isPrintable chain := by
    intro itemId w hw
    obtain ⟨g, -, rfl, hspent⟩ := (waitingGrant_events hacc.named).mp hw
    rwa [eventId_read]
  refine ⟨fun f hf _ => ?_, fun itemId before f between g after hsplit hf hg => ?_, hwaits⟩
  · obtain ⟨id, hid⟩ := hacc.named f hf
    exact hid ▸ hacc.claimedOnce id
  · have holder : f ∈ (chain.filter (isFunded itemId)).dropLast := by
      rw [hsplit, List.filter_append, List.filter_cons_of_pos hg,
        List.dropLast_append_of_ne_nil (by simp)]
      exact List.mem_append_left _ (List.mem_filter.mpr ⟨by simp, hf⟩)
    have hspent := hacc.olderSpent itemId f holder
    exact ⟨hspent, fun w hw he => hwaits itemId w hw (he ▸ hspent)⟩

end Invariant

end CommitReplay.FactoryGrants
