import CommitReplay.FactoryGrants

/-! A pull request's fate, a verdict and an edit. Each of the three is recorded in two steps, one
that reads the chain and decides and one that appends, so another process can come between. -/
namespace CommitReplay.FactoryFates

open CommitReplay.PythonText CommitReplay.JsonValue CommitReplay.JsonText CommitReplay.RowChecks
open CommitReplay.JsonRoundTrip CommitReplay.GradeRows CommitReplay.Redaction
open CommitReplay.FactoryEvents
open CommitReplay.FactoryStores CommitReplay.FactoryGrants CommitReplay.TransitionRuns

variable {F : Type} [PyFloat F]

section Queries

/-- `int(payload.get("pr_number", 0) or 0)`, and `none` for what no call writes there. -/
def prNumber (p : Payload F) : Option ℤ :=
  match p.get "pr_number" with
  | none => some 0
  | some (.int n) => some n
  | some v => if truthy v then none else some 0

def isOutcome (itemId : String) (pr : ℤ) (e : FactoryEvent F) : Bool :=
  e.itemId = itemId && (e.kind = .deliveryMerged || e.kind = .deliveryClosed) &&
    prNumber e.payload = some pr

/-- `payload.get("pack_hash") == pack_hash`. -/
def packIs (packHash : String) (p : Payload F) : Bool :=
  match p.get "pack_hash" with
  | some (.str s) => s = packHash
  | _ => false

/-- An event of a kind, of the item and, unless the hash is empty, of the build. -/
def isFor (kind : EventKind) (itemId packHash : String) (e : FactoryEvent F) : Bool :=
  e.kind = kind && e.itemId = itemId && (packHash = "" || packIs packHash e.payload)

def outcomeFor (events : List (FactoryEvent F)) (itemId : String) (pr : ℤ) :
    Option (FactoryEvent F) :=
  (events.filter (isOutcome itemId pr)).getLast?

def editsFor (events : List (FactoryEvent F)) (itemId packHash : String) : List (FactoryEvent F) :=
  events.filter (isFor .edit itemId packHash)

def verdictFor (events : List (FactoryEvent F)) (itemId packHash : String) :
    Option (FactoryEvent F) :=
  (events.filter (isFor .verdict itemId packHash)).getLast?

/-- `payload.get("recorded_before_edit", True)`. -/
def claimsFirst (p : Payload F) : Bool := truthy ((p.get "recorded_before_edit").getD (.bool true))

end Queries

section Calls

/-- What GitHub or the factory says of a pull request's end. -/
structure OutcomeNotes where
  prUrl : String
  mergedAt : String
  mergedBy : String
  mergeSha : String
  closedAt : String
  closedBy : String
  verdict : String
  reason : String

inductive Call (F : Type)
  | recordDeliveryOutcome (stamp : Stamp) (itemId state : String) (pr : ℤ) (notes : OutcomeNotes)
  | recordVerdict (stamp : Stamp) (verdict : Payload F)
  | recordEdit (stamp : Stamp) (itemId packHash editor note : String)

/-- `OUTCOME_KINDS`. -/
def outcomeKind (state : String) : Option EventKind :=
  if state = "merged" then some .deliveryMerged
  else if state = "closed" then some .deliveryClosed
  else none

def outcomePayload (state : String) (pr : ℤ) (notes : OutcomeNotes) : Payload F :=
  Payload.of ([("state", .str state), ("pr_number", .int pr), ("pr_url", .str notes.prUrl),
    ("merged_at", .str notes.mergedAt), ("merged_by", .str notes.mergedBy),
    ("merge_sha", .str notes.mergeSha), ("closed_at", .str notes.closedAt)] ++
    ([("closed_by", notes.closedBy), ("verdict", notes.verdict), ("reason", notes.reason)].filter
      (·.2 ≠ "")).map fun p => (p.1, .str p.2))

variable (isWide isPrintable : Char → Bool)

/-- `str(verdict.get(key, ""))`. -/
def verdictText (verdict : Payload F) (key : String) : String :=
  PythonRepr.pyStr isPrintable ((verdict.get key).getD (.str ""))

/-- `_payload`: all but the item, which is the event's own. -/
def withoutItem (p : Payload F) : Payload F := Payload.of (p.1.filter (·.1 ≠ "item_id"))

/-- The event a call goes on to append after what it read, if it appends one. A verdict with a
key named as a parameter of `append` raises. -/
def decision (events : List (FactoryEvent F)) : Call F → Option (FactoryEvent F)
  | .recordDeliveryOutcome stamp itemId state pr notes =>
    match outcomeKind state with
    | none => none
    | some kind =>
      if (outcomeFor events itemId pr).any fun e => e.kind = kind || e.kind = .deliveryMerged then
        none
      else some (eventOf isWide stamp kind itemId (outcomePayload state pr notes))
  | .recordVerdict stamp verdict =>
    let itemId := verdictText isPrintable verdict "item_id"
    let packHash := verdictText isPrintable verdict "pack_hash"
    if claimsFirst verdict && !(editsFor events itemId packHash).isEmpty then none
    else if (verdict.get "kind").isSome || (verdict.get "self").isSome then none
    else some (eventOf isWide stamp .verdict itemId (withoutItem verdict))
  | .recordEdit stamp itemId packHash editor note =>
    if (verdictFor events itemId packHash).isNone then none
    else some (eventOf isWide stamp .edit itemId (Payload.of [("pack_hash", .str packHash),
      ("editor", .str editor), ("note", .str note)]))

end Calls

section System

/-- A call that has read the chain and has yet to append. -/
structure Pending (F : Type) where
  call : Call F
  seen : Chain F
  event : FactoryEvent F

/-- The chain, and the call each process is in. -/
structure State (P F : Type) where
  chain : Chain F
  pending : P → Option (Pending F)

def State.init {P : Type} : State P F := ⟨[], fun _ => none⟩

inductive Label (P F : Type)
  | read (p : P) (call : Call F)
  | append (p : P)

variable {P : Type} [DecidableEq P] (store : Store) (sha256 : Sha256)
  (isWide isPrintable : Char → Bool)

/-- One of the two steps of a call; a process is in one call at a time. -/
def step (s : State P F) : Label P F → State P F
  | .read p call =>
    if (s.pending p).isSome then s
    else match decision isWide isPrintable (store.events isWide s.chain) call with
      | none => s
      | some e => { s with pending := Function.update s.pending p (some ⟨call, s.chain, e⟩) }
  | .append p =>
    match s.pending p with
    | none => s
    | some q => ⟨(store.append sha256 isWide s.chain q.event).getD s.chain,
        Function.update s.pending p none⟩

end System

section Claim

/-- Each pull request's fate is terminal, and verdicts and edits stand in the order they say. -/
structure Orderly (chain : Chain F) : Prop where
  terminal : chain.Pairwise fun a b => ∀ itemId pr, isOutcome itemId pr a = true →
    a.kind = .deliveryMerged → isOutcome itemId pr b = false
  alternating : ∀ itemId pr, (chain.filter (isOutcome itemId pr)).IsChain fun a b => a.kind ≠ b.kind
  verdictFirst : chain.Pairwise fun a b => ∀ packHash, a.kind = .edit →
    packIs packHash a.payload = true → b.kind = .verdict → b.itemId = a.itemId →
    packIs packHash b.payload = true → claimsFirst b.payload = false
  editAfter : ∀ before e, before ++ [e] <+: chain → e.kind = .edit → ∀ packHash,
    packIs packHash e.payload = true →
    ∃ v ∈ before, v.kind = .verdict ∧ v.itemId = e.itemId ∧ packIs packHash v.payload = true

end Claim

section Redacted

variable {isWide isPrintable : Char → Bool}

lemma truthy_redact (v : Json F) : truthy (mapStrings (redact isWide) v) = truthy v := by
  cases v with
  | str s =>
    have hne : redact isWide s = "" ↔ s = "" := by
      constructor
      · intro h
        rcases @redactText_eq_or_mem isWide s.toList with he | hm
        · rwa [redact, he, String.ofList_toList] at h
        · rw [redact] at h
          have hl := congrArg String.toList h
          rw [String.toList_ofList] at hl
          rw [hl] at hm
          simp at hm
      · rintro rfl
        exact redact_hex (by simp)
    simp only [mapStrings, truthy, ne_eq, hne]
  | arr xs => simp [mapStrings, truthy]
  | obj ps => simp [mapStrings, truthy]
  | _ => rfl

lemma prNumber_redact (p : Payload F) : prNumber (p.redact isWide) = prNumber p := by
  rw [prNumber, prNumber, get_redact]
  cases p.get "pr_number" with
  | none => rfl
  | some v =>
    have ht := @truthy_redact F _ isWide v
    cases v <;> simp_all [mapStrings]

lemma claimsFirst_redact (p : Payload F) : claimsFirst (p.redact isWide) = claimsFirst p := by
  rw [claimsFirst, claimsFirst, get_redact]
  cases p.get "recorded_before_edit" with
  | none => rfl
  | some v => exact truthy_redact v

omit [PyFloat F] in
lemma packIs_iff {packHash : String} {p : Payload F} :
    packIs packHash p = true ↔ p.get "pack_hash" = some (.str packHash) := by
  rw [packIs]
  split
  · rename_i s hs
    simp [hs]
  · rename_i hne
    simp only [Bool.false_eq_true, false_iff]
    exact hne packHash

omit [PyFloat F] in
lemma packIs_redact {packHash : String} {p : Payload F} (h : packIs packHash p = true) :
    packIs (redact isWide packHash) (p.redact isWide) = true := by
  rw [packIs_iff] at h ⊢
  rw [get_redact, h]
  rfl

omit [PyFloat F] in
lemma exists_packIs_of_redact {packHash : String} {p : Payload F}
    (h : packIs packHash (p.redact isWide) = true) :
    ∃ s, packIs s p = true ∧ redact isWide s = packHash := by
  rw [packIs_iff, get_redact] at h
  obtain ⟨v, hv, he⟩ := Option.map_eq_some_iff.mp h
  cases v with
  | str s => exact ⟨s, packIs_iff.mpr hv, Json.str.inj he⟩
  | _ => simp [mapStrings] at he

end Redacted

section Condition

variable (isWide isPrintable : Char → Bool)

/-- An event that changes what a call was to decide. -/
def conflicts (e : FactoryEvent F) : Call F → Bool
  | .recordDeliveryOutcome _ itemId _ pr _ => isOutcome itemId pr e
  | .recordVerdict _ verdict => claimsFirst verdict &&
      isFor .edit (verdictText isPrintable verdict "item_id")
        (verdictText isPrintable verdict "pack_hash") e
  | .recordEdit .. => false

/-- A verdict's build is named by a text that redaction leaves as it is, and an edit names one. -/
def namesBuild : Call F → Prop
  | .recordDeliveryOutcome .. => True
  | .recordVerdict _ verdict => ∀ s, packIs s verdict = true → redact isWide s = s
  | .recordEdit _ _ packHash _ _ => packHash ≠ ""

/-- Between a call's two steps no event came that changes its decision. -/
def undisturbed {P : Type} (s : State P F) : Label P F → Prop
  | .read _ call => namesBuild isWide call
  | .append p => ∀ q ∈ s.pending p, ∀ e ∈ s.chain.drop q.seen.length,
      conflicts isPrintable e q.call = false

end Condition

section Appends

/-- A chain stays orderly under an event that follows no merge of its pull request and no outcome
like itself, no edit it claims to precede, and a verdict of the build it edits. -/
lemma Orderly.append {chain : Chain F} (h : Orderly chain) {e : FactoryEvent F}
    (hmerged : ∀ itemId pr, isOutcome itemId pr e = true → ∀ d ∈ chain,
      isOutcome itemId pr d = true → d.kind ≠ .deliveryMerged)
    (hlast : ∀ itemId pr, isOutcome itemId pr e = true →
      ∀ d ∈ (chain.filter (isOutcome itemId pr)).getLast?, d.kind ≠ e.kind)
    (hverdict : e.kind = .verdict → claimsFirst e.payload = true → ∀ packHash,
      packIs packHash e.payload = true → ∀ d ∈ chain, d.kind = .edit → e.itemId = d.itemId →
      packIs packHash d.payload = false)
    (hedit : e.kind = .edit → ∀ packHash, packIs packHash e.payload = true →
      ∃ v ∈ chain, v.kind = .verdict ∧ v.itemId = e.itemId ∧ packIs packHash v.payload = true) :
    Orderly (chain ++ [e]) where
  terminal := by
    refine List.pairwise_append.mpr ⟨h.terminal, List.pairwise_singleton _ _, fun a ha b hb => ?_⟩
    obtain rfl := List.mem_singleton.mp hb
    intro itemId pr hout hkind
    by_contra hb
    exact hmerged itemId pr (by simpa using hb) a ha hout hkind
  alternating := by
    intro itemId pr
    rw [List.filter_append]
    by_cases hout : isOutcome itemId pr e = true
    · rw [List.filter_cons_of_pos hout, List.filter_nil]
      refine List.isChain_append.mpr ⟨h.alternating itemId pr, List.isChain_singleton _, ?_⟩
      intro d hd c hc
      obtain rfl : e = c := by simpa using hc
      exact hlast itemId pr hout d hd
    · rw [List.filter_cons_of_neg hout, List.filter_nil, List.append_nil]
      exact h.alternating itemId pr
  verdictFirst := by
    refine List.pairwise_append.mpr ⟨h.verdictFirst, List.pairwise_singleton _ _, fun a ha b hb => ?_⟩
    obtain rfl := List.mem_singleton.mp hb
    intro packHash hkind hpack hverd hitem hpack'
    by_contra hfirst
    have := hverdict hverd (by simpa using hfirst) packHash hpack' a ha hkind hitem
    simp [hpack] at this
  editAfter := by
    intro before d hpre hkind packHash hpack
    rcases List.prefix_concat_iff.mp hpre with he | hpre
    · obtain ⟨rfl, hd⟩ := List.append_inj' he rfl
      obtain rfl := List.cons.inj hd |>.1
      exact hedit hkind packHash hpack
    · exact h.editAfter before d hpre hkind packHash hpack

variable {store : Store} {sha256 : Sha256} {isWide isPrintable : Char → Bool}

omit [PyFloat F] in
lemma eventOf_payload (stamp : Stamp) (kind : EventKind) (itemId : String) (payload : Payload F) :
    (eventOf isWide stamp kind itemId payload).payload = payload.redact isWide := rfl

lemma isOutcome_read (itemId : String) (pr : ℤ) (e : FactoryEvent F) :
    isOutcome itemId pr (store.read isWide e) = isOutcome itemId pr e := by
  cases store with
  | memory => rfl
  | jsonl =>
    rw [Store.read, isOutcome, isOutcome, FactoryEvent.payload_reread, prNumber_redact]
    rfl

/-- The newest outcome read is the newest on the chain. -/
lemma outcomeFor_events (chain : Chain F) (itemId : String) (pr : ℤ) :
    outcomeFor (store.events isWide chain) itemId pr =
      (chain.filter (isOutcome itemId pr)).getLast?.map (store.read isWide) := by
  have hread : isOutcome itemId pr ∘ store.read isWide = isOutcome (F := F) itemId pr :=
    funext fun e => isOutcome_read itemId pr e
  rw [outcomeFor, Store.events, List.filter_map, hread, List.getLast?_map]

omit [PyFloat F] in
lemma kind_read (store : Store) (e : FactoryEvent F) : (store.read isWide e).kind = e.kind := by
  cases store <;> rfl

omit [PyFloat F] in
lemma itemId_read (store : Store) (e : FactoryEvent F) :
    (store.read isWide e).itemId = e.itemId := by
  cases store <;> rfl

/-- No outcome of the pull request that stands on an orderly chain is a merge, if the newest
is none. -/
lemma Orderly.not_merged {chain : Chain F} (h : Orderly chain) {itemId : String} {pr : ℤ}
    (hlast : ∀ d ∈ (chain.filter (isOutcome itemId pr)).getLast?, d.kind ≠ .deliveryMerged) :
    ∀ d ∈ chain, isOutcome itemId pr d = true → d.kind ≠ .deliveryMerged := by
  intro d hd hout hkind
  have hmem : d ∈ chain.filter (isOutcome itemId pr) := List.mem_filter.mpr ⟨hd, hout⟩
  have hpair := h.terminal.filter (isOutcome itemId pr)
  rcases List.eq_nil_or_concat (chain.filter (isOutcome itemId pr)) with hnil | ⟨init, last, hc⟩
  · rw [hnil] at hmem
    cases hmem
  · rw [List.concat_eq_append] at hc
    have hlast' := hlast last (by rw [hc, List.getLast?_concat]; rfl)
    have hin : last ∈ chain.filter (isOutcome itemId pr) := by simp [hc]
    rw [hc] at hmem hpair
    rcases List.mem_append.mp hmem with hm | hm
    · have hfalse := (List.pairwise_append.mp hpair).2.2 d hm last (by simp) itemId pr hout hkind
      simp [(List.mem_filter.mp hin).2] at hfalse
    · exact hlast' (List.mem_singleton.mp hm ▸ hkind)

/-- Every verdict of the chain names its build by a text that redaction leaves as it is. -/
def Steady (isWide : Char → Bool) (chain : Chain F) : Prop :=
  ∀ v ∈ chain, v.kind = .verdict → ∀ s, packIs s v.payload = true → redact isWide s = s

lemma prNumber_outcomePayload (state : String) (pr : ℤ) (notes : OutcomeNotes) :
    prNumber (outcomePayload (F := F) state pr notes) = some pr := by
  have hkeys : ["state", "pr_number", "pr_url", "merged_at", "merged_by", "merge_sha", "closed_at",
      "closed_by", "verdict", "reason"].Nodup := by decide
  have hget : (outcomePayload (F := F) state pr notes).get "pr_number" = some (normal (.int pr)) := by
    rw [outcomePayload]
    refine Payload.get_of (hkeys.sublist ?_) (by simp)
    rw [List.map_append, List.map_map]
    exact List.Sublist.append (List.Sublist.refl
      ["state", "pr_number", "pr_url", "merged_at", "merged_by", "merge_sha", "closed_at"])
      (List.filter_sublist.map _)
  rw [prNumber, hget]
  rfl

/-- An outcome decided on what was read continues the chain in order. -/
lemma append_outcome {seen new : Chain F} (h : Orderly (seen ++ new)) {stamp : Stamp}
    {itemId state : String} {pr : ℤ} {notes : OutcomeNotes} {e : FactoryEvent F} {prev : String}
    (hd : decision isWide isPrintable (store.events isWide seen)
      (.recordDeliveryOutcome stamp itemId state pr notes) = some e)
    (hnew : ∀ d ∈ new, isOutcome itemId pr d = false) :
    Orderly (seen ++ new ++ [e.chained sha256 isWide prev]) := by
  rw [decision, outcomeFor_events] at hd
  cases hk : outcomeKind state with
  | none =>
    rw [hk] at hd
    cases hd
  | some kind =>
    rw [hk] at hd
    dsimp only at hd
    split_ifs at hd with hfound
    obtain rfl := Option.some.inj hd
    have hkind : kind = .deliveryMerged ∨ kind = .deliveryClosed := by
      unfold outcomeKind at hk
      split_ifs at hk
      · exact .inl (Option.some.inj hk).symm
      · exact .inr (Option.some.inj hk).symm
    have hfilter : (seen ++ new).filter (isOutcome itemId pr) =
        seen.filter (isOutcome itemId pr) := by
      have hnone : new.filter (isOutcome itemId pr) = [] :=
        List.filter_eq_nil_iff.mpr fun d hd => by simp [hnew d hd]
      rw [List.filter_append, hnone, List.append_nil]
    have hlast : ∀ d ∈ ((seen ++ new).filter (isOutcome itemId pr)).getLast?,
        d.kind ≠ kind ∧ d.kind ≠ .deliveryMerged := by
      intro d hd
      rw [hfilter] at hd
      rw [Option.mem_def.mp hd] at hfound
      simpa [kind_read] using hfound
    have hsame : ∀ itemId' pr', isOutcome itemId' pr' ((eventOf isWide stamp kind itemId
        (outcomePayload (F := F) state pr notes)).chained sha256 isWide prev) = true →
          itemId' = itemId ∧ pr' = pr := by
      intro itemId' pr' hout
      simp only [isOutcome, FactoryEvent.payload_chained, eventOf_payload, prNumber_redact,
        prNumber_outcomePayload, FactoryEvent.itemId_chained, Bool.and_eq_true, decide_eq_true_eq,
        Option.some.injEq] at hout
      obtain ⟨⟨hitem, -⟩, hpr⟩ := hout
      have hitem : itemId = itemId' := of_decide_eq_true hitem
      exact ⟨hitem.symm, hpr.symm⟩
    refine h.append (fun itemId' pr' hout => ?_) (fun itemId' pr' hout => ?_) (fun hv => ?_)
      (fun hv => ?_)
    · obtain ⟨rfl, rfl⟩ := hsame itemId' pr' hout
      exact h.not_merged fun d hd => (hlast d hd).2
    · obtain ⟨rfl, rfl⟩ := hsame itemId' pr' hout
      exact fun d hd => (hlast d hd).1
    · obtain rfl : kind = .verdict := hv
      simp at hkind
    · obtain rfl : kind = .edit := hv
      simp at hkind

omit [PyFloat F] in
lemma get_withoutItem (p : Payload F) {k : String} (hk : k ≠ "item_id") :
    (withoutItem p).get k = p.get k := by
  obtain ⟨ps, hp⟩ := p
  cases hp with
  | obj hs hc =>
    have hcanon : Canonical (.obj (ps.filter (·.1 ≠ "item_id"))) :=
      .obj (hs.sublist List.filter_sublist) fun q hq => hc q (List.mem_of_mem_filter hq)
    rw [withoutItem, payload_of ⟨_, hcanon⟩, Payload.get, Payload.get]
    change (ps.filter _).lookup k = ps.lookup k
    clear hs hc hcanon
    induction ps with
    | nil => rfl
    | cons q ps ih =>
      by_cases hq : q.1 = "item_id"
      · rw [List.filter_cons_of_neg (by simpa using hq), ih, lookup_cons_ite,
          if_neg (hq ▸ hk)]
      · rw [List.filter_cons_of_pos (by simpa using hq), lookup_cons_ite, lookup_cons_ite, ih]

/-- Only outcomes are outcomes. -/
lemma not_isOutcome {e : FactoryEvent F} (hm : e.kind ≠ .deliveryMerged)
    (hc : e.kind ≠ .deliveryClosed) (itemId : String) (pr : ℤ) : isOutcome itemId pr e = false := by
  simp [isOutcome, hm, hc]

/-- A verdict decided on what was read, whose build no edit has come for since. -/
lemma append_verdict {seen new : Chain F} (h : Orderly (seen ++ new)) {stamp : Stamp}
    {verdict : Payload F} {e : FactoryEvent F} {prev : String}
    (hd : decision isWide isPrintable (store.events isWide seen) (.recordVerdict stamp verdict) =
      some e)
    (hb : namesBuild isWide (.recordVerdict stamp verdict))
    (hnew : ∀ d ∈ new, conflicts isPrintable d (.recordVerdict stamp verdict) = false) :
    Orderly (seen ++ new ++ [e.chained sha256 isWide prev]) ∧
      ∀ s, packIs s (e.chained sha256 isWide prev).payload = true → redact isWide s = s := by
  rw [decision] at hd
  split_ifs at hd with hedits hkeys
  obtain rfl := Option.some.inj hd
  set itemId := verdictText isPrintable verdict "item_id" with hitem
  set c := (eventOf isWide stamp .verdict itemId (withoutItem verdict)).chained sha256 isWide prev
    with hc
  have hpayload : c.payload = ((withoutItem verdict).redact isWide).redact isWide := rfl
  -- the verdict's text for its build is the one it was given
  have hpack : ∀ s, packIs s c.payload = true → packIs s verdict = true ∧ redact isWide s = s := by
    intro s hs
    rw [hpayload] at hs
    obtain ⟨t, ht, rfl⟩ := exists_packIs_of_redact hs
    obtain ⟨u, hu, rfl⟩ := exists_packIs_of_redact ht
    rw [packIs_iff, get_withoutItem verdict (by decide), ← packIs_iff] at hu
    have hsteady := hb u hu
    rw [hsteady, hsteady]
    exact ⟨hu, hsteady⟩
  refine ⟨h.append (fun itemId' pr' hout => ?_) (fun itemId' pr' hout => ?_) ?_ (fun hv => ?_),
    fun s hs => (hpack s hs).2⟩
  · rw [not_isOutcome (by simp [hc, eventOf, FactoryEvent.make])
      (by simp [hc, eventOf, FactoryEvent.make])] at hout
    cases hout
  · rw [not_isOutcome (by simp [hc, eventOf, FactoryEvent.make])
      (by simp [hc, eventOf, FactoryEvent.make])] at hout
    cases hout
  · intro _ hfirst packHash hp d hd hedit hid
    obtain ⟨hgiven, hsteady⟩ := hpack packHash hp
    have hclaims : claimsFirst verdict = true := by
      rw [hpayload, claimsFirst_redact, claimsFirst_redact, claimsFirst,
        get_withoutItem verdict (by decide)] at hfirst
      exact hfirst
    have htext : verdictText isPrintable verdict "pack_hash" = packHash := by
      rw [verdictText, packIs_iff.mp hgiven]
      rfl
    by_contra hpd
    have hpd : packIs packHash d.payload = true := by simpa using hpd
    rcases List.mem_append.mp hd with hd | hd
    · -- an edit that was there would have been read
      refine hedits ?_
      have hread : packIs packHash (store.read isWide d).payload = true := by
        cases store with
        | memory => exact hpd
        | jsonl =>
          have hr := @packIs_redact F isWide _ _ hpd
          rwa [hsteady] at hr
      have hin : store.read isWide d ∈ editsFor (store.events isWide seen) itemId packHash := by
        refine List.mem_filter.mpr ⟨List.mem_map_of_mem hd, ?_⟩
        simp only [isFor, kind_read, itemId_read, hedit, hread, Bool.or_true, Bool.and_true,
          decide_true, Bool.true_and, decide_eq_true_eq]
        exact hid.symm
      simp only [hclaims, htext, Bool.true_and, Bool.not_eq_true', List.isEmpty_eq_false_iff]
      exact List.ne_nil_of_mem hin
    · have hno := hnew d hd
      simp only [conflicts, hclaims, htext, isFor, hedit, hpd, Bool.or_true, Bool.and_true,
        decide_true, Bool.true_and, decide_eq_false_iff_not] at hno
      exact hno hid.symm
  · cases hv

omit [PyFloat F] in
/-- The verdict that a call reads for its build is a verdict of that build on the chain. -/
lemma verdict_of_read {seen : Chain F} (hs : Steady isWide seen) {itemId packHash : String}
    (hb : packHash ≠ "")
    (hsome : (verdictFor (store.events isWide seen) itemId packHash).isSome = true) :
    ∃ v ∈ seen, v.kind = .verdict ∧ v.itemId = itemId ∧ packIs packHash v.payload = true := by
  obtain ⟨w, hw⟩ := Option.isSome_iff_exists.mp hsome
  rw [verdictFor] at hw
  have hw := List.mem_filter.mp (List.mem_of_getLast? hw)
  obtain ⟨v, hv, rfl⟩ := List.mem_map.mp hw.1
  have hfor := hw.2
  simp only [isFor, kind_read, itemId_read, Bool.and_eq_true, Bool.or_eq_true,
    decide_eq_true_eq, hb, false_or] at hfor
  obtain ⟨⟨hkind, hitem⟩, hpack⟩ := hfor
  refine ⟨v, hv, hkind, hitem, ?_⟩
  cases store with
  | memory => exact hpack
  | jsonl =>
    obtain ⟨s, hs', rfl⟩ := exists_packIs_of_redact hpack
    rw [hs v hv hkind s hs']
    exact hs'

/-- An edit decided on what was read has a verdict of its build before it. -/
lemma append_edit {seen new : Chain F} (h : Orderly (seen ++ new)) (hs : Steady isWide seen)
    {stamp : Stamp} {itemId packHash editor note : String} {e : FactoryEvent F} {prev : String}
    (hd : decision isWide isPrintable (store.events isWide seen)
      (.recordEdit stamp itemId packHash editor note) = some e) (hb : packHash ≠ "") :
    Orderly (seen ++ new ++ [e.chained sha256 isWide prev]) := by
  rw [decision] at hd
  split_ifs at hd with hnone
  obtain rfl := Option.some.inj hd
  -- the verdict that was read names the build by the text of the call
  have hsome : (verdictFor (store.events isWide seen) itemId packHash).isSome = true := by
    rw [← Option.not_isNone, Bool.eq_false_iff.mpr hnone]
    rfl
  obtain ⟨v, hv, hkind, hitem, hpack⟩ := verdict_of_read hs hb hsome
  have hsteady := hs v hv hkind packHash hpack
  refine h.append (fun itemId' pr' hout => ?_) (fun itemId' pr' hout => ?_) (fun hc => ?_)
    (fun _ packHash' hp => ⟨v, List.mem_append_left _ hv, hkind, hitem, ?_⟩)
  · rw [not_isOutcome (by simp [eventOf, FactoryEvent.make])
      (by simp [eventOf, FactoryEvent.make])] at hout
    cases hout
  · rw [not_isOutcome (by simp [eventOf, FactoryEvent.make])
      (by simp [eventOf, FactoryEvent.make])] at hout
    cases hout
  · cases hc
  · rw [FactoryEvent.payload_chained, eventOf_payload] at hp
    obtain ⟨t, ht, rfl⟩ := exists_packIs_of_redact hp
    obtain ⟨u, hu, rfl⟩ := exists_packIs_of_redact ht
    have hu : u = packHash := by
      have hget : (Payload.of (F := F) [("pack_hash", .str packHash), ("editor", .str editor),
          ("note", .str note)]).get "pack_hash" = some (normal (.str packHash)) :=
        Payload.get_of (by simp) (by simp)
      rw [packIs_iff, hget] at hu
      exact (Json.str.inj (Option.some.inj hu)).symm
    rw [hu, hsteady, hsteady]
    exact hpack

end Appends

section Runs

variable {P : Type} [DecidableEq P] {store : Store} {sha256 : Sha256}
  {isWide isPrintable : Char → Bool}

/-- What holds in every state an undisturbed run reaches. -/
structure Settled (store : Store) (isWide isPrintable : Char → Bool) (s : State P F) : Prop where
  orderly : Orderly s.chain
  steady : Steady isWide s.chain
  read : ∀ p, ∀ q ∈ s.pending p, q.seen <+: s.chain ∧ namesBuild isWide q.call ∧
    decision isWide isPrintable (store.events isWide q.seen) q.call = some q.event

omit [DecidableEq P] in
lemma settled_init : Settled store isWide isPrintable (State.init : State P F) where
  orderly := ⟨List.Pairwise.nil, fun _ _ => List.isChain_nil, List.Pairwise.nil,
    fun before e h => by simp [State.init] at h⟩
  steady := by simp [State.init, Steady]
  read := by simp [State.init]

/-- Only a verdict's call appends a verdict. -/
lemma kind_of_decision {events : List (FactoryEvent F)} {call : Call F} {e : FactoryEvent F}
    (h : decision isWide isPrintable events call = some e)
    (hne : ∀ stamp verdict, call ≠ .recordVerdict stamp verdict) : e.kind ≠ .verdict := by
  cases call with
  | recordDeliveryOutcome stamp itemId state pr notes =>
    rw [decision, outcomeKind] at h
    split_ifs at h
    all_goals first
      | cases h
      | dsimp only at h
        split_ifs at h
        obtain rfl := Option.some.inj h
        exact fun hv => nomatch hv
  | recordVerdict stamp verdict => exact absurd rfl (hne stamp verdict)
  | recordEdit stamp itemId packHash editor note =>
    rw [decision] at h
    split_ifs at h
    obtain rfl := Option.some.inj h
    exact fun hv => nomatch hv

omit [DecidableEq P] in
/-- The append of a call that nothing disturbed since it read. -/
lemma Settled.append {s : State P F} (h : Settled store isWide isPrintable s) {q : Pending F}
    {p : P} (hq : q ∈ s.pending p) (hnew : ∀ e ∈ s.chain.drop q.seen.length,
      conflicts isPrintable e q.call = false) (prev : String) :
    Orderly (s.chain ++ [q.event.chained sha256 isWide prev]) ∧
      Steady isWide (s.chain ++ [q.event.chained sha256 isWide prev]) := by
  obtain ⟨⟨new, hchain⟩, hbuild, hdec⟩ := h.read p q hq
  obtain ⟨call, seen, e⟩ := q
  have horder := h.orderly
  have hsteady := h.steady
  rw [← hchain] at horder hsteady hnew ⊢
  rw [List.drop_left] at hnew
  have hseen : Steady isWide seen := fun v hv => hsteady v (List.mem_append_left _ hv)
  have hother : e.kind ≠ .verdict → Steady isWide
      (seen ++ new ++ [e.chained sha256 isWide prev]) := by
    intro hne v hv hkind
    rcases List.mem_append.mp hv with hv | hv
    · exact hsteady v hv hkind
    · obtain rfl := List.mem_singleton.mp hv
      exact absurd hkind hne
  cases call with
  | recordDeliveryOutcome stamp itemId state pr notes =>
    exact ⟨append_outcome horder hdec hnew, hother (kind_of_decision hdec (by simp))⟩
  | recordVerdict stamp verdict =>
    obtain ⟨hord, hpack⟩ := @append_verdict F _ store sha256 isWide isPrintable _ _ horder _ _ _ prev
      hdec hbuild hnew
    refine ⟨hord, fun v hv hkind => ?_⟩
    rcases List.mem_append.mp hv with hv | hv
    · exact hsteady v hv hkind
    · exact List.mem_singleton.mp hv ▸ hpack
  | recordEdit stamp itemId packHash editor note =>
    exact ⟨append_edit horder hseen hdec hbuild, hother (kind_of_decision hdec (by simp))⟩

lemma settled_step {s : State P F} {label : Label P F} (h : Settled store isWide isPrintable s)
    (hu : undisturbed isWide isPrintable s label) :
    Settled store isWide isPrintable (step store sha256 isWide isPrintable s label) := by
  cases label with
  | read p call =>
    rw [step]
    split_ifs
    · exact h
    · split
      · exact h
      · rename_i e hdec
        refine ⟨h.orderly, h.steady, fun p' q hq => ?_⟩
        dsimp only at hq ⊢
        by_cases hp : p' = p
        · subst hp
          rw [Function.update_self] at hq
          obtain rfl := Option.some.inj hq
          exact ⟨List.prefix_rfl, hu, hdec⟩
        · rw [Function.update_of_ne hp] at hq
          exact h.read p' q hq
  | append p =>
    rw [step]
    split
    · exact h
    · rename_i q hq
      have hread : ∀ chain, s.chain <+: chain → ∀ p', ∀ r ∈ Function.update s.pending p none p',
          r.seen <+: chain ∧ namesBuild isWide r.call ∧
            decision isWide isPrintable (store.events isWide r.seen) r.call = some r.event := by
        intro chain hpre p' r hr
        by_cases hp : p' = p
        · subst hp
          simp at hr
        · rw [Function.update_of_ne hp] at hr
          obtain ⟨hseen, hrest⟩ := h.read p' r hr
          exact ⟨hseen.trans hpre, hrest⟩
      rcases @append_getD F _ store sha256 isWide s.chain q.event with he | he
      · rw [he]
        exact ⟨h.orderly, h.steady, hread _ List.prefix_rfl⟩
      · rw [he]
        obtain ⟨hord, hst⟩ := @Settled.append F _ P store sha256 isWide isPrintable s h q p hq
          (hu q hq) (lastHash s.chain)
        exact ⟨hord, hst, hread _ (List.prefix_append _ _)⟩

/-- In a run no call of which is disturbed between its two steps, and whose verdicts and edits
name their builds, every state reached has an orderly chain. -/
theorem orderly_run (store : Store) (sha256 : Sha256) (isWide isPrintable : Char → Bool)
    (labels : List (Label P F))
    (h : Along (step store sha256 isWide isPrintable) (undisturbed isWide isPrintable) .init
      labels) :
    ∀ done, done <+: labels →
      Orderly (runFrom (step store sha256 isWide isPrintable) .init done).chain := by
  rintro done ⟨rest, rfl⟩
  have hdone := (along_append.mp h).1
  exact (hdone.preserves (fun s label hs hu => settled_step hs hu) settled_init).orderly

/-- The two steps of one call after another. -/
def sequential (calls : List (P × Call F)) : List (Label P F) :=
  calls.flatMap fun c => [.read c.1 c.2, .append c.1]

/-- Calls that do not overlap disturb no other. -/
lemma along_sequential {calls : List (P × Call F)} (hb : ∀ c ∈ calls, namesBuild isWide c.2)
    {s : State P F} (hs : ∀ p, s.pending p = none) :
    Along (step store sha256 isWide isPrintable) (undisturbed isWide isPrintable) s
      (sequential calls) := by
  induction calls generalizing s with
  | nil => trivial
  | cons c calls ih =>
    obtain ⟨hc, hcalls⟩ := List.forall_mem_cons.mp hb
    obtain ⟨p, call⟩ := c
    set s' := step store sha256 isWide isPrintable s (.read p call) with hs'
    have hread : s'.chain = s.chain ∧ (∀ p', p' ≠ p → s'.pending p' = none) ∧
        ∀ q ∈ s'.pending p, q.seen = s.chain := by
      rw [hs', step, hs p]
      simp only [Option.isSome_none, Bool.false_eq_true, if_false]
      split
      · exact ⟨rfl, fun p' _ => hs p', by simp [hs p]⟩
      · refine ⟨rfl, fun p' hp => by simp [Function.update_of_ne hp, hs p'], fun q hq => ?_⟩
        dsimp only at hq
        rw [Function.update_self] at hq
        exact (Option.some.inj hq) ▸ rfl
    refine ⟨hc, ?_, ih hcalls fun p' => ?_⟩
    · intro q hq e he
      rw [hread.1, hread.2.2 q hq, List.drop_length] at he
      cases he
    · rw [← hs', step]
      by_cases hp : p' = p
      · subst hp
        split <;> simp_all
      · split
        · exact hread.2.1 p' hp
        · simp only [Function.update_of_ne hp, hread.2.1 p' hp]

end Runs

section Samples

def sampleStamp : Stamp :=
  ⟨"api", "repo", "2026-01-01T00:00:00Z", ⟨"ab", by decide, by simp [hexDigits]⟩⟩

def sampleOutcome (state : String) : Call Whole :=
  .recordDeliveryOutcome sampleStamp "item-1" state 7 ⟨"", "", "", "", "", "", "", ""⟩

/-- Two processes that read before either appends record one merge twice. -/
theorem not_orderly_overlapping : ¬ Orderly (runFrom (step .jsonl (markDigest []) (fun _ => false)
    (fun _ => false)) (.init : State Bool Whole) [.read false (sampleOutcome "merged"),
      .read true (sampleOutcome "merged"), .append false, .append true]).chain := by
  intro h
  have hkinds := List.isChain_map (R := fun a b : EventKind => a ≠ b) FactoryEvent.kind |>.mpr
    (h.alternating "item-1" 7)
  revert hkinds
  decide +kernel

/-- A pull request closed and then merged, in calls that do not overlap. -/
theorem orderly_closed_merged : Orderly (runFrom (step .jsonl (markDigest []) (fun _ => false)
    (fun _ => false)) (.init : State Bool Whole) (sequential [(false, sampleOutcome "closed"),
      (true, sampleOutcome "merged")])).chain :=
  orderly_run .jsonl (markDigest []) (fun _ => false) (fun _ => false) _
    (along_sequential (by simp [sampleOutcome, namesBuild]) fun _ => rfl) _ List.prefix_rfl

end Samples

end CommitReplay.FactoryFates
