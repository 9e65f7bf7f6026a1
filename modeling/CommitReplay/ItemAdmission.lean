import CommitReplay.ItemCalls

/-! What has been read and written before an item is admitted: its readiness, the standards of the
cells of the size rule, the override and the grant. -/
namespace CommitReplay.ItemAdmission

open CommitReplay.PythonText CommitReplay.JsonValue CommitReplay.JsonText CommitReplay.RowChecks
open CommitReplay.FactoryEvents CommitReplay.FactoryGrants CommitReplay.Interaction
open CommitReplay.SlotReadiness CommitReplay.ContextStandard CommitReplay.ReviewVerdicts
open CommitReplay.ItemLoop CommitReplay.ItemSteps CommitReplay.ItemCalls

variable {F : Type} {α β : Type}

section Facts

variable (s : FactorySpec F) (item : BacklogItem)

/-- The map's route for a size: what it answered, or nothing where there is no map. -/
def RouteRead (calls : List (Call (face F))) (size : Option Tier) (route : Option RouteDecision) :
    Prop :=
  if s.hasRouteDecision then (⟨.routeFor size, .ok route⟩ : Call (face F)) ∈ calls else route = none

/-- Who the run, or the deployment's seam, named for an override. -/
def Named (calls : List (Call (face F))) (by_ : String) : Prop :=
  if s.hasOverrideSeam then ∃ t, by_ = stripped t ∧ (⟨.overrideBy, .ok t⟩ : Call (face F)) ∈ calls
  else by_ = stripped s.deliverOverrideBy

/-- Someone else than the run's actor named it, and no cell of the size rule shows a false-Q1. -/
structure MayLift (calls : List (Call (face F))) (by_ : String) : Prop where
  named : Named s calls by_
  second : by_ ≠ s.actor
  honest : ∀ size ∈ match item.sizeEstimate with
      | none => []
      | some size => sizesToRead size s.agreementPassed,
    ∃ route, RouteRead s calls (some size) route ∧ showsFalseQ1 route = false

/-- The standards that were answered for the cells of some sizes. -/
def StandardsRead (calls : List (Call (face F))) (read : List Read) : Prop :=
  ∀ r ∈ read, (⟨.standardFor (itemCell item r.1), .ok r.2⟩ : Call (face F)) ∈ calls

end Facts

section Append

variable {s : FactorySpec F} {item : BacklogItem} {xs ys zs : List (Call (face F))}

lemma RouteRead.mono {size : Option Tier} {route : Option RouteDecision}
    (h : RouteRead s xs size route) (hsub : xs ⊆ ys) : RouteRead s ys size route := by
  unfold RouteRead at h ⊢
  split_ifs at h ⊢
  · exact hsub h
  · exact h

lemma Named.mono {by_ : String} (h : Named s xs by_) (hsub : xs ⊆ ys) : Named s ys by_ := by
  unfold Named at h ⊢
  split_ifs at h ⊢
  · obtain ⟨t, ht, hmem⟩ := h
    exact ⟨t, ht, hsub hmem⟩
  · exact h

lemma MayLift.mono {by_ : String} (h : MayLift s item xs by_) (hsub : xs ⊆ ys) :
    MayLift s item ys by_ := by
  refine ⟨h.named.mono hsub, h.second, fun size hsize => ?_⟩
  obtain ⟨route, hroute, hshows⟩ := h.honest size hsize
  exact ⟨route, hroute.mono hsub, hshows⟩

lemma StandardsRead.mono {read : List Read} (h : StandardsRead item xs read) (hsub : xs ⊆ ys) :
    StandardsRead item ys read := fun r hr => hsub (h r hr)

end Append

section Reads

set_option linter.unusedSectionVars false

variable [PyFloat F] {s : FactorySpec F} {item : BacklogItem}

lemma yields_ask {op : Op} :
    Yields (ask op : Item F (Op.Ans F op)) fun n a => n = [⟨op, .ok a⟩] :=
  Yields.call fun _ => rfl

lemma mapRoute_yields {size : Option Tier} :
    Yields (mapRoute s size) fun n route => RouteRead s n size route := by
  unfold mapRoute RouteRead
  by_cases h : s.hasRouteDecision = true
  · simp only [h, if_true]
    exact Yields.mono yields_ask fun n a hn => by simp [hn]
  · simp only [h, Bool.false_eq_true, if_false]
    exact Yields.pure rfl

lemma mapRoutes_yields {sizes : List Tier} :
    Yields (mapRoutes s sizes) fun n routes =>
      List.Forall₂ (fun size route => RouteRead s n (some size) route) sizes routes := by
  induction sizes with
  | nil => exact Yields.pure .nil
  | cons size sizes ih =>
    unfold mapRoutes
    refine Yields.bind mapRoute_yields fun n route hroute => ?_
    refine Yields.bind ih fun n' routes hroutes => Yields.pure ?_
    rw [List.append_nil]
    refine .cons (hroute.mono (by simp)) (hroutes.imp fun size route h => h.mono (by simp))

lemma overrideBy_yields : Yields (overrideBy s) fun n by_ => Named s n by_ := by
  unfold overrideBy Named
  by_cases h : s.hasOverrideSeam = true
  · simp only [h, if_true]
    refine Yields.bind yields_ask fun n t hn => Yields.pure ⟨t, rfl, ?_⟩
    simp [hn]
  · simp only [h, Bool.false_eq_true, if_false]
    exact Yields.bind (Yields.pure (R := fun _ by_ => by_ = s.deliverOverrideBy) rfl)
      fun n by_ hby => Yields.pure (by rw [hby])

lemma overrideRefusal_eq_none {route : Option RouteDecision} {by_ : String} (hby : by_ ≠ "")
    (h : overrideRefusal s route by_ = none) : showsFalseQ1 route = false ∧ by_ ≠ s.actor := by
  rw [overrideRefusal, if_neg hby] at h
  split_ifs at h with hshows hactor
  refine ⟨by simpa using hshows, fun heq => hactor ⟨?_, heq⟩⟩
  rw [← heq]
  exact hby

lemma overrideRefusalOverReadCells_yields {by_ : String} :
    Yields (overrideRefusalOverReadCells s item by_) fun n refused => by_ ≠ "" → refused = none →
      by_ ≠ s.actor ∧ ∀ size ∈ match item.sizeEstimate with
          | none => []
          | some size => sizesToRead size s.agreementPassed,
        ∃ route, RouteRead s n (some size) route ∧ showsFalseQ1 route = false := by
  by_cases hby : by_ = ""
  · rw [overrideRefusalOverReadCells, if_pos hby]
    exact Yields.pure fun h => absurd hby h
  rw [overrideRefusalOverReadCells, if_neg hby]
  refine Yields.bind mapRoute_yields fun n own hown => ?_
  refine Yields.bind mapRoutes_yields fun n' larger hlarger => Yields.pure fun _ hnone => ?_
  rw [List.append_nil]
  split_ifs at hnone with hfalse hsame
  have hclear : ∀ route ∈ own :: larger, showsFalseQ1 route = false ∧ by_ ≠ s.actor := by
    intro route hroute
    refine overrideRefusal_eq_none hby ?_
    have hmem : overrideRefusal s route by_ ∈ (own :: larger).map fun r => overrideRefusal s r by_ :=
      List.mem_map_of_mem hroute
    cases hrefused : overrideRefusal s route by_ with
    | none => rfl
    | some refused =>
      rw [hrefused] at hmem
      cases refused with
      | falseQ1 => exact absurd hmem hfalse
      | sameActor => exact absurd hmem hsame
  refine ⟨(hclear own (by simp)).2, fun size hsize => ?_⟩
  cases hestimate : item.sizeEstimate with
  | none => simp [hestimate] at hsize
  | some estimate =>
    simp only [hestimate] at hsize hown hlarger
    by_cases heq : size = estimate
    · exact ⟨own, heq ▸ hown.mono (by simp), (hclear own (by simp)).1⟩
    · have hin : size ∈ (sizesToRead estimate s.agreementPassed).filter (· ≠ estimate) := by
        simp [hsize, heq]
      obtain ⟨i, hi, rfl⟩ := List.getElem_of_mem hin
      have hi' : i < larger.length := by rwa [← hlarger.length_eq]
      refine ⟨larger.get ⟨i, hi'⟩, ?_, (hclear _ (by simp)).1⟩
      exact ((List.forall₂_iff_get.mp hlarger).2 i hi hi').mono (by simp)

lemma admittedOverride_yields {r : Readiness} :
    Yields (admittedOverride s item r) fun n by_ => by_ ≠ "" → MayLift s item n by_ := by
  unfold admittedOverride
  refine Yields.bind overrideBy_yields fun n by_ hnamed => ?_
  refine Yields.bind overrideRefusalOverReadCells_yields fun n' refused hrefused => ?_
  cases refused with
  | none =>
    refine Yields.pure fun hby => ?_
    rw [List.append_nil]
    obtain ⟨hactor, hhonest⟩ := hrefused hby rfl
    refine ⟨hnamed.mono (by simp), hactor, fun size hsize => ?_⟩
    obtain ⟨route, hroute, hshows⟩ := hhonest size hsize
    exact ⟨route, hroute.mono (by simp), hshows⟩
  | some refused =>
    refine Yields.bind yields_ask fun _ _ _ => Yields.bind yields_ask fun _ _ _ => ?_
    exact Yields.pure fun h => absurd rfl h

lemma readStandards_yields {sizes : List Tier} :
    Yields (readStandards item sizes : Item F _) fun n read =>
      read.map Prod.fst = sizes ∧ StandardsRead item n read := by
  induction sizes with
  | nil => exact Yields.pure ⟨rfl, by simp [StandardsRead]⟩
  | cons size sizes ih =>
    unfold readStandards
    refine Yields.bind yields_ask fun n standard hn => ?_
    refine Yields.bind ih fun n' read hread => Yields.pure ⟨by simp [hread.1], ?_⟩
    rw [List.append_nil]
    rintro r (_ | ⟨_, hr⟩)
    · simp [hn]
    · exact List.mem_append_right n (hread.2 r hr)

/-- The decision on the cells an estimate reads, with the standards that were answered for them. -/
def Decided (s : FactorySpec F) (item : BacklogItem) (calls : List (Call (face F)))
    (decide : Read → List Read → Entry) (read : List Read) (entry : Entry) : Prop :=
  ∃ size first rest, item.sizeEstimate = some size ∧ read = first :: rest ∧
    read.map Prod.fst = sizesToRead size s.agreementPassed ∧ StandardsRead item calls read ∧
    decide first rest = entry

lemma decideEntry_yields {r : Readiness} {authored : Option AuthoredTest} {by_ : String}
    {grant : Option Calibration} :
    Yields (decideEntry s item r authored by_ grant) fun n entry => entry.enters = true →
      ∃ read, Decided s item n (fun first rest => decideRead (ticketOf s item r authored) first rest
        grant s.requireSignedCell by_) read entry := by
  unfold decideEntry
  cases hstop : sizeStop item.sizeEstimate s.agreementPassed with
  | inl stop =>
    refine Yields.pure fun henters => ?_
    rw [sizeStop_inl hstop] at henters
    cases henters
  | inr size =>
    have hestimate := sizeStop_inr hstop
    refine Yields.bind yields_ask fun n standard hn => ?_
    refine Yields.bind readStandards_yields fun n' larger hlarger => Yields.pure fun _ => ?_
    refine ⟨(size, standard) :: larger, size, (size, standard), larger, hestimate, rfl, ?_, ?_, rfl⟩
    · simp [hlarger.1, sizesToRead]
    · rw [List.append_nil]
      rintro r (_ | ⟨_, hr⟩)
      · simp [hn]
      · exact List.mem_append_right n (hlarger.2 r hr)

end Reads

section Admission

set_option linter.unusedSectionVars false

variable [PyFloat F] {s : FactorySpec F} {item : BacklogItem}

/-- A grant that no event of the chain had spent, claimed while the chain was held. -/
def Claimed (s : FactorySpec F) (calls : List (Call (face F))) (grant : String) : Prop :=
  ∃ pre events eventId post, grant ∉ spentGrants s.isPrintable events ∧
    calls = pre ++ ⟨.lockedEvents, .ok events⟩ ::
      ⟨.record (.calibrationClaimed grant), .ok eventId⟩ :: post

lemma Claimed.append {ys : List (Call (face F))} {grant : String} (h : Claimed s ys grant)
    (xs zs : List (Call (face F))) : Claimed s (xs ++ ys ++ zs) grant := by
  obtain ⟨pre, events, eventId, post, hspent, rfl⟩ := h
  exact ⟨xs ++ pre, events, eventId, post ++ zs, hspent, by simp⟩

/-- The item's newest grant, unspent as the chain was read. -/
def Funded (s : FactorySpec F) (item : BacklogItem) (calls : List (Call (face F)))
    (grant : String) : Prop :=
  ∃ events e, (⟨.eventsFor, .ok events⟩ : Call (face F)) ∈ calls ∧
    waitingGrant s.isPrintable events item.id = some e ∧ grant = e.eventId

lemma calibration_yields : Yields (calibration s item) fun n grant =>
    ∀ g, grant = some g → Funded s item n g.eventId := by
  unfold calibration
  refine Yields.bind yields_ask fun n events hn => Yields.pure fun g hg => ?_
  obtain ⟨e, he, rfl⟩ := Option.map_eq_some_iff.mp hg
  exact ⟨events, e, by simp [hn], he, rfl⟩

lemma yields_whenever {c : Bool} {p : Item F Unit} (hp : Yields p fun _ _ => False) :
    Yields (whenever c p) fun n _ => c = false ∧ n = [] := by
  cases c with
  | true => exact Yields.mono hp fun _ _ h => h.elim
  | false => exact Yields.pure ⟨rfl, rfl⟩

lemma stopEntry_yields {r : Readiness} {entry : Entry} :
    Yields (stopEntry r entry : Item F α) fun _ _ => False := by
  unfold stopEntry
  refine Yields.bind yields_ask fun _ _ _ => Yields.bind yields_ask fun _ _ _ => ?_
  refine Yields.bind yields_ask fun _ _ _ => ?_
  cases entry.code.bind entryStatus <;> exact Yields.halt

lemma routeToPerson_yields {r : Readiness} :
    Yields (routeToPerson r : Item F Unit) fun _ _ => False := by
  unfold routeToPerson
  refine Yields.bind yields_ask fun _ _ _ => Yields.bind yields_ask fun _ _ _ => ?_
  exact Yields.halt

lemma refuseUnready_yields {r : Readiness} :
    Yields (refuseUnready r : Item F Unit) fun n _ => r.ready = true ∧ n = [] := by
  refine Yields.mono (yields_whenever ?_) fun n _ h => ⟨by simpa using h.1, h.2⟩
  refine Yields.bind yields_ask fun _ _ _ => Yields.bind yields_ask fun _ _ _ => ?_
  exact Yields.halt

lemma claimFor_yields {r : Readiness} {authored : Option AuthoredTest} {by_ : String}
    {entry : Entry} : Yields (claimFor s item r authored by_ entry) fun n _ =>
      (entry.calibration = none → n = []) ∧
        ∀ grant, entry.calibration = some grant → Claimed s n grant.eventId := by
  unfold claimFor
  cases entry.calibration with
  | none => exact Yields.pure ⟨fun _ => rfl, fun _ h => by cases h⟩
  | some grant =>
    have hclaim : Yields (ItemSteps.claimCalibration s grant.eventId) fun n claimed =>
        claimed = true → Claimed s n grant.eventId := by
      unfold ItemSteps.claimCalibration
      refine Yields.bind yields_ask fun n events hn => ?_
      by_cases hspent : grant.eventId ∈ spentGrants s.isPrintable events
      · rw [if_pos hspent]
        exact Yields.pure fun h => by cases h
      · rw [if_neg hspent]
        refine Yields.bind yields_ask fun n' eventId hn' => Yields.pure fun _ => ?_
        exact ⟨[], events, eventId, [], hspent, by simp [hn, hn']⟩
    refine Yields.bind hclaim fun n claimed hclaimed => ?_
    refine Yields.mono (yields_whenever ?_) fun n' _ hn' => ⟨(by simp), fun g hg => ?_⟩
    · exact Yields.bind (R := fun _ _ => True) (Yields.mono (Yields.of_makes
        (show Only [.routine] _ by grind)) fun _ _ _ => trivial) fun _ _ _ => stopEntry_yields
    · obtain ⟨hc, rfl⟩ := hn'
      rw [← Option.some.inj hg]
      simpa using hclaimed (by simpa using hc)

lemma yields_only {K : List Kind} {p : Item F α} (hp : Only K p) :
    Yields p fun n _ => ∀ c ∈ n, kindOf c.op ∈ K := Yields.of_makes hp

lemma admission_yields {r : Readiness} {authored : Option AuthoredTest} {by_ : String}
    {entry : Entry} : Yields (admission s item r authored by_ entry) fun n route =>
      r.ready = true ∧ RouteRead s n item.sizeEstimate route ∧
        (entry.calibration = none → ∀ c ∈ n, kindOf c.op = .routine) ∧
          ∀ grant, entry.calibration = some grant → Claimed s n grant.eventId := by
  have hroutine : ∀ {α : Type} {p : Item F α}, Only [.routine] p →
      Yields p fun n _ => ∀ c ∈ n, kindOf c.op = .routine := fun hp =>
    Yields.mono (yields_only hp) fun n _ h c hc => by simpa using h c hc
  unfold admission
  refine Yields.bind (hroutine (by grind [noteLifted])) fun n₁ _ h₁ => ?_
  refine Yields.bind refuseUnready_yields fun n₂ _ h₂ => ?_
  refine Yields.bind claimFor_yields fun n₃ _ h₃ => ?_
  refine Yields.bind (Yields.and mapRoute_yields (hroutine (by grind))) fun n₄ route h₄ => ?_
  refine Yields.bind (hroutine (by grind)) fun n₅ _ h₅ => ?_
  refine Yields.bind (hroutine (by grind)) fun n₆ _ h₆ => ?_
  refine Yields.bind (hroutine (by grind)) fun n₇ _ h₇ => ?_
  refine Yields.bind (hroutine (by grind [noteCalibration])) fun n₈ _ h₈ => Yields.pure ?_
  obtain ⟨hready, rfl⟩ := h₂
  refine ⟨hready, h₄.1.mono fun c hc => by simp [hc], fun hcal c hc => ?_, fun grant hgrant => ?_⟩
  · simp only [List.mem_append, h₃.1 hcal, List.not_mem_nil, or_false, false_or] at hc
    rcases hc with hc | hc | hc | hc | hc | hc
    exacts [h₁ c hc, h₄.2 c hc, h₅ c hc, h₆ c hc, h₇ c hc, h₈ c hc]
  · have hclaimed := (h₃.2 grant hgrant).append n₁ (n₄ ++ (n₅ ++ (n₆ ++ (n₇ ++ n₈))))
    simpa using hclaimed

/-- The signatures of the item's facts, as far as the deployment keeps any. -/
def SignoffsRead (s : FactorySpec F) (calls : List (Call (face F))) (signed : List GapSignoff) :
    Prop :=
  if s.hasGapLedger then (⟨.gapSignoffs, .ok signed⟩ : Call (face F)) ∈ calls else signed = []

/-- How an item was let in: on the standards of the cells the size rule reads, or as a calibration
of a grant that the run claimed. -/
structure Admitted (s : FactorySpec F) (item : BacklogItem) (authored : Option AuthoredTest)
    (calls : List (Call (face F))) (r : Readiness) (route : Option RouteDecision) (entry : Entry) :
    Prop where
  assessed : ∃ signed, SignoffsRead s calls signed ∧ r = assess s.isPrintable item signed
  kind : item.kind ≠ .operator
  catalogued : item.capabilityClass ∈ catalogue.map Prod.fst
  strong : item.capabilityClass ∉ weakOracleClasses
  filled : r.blockingGaps = []
  entered : ∃ read by_ grant, entry.enters = true ∧
    Decided s item calls (fun first rest => decideRead (ticketOf s item r authored) first rest grant
      s.requireSignedCell by_) read entry ∧
    (entry.calibration = none ∧
        OnStandard (ticketOf s item r authored) read s.requireSignedCell by_ entry ∨
      ∃ g, entry.calibration = some g ∧ entry.overrideBy = "" ∧ Funded s item calls g.eventId ∧
        Claimed s calls g.eventId ∧ ∃ code ∈ calibratable, entry.reasonCode = code.text)
  lifted : entry.overrideBy ≠ "" → MayLift s item calls entry.overrideBy
  routed : RouteRead s calls item.sizeEstimate route
  unclaimed : entry.calibration = none → ∀ c ∈ calls, kindOf c.op = .routine

lemma SignoffsRead.mono {xs ys : List (Call (face F))} {signed : List GapSignoff}
    (h : SignoffsRead s xs signed) (hsub : xs ⊆ ys) : SignoffsRead s ys signed := by
  unfold SignoffsRead at h ⊢
  split_ifs at h ⊢
  · exact hsub h
  · exact h

lemma signoffs_yields : Yields (signoffs s : Item F _) fun n signed => SignoffsRead s n signed := by
  unfold signoffs SignoffsRead
  by_cases h : s.hasGapLedger = true
  · simp only [h, if_true]
    exact Yields.mono yields_ask fun n a hn => by simp [hn]
  · simp only [h, Bool.false_eq_true, if_false]
    exact Yields.pure rfl

/-- What an item that is admitted was let in on. -/
theorem assessItem_yields {authored : Option AuthoredTest} :
    Yields (assessItem s item authored) fun n out =>
      Admitted s item authored n out.1 out.2.1 out.2.2 := by
  have hroutine : ∀ {α : Type} {p : Item F α}, Only [.routine] p →
      Yields p fun n _ => ∀ c ∈ n, kindOf c.op = .routine := fun hp =>
    Yields.mono (yields_only hp) fun n _ h c hc => by simpa using h c hc
  unfold assessItem
  refine Yields.bind (Yields.and signoffs_yields (hroutine (by grind))) fun n₁ signed h₁ => ?_
  refine Yields.bind (hroutine (by grind)) fun n₂ _ h₂ => ?_
  refine Yields.bind (hroutine (by grind)) fun n₃ _ h₃ => ?_
  refine Yields.bind (yields_whenever routeToPerson_yields) fun n₄ _ h₄ => ?_
  refine Yields.bind (yields_whenever routeToPerson_yields) fun n₅ _ h₅ => ?_
  refine Yields.bind (Yields.and admittedOverride_yields (hroutine (by grind))) fun n₆ by_ h₆ => ?_
  refine Yields.bind (Yields.and calibration_yields (hroutine (by grind))) fun n₇ grant h₇ => ?_
  refine Yields.bind (Yields.and decideEntry_yields (hroutine (by grind))) fun n₈ entry h₈ => ?_
  refine Yields.bind (yields_whenever stopEntry_yields) fun n₉ _ h₉ => ?_
  refine Yields.bind admission_yields fun n route hn => Yields.pure ?_
  obtain ⟨-, rfl⟩ := h₄
  obtain ⟨hhint, rfl⟩ := h₅
  obtain ⟨henters, rfl⟩ := h₉
  obtain ⟨hready, hroute, hunclaimed, hclaimed⟩ := hn
  have henters : entry.enters = true := by simpa using henters
  have hhint : (assess s.isPrintable item signed).routeHint ≠ .human := by
    simpa [hready] using hhint
  obtain ⟨hkind, hcatalogued, hstrong, hfilled⟩ := assess_buildable hready hhint
  obtain ⟨read, size, first, rest, hestimate, rfl, hsizes, hread, hdecide⟩ := h₈.1 henters
  have hentered := decideRead_enters hdecide henters
  refine ⟨⟨signed, ?_, rfl⟩, hkind, hcatalogued, hstrong, hfilled,
    ⟨first :: rest, by_, grant, henters, ⟨size, first, rest, hestimate, rfl, hsizes,
      hread.mono fun c hc => by simp [hc], hdecide⟩, hentered.imp id ?_⟩, fun hlifted => ?_,
    hroute.mono fun c hc => by simp [hc], fun hcal c hc => ?_⟩
  · exact h₁.1.mono fun c hc => by simp [hc]
  · rintro ⟨g, hg, hgrant, hover, code, hcode, hreason⟩
    obtain ⟨events, e, hmem, hwaiting, hid⟩ := h₇.1 g hgrant
    refine ⟨g, hg, hover, ⟨events, e, by simp [hmem], hwaiting, hid⟩, ?_, code, hcode, hreason⟩
    simpa using (hclaimed g hg).append (n₁ ++ (n₂ ++ (n₃ ++ (n₆ ++ (n₇ ++ n₈))))) []
  · rcases hentered with ⟨-, hon⟩ | ⟨g, -, -, hover, -⟩
    · have heq := (hon.lifted hlifted).1
      rw [heq] at hlifted ⊢
      exact (h₆.1 hlifted).mono fun c hc => by simp [hc]
    · exact absurd hover hlifted
  · simp only [List.mem_append, List.not_mem_nil, or_false, false_or] at hc
    rcases hc with hc | hc | hc | hc | hc | hc | hc
    exacts [h₁.2 c hc, h₂ c hc, h₃ c hc, h₆.2 c hc, h₇.2 c hc, h₈.2 c hc, hunclaimed hcal c hc]

/-- What was called before changes nothing. -/
lemma Admitted.after {authored : Option AuthoredTest} {xs ys : List (Call (face F))}
    {r : Readiness} {route : Option RouteDecision} {entry : Entry}
    (h : Admitted s item authored ys r route entry) (hx : ∀ c ∈ xs, kindOf c.op = .routine) :
    Admitted s item authored (xs ++ ys) r route entry := by
  have hsub : ys ⊆ xs ++ ys := List.subset_append_right xs ys
  obtain ⟨signed, hsigned, hr⟩ := h.assessed
  obtain ⟨read, by_, grant, henters, ⟨size, first, rest, hsize, hread, hsizes, hstd, hdec⟩, hin⟩ :=
    h.entered
  refine ⟨⟨signed, hsigned.mono hsub, hr⟩, h.kind, h.catalogued, h.strong, h.filled,
    ⟨read, by_, grant, henters, ⟨size, first, rest, hsize, hread, hsizes, hstd.mono hsub, hdec⟩,
      hin.imp id ?_⟩, fun hl => (h.lifted hl).mono hsub, h.routed.mono hsub, fun hcal c hc => ?_⟩
  · rintro ⟨g, hg, hover, ⟨events, e, hmem, hfunded⟩, hclaimed, hcode⟩
    exact ⟨g, hg, hover, ⟨events, e, hsub hmem, hfunded⟩,
      by simpa using hclaimed.append xs [], hcode⟩
  · exact (List.mem_append.mp hc).elim (hx c) (h.unclaimed hcal c)

end Admission

end CommitReplay.ItemAdmission
