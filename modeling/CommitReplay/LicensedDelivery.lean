import CommitReplay.SpendGate

/-! What stands behind every delivery of a run. -/
namespace CommitReplay.LicensedDelivery

open CommitReplay.PythonText CommitReplay.JsonValue CommitReplay.JsonText CommitReplay.RowChecks
open CommitReplay.JsonRoundTrip CommitReplay.FactoryEvents CommitReplay.Interaction
open CommitReplay.SlotReadiness CommitReplay.ContextStandard CommitReplay.ReviewVerdicts
open CommitReplay.ItemLoop CommitReplay.ItemSteps CommitReplay.ItemCalls
open CommitReplay.ItemAdmission CommitReplay.SpendGate

set_option linter.unusedSectionVars false

variable {F : Type} {α β : Type}

section Statements

/-- A build that was asked for, and what came of it. -/
def ladderOf : Call (face F) → Option (BuildArgs × Except Exn (List BuildResult))
  | ⟨.buildLadder args, answer⟩ => some (args, answer)
  | _ => none

/-- The last build that was asked for. -/
def lastLadder (calls : List (Call (face F))) :
    Option (BuildArgs × Except Exn (List BuildResult)) := (calls.filterMap ladderOf).getLast?

/-- The last verdict on the record. -/
def lastVerdict (calls : List (Call (face F))) : Option ReviewVerdict :=
  (calls.filterMap recordedVerdict).getLast?

/-- The last build asked for, no calibration, ended in this one, which is clean. -/
structure LastBuilt (calls : List (Call (face F))) (args : BuildArgs) (final : BuildResult) :
    Prop where
  graded : ∃ results, lastLadder calls = some (args, .ok results) ∧
    results.getLast? = some final
  clean : final.clean = true
  qualified : final.disqualified = false

/-- The last verdict on the record accepts this pack, and nothing in it objects. -/
def Accepted (calls : List (Call (face F))) (packHash : String) : Prop :=
  ∃ v, lastVerdict calls = some v ∧ v.accepted = true ∧ v.packHash = packHash ∧ Unobjected v

/-- The clause of the signed cell: the standard is signed, or someone other than the run's actor
lifts it on a cell without a false-Q1. -/
def SignedOrLifted (s : FactorySpec F) (calls : List (Call (face F))) (standard : Standard)
    (route : RouteDecision) : Prop :=
  standard.signed = true ∨ ∃ by_, by_ ≠ "" ∧ by_ ≠ s.actor ∧ Named s calls by_ ∧
    showsFalseQ1 (some route) = false

/-- What licenses a delivery after these calls. -/
structure Licensed (s : FactorySpec F) (item : BacklogItem) (calls : List (Call (face F)))
    (args : DeliverArgs) : Prop where
  switchedOn : s.deliver = true
  uncalibrated : ∀ c ∈ calls, kindOf c.op ≠ .claim
  reviewed : Accepted calls args.build.packHash
  routed : RouteRead s calls (some args.build.size) (some args.route) ∧ args.route.route = "deliver"
  cell : ∃ build standard, LastBuilt calls build args.build ∧ build.calibration = false ∧
    (⟨.standardFor (deliveredCell item args.build build.arm), .ok (some standard)⟩ :
      Call (face F)) ∈ calls ∧ standard.licenses = true ∧ standard.arm = build.arm ∧
    (s.requireSignedCell = true → SignedOrLifted s calls standard args.route)

def DeliversLicensed (s : FactorySpec F) (item : BacklogItem) (calls : List (Call (face F))) :
    Prop :=
  ∀ pre args answer post, calls = pre ++ ⟨.deliver args, answer⟩ :: post →
    Licensed s item pre args

end Statements

section Frames

variable {s : FactorySpec F} {item : BacklogItem} {xs ys : List (Call (face F))}

lemma filterMap_append_of_none {γ : Type} {f : Call (face F) → Option γ}
    (h : ∀ c ∈ ys, f c = none) : (xs ++ ys).filterMap f = xs.filterMap f := by
  rw [List.filterMap_append, List.filterMap_eq_nil_iff.mpr h, List.append_nil]

lemma ladderOf_eq_none {c : Call (face F)} (h : kindOf c.op ≠ .build) : ladderOf c = none := by
  unfold ladderOf
  split
  · simp at h
  · rfl

lemma recordedVerdict_eq_none {c : Call (face F)} (h : kindOf c.op ≠ .verdict) :
    recordedVerdict c = none := by
  unfold recordedVerdict
  split
  · simp at h
  · rfl

lemma lastLadder_append (h : ∀ c ∈ ys, kindOf c.op ≠ .build) :
    lastLadder (xs ++ ys) = lastLadder xs := by
  rw [lastLadder, filterMap_append_of_none fun c hc => ladderOf_eq_none (h c hc), lastLadder]

lemma lastVerdict_append (h : ∀ c ∈ ys, kindOf c.op ≠ .verdict) :
    lastVerdict (xs ++ ys) = lastVerdict xs := by
  rw [lastVerdict, filterMap_append_of_none fun c hc => recordedVerdict_eq_none (h c hc),
    lastVerdict]

lemma LastBuilt.append {args : BuildArgs} {final : BuildResult} (hb : LastBuilt xs args final)
    (h : ∀ c ∈ ys, kindOf c.op ≠ .build) : LastBuilt (xs ++ ys) args final := by
  refine ⟨?_, hb.clean, hb.qualified⟩
  rw [lastLadder_append h]
  exact hb.graded

lemma DeliversLicensed.of_no_delivery (h : ∀ c ∈ xs, kindOf c.op ≠ .deliver) :
    DeliversLicensed s item xs := by
  rintro pre args answer post rfl
  exact absurd rfl (h ⟨.deliver args, answer⟩ (by simp))

lemma DeliversLicensed.append (hx : DeliversLicensed s item xs)
    (hy : ∀ c ∈ ys, kindOf c.op ≠ .deliver) : DeliversLicensed s item (xs ++ ys) := by
  intro pre args answer post heq
  rcases List.append_eq_append_iff.mp heq with ⟨mid, -, hys⟩ | ⟨mid, hxs, hpost⟩
  · exact absurd rfl (hy ⟨.deliver args, answer⟩ (by simp [hys]))
  · cases mid with
    | nil =>
      rw [List.nil_append] at hpost
      exact absurd rfl (hy ⟨.deliver args, answer⟩ (by simp [← hpost]))
    | cons c' mid =>
      obtain ⟨rfl, -⟩ := List.cons.inj hpost
      exact hx pre args answer mid hxs

lemma DeliversLicensed.snoc {args : DeliverArgs} {answer : Except Exn DeliveryResult}
    (hx : ∀ c ∈ xs, kindOf c.op ≠ .deliver) (h : Licensed s item xs args) :
    DeliversLicensed s item (xs ++ [⟨.deliver args, answer⟩]) := by
  intro pre args' answer' post heq
  obtain ⟨mid, rfl, hmid⟩ := split_of_not_mem heq fun hmem => absurd rfl (hx _ hmem)
  cases mid with
  | nil =>
    obtain ⟨hc, -⟩ := List.cons.inj hmid
    simp only [Call.mk.injEq, Op.deliver.injEq] at hc
    rw [List.append_nil, ← hc.1]
    exact h
  | cons c mid => simp at hmid

end Frames

section Rounds

variable [PyFloat F] {s : FactorySpec F} {item : BacklogItem} {st : Started}
  {xs ys : List (Call (face F))}

/-- What the run knows of the calls so far, before it delivers anything. -/
structure Base (s : FactorySpec F) (item : BacklogItem) (st : Started)
    (calls : List (Call (face F))) : Prop where
  routed : RouteRead s calls item.sizeEstimate st.route
  uncalibrated : st.entry.calibration = none → ∀ c ∈ calls, kindOf c.op ≠ .claim
  lifted : st.entry.overrideBy ≠ "" → Named s calls st.entry.overrideBy
  undelivered : ∀ c ∈ calls, kindOf c.op ≠ .deliver

/-- The build and the verdict of a round are the last ones. -/
structure Played (st : Started) (arm : String) (round : Round) (calls : List (Call (face F))) :
    Prop where
  built : ∃ args, LastBuilt calls args round.final ∧ args.arm = arm ∧
    args.calibration = st.entry.calibration.isSome
  reviewed : ∃ v, lastVerdict calls = some v ∧ v.packHash = round.verdict.packHash ∧
    v.accepted = round.verdict.accepted ∧ (v.accepted = true → Unobjected v)

lemma Base.append (h : Base s item st xs)
    (hy : ∀ c ∈ ys, kindOf c.op ≠ .claim ∧ kindOf c.op ≠ .deliver) :
    Base s item st (xs ++ ys) := by
  have hsub : xs ⊆ xs ++ ys := List.subset_append_left xs ys
  refine ⟨h.routed.mono hsub, fun hcal c hc => ?_, fun hl => (h.lifted hl).mono hsub,
    fun c hc => ?_⟩
  · exact (List.mem_append.mp hc).elim (h.uncalibrated hcal c) fun hc => (hy c hc).1
  · exact (List.mem_append.mp hc).elim (h.undelivered c) fun hc => (hy c hc).2

lemma Played.append {arm : String} {round : Round} (h : Played st arm round xs)
    (hy : ∀ c ∈ ys, kindOf c.op ≠ .build ∧ kindOf c.op ≠ .verdict) :
    Played st arm round (xs ++ ys) := by
  obtain ⟨args, hb, hargs⟩ := h.built
  refine ⟨⟨args, hb.append fun c hc => (hy c hc).1, hargs⟩, ?_⟩
  rw [lastVerdict_append fun c hc => (hy c hc).2]
  exact h.reviewed

/-- A step of some kinds of calls, and the rest after what it yields. -/
lemma bind_step {K : List Kind} {P : List (Call (face F)) → Prop}
    {T : α → List (Call (face F)) → Prop} {p : Item F α} {f : α → Item F β}
    {R : List (Call (face F)) → α → Prop}
    {Q : List (Call (face F)) → Except (Halt (face F) Stopped) β → Prop} (hp : Only K p)
    (hy : Yields p R) (hok : ∀ h n a, P h → (∀ c ∈ n, kindOf c.op ∈ K) → R n a → T a (h ++ n))
    (herr : ∀ h n e, P h → (∀ c ∈ n, kindOf c.op ∈ K) → Q (h ++ n) (.error e))
    (hf : ∀ n a, R n a → Triple (T a) (f a) Q) : Triple P (p >>= f) Q := by
  refine Does.bind (Does.and hp.does hy) (fun n a hn => ?_) fun n e hn h hP => herr h n e hP hn.1
  refine Does.mono (hf n a (hn.2 a rfl)) fun n' r hn' h hP => ?_
  rw [← List.append_assoc]
  exact hn' _ (hok h n a hP hn.1 (hn.2 a rfl))

/-- A step whose calls keep a property that is all the rest needs. -/
lemma bind_quiet {K : List Kind} {P : List (Call (face F)) → Prop} {p : Item F α}
    {f : α → Item F β} {Q : List (Call (face F)) → Except (Halt (face F) Stopped) β → Prop}
    (hp : Only K p) (hok : ∀ h n, P h → (∀ c ∈ n, kindOf c.op ∈ K) → P (h ++ n))
    (herr : ∀ h e, P h → Q h (.error e)) (hf : ∀ a, Triple P (f a) Q) : Triple P (p >>= f) Q :=
  bind_step hp (yields_only hp) (fun h n _ hP hn _ => hok h n hP hn)
    (fun h n e hP hn => herr _ e (hok h n hP hn)) fun _ a _ => hf a

lemma built_yields {args : BuildArgs} : Yields (built args : Item F _) fun n final =>
    (∃ results, n = [⟨.buildLadder args, .ok results⟩] ∧ results.getLast? = some final) ∧
      final.clean = true ∧ final.disqualified = false := by
  unfold built
  refine Yields.bind yields_ask fun n (results : List BuildResult) hn => ?_
  refine Yields.bind (R := fun n _ => n = []) (Does.modify fun _ _ => rfl) fun n' _ hn' => ?_
  cases hlast : results.getLast? with
  | none => exact Yields.halt
  | some final =>
    refine Yields.bind (R := fun n _ => n = []) (Does.modify fun _ _ => rfl) fun m _ hm => ?_
    refine Yields.bind (yields_whenever Yields.halt) fun m' _ hm' => ?_
    refine Yields.bind (yields_whenever Yields.halt) fun m'' _ hm'' => Yields.pure ?_
    refine ⟨⟨results, by simp [hn, hn', hm, hm'.2, hm''.2], hlast⟩, by simpa using hm''.1, hm'.1⟩

lemma formVerdict_yields {final : BuildResult} {proof : RedProof} :
    Yields (formVerdict s item final proof) fun _ v =>
      v.packHash = final.packHash ∧ (v.accepted = true → Unobjected v) := by
  have hany : ∀ {α : Type} {p : Item F α}, Only [.routine] p → Yields p fun _ _ => True :=
    fun hp => Yields.mono (yields_only hp) fun _ _ _ => trivial
  unfold formVerdict
  refine Yields.bind (hany (by grind)) fun _ events _ => ?_
  refine Yields.bind (hany (by grind)) fun _ waiver _ => ?_
  refine Yields.bind (hany (by grind)) fun _ _ _ => Yields.bind (hany (by grind)) fun _ _ _ => ?_
  refine Yields.bind (hany (by grind)) fun _ _ _ => Yields.bind (hany (by grind)) fun _ results _ => ?_
  refine Yields.bind (hany (by grind)) fun _ opinion _ => Yields.pure ⟨rfl, ?_⟩
  exact unobjected_of_accepted

lemma lastVerdict_snoc {v : ReviewVerdict} {eventId : String} :
    lastVerdict (xs ++ [⟨.record (.verdict v), .ok eventId⟩]) = some v := by
  simp [lastVerdict, recordedVerdict]

lemma lastLadder_snoc {args : BuildArgs} {answer : Except Exn (List BuildResult)} :
    lastLadder (xs ++ [⟨.buildLadder args, answer⟩]) = some (args, answer) := by
  simp [lastLadder, ladderOf]

/-- The verdict that is returned is the last on the record, of the same build. -/
lemma reviewed_triple {args : BuildArgs} {final : BuildResult} {proof : RedProof} :
    Triple (fun h => Base s item st h ∧ LastBuilt h args final) (reviewed s item final proof)
      fun h r => Base s item st h ∧ ∀ v', r = .ok v' → LastBuilt h args final ∧
        ∃ v, lastVerdict h = some v ∧ v.packHash = v'.packHash ∧ v.accepted = v'.accepted ∧
          (v.accepted = true → Unobjected v) := by
  have hframe : ∀ {h n : List (Call (face F))}, Base s item st h ∧ LastBuilt h args final →
      (∀ c ∈ n, kindOf c.op ∈ [Kind.routine, .verdict]) →
      Base s item st (h ++ n) ∧ LastBuilt (h ++ n) args final := fun hP hn =>
    ⟨hP.1.append fun c hc => by have := hn c hc; grind, hP.2.append fun c hc => by
      have := hn c hc; grind⟩
  have hroutine : ∀ {n : List (Call (face F))}, (∀ c ∈ n, kindOf c.op ∈ [Kind.routine]) →
      ∀ c ∈ n, kindOf c.op ∈ [Kind.routine, .verdict] := fun hn c hc => by
    have := hn c hc
    grind
  unfold reviewed
  refine bind_step (K := [.routine]) (T := fun _ h => Base s item st h ∧ LastBuilt h args final)
    (by grind) formVerdict_yields (fun h n v hP hn _ => hframe hP (hroutine hn))
    (fun h n e hP hn => ⟨(hframe hP (hroutine hn)).1, by simp⟩) fun _ v hv => ?_
  refine bind_step (K := [.routine, .verdict]) (T := fun _ h => (Base s item st h ∧
    LastBuilt h args final) ∧ lastVerdict h = some v) (by grind) yields_ask
    (fun h n eventId hP hn hv => ⟨hframe hP hn, ?_⟩)
    (fun h n e hP hn => ⟨(hframe hP hn).1, by simp⟩) fun _ eventId _ => ?_
  · rw [hv]
    exact lastVerdict_snoc
  have hkeep : ∀ h n, (Base s item st h ∧ LastBuilt h args final) ∧ lastVerdict h = some v →
      (∀ c ∈ n, kindOf c.op ∈ [Kind.routine]) →
      (Base s item st (h ++ n) ∧ LastBuilt (h ++ n) args final) ∧
        lastVerdict (h ++ n) = some v := by
    intro h n hP hn
    refine ⟨hframe hP.1 (hroutine hn), ?_⟩
    rw [lastVerdict_append fun c hc => by have := hn c hc; grind]
    exact hP.2
  refine bind_quiet (by grind) hkeep (fun h e hP => ⟨hP.1.1, by simp⟩) fun _ => ?_
  refine bind_quiet (by grind) hkeep (fun h e hP => ⟨hP.1.1, by simp⟩) fun _ => ?_
  refine bind_quiet (by grind) hkeep (fun h e hP => ⟨hP.1.1, by simp⟩) fun _ => ?_
  refine Triple.pure fun h hP => ⟨hP.1.1, fun v' hv' => ?_⟩
  rw [← Except.ok.inj hv']
  exact ⟨hP.1.2, v, hP.2, rfl, rfl, hv.2⟩

/-- What the proof, the build and the review of a round leave. -/
lemma playRound_triple {oracle : AuthoredTest} {trialPrefix arm grant : String}
    {heldOut : Option String} :
    Triple (Base s item st) (playRound s item st oracle trialPrefix arm heldOut grant)
      fun h r => Base s item st h ∧ ∀ round, r = .ok round → Played st arm round h := by
  have hbase : ∀ {K : List Kind}, .claim ∉ K → .deliver ∉ K →
      ∀ h n, Base s item st h → (∀ c ∈ n, kindOf c.op ∈ K) → Base s item st (h ++ n) :=
    fun hclaim hdeliver h n hP hn => hP.append fun c hc =>
      ⟨fun heq => hclaim (heq ▸ hn c hc), fun heq => hdeliver (heq ▸ hn c hc)⟩
  unfold playRound
  refine bind_quiet (K := [.routine, .prove]) (by grind) (hbase (by simp) (by simp))
    (fun h e hP => ⟨hP, by simp⟩) fun proof => ?_
  refine bind_quiet (K := [.routine]) (by grind) (hbase (by simp) (by simp))
    (fun h e hP => ⟨hP, by simp⟩) fun _ => ?_
  refine bind_step (K := [.build]) (T := fun final h => Base s item st h ∧
    LastBuilt h ⟨oracle, proof, trialPrefix, arm, st.entry.calibration.isSome, heldOut, grant⟩ final)
    (by grind) built_yields (fun h n final hP hn hb => ⟨hbase (by simp) (by simp) h n hP hn, ?_⟩)
    (fun h n e hP hn => ⟨hbase (by simp) (by simp) h n hP hn, by simp⟩) fun _ final _ => ?_
  · obtain ⟨⟨results, rfl, hlast⟩, hclean, hqualified⟩ := hb
    exact ⟨⟨results, lastLadder_snoc, hlast⟩, hclean, hqualified⟩
  refine Triple.bind reviewed_triple (fun v => ?_) fun h e hP => ⟨hP.1, by simp⟩
  refine Triple.mono (P := fun h => Base s item st h ∧ Played st arm ⟨oracle, proof, final, v⟩ h)
    ?_ (fun h hP => ?_) fun h r hQ => hQ
  · refine bind_quiet (K := [.routine, .close]) (by grind) (fun h n hP hn => ?_)
      (fun h e hP => ⟨hP.1, by simp⟩) fun _ => ?_
    · refine ⟨hbase (by simp) (by simp) h n hP.1 hn, hP.2.append fun c hc => ?_⟩
      have := hn c hc
      grind
    · refine Triple.pure fun h hP => ⟨hP.1, fun round hround => ?_⟩
      rw [← Except.ok.inj hround]
      exact hP.2
  · obtain ⟨hlast, v', hv'⟩ := hP.2 v rfl
    exact ⟨hP.1, ⟨_, hlast, rfl, rfl⟩, v', hv'⟩

end Rounds

section Ends

variable [PyFloat F] {s : FactorySpec F} {item : BacklogItem} {st : Started}
  {authored : Option AuthoredTest}

lemma Base.quiet {K : List Kind} (hclaim : .claim ∉ K) (hdeliver : .deliver ∉ K)
    (h n : List (Call (face F))) (hP : Base s item st h) (hn : ∀ c ∈ n, kindOf c.op ∈ K) :
    Base s item st (h ++ n) :=
  hP.append fun c hc => ⟨fun heq => hclaim (heq ▸ hn c hc), fun heq => hdeliver (heq ▸ hn c hc)⟩

lemma Base.delivers {h : List (Call (face F))} (hP : Base s item st h) :
    DeliversLicensed s item h := .of_no_delivery hP.undelivered

lemma reworkLoop_triple {arm : String} {left : ℕ} {round : Round} :
    Triple (fun h => Base s item st h ∧ Played st arm round h)
      (reworkLoop s item st arm left round)
      fun h r => Base s item st h ∧ ∀ last, r = .ok last → Played st arm last h := by
  have hstop : ∀ {round : Round}, Triple (fun h => Base s item st h ∧ Played st arm round h)
      (pure round : Item F Round)
      fun h r => Base s item st h ∧ ∀ last, r = .ok last → Played st arm last h :=
    Triple.pure fun h hP => ⟨hP.1, fun last hlast => by rw [← Except.ok.inj hlast]; exact hP.2⟩
  induction left generalizing round with
  | zero => exact hstop
  | succ left ih =>
    unfold reworkLoop
    split_ifs
    · refine Triple.mono (P := Base s item st) ?_ (fun h hP => hP.1) fun h r hQ => hQ
      refine bind_quiet (K := [.routine, .close]) (by grind) (Base.quiet (by simp) (by simp))
        (fun h e hP => ⟨hP, by simp⟩) fun oracle => ?_
      refine Triple.bind playRound_triple (fun next => ?_) fun h e hP => ⟨hP.1, by simp⟩
      exact Triple.mono ih (fun h hP => ⟨hP.1, hP.2 next rfl⟩) fun h r hQ => hQ
    · exact hstop

lemma quiet_delivers {p : Item F α} (hp : Only [.routine, .close] p) :
    Triple (Base s item st) p fun h _ => DeliversLicensed s item h :=
  Does.mono hp.does fun n _ hn h hP => (Base.quiet (by simp) (by simp) h n hP hn).delivers

lemma measuredRoute_yields {final : BuildResult} {route : Option RouteDecision} :
    Yields (measuredRoute s item final route) fun n measured =>
      RouteRead s n (some final.size) measured ∨
        some final.size = item.sizeEstimate ∧ measured = route := by
  unfold measuredRoute
  split_ifs with h
  · exact Yields.mono mapRoute_yields fun n route hn => .inl hn
  · exact Yields.pure (.inr ⟨by simpa using h, rfl⟩)

lemma liftedBy_yields {entryOverride : String} :
    Yields (liftedBy s entryOverride) fun n by_ =>
      Named s n by_ ∨ entryOverride ≠ "" ∧ by_ = entryOverride := by
  unfold liftedBy
  split_ifs with h
  · exact Yields.mono overrideBy_yields fun n by_ hn => .inl hn
  · exact Yields.pure (.inr ⟨h, rfl⟩)

lemma deliveredCellSignOff_yields {final : BuildResult} {lic : Licence} {r : RouteDecision}
    {entryOverride : String} :
    Yields (deliveredCellSignOff s item final lic (some r) entryOverride) fun n _ =>
      s.requireSignedCell = true → standardSigned lic.standard = true ∨
        ∃ by_, by_ ≠ "" ∧ by_ ≠ s.actor ∧ showsFalseQ1 (some r) = false ∧
          (Named s n by_ ∨ entryOverride ≠ "" ∧ by_ = entryOverride) := by
  unfold deliveredCellSignOff
  by_cases hclause : (!s.requireSignedCell || standardSigned lic.standard) = true
  · rw [if_pos hclause]
    refine Yields.pure fun hreq => .inl ?_
    simpa [hreq] using hclause
  rw [if_neg hclause]
  refine Yields.bind liftedBy_yields fun n by_ hn => ?_
  dsimp only
  by_cases hlifts : by_ ≠ "" ∧ overrideRefusal s (some r) by_ = none
  · rw [if_pos hlifts]
    obtain ⟨hshows, hactor⟩ := overrideRefusal_eq_none hlifts.1 hlifts.2
    refine Yields.bind (yields_only (show Only [.routine] _ by grind)) fun n' _ _ => ?_
    refine Yields.pure fun _ => .inr ⟨by_, hlifts.1, hactor, hshows, hn.imp_left fun h => ?_⟩
    exact h.mono (by simp)
  · rw [if_neg hlifts]
    refine Yields.bind yields_ask fun _ _ _ => Yields.bind yields_ask fun _ _ _ => ?_
    exact Yields.halt

/-- A push that is licensed is the only delivery. -/
lemma push_triple {args : DeliverArgs} :
    Triple (fun h => (∀ c ∈ h, kindOf c.op ≠ .deliver) ∧ Licensed s item h args) (push args)
      fun h _ => DeliversLicensed s item h := by
  have hquiet : ∀ {α : Type} {p : Item F α}, Only [.routine] p →
      Triple (DeliversLicensed s item) p fun h _ => DeliversLicensed s item h := fun hp =>
    Does.mono hp.does fun n _ hn h hP => hP.append fun c hc => by
      have := hn c hc
      grind
  unfold push
  refine Triple.bind (R := fun h _ => DeliversLicensed s item h) (Triple.attempt
    (R := fun h _ => DeliversLicensed s item h) (Triple.call (fun h a hP => .snoc hP.1 hP.2)
      fun h e hP => .snoc hP.1 hP.2) (fun h a hP => hP) fun e => hquiet ?_)
    (fun d => hquiet (by grind)) fun h e hP => hP
  rcases e with (_ | _ | _ | _) | _ <;> grind

/-- The standard of the delivered change's own cell was answered. -/
def StandardAt (item : BacklogItem) (final : BuildResult) (arm : String)
    (standard : Option Standard) (calls : List (Call (face F))) : Prop :=
  (⟨.standardFor (deliveredCell item final arm), .ok standard⟩ : Call (face F)) ∈ calls

/-- Of an accepted round, what is delivered is licensed. -/
lemma deliverFinal_triple {arm before : String} {round : Round} {previous : Option DeliveryResult}
    {n : ℕ} (hcal : st.entry.calibration = none) :
    Triple (fun h => Base s item st h ∧ Played st arm round h)
      (deliverFinal s item round.final st.route round.verdict previous n before arm
        st.entry.overrideBy) fun h _ => DeliversLicensed s item h := by
  have hkeep : ∀ h n, Base s item st h ∧ Played st arm round h →
      (∀ c ∈ n, kindOf c.op ∈ [Kind.routine]) →
      Base s item st (h ++ n) ∧ Played st arm round (h ++ n) := fun h n hP hn =>
    ⟨Base.quiet (by simp) (by simp) h n hP.1 hn, hP.2.append fun c hc => by
      have := hn c hc
      grind⟩
  have hbase : ∀ {α : Type} {p : Item F α}, Only [.routine, .close] p →
      Triple (fun h => Base s item st h ∧ Played st arm round h) p
        fun h _ => DeliversLicensed s item h := fun hp =>
    Triple.mono (quiet_delivers hp) (fun h hP => hP.1) fun h r hQ => hQ
  unfold deliverFinal
  by_cases hreviewed : (!round.verdict.accepted || round.verdict.packHash ≠ round.final.packHash)
    = true
  · rw [if_pos hreviewed]
    exact hbase (by grind)
  rw [if_neg hreviewed]
  by_cases hon : (!s.deliver) = true
  · rw [if_pos hon]
    exact hbase (by grind)
  rw [if_neg hon]
  obtain ⟨haccepted, hpack⟩ : round.verdict.accepted = true ∧
      round.verdict.packHash = round.final.packHash := by simpa using hreviewed
  refine bind_step (K := [.routine]) (T := fun standard h => (Base s item st h ∧
    Played st arm round h) ∧ StandardAt item round.final arm standard h) (by grind) yields_ask
    (fun h n standard hP hn hs => ⟨hkeep h n hP hn, by simp [StandardAt, hs]⟩)
    (fun h n e hP hn => (hkeep h n hP hn).1.delivers) fun _ standard _ => ?_
  have hstep : ∀ h n, (Base s item st h ∧ Played st arm round h) ∧
      StandardAt item round.final arm standard h → (∀ c ∈ n, kindOf c.op ∈ [Kind.routine]) →
      (Base s item st (h ++ n) ∧ Played st arm round (h ++ n)) ∧
        StandardAt item round.final arm standard (h ++ n) := fun h n hP hn =>
    ⟨hkeep h n hP.1 hn, List.mem_append_left n hP.2⟩
  refine bind_step (K := [.routine]) (T := fun _ h => (Base s item st h ∧ Played st arm round h) ∧
    StandardAt item round.final arm standard h) (by grind) (yields_whenever (Yields.bind yields_ask
      fun _ _ _ => Yields.bind yields_ask fun _ _ _ => Yields.halt))
    (fun h n _ hP hn _ => hstep h n hP hn)
    (fun h n e hP hn => (hstep h n hP hn).1.1.delivers) fun _ _ hlic => ?_
  obtain ⟨std, rfl, hlicenses, harm⟩ : ∃ std, standard = some std ∧ std.licenses = true ∧
      std.arm = arm := ownCellLicence_licensed (by simpa using hlic.1)
  refine bind_step (K := [.routine]) (T := fun route h => ((Base s item st h ∧
    Played st arm round h) ∧ StandardAt item round.final arm (some std) h) ∧
      RouteRead s h (some round.final.size) route) (by grind [measuredRoute]) measuredRoute_yields
    (fun h n route hP hn hroute => ⟨hstep h n hP hn, ?_⟩)
    (fun h n e hP hn => (hstep h n hP hn).1.1.delivers) fun _ route _ => ?_
  · rcases hroute with hroute | ⟨hsize, rfl⟩
    · exact hroute.mono (List.subset_append_right h n)
    · rw [hsize]
      exact hP.1.1.routed.mono (List.subset_append_left h n)
  cases route with
  | none => exact Triple.mono (hbase (by grind)) (fun h hP => hP.1.1) fun h r hQ => hQ
  | some r =>
    dsimp only
    by_cases hdeliver : r.route ≠ "deliver"
    · rw [if_pos hdeliver]
      exact Triple.mono (hbase (by grind)) (fun h hP => hP.1.1) fun h r hQ => hQ
    rw [if_neg hdeliver]
    refine bind_step (K := [.routine]) (T := fun by_ h => (∀ c ∈ h, kindOf c.op ≠ .deliver) ∧
      Licensed s item h ⟨round.final, previous, n, before, round.verdict.verdict, r,
        waiverNotes round.verdict, licenceLine (ownCellLicence (deliveredCell item round.final arm)
          item.sizeEstimate round.final.size (some std)).standard by_⟩) (by grind)
      deliveredCellSignOff_yields (fun h m by_ hP hm hsigned => ?_)
      (fun h m e hP hm => (hstep h m hP.1 hm).1.1.delivers) fun _ by_ _ => push_triple
    obtain ⟨⟨hb, hplayed⟩, hstd⟩ := hstep h m hP.1 hm
    obtain ⟨args, hbuilt, rfl, hcalibration⟩ := hplayed.built
    obtain ⟨v, hlast, hv, hacc, hunobjected⟩ := hplayed.reviewed
    rw [haccepted] at hacc
    refine ⟨hb.undelivered, by simpa using hon, hb.uncalibrated hcal,
      ⟨v, hlast, hacc, hv.trans hpack, hunobjected hacc⟩,
      ⟨hP.2.mono (List.subset_append_left h m), not_not.mp hdeliver⟩, args, std, hbuilt,
      by rw [hcalibration, hcal]; rfl, hstd, hlicenses, harm, fun hreq => ?_⟩
    rcases hsigned hreq with hsigned | ⟨by', hne, hactor, hshows, hnamed⟩
    · left
      rw [ownCellLicence_standard] at hsigned
      simpa [standardSigned, hlicenses] using hsigned
    · refine .inr ⟨by', hne, hactor, ?_, hshows⟩
      rcases hnamed with hnamed | ⟨hover, rfl⟩
      · exact hnamed.mono (List.subset_append_right h m)
      · exact hb.lifted hover

lemma finish_triple {arm : String} {round : Round} :
    Triple (fun h => Base s item st h ∧ Played st arm round h) (finish s item st arm round)
      fun h _ => DeliversLicensed s item h := by
  have hbase : ∀ {α : Type} {p : Item F α}, Only [.routine, .close] p →
      Triple (fun h => Base s item st h ∧ Played st arm round h) p
        fun h _ => DeliversLicensed s item h := fun hp =>
    Triple.mono (quiet_delivers hp) (fun h hP => hP.1) fun h r hQ => hQ
  unfold finish
  by_cases hacc : round.verdict.accepted = true
  · rw [if_pos hacc]
    cases hcal : st.entry.calibration with
    | some grant => exact hbase (by grind)
    | none =>
      refine Triple.bind (R := fun h _ => Base s item st h ∧ Played st arm round h)
        (Triple.get fun h _ hP => hP) (fun l => ?_) fun h e hP => hP.1.delivers
      refine Triple.bind (deliverFinal_triple hcal) (fun delivery => ?_) fun h e hP => hP
      refine Triple.bind (R := fun h _ => DeliversLicensed s item h) (Triple.modify fun h hP => hP)
        (fun _ => Triple.pure fun h hP => hP) fun h e hP => hP
  · rw [if_neg hacc]
    exact hbase (by grind)

lemma proceed_triple : Triple (Base s item st) (proceed s item authored st)
    fun h _ => DeliversLicensed s item h := by
  unfold proceed
  refine bind_quiet (K := [.routine, .author]) (by grind) (Base.quiet (by simp) (by simp))
    (fun h e hP => hP.delivers) fun oracle => ?_
  refine bind_quiet (K := [.routine]) (by grind) (Base.quiet (by simp) (by simp))
    (fun h e hP => hP.delivers) fun held => ?_
  refine Triple.bind playRound_triple (fun first => ?_) fun h e hP => hP.1.delivers
  refine Triple.mono (P := fun h => Base s item st h ∧ Played st oracle.2 first h) ?_
    (fun h hP => ⟨hP.1, hP.2 first rfl⟩) fun h r hQ => hQ
  refine Triple.bind reworkLoop_triple (fun last => ?_) fun h e hP => hP.1.delivers
  exact Triple.mono finish_triple (fun h hP => ⟨hP.1, hP.2 last rfl⟩) fun h r hQ => hQ

/-- What a started run knows. -/
lemma start_base : Triple (fun h => ∀ c ∈ h, kindOf c.op = .routine) (start s item authored)
    fun h r => (∀ c ∈ h, kindOf c.op ≠ .deliver) ∧ ∀ st, r = .ok st → Base s item st h := by
  have honly : Only [.routine, .claim] (start s item authored) := by grind
  refine Does.mono (Does.and honly.does start_yields) fun n r hn h hP => ?_
  have hquiet : ∀ c ∈ h ++ n, kindOf c.op ≠ .deliver := fun c hc =>
    (List.mem_append.mp hc).elim (fun hc => by rw [hP c hc]; simp) fun hc => by
      have := hn.1 c hc
      grind
  refine ⟨hquiet, fun st hst => ?_⟩
  obtain ⟨before, after, rfl, hadmitted, hafter⟩ := hn.2 st hst
  have hin := hadmitted.after hP
  have hsub : h ++ before ⊆ h ++ (before ++ after) := fun c hc => by
    rw [← List.append_assoc]
    exact List.mem_append_left after hc
  refine ⟨hin.routed.mono hsub, fun hcal c hc => ?_, fun hl => (hin.lifted hl).named.mono hsub,
    hquiet⟩
  rw [← List.append_assoc] at hc
  have hroutine : kindOf c.op = .routine :=
    (List.mem_append.mp hc).elim (hin.unclaimed hcal c) (hafter c)
  rw [hroutine]
  simp

/-- Every delivery of a run is licensed by what the run asked and was answered before it. -/
theorem delivers_licensed (s : FactorySpec F) (item : BacklogItem) (authored : Option AuthoredTest)
    (w : World (face F)) : DeliversLicensed s item (runCalls s item authored w) := by
  have hquiet : ∀ {α : Type} {p : Item F α}, Only [.routine] p →
      Triple (DeliversLicensed s item) p fun h _ => DeliversLicensed s item h := fun hp =>
    Does.mono hp.does fun n _ hn h hP => hP.append fun c hc => by
      have := hn c hc
      grind
  have hbody : Triple (fun h => ∀ c ∈ h, kindOf c.op = .routine)
      (start s item authored >>= proceed s item authored) fun h _ => DeliversLicensed s item h := by
    refine Triple.bind start_base (fun st => ?_) fun h e hP => .of_no_delivery hP.1
    exact Triple.mono proceed_triple (fun h hP => hP.2 st rfl) fun h r hQ => hQ
  have hrun : Triple (fun h => h = []) (runItem s item authored)
      fun h _ => DeliversLicensed s item h := by
    unfold runItem
    refine Triple.bind (R := fun h _ => ∀ c ∈ h, kindOf c.op = .routine) ?_ (fun _ => ?_)
      fun h e hP => .of_no_delivery fun c hc => by rw [hP c hc]; simp
    · exact Triple.call (fun h a hP => by simp [hP]) fun h e hP => by simp [hP]
    refine Triple.bind (R := fun h _ => DeliversLicensed s item h) (Triple.ensuring
      (R := fun h _ => DeliversLicensed s item h) (Triple.attempt
        (R := fun h _ => DeliversLicensed s item h) (Triple.bind hbody (fun status =>
          Triple.pure fun h hP => hP) fun h e hP => hP) (fun h a hP => hP) fun e =>
            hquiet (by grind)) fun r => hquiet (by grind)) (fun out => hquiet ?_) fun h e hP => hP
    obtain ⟨status, error⟩ := out
    grind
  exact hrun.run rfl

/-- A run that delivers. -/
theorem delivers_licensed_sample :
    (∃ c ∈ runCalls sampleSpec sampleItem (some sampleTest) (sampleWorld .accept),
      kindOf c.op = .deliver) ∧
    DeliversLicensed sampleSpec sampleItem
      (runCalls sampleSpec sampleItem (some sampleTest) (sampleWorld .accept)) :=
  ⟨by decide +kernel, delivers_licensed _ _ _ _⟩

end Ends

end CommitReplay.LicensedDelivery
