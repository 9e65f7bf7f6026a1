import CommitReplay.AttemptCalls

/-! What an attempt charges is what the outcomes it keeps metered: an exception after a builder returned
drops the outcome, and one in the finish gate drops every repair of the gate. -/
namespace CommitReplay.AttemptCharges

open CommitReplay.PythonText CommitReplay.Interaction CommitReplay.AttemptOutcomes
open CommitReplay.AttemptCalls

section Calls

/-- The builder call whose part a call is. -/
def stageOf : Op → Option Stage
  | .checkout st | .openSession st | .build st _ | .unconfirmedKills st | .closeSession st
  | .copyBack st | .removeCheckout st => some st
  | .changedFiles | .format | .verify => some .finishGate
  | .lintPlan | .runPlan | .fixer _ | .writeTranscript _ | .discard | .removeAuthored => none

/-- A call of the pre-flight's checks. -/
def aside : Op → Bool
  | .lintPlan | .runPlan | .fixer _ => true
  | _ => false

def raises (c : Call face) : Bool :=
  match c.answer with
  | .ok _ => false
  | .error _ => true

/-- The outcome a call returned, for this stage. -/
def outcomeOf (st : Stage) : Call face → Option BuildOutcome
  | ⟨.build st' _, .ok o⟩ => if st' = st then some o else none
  | _ => none

/-- The outcomes the builder returned for this stage, in their order. -/
def returned (st : Stage) (calls : List (Call face)) : List BuildOutcome := calls.filterMap (outcomeOf st)

/-- Some call of the stage raised. -/
def faulty (st : Stage) (calls : List (Call face)) : Bool :=
  calls.any fun c => stageOf c.op = some st && raises c

@[simp] lemma returned_nil (st : Stage) : returned st [] = [] := rfl

@[simp] lemma faulty_nil (st : Stage) : faulty st [] = false := rfl

lemma returned_append (st : Stage) (m n : List (Call face)) :
    returned st (m ++ n) = returned st m ++ returned st n :=
  List.filterMap_append

lemma faulty_append (st : Stage) (m n : List (Call face)) :
    faulty st (m ++ n) = (faulty st m || faulty st n) :=
  List.any_append

lemma outcomeOf_of_stage_ne {st : Stage} {c : Call face} (h : stageOf c.op ≠ some st) :
    outcomeOf st c = none := by
  obtain ⟨op, answer⟩ := c
  cases op with
  | build st' note =>
    have hne : st' ≠ st := fun heq => h (congrArg some heq)
    cases answer <;> simp [outcomeOf, hne]
  | _ => rfl

/-- Calls of other stages return nothing for this one, and are no faults of it. -/
lemma elsewhere {st : Stage} {calls : List (Call face)} (h : ∀ c ∈ calls, stageOf c.op ≠ some st) :
    returned st calls = [] ∧ faulty st calls = false := by
  refine ⟨List.filterMap_eq_nil_iff.mpr fun c hc => outcomeOf_of_stage_ne (h c hc), ?_⟩
  rw [faulty, List.any_eq_false]
  exact fun c hc => by simp [h c hc]

end Calls

section Stays

variable {α β : Type} {st : Stage}

/-- The program is of one stage: while it returns, no call of it raised, and the outcomes returned and
the value are as said. -/
def Stays (st : Stage) (p : Step α) (R : List BuildOutcome → α → Prop) : Prop :=
  Does p fun n r => (∀ c ∈ n, stageOf c.op = some st) ∧
    (∀ a, r = .ok a → faulty st n = false ∧ R (returned st n) a) ∧
    ∀ e, r = .error e → faulty st n = true

variable {p : Step α} {R R' : List BuildOutcome → α → Prop}

lemma Stays.mono (hp : Stays st p R) (h : ∀ os a, R os a → R' os a) : Stays st p R' :=
  Does.mono hp fun _ _ hn => ⟨hn.1, fun a ha => ⟨(hn.2.1 a ha).1, h _ _ (hn.2.1 a ha).2⟩, hn.2.2⟩

lemma Stays.pure {a : α} (h : R [] a) : Stays st (pure a : Step α) R :=
  Does.pure ⟨by simp, fun _ ha => ⟨rfl, Except.ok.inj ha ▸ h⟩, fun _ he => by cases he⟩

lemma Stays.modify {f : Locals → Locals} {R : List BuildOutcome → Unit → Prop} (h : R [] ()) :
    Stays st (Prog.modify f : Step Unit) R :=
  Does.modify ⟨by simp, fun _ _ => ⟨rfl, h⟩, fun _ he => by cases he⟩

lemma Stays.get {R : List BuildOutcome → Locals → Prop} (h : ∀ s, R [] s) :
    Stays st (Prog.get : Step Locals) R :=
  Does.get fun s => ⟨by simp, fun _ ha => ⟨rfl, Except.ok.inj ha ▸ h s⟩, fun _ he => by cases he⟩

lemma Stays.call {op : Op} {R : List BuildOutcome → op.Ans → Prop} (hop : stageOf op = some st)
    (h : ∀ a, R (returned st [⟨op, .ok a⟩]) a) :
    Stays st (Prog.call (I := face) op : Step op.Ans) R := by
  refine Does.call (fun a => ⟨by simpa using hop, fun _ ha => ⟨?_, Except.ok.inj ha ▸ h a⟩, fun _ he => ?_⟩)
    fun e => ⟨by simpa using hop, fun _ ha => ?_, fun _ _ => ?_⟩
  · simp [faulty, raises]
  · cases he
  · cases ha
  · simp [faulty, raises, hop]

lemma Stays.bind {f : α → Step β} {R' : List BuildOutcome → β → Prop} (hp : Stays st p R)
    (hf : ∀ os a, R os a → Stays st (f a) fun os' b => R' (os ++ os') b) :
    Stays st (p >>= f) R' := by
  refine Does.bind hp (fun n a hn => ?_) fun n e hn => ⟨hn.1, fun _ ha => (by cases ha), fun _ _ => hn.2.2 e rfl⟩
  obtain ⟨hfault, hR⟩ := hn.2.1 a rfl
  refine Does.mono (hf _ a hR) fun n' r hn' => ⟨fun c hc => ?_, fun b hb => ?_, fun e he => ?_⟩
  · exact (List.mem_append.mp hc).elim (hn.1 c) (hn'.1 c)
  · rw [faulty_append, hfault, returned_append]
    exact hn'.2.1 b hb
  · rw [faulty_append, hn'.2.2 e he, Bool.or_true]

/-- What is done after an exception, which goes on. -/
lemma Stays.rethrow {q : Halt face Empty → Step β} (hp : Stays st p R)
    (hq : ∀ e, Does (q e) fun n _ => ∀ c ∈ n, stageOf c.op = some st) :
    Stays st (p.attempt fun e => do let _ ← q e; .halt e) R := by
  refine Does.attempt hp (fun n a hn => hn) fun n e hn => ?_
  refine Does.bind (hq e) (fun n' b hn' => ?_) fun n' e' hn' => ?_
  · refine Does.halt ⟨fun c hc => ?_, fun _ ha => (by cases ha), fun _ _ => ?_⟩
    · rw [List.append_nil] at hc
      exact (List.mem_append.mp hc).elim (hn.1 c) (hn' c)
    · rw [faulty_append, hn.2.2 e rfl, Bool.true_or]
  · refine ⟨fun c hc => ?_, fun _ ha => (by cases ha), fun _ _ => ?_⟩
    · exact (List.mem_append.mp hc).elim (hn.1 c) (hn' c)
    · rw [faulty_append, hn.2.2 e rfl, Bool.true_or]

/-- An exception that goes on as another. -/
lemma Stays.reraise {g : Halt face Empty → Halt face Empty} (hp : Stays st p R) :
    Stays st (p.attempt fun e => .halt (g e)) R := by
  refine Does.attempt hp (fun n a hn => hn) fun n e hn => ?_
  refine Does.halt ⟨fun c hc => hn.1 c (by simpa using hc), fun _ ha => (by cases ha), fun _ _ => ?_⟩
  rw [List.append_nil]
  exact hn.2.2 e rfl

lemma Stays.ensuring {last : Step Unit} (hp : Stays st p R) (hl : Stays st last fun os _ => os = []) :
    Stays st (p.ensuring last) R := by
  refine Does.ensuring hp hl (fun n r n' hn hn' => ⟨fun c hc => ?_, fun a ha => ?_, fun e he => ?_⟩)
    fun n r n' e hn hn' => ⟨fun c hc => ?_, fun _ ha => (by cases ha), fun _ _ => ?_⟩
  · exact (List.mem_append.mp hc).elim (hn.1 c) (hn'.1 c)
  · obtain ⟨hfault, hR⟩ := hn.2.1 a ha
    obtain ⟨hfault', hnil⟩ := hn'.2.1 () rfl
    rw [faulty_append, returned_append, hfault, hfault', hnil, List.append_nil]
    exact ⟨rfl, hR⟩
  · rw [faulty_append, hn.2.2 e he, Bool.true_or]
  · exact (List.mem_append.mp hc).elim (hn.1 c) (hn'.1 c)
  · rw [faulty_append, hn'.2.2 e rfl, Bool.or_true]

lemma Stays.ite {b : Prop} [Decidable b] {q : Step α} (hp : b → Stays st p R)
    (hq : ¬ b → Stays st q R) : Stays st (if b then p else q) R := by
  split_ifs with h
  · exact hp h
  · exact hq h

end Stays

section Carries

variable {isWide : Char → Bool}

/-- The outcome is the first one with these repairs: all of what they metered, the first one's tool calls
and price, and a breach where one of them has it. -/
structure Carries (o first : BuildOutcome) (repairs : List BuildOutcome) : Prop where
  meter : o.meter = first.meter + (repairs.map BuildOutcome.meter).sum
  toolCalls : o.toolCalls = first.toolCalls
  costKnown : o.costKnown = first.costKnown
  violated : o.violated = (first.violated || repairs.any BuildOutcome.violated)
  stop : o.stopReason = .modelError →
    first.stopReason = .modelError ∨ repairs.any BuildOutcome.violated = true

namespace Carries

variable {o o' first : BuildOutcome} {rs ts : List BuildOutcome}

lemma refl (o : BuildOutcome) : Carries o o [] := ⟨by simp, rfl, rfl, by simp, .inl⟩

lemma trans (h : Carries o' o ts) (h' : Carries o first rs) : Carries o' first (rs ++ ts) where
  meter := by rw [h.meter, h'.meter, List.map_append, List.sum_append, add_assoc]
  toolCalls := h.toolCalls.trans h'.toolCalls
  costKnown := h.costKnown.trans h'.costKnown
  violated := by rw [h.violated, h'.violated, List.any_append, Bool.or_assoc]
  stop hs := by
    rw [List.any_append]
    obtain h | h := h.stop hs
    · exact (h'.stop h).imp_right fun h => by simp [h]
    · exact .inr (by simp [h])

lemma merge (first second : BuildOutcome) :
    Carries (mergeOutcomes isWide first second) first [second] where
  meter := by rw [meter_mergeOutcomes]; simp
  toolCalls := toolCalls_mergeOutcomes first second
  costKnown := costKnown_mergeOutcomes first second
  violated := by rw [violated_mergeOutcomes]; simp
  stop hs := (stopReason_mergeOutcomes hs).imp_right fun h => by simp [h]

/-- What an attempt renames or takes back of the builder's word changes nothing it carries. -/
lemma restored (o : BuildOutcome) (builder : String) (done : Bool) :
    Carries (.stored isWide { o with builder, done }) o [] where
  meter := by simp [BuildOutcome.meter, BuildOutcome.stored]
  toolCalls := rfl
  costKnown := rfl
  violated := by rw [violated_stored]; simp [BuildOutcome.violated]
  stop := .inl

lemma noted (o : BuildOutcome) (kills : List UnconfirmedKill) :
    Carries (noteUnconfirmedKills isWide o kills) o [] where
  meter := by
    unfold noteUnconfirmedKills
    split_ifs <;> simp [BuildOutcome.meter, BuildOutcome.stored]
  toolCalls := by unfold noteUnconfirmedKills; split_ifs <;> rfl
  costKnown := by unfold noteUnconfirmedKills; split_ifs <;> rfl
  violated := by rw [violated_noteUnconfirmedKills]; simp
  stop hs := by
    unfold noteUnconfirmedKills at hs
    split_ifs at hs <;> exact .inl hs

end Carries

end Carries

section Phases

variable {isWide : Char → Bool} {cfg : Config} {st : Stage}

/-- One outcome was returned, and the value is it. -/
def Single (os : List BuildOutcome) (o : BuildOutcome) : Prop := ∃ o', os = [o'] ∧ Carries o o' []

lemma Stays.quiet {op : Op} (hop : stageOf op = some st) (hb : ∀ a, outcomeOf st ⟨op, .ok a⟩ = none) :
    Stays st (Prog.call (I := face) op : Step op.Ans) fun os _ => os = [] :=
  Stays.call hop fun a => by simp [returned, hb a]

lemma stays_session (gateNote : Text) : Stays st (session isWide st gateNote) Single := by
  refine Stays.bind (Stays.quiet rfl fun _ => rfl) fun os _ hos => ?_
  subst hos
  refine Stays.ensuring ?_ (Stays.quiet rfl fun _ => rfl)
  have hbuild : Stays st (Prog.call (I := face) (.build st gateNote)) fun os o => os = [o] :=
    Stays.call rfl fun o => by simp [returned, outcomeOf]
  refine Stays.bind (hbuild.rethrow fun _ => Does.mono (Stays.quiet rfl fun _ => rfl) fun _ _ h => h.1)
    fun os o hos => ?_
  refine Stays.bind (Stays.quiet rfl fun _ => rfl) fun os' kills hos' => Stays.pure ?_
  rw [hos, hos']
  exact ⟨o, rfl, .noted o kills⟩

lemma stays_sealedBuild (gateNote : Text) : Stays st (sealedBuild isWide st gateNote) Single := by
  refine Stays.bind (Stays.quiet rfl fun _ => rfl) fun os _ hos => ?_
  subst hos
  refine Stays.ensuring ?_ (Stays.quiet rfl fun _ => rfl)
  have hcopy : Stays st (Prog.call (I := face) (.copyBack st)) fun os _ => os = [] :=
    Stays.quiet rfl fun _ => rfl
  refine Stays.bind ((stays_session gateNote).rethrow fun _ => ?_) fun os o hos => ?_
  · refine Does.attempt hcopy (fun n a hn => hn.1) fun n e hn => Does.pure ?_
    simpa using hn.1
  · refine Stays.bind hcopy.reraise fun os' _ hos' => Stays.pure ?_
    simpa [hos'] using hos

lemma stays_callBuilder (gateNote : Text) : Stays st (callBuilder isWide cfg st gateNote) Single := by
  unfold callBuilder
  split_ifs
  · exact stays_sealedBuild gateNote
  · exact Stays.call rfl fun o => ⟨o, by simp [returned, outcomeOf], .refl o⟩

lemma stays_ifThen {b : Bool} {p : Step Unit} (hp : Stays st p fun os _ => os = []) :
    Stays st (ifThen b p) fun os _ => os = [] := by
  unfold ifThen
  split_ifs
  · exact hp
  · exact Stays.pure rfl

lemma stays_repairCall (findings : Text) :
    Stays .finishGate (repairCall isWide cfg findings) Single := by
  refine Stays.bind (stays_ifThen (Stays.quiet rfl fun _ => rfl)) fun os _ hos => ?_
  subst hos
  exact stays_callBuilder findings

lemma stays_setLabel (key value : Text) : Stays st (setLabel key value) fun os _ => os = [] :=
  Stays.modify rfl

lemma stays_note (f : PreflightRecord → PreflightRecord) : Stays st (note f) fun os _ => os = [] :=
  Stays.modify rfl

lemma stays_format : Stays .finishGate (Prog.call (I := face) .format) fun os _ => os = [] :=
  Stays.quiet rfl fun _ => rfl

lemma stays_verify : Stays .finishGate (Prog.call (I := face) .verify) fun os _ => os = [] :=
  Stays.quiet rfl fun _ => rfl

/-- The outcome with one more repair, as the builder noted it. -/
lemma carries_repair {merged first second : BuildOutcome} {rs os : List BuildOutcome}
    (h : Carries merged first rs) (hs : Single os second) :
    Carries (mergeOutcomes isWide merged second) first (rs ++ os) := by
  obtain ⟨o', rfl, hsecond⟩ := hs
  have hm := (@Carries.merge isWide merged second).trans h
  constructor
  · rw [hm.meter]
    simp [hsecond.meter]
  · exact hm.toolCalls
  · exact hm.costKnown
  · rw [hm.violated]
    simp [hsecond.violated]
  · intro hstop
    refine (hm.stop hstop).imp_right fun h => ?_
    simpa [hsecond.violated] using h

/-- Every repair of the gate is in its outcome. -/
lemma stays_gateLoop (checks : Checks) (left repairs : ℕ) (merged : BuildOutcome) (run : GateRun)
    (record : List Text) :
    Stays .finishGate (gateLoop isWide cfg checks left repairs merged run record)
      fun os r => Carries r.1 merged os := by
  induction left generalizing repairs merged run record with
  | zero => exact Stays.pure (.refl merged)
  | succ left ih =>
    rw [gateLoop]
    refine Stays.ite (fun _ => Stays.pure (.refl merged)) fun _ => ?_
    refine Stays.bind (stays_repairCall run.findings) fun os second hos => ?_
    have hmerge := @carries_repair isWide merged merged second [] os (.refl merged) hos
    rw [List.nil_append] at hmerge
    refine Stays.ite (fun _ => Stays.pure ?_) fun _ => Stays.ite (fun _ => ?_) fun _ => ?_
    · rwa [List.append_nil]
    · refine Stays.bind stays_verify fun os' _ hos' => Stays.pure ?_
      rwa [hos', List.append_nil, List.append_nil]
    · refine Stays.bind (stays_ifThen ?_) fun os' _ hos' => ?_
      · refine Stays.bind stays_format fun os _ hos => Stays.bind (R := fun os _ => os = [])
          (Stays.get fun _ => rfl) fun os' _ hos' => ?_
        refine (stays_setLabel _ _).mono fun os'' _ hos'' => ?_
        rw [hos, hos', hos'']
        rfl
      · refine Stays.bind stays_verify fun os'' _ hos'' => (ih _ _ _ _).mono fun ts r hr => ?_
        rw [hos', hos'', List.nil_append, List.nil_append]
        exact hr.trans hmerge

lemma stays_finishGate (checks : Checks) (outcome : BuildOutcome) :
    Stays .finishGate (finishGate isWide cfg checks outcome) fun os o => Carries o outcome os := by
  refine Stays.bind stays_verify fun os _ hos => ?_
  refine Stays.bind (stays_gateLoop checks _ _ _ _ _) fun os' r hr => ?_
  refine Stays.bind (stays_setLabel _ _) fun os'' _ hos'' => Stays.pure ?_
  rw [hos, hos'', List.nil_append, List.append_nil, List.append_nil]
  simpa using (Carries.restored r.1 r.1.builder _).trans hr

end Phases

section Settles

variable {α β : Type} {st : Stage}

/-- What an attempt keeps of a stage: nothing of one in which a call raised. -/
def kept (st : Stage) (calls : List (Call face)) : List BuildOutcome :=
  if faulty st calls then [] else returned st calls

/-- The calls are of the stage, or no builder call's. -/
def Of (st : Stage) (calls : List (Call face)) : Prop :=
  ∀ c ∈ calls, stageOf c.op = some st ∨ aside c.op = true

/-- An exception of a call that is caught. -/
def Plain (e : Halt face Empty) : Prop := ∃ type text, e = .raised (.raised type text)

/-- While the program returns, no call of the stage raised; where it ends early, the attempt keeps nothing
of the stage. -/
def Tries (st : Stage) (p : Step α) (R : List BuildOutcome → α → Prop) : Prop :=
  Does p fun n r => Of st n ∧ (∀ a, r = .ok a → faulty st n = false ∧ R (returned st n) a) ∧
    ∀ e, r = .error e → kept st n = []

/-- The value is as said of what the attempt keeps of the stage, and only an exception that nothing
catches ends the program early. -/
def Settles (st : Stage) (p : Step α) (R : List BuildOutcome → α → Prop) : Prop :=
  Does p fun n r => Of st n ∧ (∀ a, r = .ok a → R (kept st n) a) ∧ ∀ e, r = .error e → ¬ Plain e

variable {R : List BuildOutcome → α → Prop} {p : Step α}

/-- A handler sees the exceptions that are caught; the others go on. -/
lemma does_excepting {handler : TypeName → Text → Step α}
    {P Q : List (Call face) → Except (Halt face Empty) α → Prop} (hp : Does p P)
    (hok : ∀ n a, P n (.ok a) → Q n (.ok a))
    (hplain : ∀ n type text, P n (.error (.raised (.raised type text))) →
      Does (handler type text) fun n' r => Q (n ++ n') r)
    (hother : ∀ n e, ¬ Plain e → P n (.error e) → Q n (.error e)) : Does (excepting p handler) Q := by
  refine Does.attempt hp hok fun n e hn => ?_
  split
  · exact hplain n _ _ hn
  · rename_i hne
    refine Does.halt ?_
    rw [List.append_nil]
    exact hother n e (by rintro ⟨type, text, rfl⟩; exact hne type text rfl) hn

lemma Of.append {m n : List (Call face)} (hm : Of st m) (hn : Of st n) : Of st (m ++ n) :=
  fun c hc => (List.mem_append.mp hc).elim (hm c) (hn c)

lemma stageOf_aside {op : Op} (h : aside op = true) : stageOf op = none := by
  cases op <;> first | rfl | cases h

lemma elsewhere_none {n : List (Call face)} (h : ∀ c ∈ n, aside c.op = true) :
    returned st n = [] ∧ faulty st n = false :=
  elsewhere fun c hc => by simp [stageOf_aside (h c hc)]

lemma kept_append {m n : List (Call face)} (h : returned st m = [] ∧ faulty st m = false) :
    kept st (m ++ n) = kept st n := by
  rw [kept, kept, faulty_append, returned_append, h.1, h.2, Bool.false_or, List.nil_append]

lemma kept_append_right {m n : List (Call face)} (h : returned st n = [] ∧ faulty st n = false) :
    kept st (m ++ n) = kept st m := by
  rw [kept, kept, faulty_append, returned_append, h.1, h.2, Bool.or_false, List.append_nil]

lemma Stays.tries (hp : Stays st p R) : Tries st p R :=
  Does.mono hp fun _ _ hn => ⟨fun c hc => .inl (hn.1 c hc), hn.2.1, fun e he => by
    rw [kept, hn.2.2 e he, if_pos rfl]⟩

lemma Tries.bind_none {f : α → Step β} {R : List BuildOutcome → β → Prop}
    (hp : Makes (fun c => aside c.op = true) p) (hf : ∀ a, Tries st (f a) R) :
    Tries st (p >>= f) R := by
  refine Does.bind hp (fun n a hn => ?_) fun n e hn => ?_
  · have hnone := @elsewhere_none st _ hn
    refine Does.mono (hf a) fun n' r hn' => ⟨Of.append (fun c hc => .inr (hn c hc)) hn'.1, ?_, ?_⟩
    · intro b hb
      rw [faulty_append, returned_append, hnone.1, hnone.2]
      exact hn'.2.1 b hb
    · intro e he
      rw [kept_append hnone]
      exact hn'.2.2 e he
  · have hnone := @elsewhere_none st _ hn
    refine ⟨fun c hc => .inr (hn c hc), fun _ ha => (by cases ha), fun _ _ => ?_⟩
    rw [kept, hnone.1, hnone.2]
    rfl

/-- What a caught exception leaves is said of nothing. -/
lemma Tries.excepting {handler : TypeName → Text → Step α} (hp : Tries st p R)
    (hh : ∀ type text, Stays st (handler type text) fun os a => os = [] ∧ R [] a)
    (hq : ∀ type text, Makes (fun _ => False) (handler type text)) :
    Settles st (excepting p handler) R := by
  refine does_excepting hp (fun n a hn => ⟨hn.1, fun b hb => ?_, fun _ he => by cases he⟩)
    (fun n type text hn => ?_) fun n e he hn => ⟨hn.1, fun _ ha => (by cases ha), fun e' he' => ?_⟩
  · obtain ⟨hfault, hR⟩ := hn.2.1 b hb
    rwa [kept, hfault]
  · have hkept := hn.2.2 _ rfl
    refine Does.mono (Does.and (hh type text) (hq type text)) fun n' r hn' => ?_
    obtain rfl : n' = [] := List.eq_nil_iff_forall_not_mem.mpr hn'.2
    rw [List.append_nil]
    refine ⟨hn.1, fun b hb => ?_, fun e he => ?_⟩
    · rw [hkept]
      exact (hn'.1.2.1 b hb).2.2
    · exact absurd (hn'.1.2.2 e he) Bool.false_ne_true
  · exact Except.error.inj he' ▸ he

lemma Settles.mono {R' : List BuildOutcome → α → Prop} (hp : Settles st p R)
    (h : ∀ os a, R os a → R' os a) : Settles st p R' :=
  Does.mono hp fun _ _ hn => ⟨hn.1, fun a ha => h _ _ (hn.2.1 a ha), hn.2.2⟩

lemma Settles.pure {a : α} (h : R [] a) : Settles st (pure a : Step α) R :=
  Does.pure ⟨fun _ hc => (by cases hc), fun _ ha => Except.ok.inj ha ▸ h, fun _ he => by cases he⟩

/-- A program that makes no call and goes on. -/
def Still (p : Step α) : Prop := Does p fun n r => n = [] ∧ ∀ e, r ≠ .error e

lemma Still.modify (f : Locals → Locals) : Still (Prog.modify f : Step Unit) :=
  Does.modify ⟨rfl, fun _ he => by cases he⟩

lemma Still.ifThen {b : Bool} {p : Step Unit} (hp : Still p) : Still (ifThen b p) := by
  unfold AttemptCalls.ifThen
  split_ifs
  · exact hp
  · exact Does.pure ⟨rfl, fun _ he => by cases he⟩

lemma Still.get : Still (Prog.get : Step Locals) := Does.get fun _ => ⟨rfl, fun _ he => by cases he⟩

/-- A program without a builder's call, which ends early for nothing that is caught. -/
def Follows (p : Step α) (Q : α → Prop) : Prop :=
  Does p fun n r => (∀ c ∈ n, aside c.op = true) ∧ (∀ a, r = .ok a → Q a) ∧
    ∀ e, r = .error e → ¬ Plain e

lemma Follows.bind {f : α → Step β} {Q : α → Prop} {Q' : β → Prop} (hp : Follows p Q)
    (hf : ∀ a, Q a → Follows (f a) Q') : Follows (p >>= f) Q' := by
  refine Does.bind hp (fun n a hn => ?_) fun n e hn => ⟨hn.1, fun _ ha => (by cases ha), fun e' he => ?_⟩
  · refine Does.mono (hf a (hn.2.1 a rfl)) fun n' r hn' => ⟨fun c hc => ?_, hn'.2.1, hn'.2.2⟩
    exact (List.mem_append.mp hc).elim (hn.1 c) (hn'.1 c)
  · obtain rfl := Except.error.inj he
    exact hn.2.2 e rfl

lemma Follows.pure {a : α} {Q : α → Prop} (h : Q a) : Follows (pure a : Step α) Q :=
  Does.pure ⟨fun _ hc => (by cases hc), fun _ ha => Except.ok.inj ha ▸ h, fun _ he => by cases he⟩

lemma Still.follows (hp : Still p) : Follows p fun _ => True :=
  Does.mono hp fun _ _ hn => ⟨fun _ hc => (by rw [hn.1] at hc; cases hc), fun _ _ => trivial,
    fun e he => absurd he (hn.2 e)⟩

lemma Follows.excepting {handler : TypeName → Text → Step α}
    (hp : Makes (fun c => aside c.op = true) p) (hh : ∀ type text, Still (handler type text)) :
    Follows (excepting p handler) fun _ => True := by
  refine does_excepting hp (fun n a hn => ⟨hn, fun _ _ => trivial, fun _ he => by cases he⟩)
    (fun n type text hn => ?_) fun n e he hn => ⟨hn, fun _ ha => (by cases ha), fun e' he' => ?_⟩
  · refine Does.mono (hh type text) fun n' r hn' => ⟨fun c hc => hn c ?_, fun _ _ => trivial, fun e he => ?_⟩
    · rwa [hn'.1, List.append_nil] at hc
    · exact absurd he (hn'.2 e)
  · exact Except.error.inj he' ▸ he

/-- What follows without a builder's call. -/
lemma Settles.bind {f : α → Step β} {R' : List BuildOutcome → β → Prop} (hp : Settles st p R)
    (hf : ∀ os a, R os a → Follows (f a) (R' os)) : Settles st (p >>= f) R' := by
  refine Does.bind hp (fun n a hn => ?_) fun n e hn => ⟨hn.1, fun _ ha => (by cases ha), fun e' he => ?_⟩
  · refine Does.mono (hf _ a (hn.2.1 a rfl)) fun n' r hn' => ⟨?_, fun b hb => ?_, hn'.2.2⟩
    · exact Of.append hn.1 fun c hc => .inr (hn'.1 c hc)
    · rw [kept_append_right (elsewhere_none hn'.1)]
      exact hn'.2.1 b hb
  · obtain rfl := Except.error.inj he
    exact hn.2.2 e rfl

lemma Settles.bind_still {f : α → Step β} {R : List BuildOutcome → β → Prop} (hp : Still p)
    (hf : ∀ a, Settles st (f a) R) : Settles st (p >>= f) R := by
  refine Does.bind hp (fun n a hn => ?_) fun n e hn => absurd rfl (hn.2 e)
  obtain rfl := hn.1
  exact hf a

end Settles

section Repairs

variable {isWide : Char → Bool} {cfg : Config} {st : Stage}

/-- The outcome with what is kept of a stage's repairs. -/
def Repaired (first : BuildOutcome) (os : List BuildOutcome) (o : BuildOutcome) : Prop :=
  Carries o first os

lemma makes_note (f : PreflightRecord → PreflightRecord) : Makes (fun _ => False) (note f) :=
  Makes.modify _

lemma settles_runChecks (checks : Checks) (outcome : BuildOutcome) :
    Settles .finishGate (runChecks isWide cfg checks outcome) (Repaired outcome) := by
  refine Settles.bind_still (Still.modify _) fun _ => ?_
  split
  · exact Settles.bind_still (Still.modify _).ifThen fun _ =>
      Settles.bind_still (Still.modify _).ifThen fun _ => Settles.pure (.refl outcome)
  · refine Tries.excepting (Stays.tries ?_) (fun _ _ => ?_) fun _ _ => ?_
    · refine Stays.bind (stays_ifThen ?_) fun os _ hos => ?_
      · refine Stays.bind stays_format fun os _ hos => (stays_setLabel _ _).mono fun os' _ hos' => ?_
        rw [hos, hos', List.append_nil]
      · subst hos
        exact Stays.ite (fun _ => stays_finishGate checks outcome) fun _ => Stays.pure (.refl outcome)
    · refine Stays.bind (stays_setLabel _ _) fun os _ hos => Stays.pure ?_
      exact ⟨by rw [hos, List.append_nil], .refl outcome⟩
    · exact Makes.bind (Makes.modify _) fun _ => Makes.pure _

lemma makes_runFixers (names : List Text) :
    Makes (fun c => aside c.op = true) (runFixers names) := by
  induction names with
  | nil => exact Makes.pure _
  | cons name names ih =>
    exact Makes.bind (Makes.call fun _ => rfl) fun _ => Makes.bind (Makes.modify _) fun _ => ih

lemma tries_pure {α : Type} {R : List BuildOutcome → α → Prop} {a : α} (h : R [] a) :
    Tries st (pure a : Step α) R :=
  (Stays.pure h).tries

lemma makes_applyFixes (pf : Preflight) (fixers : List Text) (before : PlanRun) :
    Makes (fun c => aside c.op = true) (applyFixes pf fixers before) := by
  unfold applyFixes
  split_ifs
  · exact Makes.bind (makes_runFixers fixers) fun _ => Makes.bind (Makes.call fun _ => rfl) fun _ =>
      Makes.bind (Makes.modify _) fun _ => Makes.pure _
  · exact Makes.pure _

lemma stays_preflightBuild (merged : BuildOutcome) (findings : Text) :
    Stays .preflight (preflightBuild isWide cfg merged findings) fun os r => Repaired merged os r.1 := by
  refine Stays.bind (stays_callBuilder _) fun os second hos => ?_
  refine Stays.bind (Stays.modify (R := fun os _ => os = []) rfl) fun os' _ hos' => ?_
  have hmerge := @carries_repair isWide merged merged second [] os (.refl merged) hos
  have hdone : ∀ (f : PreflightRecord → PreflightRecord) (b : Bool),
      Stays .preflight (do note f; pure (mergeOutcomes isWide merged second, b))
        fun ts r => Repaired merged (os ++ (os' ++ ts)) r.1 := fun f b => by
    refine Stays.bind (Stays.modify (R := fun os _ => os = []) rfl) fun ts _ hts => Stays.pure ?_
    rw [hos', hts, List.append_nil, List.append_nil, List.append_nil]
    exact hmerge
  refine Stays.ite (fun _ => hdone _ _) fun _ => Stays.ite (fun _ => hdone _ _) fun _ => Stays.pure ?_
  rw [hos', List.append_nil, List.append_nil]
  exact hmerge

lemma tries_preflightRepair (pf : Preflight) (merged : BuildOutcome) :
    Tries .preflight (preflightRepair isWide cfg pf merged)
      fun os r => Repaired merged os r.1 := by
  have hend : ∀ f : PreflightRecord → PreflightRecord,
      Tries .preflight (do note f; pure (merged, false)) fun os r => Repaired merged os r.1 := fun f =>
    Tries.bind_none (Makes.modify _) fun _ => tries_pure (.refl merged)
  have hrun : Makes (fun c => aside c.op = true) (Prog.call (I := face) .runPlan : Step PlanRun) :=
    Makes.call fun _ => rfl
  refine Tries.bind_none (Makes.call fun _ => rfl) fun plan => ?_
  cases plan with
  | noChangedFiles => exact hend _
  | noPlan => exact hend _
  | plan fixers =>
    refine Tries.bind_none hrun fun before => Tries.bind_none (Makes.modify _) fun _ => ?_
    split
    · exact tries_pure (.refl merged)
    refine Tries.bind_none (makes_applyFixes pf fixers before) fun before' => ?_
    split
    · exact tries_pure (.refl merged)
    · exact (stays_preflightBuild merged _).tries

lemma settles_runPreflight (pf : Preflight) (outcome : BuildOutcome) :
    Settles .preflight (runPreflight isWide cfg pf outcome) (Repaired outcome) := by
  have hstart : Carries (.stored isWide { outcome with builder := outcome.builder ++ "+preflight" })
      outcome [] := by
    simpa using Carries.restored outcome (outcome.builder ++ "+preflight") outcome.done
  refine Settles.bind (Tries.excepting (tries_preflightRepair pf _) (fun _ _ => ?_) fun _ _ => ?_)
    fun os r hr => ?_
  · refine Stays.bind (Stays.modify (R := fun os _ => os = []) rfl) fun os _ hos => Stays.pure ?_
    exact ⟨by rw [hos, List.append_nil], .refl _⟩
  · exact Makes.bind (Makes.modify _) fun _ => Makes.pure _
  · have hagain : Follows (ifThen r.2 (excepting (do
        let after ← Prog.call (I := face) .runPlan
        note fun r => { r with afterRepair := some (verdict after) }) preflightError)) fun _ => True := by
      unfold ifThen
      split_ifs
      · exact Follows.excepting (Makes.bind (Makes.call fun _ => rfl) fun _ => Makes.modify _)
          fun _ _ => Still.modify _
      · exact Follows.pure trivial
    refine Follows.bind hagain fun _ _ => Follows.bind Still.get.follows fun _ _ =>
      Follows.bind (Still.modify _).follows fun _ _ => Follows.pure ?_
    have hall := Carries.trans hr hstart
    rwa [List.nil_append] at hall

end Repairs

section Attempts

variable {isWide : Char → Bool} {cfg : Config}

/-- The transcript was not written. -/
def transcriptLost (calls : List (Call face)) : Bool :=
  calls.any fun c => match c.op with
    | .writeTranscript _ => raises c
    | _ => false

/-- The attempt reports an outcome of the first build and these repairs. -/
def Reports (first : BuildOutcome) (repairs : List BuildOutcome) (a : BuildAttempt) : Prop :=
  ∃ o, Carries o first repairs ∧ a.builder.meter = o.meter ∧ a.toolCalls = o.toolCalls ∧
    a.builder.pricingKnown = o.costKnown ∧ a.violation = o.violated ∧
    (a.error = [] ↔ o.violated = false ∧ o.stopReason ≠ .modelError)

/-- The attempt reports nothing of what was returned. -/
def Empties (a : BuildAttempt) : Prop :=
  a.builder.meter = 0 ∧ a.toolCalls = 0 ∧ a.builder.pricingKnown = true ∧ a.violation = false

lemma transcriptLost_append (m n : List (Call face)) :
    transcriptLost (m ++ n) = (transcriptLost m || transcriptLost n) :=
  List.any_append

lemma transcriptLost_of {st : Stage} {n : List (Call face)} (h : Of st n) : transcriptLost n = false := by
  rw [transcriptLost, List.any_eq_false]
  intro c hc
  obtain ⟨op, answer⟩ := c
  cases op with
  | writeTranscript o => obtain h | h := h _ hc <;> cases h
  | _ => simp

lemma settles_checksStep (outcome : BuildOutcome) :
    Settles .finishGate (checksStep isWide cfg outcome) (Repaired outcome) := by
  unfold checksStep
  split
  · exact settles_runChecks _ outcome
  · exact Settles.pure (.refl outcome)

lemma settles_preflightStep (outcome : BuildOutcome) :
    Settles .preflight (preflightStep isWide cfg outcome) (Repaired outcome) := by
  unfold preflightStep
  split
  · split_ifs
    · exact Settles.pure (.refl outcome)
    · exact settles_runPreflight _ outcome
  · exact Settles.pure (.refl outcome)

/-- An attempt is returned whatever becomes of its discarded edits. -/
lemma does_discard (a : BuildAttempt) : Does (discard a) fun n r =>
    (∀ c ∈ n, stageOf c.op = none) ∧ transcriptLost n = false ∧ r = .ok a := by
  have hcall : Does (ifThen (a.error ≠ []) (Prog.attempt (Prog.call (I := face) .discard) fun _ => pure ()))
      fun n r => (∀ c ∈ n, stageOf c.op = none) ∧ transcriptLost n = false ∧ r = .ok () := by
    unfold ifThen
    split_ifs
    · have hcall : Does (Prog.call (I := face) .discard : Step Unit)
          fun n _ => ∃ x, n = [(⟨.discard, x⟩ : Call face)] :=
        Does.call (fun _ => ⟨_, rfl⟩) fun _ => ⟨_, rfl⟩
      refine Does.attempt hcall (fun n a hn => ?_) fun n e hn => Does.pure ?_
      · obtain ⟨x, rfl⟩ := hn
        exact ⟨by simp [stageOf], by simp [transcriptLost], rfl⟩
      · obtain ⟨x, rfl⟩ := hn
        exact ⟨by simp [stageOf], by simp [transcriptLost], rfl⟩
    · exact Does.pure ⟨by simp, rfl, rfl⟩
  refine Does.bind hcall (fun n _ hn => Does.pure ?_) fun n e hn => ?_
  · rw [List.append_nil]
    exact ⟨hn.1, hn.2.1, rfl⟩
  · cases hn.2.2

lemma does_transcriptStep (outcome : BuildOutcome) : Does (transcriptStep cfg outcome) fun n r =>
    (∀ c ∈ n, stageOf c.op = none) ∧ (∀ a, r = .ok a → transcriptLost n = false) ∧
      ∀ e, r = .error e → transcriptLost n = true := by
  unfold transcriptStep
  split_ifs
  · refine Does.call (fun a => ⟨?_, fun _ _ => rfl, fun _ he => by cases he⟩) fun e => ⟨?_, fun _ ha => ?_, fun _ _ => rfl⟩
    · simp [stageOf]
    · simp [stageOf]
    · cases ha
  · exact Does.pure ⟨fun _ hc => (by cases hc), fun _ _ => rfl, fun _ he => by cases he⟩

lemma elsewhere_of {st st' : Stage} {n : List (Call face)} (h : Of st n) (hne : st ≠ st') :
    returned st' n = [] ∧ faulty st' n = false :=
  elsewhere fun c hc => by
    obtain hst | hnone := h c hc
    · simpa [hst] using hne
    · simp [stageOf_aside hnone]

lemma elsewhere_end {st : Stage} {n : List (Call face)} (h : ∀ c ∈ n, stageOf c.op = none) :
    returned st n = [] ∧ faulty st n = false :=
  elsewhere fun c hc => by simp [h c hc]

lemma elsewhere_append {st : Stage} {m n : List (Call face)} (hm : returned st m = [] ∧ faulty st m = false)
    (hn : returned st n = [] ∧ faulty st n = false) :
    returned st (m ++ n) = [] ∧ faulty st (m ++ n) = false := by
  rw [returned_append, faulty_append, hm.1, hm.2, hn.1, hn.2]
  exact ⟨rfl, rfl⟩

lemma reports_attempt {first o : BuildOutcome} {rs : List BuildOutcome} (h : Carries o first rs)
    (ref : Text) (labels : List (Text × Text)) :
    Reports first rs ⟨builderRef o ref, attemptError isWide o, labels, o.unconfirmed, some o⟩ :=
  ⟨o, h, rfl, rfl, pricingKnown_builderRef o ref, startsWith_attemptError o, attemptError_eq_nil⟩

/-- After the first build an attempt reports it with what is kept of the repairs, and only the loss of its
transcript raises. -/
lemma does_finish (first : BuildOutcome) : Does (finish isWide cfg first) fun n r =>
    (returned .first n = [] ∧ faulty .first n = false) ∧
      (∀ a, r = .ok a → transcriptLost n = false ∧
        Reports first (kept .finishGate n ++ kept .preflight n) a) ∧
      ∀ e, r = .error e → Plain e → transcriptLost n = true := by
  refine Does.bind (settles_checksStep first) (fun n₁ o₁ h₁ => ?_) fun n e hn =>
    ⟨elsewhere_of hn.1 (by decide), fun _ ha => (by cases ha), fun e' he' hp => ?_⟩
  swap
  · exact absurd (Except.error.inj he' ▸ hp) (hn.2.2 e rfl)
  refine Does.bind (settles_preflightStep o₁) (fun n₂ o₂ h₂ => ?_) fun n e hn =>
    ⟨elsewhere_append (elsewhere_of h₁.1 (by decide)) (elsewhere_of hn.1 (by decide)),
      fun _ ha => (by cases ha), fun e' he' hp => ?_⟩
  swap
  · exact absurd (Except.error.inj he' ▸ hp) (hn.2.2 e rfl)
  have hfirst := @elsewhere_append .first _ _ (elsewhere_of h₁.1 (by decide)) (elsewhere_of h₂.1 (by decide))
  refine Does.bind (does_transcriptStep o₂) (fun n₃ ref h₃ => ?_) fun n e hn => ⟨?_, ?_, ?_⟩
  · refine Does.bind (Does.get (Q := fun n r => n = [] ∧ ∃ s, r = .ok s) fun s => ⟨rfl, s, rfl⟩)
      (fun n₄ s h₄ => ?_) fun n e hn => ?_
    swap
    · obtain ⟨s, hs⟩ := hn.2
      cases hs
    obtain rfl := h₄.1
    refine Does.mono (does_discard _) fun n₅ r h₅ => ?_
    have hrest : ∀ c ∈ n₃ ++ ([] ++ n₅), stageOf c.op = none := fun c hc =>
      (List.mem_append.mp hc).elim (h₃.1 c) (h₅.1 c)
    rw [← List.append_assoc n₁]
    refine ⟨elsewhere_append hfirst (elsewhere_end hrest), fun a ha => ⟨?_, ?_⟩, fun e he => ?_⟩
    · rw [transcriptLost_append, transcriptLost_append, transcriptLost_append, transcriptLost_of h₁.1,
        transcriptLost_of h₂.1, h₃.2.1 ref rfl]
      exact h₅.2.1
    · obtain rfl := Except.ok.inj (h₅.2.2.symm.trans ha)
      rw [kept_append_right (elsewhere_end hrest), kept_append_right (elsewhere_end hrest),
        kept_append_right (elsewhere_of h₂.1 (by decide)), kept_append (elsewhere_of h₁.1 (by decide))]
      exact reports_attempt ((h₂.2.1 o₂ rfl).trans (h₁.2.1 o₁ rfl)) ref s.labels
    · rw [h₅.2.2] at he
      cases he
  · rw [← List.append_assoc]
    exact elsewhere_append hfirst (elsewhere_end hn.1)
  · exact fun _ ha => by cases ha
  · intro _ _ _
    rw [transcriptLost_append, transcriptLost_append, hn.2.2 e rfl, Bool.or_true, Bool.or_true]

/-- A word and a mark after it, of two texts that begin alike. -/
lemma no_common {a b l m : Text} {x y : Char} (hxy : x ≠ y) (hx : x ∉ b) (hy : y ∉ a) :
    a ++ x :: l ≠ b ++ y :: m := by
  intro h
  obtain ⟨c, rfl, hc⟩ | ⟨c, rfl, hc⟩ := List.append_eq_append_iff.mp h
  · cases c with
    | nil => exact hxy (List.cons.inj hc).1
    | cons z c => exact hx (by rw [(List.cons.inj hc).1]; simp)
  · cases c with
    | nil => exact hxy (List.cons.inj hc).1.symm
    | cons z c => exact hy (by rw [(List.cons.inj hc).1]; simp)

/-- A text that starts with a type's name and a colon has no blank before it. -/
lemma not_prefix_shown {mark a v rest : Text} (type : TypeName) (hmark : mark = a ++ ' ' :: v)
    (ha : ':' ∉ a) (n : ℕ) : ¬ mark <+: (type.1 ++ ':' :: rest).take n := by
  intro hpre
  obtain ⟨x, hx⟩ := hpre.trans (List.take_prefix _ _)
  rw [hmark, List.append_assoc] at hx
  exact no_common (by decide) (fun h => (type.2 _ h).1 rfl) ha hx

/-- The text of an exception does not read as a breach. -/
lemma startsWith_shown (type : TypeName) (text : Text) (n : ℕ) :
    startsWith ((Fault.shown (.raised type text)).take n) "protocol violation:".toList = false := by
  have hshown : Fault.shown (.raised type text) = type.1 ++ ':' :: ' ' :: text := List.append_assoc _ _ _
  rw [hshown, startsWith, ← Bool.not_eq_true, List.isPrefixOf_iff_prefix]
  exact not_prefix_shown (a := "protocol".toList) (v := "violation:".toList) type (by rfl)
    (by decide) n

lemma startsWith_raised (type : TypeName) (text : Text) :
    startsWith (prefixed isWide ("builder raised ".toList ++ type.1 ++ ": ".toList) text 500)
      "protocol violation:".toList = false := by
  have hp : "protocol violation:".toList.head? = some 'p' := by rfl
  have hb : "builder raised ".toList.head? = some 'b' := by rfl
  rw [startsWith, ← Bool.not_eq_true, List.isPrefixOf_iff_prefix, prefixed]
  intro hpre
  have hhead := head?_eq_of_begins hpre fun h => by rw [h] at hp; cases hp
  rw [List.append_assoc, List.append_assoc, List.head?_append, hb, hp] at hhead
  cases hhead

lemma empties_failedAttempt (name model provider : String) {error : Text}
    (h : startsWith error "protocol violation:".toList = false) :
    Empties (failedAttempt cfg name model provider error []) :=
  have hnote : contains [] costUnknownMark = false := by rfl
  ⟨rfl, rfl, congrArg not hnote, h⟩

/-- What an attempt that ends reports of these calls. -/
def Settled (calls : List (Call face)) (a : BuildAttempt) : Prop :=
  if transcriptLost calls || faulty .first calls then Empties a
  else ∃ first, returned .first calls = [first] ∧
    Reports first (kept .finishGate calls ++ kept .preflight calls) a

/-- The first build, whose exception becomes the attempt's error. -/
lemma does_first : Does (excepting
      (do
        let outcome ← callBuilder isWide cfg .first []
        pure (.ok outcome) : Step (Except Text BuildOutcome))
      fun type text =>
        pure (.error (prefixed isWide ("builder raised ".toList ++ type.1 ++ ": ".toList) text 500)))
    fun n r => (∀ c ∈ n, stageOf c.op = some .first) ∧
      (∀ o, r = .ok (.ok o) → faulty .first n = false ∧ Single (returned .first n) o) ∧
      (∀ t, r = .ok (.error t) →
        faulty .first n = true ∧ startsWith t "protocol violation:".toList = false) ∧
      ∀ e, r = .error e → ¬ Plain e := by
  have hcall : Stays .first (do
      let outcome ← callBuilder isWide cfg .first []
      pure (.ok outcome) : Step (Except Text BuildOutcome)) fun os x => ∃ o, x = .ok o ∧ Single os o :=
    Stays.bind (stays_callBuilder []) fun os o hos => Stays.pure ⟨o, rfl, by rwa [List.append_nil]⟩
  refine does_excepting hcall (fun n x hn => ⟨hn.1, fun o ho => ?_, fun t ht => ?_, fun _ he => by cases he⟩)
    (fun n type text hn => Does.pure ⟨?_, fun o ho => (by cases ho), fun t ht => ?_, fun _ he => by cases he⟩)
    fun n e he hn => ⟨hn.1, fun _ ho => (by cases ho), fun _ ht => (by cases ht), fun e' he' => ?_⟩
  · obtain ⟨hfault, o', ho', hs⟩ := hn.2.1 x rfl
    obtain rfl := Except.ok.inj ho
    exact ⟨hfault, Except.ok.inj ho' ▸ hs⟩
  · obtain ⟨-, o', rfl, -⟩ := hn.2.1 x rfl
    cases ht
  · simpa using hn.1
  · obtain rfl := Except.error.inj (Except.ok.inj ht)
    rw [List.append_nil]
    exact ⟨hn.2.2 _ rfl, startsWith_raised type text⟩
  · exact Except.error.inj he' ▸ he

lemma does_attemptOf : Does (attemptOf isWide cfg) fun n r =>
    (∀ a, r = .ok a → Settled n a) ∧ ∀ e, r = .error e → Plain e → transcriptLost n = true := by
  refine Does.bind does_first (fun n x hn => ?_) fun n e hn => ⟨fun _ ha => (by cases ha), fun e' he' hp => ?_⟩
  swap
  · exact absurd (Except.error.inj he' ▸ hp) (hn.2.2.2 e rfl)
  have hlost : transcriptLost n = false := @transcriptLost_of .first _ fun c hc => .inl (hn.1 c hc)
  have hof : ∀ st, st ≠ .first → returned st n = [] ∧ faulty st n = false := fun st hst =>
    elsewhere fun c hc => by simpa [hn.1 c hc] using hst.symm
  cases x with
  | ok o =>
    obtain ⟨hfault, o', hos, hcarry⟩ := hn.2.1 o rfl
    refine Does.mono (does_finish o) fun n' r hn' => ⟨fun a ha => ?_, fun e he hp => ?_⟩
    · obtain ⟨hlost', o₂, h₂, hreport⟩ := hn'.2.1 a ha
      rw [Settled, transcriptLost_append, faulty_append, hlost, hlost', hfault, hn'.1.2]
      refine ⟨o', by rw [returned_append, hos, hn'.1.1, List.append_nil], o₂, ?_, hreport⟩
      rw [kept_append (hof _ (by decide)), kept_append (hof _ (by decide))]
      simpa using h₂.trans hcarry
    · rw [transcriptLost_append, hn'.2.2 e he hp, Bool.or_true]
  | error t =>
    obtain ⟨hfault, hstart⟩ := hn.2.2.1 t rfl
    refine Does.mono (does_discard _) fun n' r hn' => ⟨fun a ha => ?_, fun e he => ?_⟩
    · obtain rfl := Except.ok.inj (hn'.2.2.symm.trans ha)
      rw [Settled, faulty_append, hfault, Bool.true_or, Bool.or_true, if_pos rfl]
      exact empties_failedAttempt _ _ _ hstart
    · rw [hn'.2.2] at he
      cases he

/-- Whatever is raised after the first call, what an attempt reports is settled by the calls. -/
lemma does_build : Does (build isWide cfg) fun n r => ∀ a, r = .ok a → Settled n a := by
  have hattempt : Does (excepting (attemptOf isWide cfg) fun type text =>
      pure (failedAttempt cfg cfg.rung "" "" ((Fault.shown (.raised type text)).take 500) []))
      fun n r => ∀ a, r = .ok a → Settled n a :=
    does_excepting does_attemptOf (fun n a hn => hn.1)
      (fun n type text hn => Does.pure fun a ha => by
        obtain rfl := Except.ok.inj ha
        rw [List.append_nil, Settled, hn.2 _ rfl ⟨type, text, rfl⟩, Bool.true_or, if_pos rfl]
        exact empties_failedAttempt _ _ _ (startsWith_shown type text 500))
      fun n e _ _ _ ha => by cases ha
  have hremove : Does (Prog.call (I := face) .removeAuthored : Step Unit) fun n _ =>
      ∃ x, n = [(⟨.removeAuthored, x⟩ : Call face)] :=
    Does.call (fun _ => ⟨_, rfl⟩) fun _ => ⟨_, rfl⟩
  refine Does.ensuring hattempt hremove (fun n r n' hn hn' a ha => ?_) fun _ _ _ _ _ _ _ ha => by cases ha
  obtain ⟨x, rfl⟩ := hn'
  have hnone : ∀ c ∈ [(⟨.removeAuthored, x⟩ : Call face)], stageOf c.op = none := by simp [stageOf]
  have hlost : transcriptLost [(⟨.removeAuthored, x⟩ : Call face)] = false := rfl
  have h := hn a ha
  rw [Settled] at h ⊢
  rw [transcriptLost_append, hlost, faulty_append, (elsewhere_end hnone).2, Bool.or_false, Bool.or_false,
    returned_append, (elsewhere_end hnone).1, List.append_nil, kept_append_right (elsewhere_end hnone),
    kept_append_right (elsewhere_end hnone)]
  exact h

end Attempts

section Charges

variable (isWide : Char → Bool)

def outcomeAt : Call face → Option BuildOutcome
  | ⟨.build _ _, .ok o⟩ => some o
  | _ => none

/-- All outcomes the builder returned, in their order. -/
def outcomes (calls : List (Call face)) : List BuildOutcome := calls.filterMap outcomeAt

/-- The attempt charges every call: what the outcomes returned metered and their tool calls, a known cost
only where all are known, a violation exactly where one broke a rule; and no repair that broke none makes an
error of the first build's admissible patch. -/
structure Charges (calls : List (Call face)) (a : BuildAttempt) : Prop where
  meter : a.builder.meter = ((outcomes calls).map BuildOutcome.meter).sum
  toolCalls : a.toolCalls = ((outcomes calls).map BuildOutcome.toolCalls).sum
  costKnown : a.builder.pricingKnown = true → ∀ o ∈ outcomes calls, o.costKnown = true
  violation : a.violation = true ↔ ∃ o ∈ outcomes calls, o.violated = true
  admissible : a.error ≠ [] →
    (∃ o ∈ returned .first calls, attemptError isWide o ≠ []) ∨ faulty .first calls = true ∨
      transcriptLost calls = true ∨
      ∃ o ∈ returned .finishGate calls ++ returned .preflight calls, o.violated = true

/-- Nothing of the attempt's outcomes is kept: a call of the first build raised, or the transcript's. -/
def voided (calls : List (Call face)) : Bool := transcriptLost calls || faulty .first calls

def keptFirst (calls : List (Call face)) : List BuildOutcome :=
  if voided calls then [] else returned .first calls

def keptRepairs (calls : List (Call face)) : List BuildOutcome :=
  if voided calls then [] else kept .finishGate calls ++ kept .preflight calls

/-- The outcomes of a stage in which a call raised. -/
def dropped (st : Stage) (calls : List (Call face)) : List BuildOutcome :=
  if faulty st calls then returned st calls else []

/-- The outcomes that an exception after a builder returned takes out of the attempt. -/
def lost (calls : List (Call face)) : List BuildOutcome :=
  if voided calls then outcomes calls else dropped .finishGate calls ++ dropped .preflight calls

/-- Where an attempt charges every call: what is lost metered nothing and broke no rule that nothing kept
broke, and the repairs made no tool calls and had known prices. -/
structure Exempt (calls : List (Call face)) : Prop where
  meter : ((lost calls).map BuildOutcome.meter).sum = 0
  toolCalls : ∀ o ∈ keptRepairs calls ++ lost calls, o.toolCalls = 0
  costKnown : (∀ o ∈ keptFirst calls, o.costKnown = true) →
    ∀ o ∈ keptRepairs calls ++ lost calls, o.costKnown = true
  violation : (∃ o ∈ lost calls, o.violated = true) →
    ∃ o ∈ keptFirst calls ++ keptRepairs calls, o.violated = true

variable {isWide}

lemma outcomes_perm (calls : List (Call face)) :
    (outcomes calls).Perm
      (returned .first calls ++ returned .finishGate calls ++ returned .preflight calls) := by
  induction calls with
  | nil => exact .refl _
  | cons c calls ih =>
    obtain ⟨op, answer⟩ := c
    cases op with
    | build st note =>
      cases answer with
      | ok o =>
        cases st with
        | first => exact ih.cons o
        | finishGate =>
          refine (ih.cons o).trans ?_
          simpa [returned, outcomeOf] using List.perm_middle.symm
        | preflight => exact (ih.cons o).trans List.perm_middle.symm
      | error e => exact ih
    | _ => exact ih

lemma kept_dropped (st : Stage) (calls : List (Call face)) :
    returned st calls = kept st calls ++ dropped st calls := by
  unfold kept dropped
  split_ifs <;> simp

/-- What was returned is what is kept and what is lost. -/
lemma outcomes_perm_lost (calls : List (Call face)) :
    (outcomes calls).Perm (keptFirst calls ++ (keptRepairs calls ++ lost calls)) := by
  unfold keptFirst keptRepairs lost
  split_ifs
  · exact .refl _
  · refine (outcomes_perm calls).trans ?_
    rw [kept_dropped .finishGate, kept_dropped .preflight, List.append_assoc]
    refine List.Perm.append_left _ ?_
    rw [List.append_assoc, List.append_assoc]
    refine List.Perm.append_left _ ?_
    rw [← List.append_assoc, ← List.append_assoc]
    exact List.perm_append_comm.append_right _

/-- What an attempt reports, in what is kept. -/
lemma reports_kept {calls : List (Call face)} {a : BuildAttempt} (h : Settled calls a) :
    a.builder.meter = ((keptFirst calls ++ keptRepairs calls).map BuildOutcome.meter).sum ∧
      a.toolCalls = ((keptFirst calls).map BuildOutcome.toolCalls).sum ∧
      (a.builder.pricingKnown = true ↔ ∀ o ∈ keptFirst calls, o.costKnown = true) ∧
      (a.violation = true ↔ ∃ o ∈ keptFirst calls ++ keptRepairs calls, o.violated = true) := by
  unfold keptFirst keptRepairs
  unfold Settled at h
  rw [← voided] at h
  split_ifs at h ⊢
  · obtain ⟨hmeter, htools, hprice, hviol⟩ := h
    simp [hmeter, htools, hprice, hviol]
  · obtain ⟨first, hfirst, o, hcarry, hmeter, htools, hprice, hviol, -⟩ := h
    rw [hfirst, hmeter, htools, hprice, hviol, hcarry.meter, hcarry.toolCalls, hcarry.costKnown,
      hcarry.violated]
    simp [or_and_right, exists_or]

lemma error_kept {calls : List (Call face)} {a : BuildAttempt} (h : Settled calls a) (he : a.error ≠ []) :
    (∃ o ∈ returned .first calls, attemptError isWide o ≠ []) ∨ faulty .first calls = true ∨
      transcriptLost calls = true ∨
      ∃ o ∈ returned .finishGate calls ++ returned .preflight calls, o.violated = true := by
  unfold Settled at h
  split_ifs at h with hvoid
  · obtain hlost | hfault := (Bool.or_eq_true _ _).mp hvoid
    · exact .inr (.inr (.inl hlost))
    · exact .inr (.inl hfault)
  · obtain ⟨first, hfirst, o, hcarry, -, -, -, -, herror⟩ := h
    by_cases hadm : attemptError isWide first = []
    · obtain ⟨hviol, hstop⟩ := attemptError_eq_nil.mp hadm
      have hrepair : (kept .finishGate calls ++ kept .preflight calls).any BuildOutcome.violated = true := by
        by_contra hno
        rw [Bool.not_eq_true] at hno
        refine he (herror.mpr ⟨by rw [hcarry.violated, hviol, hno]; rfl, fun hs => ?_⟩)
        exact (hcarry.stop hs).elim hstop fun h => by rw [hno] at h; cases h
      obtain ⟨r, hr, hrv⟩ := List.any_eq_true.mp hrepair
      refine .inr (.inr (.inr ⟨r, ?_, hrv⟩))
      rw [kept_dropped .finishGate, kept_dropped .preflight]
      obtain hr | hr := List.mem_append.mp hr <;> simp [hr]
    · exact .inl ⟨first, by simp [hfirst], hadm⟩

/-- An attempt that settles charges every call exactly where nothing that is lost, and no repair, has what
is not added up. -/
lemma charges_iff_exempt {calls : List (Call face)} {a : BuildAttempt} (h : Settled calls a) :
    Charges isWide calls a ↔ Exempt calls := by
  obtain ⟨hmeter, htools, hprice, hviol⟩ := reports_kept h
  have hperm := outcomes_perm_lost calls
  have hsum : ∀ {M : Type} [AddCommMonoid M] (f : BuildOutcome → M),
      ((outcomes calls).map f).sum = ((keptFirst calls).map f).sum +
        (((keptRepairs calls).map f).sum + ((lost calls).map f).sum) := fun f => by
    rw [(hperm.map f).sum_eq, List.map_append, List.sum_append, List.map_append, List.sum_append]
  have hmem : ∀ o, o ∈ outcomes calls ↔
      o ∈ keptFirst calls ∨ o ∈ keptRepairs calls ++ lost calls := fun o => by
    rw [hperm.mem_iff, List.mem_append]
  constructor
  · rintro ⟨hm, ht, hc, hv, -⟩
    refine ⟨?_, fun o ho => ?_, fun hk o ho => ?_, fun hl => ?_⟩
    · rw [hmeter, hsum, ← add_assoc, ← List.sum_append, ← List.map_append] at hm
      exact left_eq_add.mp hm
    · rw [htools, hsum, left_eq_add, ← List.sum_append, ← List.map_append] at ht
      exact List.sum_eq_zero_iff.mp ht _ (List.mem_map_of_mem ho)
    · exact hc (hprice.mpr hk) o ((hmem o).mpr (.inr ho))
    · obtain ⟨o, ho, hov⟩ := hl
      exact hviol.mp (hv.mpr ⟨o, (hmem o).mpr (.inr (List.mem_append_right _ ho)), hov⟩)
  · rintro ⟨hm, ht, hc, hv⟩
    refine ⟨?_, ?_, fun hk o ho => ?_, ?_, error_kept h⟩
    · rw [hmeter, hsum, hm, add_zero, List.map_append, List.sum_append]
    · rw [htools, hsum, left_eq_add, ← List.sum_append, ← List.map_append]
      exact List.sum_eq_zero fun n hn => by
        obtain ⟨o, ho, rfl⟩ := List.mem_map.mp hn
        exact ht o ho
    · obtain ho | ho := (hmem o).mp ho
      · exact hprice.mp hk o ho
      · exact hc (hprice.mp hk) o ho
    · rw [hviol]
      constructor
      · rintro ⟨o, ho, hov⟩
        refine ⟨o, (hmem o).mpr ?_, hov⟩
        exact (List.mem_append.mp ho).imp_right fun h => List.mem_append_left _ h
      · rintro ⟨o, ho, hov⟩
        obtain ho | ho := (hmem o).mp ho
        · exact ⟨o, List.mem_append_left _ ho, hov⟩
        · obtain ho | ho := List.mem_append.mp ho
          · exact ⟨o, List.mem_append_right _ ho, hov⟩
          · exact hv ⟨o, ho, hov⟩

/-- In every world an attempt that ends charges every call exactly where its calls are exempt. -/
theorem charges_build {cfg : Config} {w : World face} {s : Locals} {a : BuildAttempt}
    (h : (build isWide cfg w s []).1 = .ok a) :
    Charges isWide (build isWide cfg w s []).2.2 a ↔ Exempt (build isWide cfg w s []).2.2 := by
  obtain ⟨n, hn, hset⟩ := @does_build isWide cfg w s []
  rw [hn, List.nil_append]
  exact charges_iff_exempt (hset a h)

/-- One turn of a builder, which says that it is done. -/
def oneTurn : BuildOutcome where
  builder := "b"
  model := "m"
  provider := "p"
  mode := "blind"
  done := true
  turns := 1
  toolCalls := 0
  tokensIn := 0
  tokensOut := 0
  tokensCached := 0
  costUsd := 0
  latencyS := 0
  attempts := 1
  stopReason := .done
  errors := []
  transcript := []
  costKnown := true
  unconfirmed := none

def gated : Config where
  rung := "r"
  mode := "blind"
  builder := "b"
  model := "m"
  provider := "p"
  sealed := false
  checks := some ⟨[], false, true, 2⟩
  preflight := none
  transcripts := false

/-- The gate rejects the first build, and raises after its first repair. -/
def raisesAfterRepair : World face := fun calls op =>
  match op with
  | .build .. => .ok oneTurn
  | .verify =>
    if returned .finishGate calls = [] then .ok ⟨false, [], []⟩ else .error (.raised runtimeError [])
  | .unconfirmedKills _ => .ok []
  | .format | .writeTranscript _ => .ok []
  | .lintPlan => .ok .noPlan
  | .runPlan => .ok ⟨none, []⟩
  | .fixer _ => .ok 0
  | .checkout _ | .openSession _ | .closeSession _ | .copyBack _ | .removeCheckout _ | .changedFiles
  | .discard | .removeAuthored => .ok ()

theorem charges_build_raisesAfterRepair :
    ∃ a, (build (fun _ => false) gated raisesAfterRepair {} []).1 = .ok a ∧
      (Charges (fun _ => false) (build (fun _ => false) gated raisesAfterRepair {} []).2.2 a ↔
        Exempt (build (fun _ => false) gated raisesAfterRepair {} []).2.2) :=
  ⟨_, rfl, charges_build rfl⟩

/-- A gate that raises after a repair returned leaves the repair uncharged. -/
theorem not_charges_raisesAfterRepair :
    ¬ ∀ (isWide : Char → Bool) (cfg : Config) (w : World face) (s : Locals) (a : BuildAttempt),
      (build isWide cfg w s []).1 = .ok a → Charges isWide (build isWide cfg w s []).2.2 a := by
  intro h
  have hmeter := (h (fun _ => false) gated raisesAfterRepair {} _ rfl).meter
  revert hmeter
  decide

end Charges

end CommitReplay.AttemptCharges
