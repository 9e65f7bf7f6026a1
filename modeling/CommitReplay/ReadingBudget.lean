import CommitReplay.ReadingRegistration
import CommitReplay.TransitionRuns

/-! The error budget of a cell over every history of registrations: what is registered stays within
it, and what was registered once is refused ever after. -/
namespace CommitReplay.ReadingBudget

open CommitReplay.GradeRows CommitReplay.JsonRoundTrip CommitReplay.ReadingRows CommitReplay.ReadingRecord
open CommitReplay.ReadingArms CommitReplay.ReadingHierarchy CommitReplay.ReadingRegistration CommitReplay.KeyedBudget
open CommitReplay.TransitionRuns

/-- One request to register a reading, with the time it is made, who makes it, and the rows graded
by then. -/
inductive Call (N F : Type)
  | register (a : Registration N) (rows : List (Row F)) (registeredAt actor : String)
  | forward (f : ForwardRegistration N) (registeredAt actor : String)

variable {N F : Type}

def Call.budget : Call N F → N
  | .register a .. => a.budget
  | .forward f .. => f.budget

/-- The same ceiling, whatever has been read into it since. -/
structure SameCeiling (o o' : ReadingOutcome N) : Prop where
  body : o'.reading.toBody = o.reading.toBody
  id : o'.reading.readingId = o.reading.readingId

/-- The same request at another time, by another actor, with other rows. -/
inductive Resubmits : Call N F → Call N F → Prop
  | register (a : Registration N) (rows rows' : List (Row F)) (t w t' w' : String) :
      Resubmits (.register a rows t w) (.register a rows' t' w')
  | forward (f : ForwardRegistration N) (o : ReadingOutcome N) (h : SameCeiling f.ceiling o)
      (t w t' w' : String) : Resubmits (.forward f t w) (.forward { f with ceiling := o } t' w')

/-- A request refused as one already registered; a forward one also when its ceiling is no ceiling
any more. -/
inductive Repeated : Call N F → ReadingRefused N → Prop
  | exists_ (c : Call N F) (id : String) : Repeated c (.readingExists id)
  | notACeiling (f : ForwardRegistration N) (t w id : String) (state : OutcomeState) :
      Repeated (.forward f t w) (.notACeiling id state)

variable [Field N] [LinearOrder N] (sha256 : Sha256) (idOf : Body N → String)

def answer (accepted : List (Reading N)) : Call N F → Except (ReadingRefused N) (Reading N)
  | .register a rows registeredAt actor => register sha256 idOf accepted a rows registeredAt actor
  | .forward f registeredAt actor => registerForward sha256 idOf accepted f registeredAt actor

/-- What is registered after a request; `existing` is all that was registered before it. -/
def step (accepted : List (Reading N)) (c : Call N F) : List (Reading N) :=
  match answer sha256 idOf accepted c with
  | .ok r => accepted ++ [r]
  | .error _ => accepted

variable {sha256 idOf} {accepted : List (Reading N)} {c : Call N F} {r : Reading N}

lemma step_of_ok (h : answer sha256 idOf accepted c = .ok r) :
    step sha256 idOf accepted c = accepted ++ [r] := by
  simp only [step, h]

lemma step_of_error {e : ReadingRefused N} (h : answer sha256 idOf accepted c = .error e) :
    step sha256 idOf accepted c = accepted := by
  simp only [step, h]

omit [LinearOrder N] in
/-- A forward reading is counted on the key of its ceiling. -/
lemma budgetKey_forward {f : ForwardRegistration N} {b : Body N} (h : ForwardDrafted f b)
    (registeredAt actor : String) :
    (ofBody idOf { b with registeredAt, actor }).budgetKey = f.ceiling.reading.budgetKey := by
  obtain ⟨hrepo, happaratus, htaxonomy⟩ := h.scope
  have hcell : b.budgetCell ≠ "" := by
    rw [h.budgetCell, Reading.budgetKey]
    split_ifs with hnone
    · exact cellKey_ne_empty _
    · exact hnone
  simp only [Reading.budgetKey, ofBody, Body.normalize, if_neg hcell, hrepo, happaratus, htaxonomy]
  rw [h.budgetCell, Reading.budgetKey]

/-- What is checked of a reading before it is registered. -/
structure Admissible (accepted : List (Reading N)) (budget : N) (r : Reading N) : Prop where
  fresh : registeredTwin accepted r = none
  within : spendOf r.budgetKey accepted + r.spend ≤ budget + slack

theorem admissible_of_answer (h : answer sha256 idOf accepted c = .ok r) :
    Admissible accepted c.budget r := by
  cases c with
  | register a rows registeredAt actor =>
    obtain ⟨b, hb, rfl, htwin, -, hspent⟩ := register_eq_ok.mp h
    refine ⟨htwin, ?_⟩
    rwa [show (ofBody idOf { b with registeredAt, actor }).budget = a.budget from
      (drafted hb).budget] at hspent
  | forward f registeredAt actor =>
    obtain ⟨-, b, hb, rfl, htwin, hspent⟩ := registerForward_eq_ok.mp h
    refine ⟨htwin, ?_⟩
    rw [budgetKey_forward (forwardDrafted hb)]
    rwa [show (ofBody idOf { b with registeredAt, actor }).budget = f.budget from
      (forwardDrafted hb).budget] at hspent

omit [Field N] in
lemma id_fresh (h : registeredTwin accepted r = none) :
    r.readingId ∉ accepted.map Reading.readingId := by
  intro hid
  obtain ⟨t, ht, he⟩ := List.mem_map.mp hid
  simpa [he] using List.find?_eq_none.mp h t ht

section Budgets

variable [IsStrictOrderedRing N]

/-- Every reading is listed once, and every key within the error budget. -/
abbrev WithinBudgets (accepted : List (Reading N)) : Prop :=
  InBudget Reading.readingId Reading.budgetKey (fun r => r.spend) (cellErrorBudget + slack) accepted

/-- What one request preserves. -/
lemma withinBudgets_step (h : WithinBudgets accepted) (hc : c.budget ≤ cellErrorBudget) :
    WithinBudgets (step sha256 idOf accepted c) := by
  cases hr : answer sha256 idOf accepted c with
  | error e => rwa [step_of_error hr]
  | ok r =>
    rw [step_of_ok hr]
    obtain ⟨hfresh, hwithin⟩ := admissible_of_answer hr
    exact h.concat (id_fresh hfresh) (hwithin.trans (by gcongr))

theorem withinBudgets_run {calls : List (Call N F)} (h : ∀ c ∈ calls, c.budget ≤ cellErrorBudget) :
    WithinBudgets (runFrom (step sha256 idOf) [] calls) := by
  refine Along.preserves (I := WithinBudgets) (P := fun _ c => c.budget ≤ cellErrorBudget)
    (fun _ _ hs hc => withinBudgets_step hs hc) (along_of_forall fun _ c hc => h c hc) ⟨?_, ?_⟩
  · exact List.nodup_nil
  · intro key
    have hnonneg : (0 : N) ≤ cellErrorBudget + slack := by
      unfold cellErrorBudget slack
      positivity
    simpa [spent, firstPerId, firstPerIdFrom] using hnonneg

end Budgets

section Repeats

lemma mem_run (calls : List (Call N F)) (h : r ∈ accepted) :
    r ∈ runFrom (step sha256 idOf) accepted calls := by
  refine Along.preserves (I := fun accepted => r ∈ accepted) (P := fun _ _ => True)
    (fun s c hs _ => ?_) (along_of_forall fun _ _ _ => trivial) h
  cases hr : answer sha256 idOf s c with
  | error e => rwa [step_of_error hr]
  | ok r' =>
    rw [step_of_ok hr]
    exact List.mem_append_left _ hs

omit [LinearOrder N] in
lemma forwardDraft_sameCeiling {f : ForwardRegistration N} {o : ReadingOutcome N}
    (h : SameCeiling f.ceiling o) :
    forwardDraft sha256 { f with ceiling := o } = forwardDraft sha256 f := by
  have hkey : o.reading.budgetKey = f.ceiling.reading.budgetKey := by
    simp only [Reading.budgetKey, Reading.cellKey, h.body]
  unfold forwardDraft
  simp only [h.body, h.id, hkey]

/-- A registered reading is refused when it is asked for again. -/
theorem answer_again {again : Call N F} (hr : answer sha256 idOf accepted c = .ok r)
    (hagain : Resubmits c again) {later : List (Reading N)} (hmem : r ∈ later) :
    ∃ e, answer sha256 idOf later again = .error e ∧ Repeated again e := by
  cases hagain with
  | register a rows rows' t w t' w' =>
    obtain ⟨b, hb, rfl, -⟩ := register_eq_ok.mp hr
    have hsame : (ofBody idOf { b with registeredAt := t, actor := w }).toContent =
      (ofBody idOf { b with registeredAt := t', actor := w' }).toContent := rfl
    obtain ⟨twin, -, htwin⟩ := refuseTwin_of_mem hmem hsame
    refine ⟨_, ?_, .exists_ _ twin.readingId⟩
    simp only [answer, register, hb, htwin, bind, Except.bind]
  | forward f o ho t w t' w' =>
    obtain ⟨-, b, hb, rfl, -⟩ := registerForward_eq_ok.mp hr
    by_cases hstate : o.state = .ceiling
    · have hsame : (ofBody idOf { b with registeredAt := t, actor := w }).toContent =
        (ofBody idOf { b with registeredAt := t', actor := w' }).toContent := rfl
      obtain ⟨twin, -, htwin⟩ := refuseTwin_of_mem hmem hsame
      refine ⟨_, ?_, .exists_ _ twin.readingId⟩
      simp [answer, registerForward, refuse, hstate, forwardDraft_sameCeiling ho, hb, htwin, bind,
        Except.bind]
    · refine ⟨_, ?_, .notACeiling _ t' w' o.reading.readingId o.state⟩
      simp [answer, registerForward, refuse, hstate, bind, Except.bind]

end Repeats

variable (sha256 idOf) in
/-- Over every history of requests whose budgets are within the cell's, what is spent on a key is,
up to the slack, a forward reading's spend being on the key of its ceiling; and a request once
answered is refused however often it is made again. -/
theorem one_budget_per_cell [IsStrictOrderedRing N] (calls : List (Call N F))
    (hbudget : ∀ c ∈ calls, c.budget ≤ cellErrorBudget) :
    (∀ key, spendOf key (runFrom (step sha256 idOf) [] calls) ≤ cellErrorBudget + slack) ∧
    (∀ (existing : List (Reading N)) f registeredAt actor r,
      registerForward sha256 idOf existing f registeredAt actor = .ok r →
      r.budgetKey = f.ceiling.reading.budgetKey) ∧
    ∀ before c after, calls = before ++ c :: after → ∀ r,
      answer sha256 idOf (runFrom (step sha256 idOf) [] before) c = .ok r → ∀ again, Resubmits c again →
        (∃ e, answer sha256 idOf (runFrom (step sha256 idOf) [] calls) again = .error e ∧
          Repeated again e) ∧
        step sha256 idOf (runFrom (step sha256 idOf) [] calls) again =
          runFrom (step sha256 idOf) [] calls := by
  refine ⟨(withinBudgets_run hbudget).within, fun existing f registeredAt actor r hr => ?_, ?_⟩
  · obtain ⟨-, b, hb, rfl, -⟩ := registerForward_eq_ok.mp hr
    exact budgetKey_forward (forwardDrafted hb) registeredAt actor
  rintro before c after rfl r hr again hagain
  have hmem : r ∈ runFrom (step sha256 idOf) [] (before ++ c :: after) := by
    rw [runFrom_append, runFrom_cons, step_of_ok hr]
    exact mem_run after (by simp)
  obtain ⟨e, he, hrepeated⟩ := answer_again hr hagain hmem
  exact ⟨⟨e, he, hrepeated⟩, step_of_error he⟩

section Sample

/-- The forward reading of the ceiling of a reading on the sample's cell. -/
def sampleForward : ForwardRegistration ℚ where
  ceiling := {
    reading := { sampleReading with
      repo := sampleRegistration.repo
      cell := sampleRegistration.cell
      apparatus := sampleRegistration.apparatus
      taxonomy := sampleRegistration.taxonomy }
    arms := []
    chain := ["S3"]
    stoppedAt := ""
    standard := ""
    state := .ceiling }
  builder := "b"
  model := "m"
  provider := "p"
  rule := "look.v1"
  budget := 1 / 20
  hypothesis := ""
  smallestEffect := none
  attemptRule := ""
  budgetProfile := ""
  lintDigest := ""
  maxReruns := none

def sampleCall (registeredAt : String) : Call ℚ Whole :=
  .register sampleRegistration [] registeredAt "a"

/-- A reading and the forward reading of its cell are registered; a retry of the first and a third
reading of the cell are not. -/
def sampleCalls : List (Call ℚ Whole) :=
  [sampleCall "1", .forward sampleForward "2" "a", sampleCall "3",
    .register { sampleRegistration with hypothesis := "h" } [] "4" "a"]

theorem one_budget_per_cell_sample :
    (runFrom (step (markDigest []) (·.registeredAt)) [] sampleCalls).map Reading.readingId =
      ["1", "2"] ∧
    (∀ key, spendOf key (runFrom (step (markDigest []) (·.registeredAt)) [] sampleCalls) ≤
      cellErrorBudget + slack) ∧
    ∃ e, answer (markDigest []) (·.registeredAt)
        (runFrom (step (markDigest []) (·.registeredAt)) [] sampleCalls) (sampleCall "5") =
      .error e ∧ Repeated (sampleCall "5") e := by
  have hbudget : ∀ c ∈ sampleCalls, c.budget ≤ cellErrorBudget := by decide +kernel
  have hall := one_budget_per_cell (markDigest []) (fun b => b.registeredAt) sampleCalls hbudget
  obtain ⟨r, hr, -⟩ := exists_ok_of_map_toOption (f := Reading.readingId) (b := "1")
    (x := answer (markDigest []) (fun b => b.registeredAt) [] (sampleCall "1"))
    (by decide +kernel)
  exact ⟨by decide +kernel, hall.1,
    (hall.2.2 [] _ _ rfl r hr (sampleCall "5") (.register _ _ _ _ _ _ _)).1⟩

end Sample

end CommitReplay.ReadingBudget
