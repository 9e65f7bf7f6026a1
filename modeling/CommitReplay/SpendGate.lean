import CommitReplay.ItemAdmission

/-! Nothing is spent on an item before it is admitted. -/
namespace CommitReplay.SpendGate

open CommitReplay.PythonText CommitReplay.JsonValue CommitReplay.JsonText CommitReplay.RowChecks
open CommitReplay.JsonRoundTrip CommitReplay.FactoryEvents CommitReplay.Interaction
open CommitReplay.SlotReadiness CommitReplay.ContextStandard CommitReplay.ReviewVerdicts
open CommitReplay.ItemLoop CommitReplay.ItemSteps CommitReplay.ItemCalls
open CommitReplay.ItemAdmission

set_option linter.unusedSectionVars false

variable {F : Type} [PyFloat F] {α β : Type} {s : FactorySpec F} {item : BacklogItem}
  {authored : Option AuthoredTest}

/-- The calls that cost: the test author, the RED proof and the build ladder. -/
def Spends (c : Call (face F)) : Prop :=
  kindOf c.op = .author ∨ kindOf c.op = .prove ∨ kindOf c.op = .build

/-- Some decision of these calls let the item in. -/
def Gated (s : FactorySpec F) (item : BacklogItem) (authored : Option AuthoredTest)
    (calls : List (Call (face F))) : Prop :=
  ∃ before after r route entry, calls = before ++ after ∧
    Admitted s item authored before r route entry

/-- Before every call that costs, the item was let in. -/
def SpendsGated (s : FactorySpec F) (item : BacklogItem) (authored : Option AuthoredTest)
    (calls : List (Call (face F))) : Prop :=
  ∀ pre c post, calls = pre ++ c :: post → Spends c → Gated s item authored pre

section Calls

variable {xs ys : List (Call (face F))}

lemma not_spends {K : List Kind} (hK : .author ∉ K ∧ .prove ∉ K ∧ .build ∉ K)
    (h : ∀ c ∈ xs, kindOf c.op ∈ K) : ∀ c ∈ xs, ¬ Spends c := by
  rintro c hc (hs | hs | hs)
  · exact hK.1 (hs ▸ h c hc)
  · exact hK.2.1 (hs ▸ h c hc)
  · exact hK.2.2 (hs ▸ h c hc)

lemma Gated.append (h : Gated s item authored xs) : Gated s item authored (xs ++ ys) := by
  obtain ⟨before, after, r, route, entry, rfl, hadmitted⟩ := h
  exact ⟨before, after ++ ys, r, route, entry, by simp, hadmitted⟩

lemma SpendsGated.of_not_spends (h : ∀ c ∈ xs, ¬ Spends c) : SpendsGated s item authored xs := by
  rintro pre c post rfl hc
  exact absurd hc (h c (by simp))

/-- Once the item is let in, whatever is called is gated. -/
lemma SpendsGated.of_gated (hx : ∀ c ∈ xs, ¬ Spends c) (hg : Gated s item authored xs) :
    SpendsGated s item authored (xs ++ ys) := by
  intro pre c post heq hc
  obtain ⟨mid, rfl, -⟩ := split_of_not_mem heq fun hmem => hx c hmem hc
  exact hg.append

lemma SpendsGated.before (hx : SpendsGated s item authored xs) (hy : ∀ c ∈ ys, ¬ Spends c) :
    SpendsGated s item authored (xs ++ ys) := by
  intro pre c post heq hc
  rcases List.append_eq_append_iff.mp heq with ⟨mid, -, hys⟩ | ⟨mid, hxs, hpost⟩
  · exact absurd hc (hy c (by simp [hys]))
  · cases mid with
    | nil => exact absurd hc (hy c (by simp [show ys = c :: post by simpa using hpost.symm]))
    | cons c' mid =>
      obtain ⟨rfl, -⟩ := List.cons.inj hpost
      exact hx pre c mid hxs hc

lemma SpendsGated.after (hx : ∀ c ∈ xs, kindOf c.op = .routine)
    (hy : SpendsGated s item authored ys) : SpendsGated s item authored (xs ++ ys) := by
  intro pre c post heq hc
  have hnot : c ∉ xs := fun hmem => by
    rcases hc with hc | hc | hc <;> simp [hx c hmem] at hc
  obtain ⟨mid, rfl, hys⟩ := split_of_not_mem heq hnot
  obtain ⟨before, after, r, route, entry, rfl, hadmitted⟩ := hy mid c post hys hc
  exact ⟨xs ++ before, after, r, route, entry, by simp, hadmitted.after hx⟩

end Calls

section Runs

/-- The item is admitted, and then its open pull request is read. -/
lemma start_yields : Yields (start s item authored) fun n st => ∃ before after,
    n = before ++ after ∧ Admitted s item authored before st.readiness st.route st.entry ∧
      ∀ c ∈ after, kindOf c.op = .routine := by
  unfold start
  refine Yields.bind assessItem_yields fun n out hn => ?_
  obtain ⟨r, route, entry⟩ := out
  refine Yields.bind (R := fun n _ => n = []) (Does.modify fun _ _ => rfl) fun n' _ hn' => ?_
  refine Yields.bind (yields_only (show Only [.routine] _ by grind [openFor])) fun n'' _ hn'' => ?_
  exact Yields.pure ⟨n, n'', by simp [hn'], hn, fun c hc => by simpa using hn'' c hc⟩

lemma started_gates : Does (start s item authored) fun n r =>
    (∀ c ∈ n, ¬ Spends c) ∧ ∀ st, r = .ok st → Gated s item authored n := by
  have honly : Only [.routine, .claim] (start s item authored) := by grind
  refine Does.mono (Does.and honly.does start_yields) fun n r h => ⟨not_spends (by simp) h.1, ?_⟩
  intro st hst
  obtain ⟨before, after, rfl, hadmitted, -⟩ := h.2 st hst
  exact ⟨before, after, _, _, _, rfl, hadmitted⟩

lemma routine_not_spends {p : Item F α} (hp : Only [.routine] p) :
    Does p fun n _ => ∀ c ∈ n, ¬ Spends c :=
  Does.mono hp.does fun _ _ hn => not_spends (by simp) hn

/-- Before the test author, the RED proof or the ladder is called, the item was admitted; a grant
answers only a stop that may be calibrated, and an override only that of an unsigned cell. -/
theorem spends_gated (s : FactorySpec F) (item : BacklogItem) (authored : Option AuthoredTest)
    (w : World (face F)) :
    SpendsGated s item authored (runCalls s item authored w) ∧
      (∀ t first rest c requireSignedCell overrideBy,
        decideRead t first rest (some c) requireSignedCell overrideBy =
            decideRead t first rest none requireSignedCell overrideBy ∨
          ∃ code ∈ calibratable,
            (decideRead t first rest none requireSignedCell overrideBy).code = some code) ∧
      ∀ t first rest calibration requireSignedCell overrideBy,
        decideRead t first rest calibration requireSignedCell overrideBy =
            decideRead t first rest calibration requireSignedCell "" ∨
          (decideRead t first rest calibration requireSignedCell "").code = some .unsignedCell := by
  refine ⟨?_, grant_answers, override_answers⟩
  have hbody : Does (start s item authored >>= proceed s item authored)
      fun n _ => SpendsGated s item authored n := by
    refine Does.bind started_gates (fun n st hn => ?_) fun n e hn => .of_not_spends hn.1
    exact Does.mono (proceed_only (K := [.routine, .claim, .author, .prove, .build, .verdict,
      .deliver, .close]) fun k => by cases k <;> simp).does fun n' r _ =>
        .of_gated hn.1 (hn.2 st rfl)
  have hbefore : ∀ {n n' : List (Call (face F))}, SpendsGated s item authored n →
      (∀ c ∈ n', ¬ Spends c) → SpendsGated s item authored (n ++ n') := fun h h' => h.before h'
  have hrun : Does (runItem s item authored) fun n _ => SpendsGated s item authored n := by
    unfold runItem
    have hsay : Only [.routine] (say "item.start" : Item F Unit) := by grind
    refine Does.bind hsay.does (fun n _ hn => ?_) fun n e hn => .of_not_spends (not_spends (by simp) hn)
    have hroutine : ∀ c ∈ n, kindOf c.op = .routine := fun c hc => by simpa using hn c hc
    refine Does.mono (R := fun n _ => SpendsGated s item authored n) ?_ fun n' _ h => h.after hroutine
    refine Does.bind (R := fun n _ => SpendsGated s item authored n) (Does.ensuring
      (R := fun n _ => SpendsGated s item authored n) (Does.attempt
        (R := fun n _ => SpendsGated s item authored n) (Does.bind hbody (fun n status hn =>
          Does.pure (by simpa using hn)) fun n e hn => hn) (fun n a hn => hn) fun n e hn =>
            Does.mono (routine_not_spends (by grind)) fun n' r hn' => hbefore hn hn')
      (routine_not_spends (by grind)) (fun n r n' hn hn' => hbefore hn hn')
      fun n r n' e hn hn' => hbefore hn hn') (fun n out hn => ?_) fun n e hn => hn
    obtain ⟨status, error⟩ := out
    exact Does.mono (routine_not_spends (by grind)) fun n' r hn' => hbefore hn hn'
  obtain ⟨n, hn, hgated⟩ := hrun w Locals.init []
  rw [runCalls, hn]
  exact hgated

/-- A run that builds. -/
theorem spends_gated_sample :
    (∃ c ∈ runCalls sampleSpec sampleItem (some sampleTest) (sampleWorld .accept),
      kindOf c.op = .build) ∧
    SpendsGated sampleSpec sampleItem (some sampleTest)
      (runCalls sampleSpec sampleItem (some sampleTest) (sampleWorld .accept)) :=
  ⟨by decide +kernel, (spends_gated sampleSpec sampleItem (some sampleTest) (sampleWorld .accept)).1⟩

end Runs

end CommitReplay.SpendGate
