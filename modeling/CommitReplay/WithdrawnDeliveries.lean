import CommitReplay.ItemCalls

/-! An open pull request and the reviews of a run that did not accept its item. -/
namespace CommitReplay.WithdrawnDeliveries

open CommitReplay.PythonText CommitReplay.JsonValue CommitReplay.JsonText CommitReplay.RowChecks
open CommitReplay.FactoryEvents CommitReplay.Interaction CommitReplay.SlotReadiness
open CommitReplay.ContextStandard CommitReplay.ReviewVerdicts CommitReplay.ItemLoop
open CommitReplay.ItemSteps CommitReplay.ItemCalls

variable {F : Type} {α β : Type}

section Runs

/-- The pull request a call asked to close, and the verdict it named. -/
def closedFor : Call (face F) → Option (DeliveryResult × Verdict)
  | ⟨.closePullRequest pr verdict _, _⟩ => some (pr, verdict)
  | _ => none

/-- The item's open pull request as the run finds it. -/
def openAtStart [PyFloat F] (s : FactorySpec F) (item : BacklogItem)
    (authored : Option AuthoredTest) (w : World (face F)) : Option DeliveryResult :=
  match (say "item.start" >>= fun _ => start s item authored) w Locals.init [] with
  | (.ok st, _) => st.openPr
  | _ => none

/-- Every recorded verdict but accept is followed by an accept, or the run asked to close the pull
request and named one of its own verdicts. -/
def Withdrawn (pr : DeliveryResult) (calls : List (Call (face F))) : Prop :=
  ∀ pre c post v, calls = pre ++ c :: post → recordedVerdict c = some v → v.verdict ≠ .accept →
    (∃ c' ∈ post, ∃ u, recordedVerdict c' = some u ∧ u.verdict = .accept) ∨
      ∃ c' ∈ calls, ∃ c'' ∈ calls, ∃ u, recordedVerdict c'' = some u ∧
        closedFor c' = some (pr, u.verdict)

/-- The verdict that stands against an open pull request after one more call. -/
def pendingAfter (pr : DeliveryResult) (pending : Option Verdict) (c : Call (face F)) :
    Option Verdict :=
  match recordedVerdict c with
  | some v => if v.verdict = .accept then none else some v.verdict
  | none =>
    match closedFor c with
    | some (pr', verdict) => if pr' = pr ∧ pending = some verdict then none else pending
    | none => pending

/-- The last recorded verdict where it is no accept and the pull request is not closed since. -/
def pending (pr : DeliveryResult) (calls : List (Call (face F))) : Option Verdict :=
  calls.foldl (pendingAfter pr) none

/-- A call that leaves a rework on its way to the next review: it raises nothing, a RED proof is by
someone other than the reviewer, and a ladder ends in a clean build by someone other than the
reviewer that is not disqualified. -/
def well (s : FactorySpec F) : Call (face F) → Bool
  | ⟨.closePullRequest .., _⟩ => true
  | ⟨.proveRed _, .ok proof⟩ => s.distinctIdentity proof.author s.reviewer.label
  | ⟨.buildLadder _, .ok results⟩ => results.getLast?.any fun b =>
      b.clean && !b.disqualified && s.distinctIdentity b.rung s.reviewer.label
  | ⟨_, .ok _⟩ => true
  | ⟨_, .error _⟩ => false

/-- Every call made while a verdict stands against the pull request comes back well. -/
def Smooth (s : FactorySpec F) (pr : DeliveryResult) (calls : List (Call (face F))) : Prop :=
  ∀ pre c post, calls = pre ++ c :: post → pending pr pre ≠ none → well s c = true

end Runs

section Pending

variable {s : FactorySpec F} {pr : DeliveryResult}

lemma pending_append (xs ys : List (Call (face F))) :
    pending pr (xs ++ ys) = ys.foldl (pendingAfter pr) (pending pr xs) := by
  simp only [pending, List.foldl_append]

lemma verdict_of_pendingAfter {c : Call (face F)} {u u' : Verdict}
    (h : pendingAfter pr (some u) c = some u') :
    u' = u ∨ ∃ v, recordedVerdict c = some v ∧ v.verdict = u' := by
  unfold pendingAfter at h
  cases hv : recordedVerdict c with
  | some v =>
    simp only [hv] at h
    split_ifs at h
    exact .inr ⟨v, rfl, Option.some.inj h⟩
  | none =>
    left
    cases hclosed : closedFor c with
    | none => simpa [hv, hclosed] using h.symm
    | some named =>
      simp only [hv, hclosed] at h
      split_ifs at h
      exact (Option.some.inj h).symm

lemma settled_of_pendingAfter {c : Call (face F)} {u : Verdict}
    (h : pendingAfter pr (some u) c = none) :
    (∃ v, recordedVerdict c = some v ∧ v.verdict = .accept) ∨ closedFor c = some (pr, u) := by
  unfold pendingAfter at h
  cases hv : recordedVerdict c with
  | some v =>
    simp only [hv] at h
    split_ifs at h with hacc
    exact .inl ⟨v, rfl, hacc⟩
  | none =>
    cases hclosed : closedFor c with
    | none => simp [hv, hclosed] at h
    | some named =>
      simp only [hv, hclosed] at h
      split_ifs at h with hmatch
      obtain ⟨hpr, hu⟩ := hmatch
      rw [← hpr, Option.some.inj hu]
      exact .inr rfl

lemma settled_of_foldl {calls post : List (Call (face F))} {u : Verdict}
    (hu : ∃ c ∈ calls, ∃ v, recordedVerdict c = some v ∧ v.verdict = u) (hsub : post ⊆ calls)
    (h : post.foldl (pendingAfter pr) (some u) = none) :
    (∃ c ∈ post, ∃ v, recordedVerdict c = some v ∧ v.verdict = .accept) ∨
      ∃ c ∈ calls, ∃ c' ∈ calls, ∃ v, recordedVerdict c' = some v ∧
        closedFor c = some (pr, v.verdict) := by
  induction post generalizing u with
  | nil => cases h
  | cons c post ih =>
    rw [List.foldl_cons] at h
    have hc : c ∈ calls := hsub (by simp)
    cases hafter : pendingAfter pr (some u) c with
    | none =>
      rcases settled_of_pendingAfter hafter with ⟨v, hv, hacc⟩ | hclosed
      · exact .inl ⟨c, by simp, v, hv, hacc⟩
      · obtain ⟨x, hx, v, hv, rfl⟩ := hu
        exact .inr ⟨c, hc, x, hx, v, hv, hclosed⟩
    | some u' =>
      rw [hafter] at h
      have hu' : ∃ c ∈ calls, ∃ v, recordedVerdict c = some v ∧ v.verdict = u' := by
        rcases verdict_of_pendingAfter hafter with rfl | ⟨v, hv, heq⟩
        · exact hu
        · exact ⟨c, hc, v, hv, heq⟩
      refine (ih hu' (fun x hx => hsub (by simp [hx])) h).imp_left ?_
      rintro ⟨x, hx, hacc⟩
      exact ⟨x, by simp [hx], hacc⟩

/-- Nothing stands against the pull request at the end. -/
lemma withdrawn_of_pending {calls : List (Call (face F))} (h : pending pr calls = none) :
    Withdrawn pr calls := by
  intro pre c post v heq hv hne
  have hpend : pending pr (pre ++ [c]) = some v.verdict := by
    simp [pending_append, pendingAfter, hv, hne]
  have hrest : post.foldl (pendingAfter pr) (some v.verdict) = none := by
    rw [← hpend, ← pending_append, List.append_assoc, List.singleton_append, ← heq]
    exact h
  refine settled_of_foldl ⟨c, by simp [heq], v, hv, rfl⟩ (fun x hx => ?_) hrest
  simp [heq, hx]

end Pending

section Sound

set_option linter.unusedSectionVars false

variable {s : FactorySpec F} {R : α → Prop}

/-- The kinds of calls that neither record a verdict nor close a pull request. -/
def quietKinds : List Kind := [.routine, .claim, .author, .prove, .build, .deliver]

@[grind =] lemma mem_quietKinds {k : Kind} : k ∈ quietKinds ↔ k ≠ .verdict ∧ k ≠ .close := by
  cases k <;> simp [quietKinds]

def allKinds : List Kind := .verdict :: .close :: quietKinds

@[grind ←] lemma mem_allKinds {k : Kind} : k ∈ allKinds := by
  cases k <;> simp [allKinds, quietKinds]

/-- While its calls come back well, the step ends with a value of a property. -/
def Sound (s : FactorySpec F) (p : Item F α) (R : α → Prop) : Prop :=
  Sure (fun c => kindOf c.op ∈ quietKinds) (fun c => well s c = true) p R

lemma Sound.bind {p : Item F α} {f : α → Item F β} {R' : β → Prop} (hp : Sound s p R)
    (hm : ∀ a, Only quietKinds (f a)) (hf : ∀ a, R a → Sound s (f a) R') :
    Sound s (p >>= f) R' := Sure.bind hp hm hf

lemma Sound.pure {a : α} (h : R a) : Sound s (pure a : Item F α) R := Sure.pure h

lemma Sound.modify {f : Locals → Locals} :
    Sound s (Prog.modify f : Item F Unit) fun _ => True := Sure.modify

lemma Sound.attempt {p : Item F α} {handler : Halt (face F) Stopped → Item F α}
    (hp : Sound s p R) (hh : ∀ e, Only quietKinds (handler e)) : Sound s (p.attempt handler) R :=
  Sure.attempt hp hh

lemma Sound.ask {op : Op} {R : Op.Ans F op → Prop} (hk : kindOf op ∈ quietKinds)
    (hok : ∀ a, well s (⟨op, .ok a⟩ : Call (face F)) = true → R a)
    (he : ∀ e, well s (⟨op, .error e⟩ : Call (face F)) = false) :
    Sound s (ask op : Item F (Op.Ans F op)) R :=
  Sure.call (fun _ => hk) hok fun e => by simp [he]

lemma Sound.say {action : String} : Sound s (say action : Item F Unit) fun _ => True :=
  @Sound.ask F s (.emit action) _ (by simp [quietKinds]) (fun _ _ => trivial) fun _ => rfl

lemma Sound.note {r : Record} (hk : kindOf (.record r) ∈ quietKinds) :
    Sound s (note r : Item F String) fun _ => True :=
  @Sound.ask F s (.record r) _ hk (fun _ _ => trivial) fun _ => rfl

variable [PyFloat F] {item : BacklogItem}

lemma prove_sound {r : Readiness} {oracle : AuthoredTest} :
    Sound s (prove r oracle) fun proof =>
      s.distinctIdentity proof.author s.reviewer.label = true := by
  unfold prove
  refine Sound.bind (Sound.attempt (Sound.ask (by simp [quietKinds]) (fun proof h => h)
    fun _ => rfl) fun e => ?_) (fun proof => by grind) fun proof hproof => ?_
  · rcases e with (_ | _ | _ | _) | _ <;> grind
  · exact Sound.bind (Sound.note (by simp [quietKinds])) (fun _ => Only.pure _) fun _ _ => Sound.pure hproof

lemma built_sound {args : BuildArgs} :
    Sound s (built args) fun final =>
      s.distinctIdentity final.rung s.reviewer.label = true := by
  unfold built
  refine @Sound.bind F (List BuildResult) BuildResult s (fun results => results.getLast?.any
    (fun b => b.clean && !b.disqualified && s.distinctIdentity b.rung s.reviewer.label) = true)
    _ _ _ (Sound.ask (by simp [quietKinds]) (fun results h => h) fun _ => rfl) (fun results => ?_) fun results hresults => ?_
  · cases results.getLast? <;> grind
  refine Sound.bind Sound.modify (fun _ => ?_) fun _ _ => ?_
  · cases results.getLast? <;> grind
  cases hlast : results.getLast? with
  | none => simp [hlast] at hresults
  | some final =>
    simp only [hlast, Option.any_some, Bool.and_eq_true, Bool.not_eq_true'] at hresults
    obtain ⟨⟨hclean, hdisq⟩, hdistinct⟩ := hresults
    simp only [hclean, hdisq, whenever, Bool.not_true, Bool.false_eq_true, if_false]
    refine Sound.bind Sound.modify (fun _ => by grind) fun _ _ => ?_
    refine Sound.bind (Sound.pure (R := fun _ => True) trivial) (fun _ => by grind) fun _ _ => ?_
    refine Sound.bind (Sound.pure (R := fun _ => True) trivial) (fun _ => by grind) fun _ _ => ?_
    exact Sound.pure hdistinct

lemma probeWaiver_sound {sha : String} {events : List (FactoryEvent F)}
    {found : Option ProbeWaiver} :
    Sound s (probeWaiver s sha events found) fun _ => True := by
  induction events generalizing found with
  | nil => exact Sound.pure trivial
  | cons e events ih =>
    unfold probeWaiver
    dsimp only
    split_ifs
    · exact ih
    · refine Sound.bind (Sound.note (by simp [quietKinds])) (fun _ => by grind) fun _ _ => ?_
      exact Sound.bind Sound.say (fun _ => by grind) fun _ _ => ih
    · exact ih

lemma runProbes_sound {build : BuildResult} {proof : RedProof} {waiver : Option ProbeWaiver}
    {names : List String} : Sound s (runProbes build proof waiver names) fun _ => True := by
  induction names with
  | nil => exact Sound.pure trivial
  | cons name names ih =>
    unfold runProbes
    refine Sound.bind (Sound.ask (by simp [quietKinds]) (fun _ _ => trivial) fun _ => rfl) (fun _ => by grind)
      fun result _ => ?_
    refine Sound.bind Sound.say (fun _ => by grind) fun _ _ => ?_
    exact Sound.bind ih (fun _ => by grind) fun _ _ => Sound.pure trivial

lemma assertDistinctIdentity_sound {author other : String}
    (h : s.distinctIdentity author other = true) :
    Sound s (assertDistinctIdentity s author other) fun _ => True := by
  rw [assertDistinctIdentity, if_pos h]
  exact Sound.pure trivial

lemma formVerdict_sound {final : BuildResult} {proof : RedProof}
    (hfinal : s.distinctIdentity final.rung s.reviewer.label = true)
    (hproof : s.distinctIdentity proof.author s.reviewer.label = true) :
    Sound s (formVerdict s item final proof) fun _ => True := by
  unfold formVerdict
  refine Sound.bind (Sound.ask (by simp [quietKinds]) (fun _ _ => trivial) fun _ => rfl) (fun _ => by grind)
    fun events _ => ?_
  refine Sound.bind probeWaiver_sound (fun _ => by grind) fun waiver _ => ?_
  refine Sound.bind (assertDistinctIdentity_sound hfinal) (fun _ => by grind)
    fun _ _ => ?_
  refine Sound.bind (assertDistinctIdentity_sound hproof) (fun _ => by grind)
    fun _ _ => ?_
  refine Sound.bind Sound.say (fun _ => by grind) fun _ _ => ?_
  refine Sound.bind runProbes_sound (fun _ => by grind) fun results _ => ?_
  refine Sound.bind (Sound.ask (by simp [quietKinds]) (fun _ _ => trivial) fun _ => rfl) (fun _ => by grind)
    fun opinion _ => ?_
  exact Sound.pure trivial

end Sound

section Moves

variable {s : FactorySpec F} {pr : DeliveryResult} {x : Option Verdict}

/-- Nothing else stands against the pull request, as long as what was made came back well. -/
def At (s : FactorySpec F) (pr : DeliveryResult) (x : Option Verdict)
    (calls : List (Call (face F))) : Prop := Smooth s pr calls → pending pr calls = x

/-- From one verdict against the pull request to another; a step that ends early leaves none. -/
def Moves (s : FactorySpec F) (pr : DeliveryResult) (x : Option Verdict) (p : Item F α)
    (y : α → Option Verdict) : Prop :=
  Triple (At s pr x) p fun h r =>
    At s pr (match r with | .ok a => y a | .error _ => none) h

lemma Smooth.left {xs ys : List (Call (face F))} (h : Smooth s pr (xs ++ ys)) :
    Smooth s pr xs := by
  intro pre c post heq
  exact h pre c (post ++ ys) (by rw [heq, List.append_assoc, List.cons_append])

lemma Smooth.last {xs : List (Call (face F))} {c : Call (face F)} (h : Smooth s pr (xs ++ [c])) :
    pending pr xs ≠ none → well s c = true := h xs c [] rfl

lemma pendingAfter_quiet {c : Call (face F)} (hc : kindOf c.op ∈ quietKinds) :
    pendingAfter pr x c = x := by
  have hrec : recordedVerdict c = none := by
    unfold recordedVerdict
    split
    · simp [quietKinds] at hc
    · rfl
  have hclosed : closedFor c = none := by
    unfold closedFor
    split
    · simp [quietKinds] at hc
    · rfl
  simp [pendingAfter, hrec, hclosed]

lemma pending_quiet {xs ys : List (Call (face F))} (hys : ∀ c ∈ ys, kindOf c.op ∈ quietKinds) :
    pending pr (xs ++ ys) = pending pr xs := by
  rw [pending_append]
  induction ys generalizing xs with
  | nil => rfl
  | cons c ys ih =>
    rw [List.foldl_cons, pendingAfter_quiet (hys c (by simp))]
    exact ih fun c' hc' => hys c' (by simp [hc'])

lemma well_of_smooth {xs ys : List (Call (face F))} (hys : ∀ c ∈ ys, kindOf c.op ∈ quietKinds)
    (h : Smooth s pr (xs ++ ys)) (hx : pending pr xs ≠ none) : ∀ c ∈ ys, well s c = true := by
  intro c hc
  obtain ⟨pre, post, rfl⟩ := List.append_of_mem hc
  refine h (xs ++ pre) c post (by simp) ?_
  rw [pending_quiet fun c' hc' => hys c' (by simp [hc'])]
  exact hx

lemma Moves.pure {a : α} {y : α → Option Verdict} (h : y a = x) :
    Moves s pr x (pure a : Item F α) y := Triple.pure fun _ hx => by simpa [h] using hx

lemma Moves.endWith {status : Status} {error : String} {y : α → Option Verdict} :
    Moves s pr none (endWith status error : Item F α) y := Triple.halt fun _ hx => hx

lemma Moves.bind {p : Item F α} {f : α → Item F β} {y : α → Option Verdict}
    {z : β → Option Verdict} (hp : Moves s pr x p y) (hf : ∀ a, Moves s pr (y a) (f a) z) :
    Moves s pr x (p >>= f) z := Triple.bind hp hf fun _ _ h => h

/-- With nothing against the pull request, a quiet step changes nothing. -/
lemma Moves.of_only {p : Item F α} {y : α → Option Verdict} (hp : Only quietKinds p)
    (hy : ∀ a, y a = none) : Moves s pr none p y := by
  refine Triple.post (Triple.of_makes (P := At s pr none) hp fun h c hc hP hs => ?_) fun h r hP => ?_
  · rw [pending_quiet (by simpa using hc)]
    exact hP hs.left
  · cases r with
    | ok a => simpa [hy] using hP
    | error e => exact hP

lemma Moves.bind_only {p : Item F α} {f : α → Item F β} {z : β → Option Verdict}
    (hp : Only quietKinds p) (hf : ∀ a, Moves s pr none (f a) z) :
    Moves s pr none (p >>= f) z := Moves.bind (Moves.of_only hp fun _ => rfl) hf

lemma at_snoc {h : List (Call (face F))} {c : Call (face F)} {y : Option Verdict}
    (hc : pendingAfter pr x c = y) (hP : At s pr x h) : At s pr y (h ++ [c]) := by
  intro hs
  rw [pending_append, hP hs.left]
  exact hc

lemma at_append {u : Option Verdict} {xs ys : List (Call (face F))}
    (hys : ∀ c ∈ ys, kindOf c.op ∈ quietKinds) (h : At s pr u xs) : At s pr u (xs ++ ys) := by
  intro hs
  rw [pending_quiet hys]
  exact h hs.left

/-- With a verdict against the pull request, a quiet step ends well where its calls do. -/
lemma Moves.bind_sound {p : Item F α} {f : α → Item F β} {z : β → Option Verdict} {u : Verdict}
    {R : α → Prop} (hp : Sound s p R) (hm : ∀ a, Only allKinds (f a))
    (hf : ∀ a, R a → Moves s pr (some u) (f a) z) : Moves s pr (some u) (p >>= f) z := by
  have hwell : ∀ {h n : List (Call (face F))}, (∀ c ∈ n, kindOf c.op ∈ quietKinds) →
      At s pr (some u) h → Smooth s pr (h ++ n) → ∀ c ∈ n, well s c = true := by
    intro h n hn hP hs
    exact well_of_smooth hn hs (by rw [hP hs.left]; simp)
  unfold Sound Sure at hp
  unfold Only Makes at hm
  unfold Moves Triple at hf ⊢
  refine Does.bind hp (fun n a hn => ?_) fun n e hn h hP hs => ?_
  · by_cases hR : R a
    · refine Does.mono (hf a hR) fun n' r hn' h hP => ?_
      rw [← List.append_assoc]
      exact hn' (h ++ n) (at_append hn.1 hP)
    · refine Does.mono (hm a) fun n' r _ h hP hs => absurd ?_ hR
      rw [← List.append_assoc] at hs
      obtain ⟨a', ha', hR'⟩ := hn.2 (hwell hn.1 hP hs.left)
      rwa [Except.ok.inj ha']
  · obtain ⟨a, ha, -⟩ := hn.2 (hwell hn.1 hP hs)
    cases ha

lemma Moves.bind_plain {p : Item F α} {f : α → Item F β} {z : β → Option Verdict}
    (hp : Sound s p fun _ => True) (hm : ∀ a, Only allKinds (f a))
    (hf : ∀ a, Moves s pr x (f a) z) : Moves s pr x (p >>= f) z := by
  cases x with
  | none => exact Moves.bind_only (Sure.makes hp) hf
  | some u => exact Moves.bind_sound hp hm fun a _ => hf a

end Moves

section Run

set_option linter.unusedSectionVars false

variable [PyFloat F] {s : FactorySpec F} {item : BacklogItem} {pr : DeliveryResult}
  {x : Option Verdict}

/-- What a verdict holds against the pull request. -/
def owed (v : ReviewVerdict) : Option Verdict := if v.accepted then none else some v.verdict

lemma tryClose_moves {v : ReviewVerdict} {reason : String} :
    Moves s pr (owed v) (tryClose pr v.verdict reason) fun _ => none := by
  have hclose : ∀ answer, pendingAfter pr (owed v)
      (⟨.closePullRequest pr v.verdict reason, answer⟩ : Call (face F)) = none := by
    intro answer
    by_cases hacc : v.accepted = true <;>
      simp [pendingAfter, recordedVerdict, closedFor, owed, hacc]
  refine Triple.attempt (R := fun h _ => At s pr none h) ?_ (fun _ _ h => h) fun e => ?_
  · refine Triple.bind (R := fun h _ => At s pr none h) ?_ (fun _ => ?_) fun _ _ h => h
    · exact Triple.call (fun h a hP => at_snoc (hclose _) hP) fun h e hP => at_snoc (hclose _) hP
    · exact Triple.pure fun _ h => h
  · exact Moves.of_only (by grind) fun _ => rfl

lemma withdraw_moves {v : ReviewVerdict} {why : String} :
    Moves s pr (owed v) (withdraw (some pr) v why) fun _ => none := by
  refine Moves.bind tryClose_moves fun closed => ?_
  exact Moves.of_only (by grind) fun _ => rfl

lemma note_verdict_moves {v : ReviewVerdict} :
    Moves s pr x (note (.verdict v)) fun _ => owed v := by
  refine Triple.call (fun h a hP => at_snoc ?_ hP) fun h e hP hs => ?_
  · by_cases hacc : v.verdict = .accept <;>
      simp [pendingAfter, recordedVerdict, owed, ReviewVerdict.accepted, hacc]
  · cases x with
    | none =>
      refine at_snoc ?_ hP hs
      simp [pendingAfter, recordedVerdict, closedFor]
    | some u =>
      have hwell := hs.last (by rw [hP hs.left]; simp)
      cases hwell

lemma reviewed_tail_moves {v : ReviewVerdict} {eventId : String} :
    Moves s pr (owed v) (do
      say "review.verdict"
      say "review.recorded"
      Prog.modify fun l => { l with verdicts := l.verdicts ++ [{ v with eventId }] }
      return { v with eventId } : Item F ReviewVerdict) owed := by
  refine Moves.bind_plain Sound.say (fun _ => by grind) fun _ => ?_
  refine Moves.bind_plain Sound.say (fun _ => by grind) fun _ => ?_
  refine Moves.bind_plain Sound.modify (fun _ => by grind) fun _ => ?_
  exact Moves.pure rfl

lemma requireScoreable_moves {v : ReviewVerdict} {oracle : AuthoredTest} :
    Moves s pr (owed v) (requireScoreable s v oracle (some pr)) fun _ => owed v := by
  unfold requireScoreable
  cases unscoreable v with
  | none => exact Moves.pure rfl
  | some probe =>
    refine Moves.bind_plain (Sound.note (by simp [quietKinds]))
      (fun _ => by grind) fun _ => ?_
    refine Moves.bind_plain Sound.say (fun _ => by grind) fun _ => ?_
    exact Moves.bind withdraw_moves fun _ => Moves.endWith

lemma refuseRework_moves {v : ReviewVerdict} {why : String} {y : Unit → Option Verdict} :
    Moves s pr (owed v) (refuseRework s v why (some pr)) y := by
  unfold refuseRework
  refine Moves.bind_plain (Sound.note (by simp [quietKinds]))
    (fun _ => by grind) fun _ => ?_
  refine Moves.bind_plain Sound.say (fun _ => by grind) fun _ => ?_
  refine Moves.bind_plain Sound.say (fun _ => by grind) fun _ => ?_
  exact Moves.bind withdraw_moves fun _ => Moves.endWith

/-- What the proof, the build and the review of a round leave. -/
lemma playRound_moves {st : Started} {oracle : AuthoredTest} {trialPrefix arm grant : String}
    {heldOut : Option String} (hpr : st.openPr = some pr) :
    Moves s pr x (playRound s item st oracle trialPrefix arm heldOut grant)
      fun round => owed round.verdict := by
  have hreviewed : ∀ {x : Option Verdict} {proof : RedProof} {final : BuildResult},
      (x ≠ none → s.distinctIdentity final.rung s.reviewer.label = true ∧
        s.distinctIdentity proof.author s.reviewer.label = true) →
      Moves s pr x (reviewed s item final proof) owed := by
    intro x proof final hdistinct
    unfold reviewed
    have htail : ∀ v, Moves s pr x (note (.verdict v) >>= fun eventId => (do
        say "review.verdict"
        say "review.recorded"
        Prog.modify fun l => { l with verdicts := l.verdicts ++ [{ v with eventId }] }
        return { v with eventId } : Item F ReviewVerdict)) owed := fun v =>
      Moves.bind note_verdict_moves fun eventId => reviewed_tail_moves
    cases x with
    | none => exact Moves.bind_only (by grind) htail
    | some u =>
      obtain ⟨hfinal, hproof⟩ := hdistinct (by simp)
      exact Moves.bind_sound (formVerdict_sound hfinal hproof)
        (fun _ => by grind) fun v _ => htail v
  have hend : ∀ {proof : RedProof} {final : BuildResult} {v : ReviewVerdict},
      Moves s pr (owed v) (requireScoreable s v oracle st.openPr >>= fun _ =>
        (pure ⟨oracle, proof, final, v⟩ : Item F Round)) fun round => owed round.verdict := by
    intro proof final v
    rw [hpr]
    exact Moves.bind requireScoreable_moves fun _ => Moves.pure rfl
  unfold playRound
  cases x with
  | none =>
    refine Moves.bind_only (by grind) fun proof => ?_
    refine Moves.bind_only (by grind) fun _ => ?_
    refine Moves.bind_only (by grind) fun final => ?_
    exact Moves.bind (hreviewed fun h => absurd rfl h) fun v => hend
  | some u =>
    refine Moves.bind_sound prove_sound (fun _ => by grind)
      fun proof hproof => ?_
    refine Moves.bind_plain Sound.modify (fun _ => by grind) fun _ => ?_
    refine Moves.bind_sound built_sound (fun _ => by grind)
      fun final hfinal => ?_
    exact Moves.bind (hreviewed fun _ => ⟨hfinal, hproof⟩) fun v => hend

lemma refuseIf_moves {v : ReviewVerdict} {why : String} {c : Bool} :
    Moves s pr (owed v) (whenever c (refuseRework s v why (some pr))) fun _ => owed v := by
  cases c with
  | true => exact refuseRework_moves
  | false => exact Moves.pure rfl

lemma reworkOracle_moves {st : Started} {round : Round} {n : ℕ} (hpr : st.openPr = some pr) :
    Moves s pr (owed round.verdict) (reworkOracle s st round n) fun _ => owed round.verdict := by
  unfold reworkOracle
  rw [hpr]
  refine Moves.bind refuseIf_moves fun _ => ?_
  refine Moves.bind_plain Sound.modify (fun _ => by grind [askRework])
    fun _ => ?_
  refine Moves.bind_plain (Sound.note (by simp [quietKinds]))
    (fun _ => by grind [askRework]) fun _ => ?_
  refine Moves.bind_plain Sound.say (fun _ => by grind [askRework])
    fun _ => ?_
  refine Moves.bind_plain (Sound.ask (by simp [quietKinds]) (fun _ _ => trivial) fun _ => rfl)
    (fun _ => by grind [askRework]) fun _ => ?_
  refine Moves.bind_plain ?_ (fun _ => by grind) fun edited => ?_
  · unfold askRework
    split_ifs
    · exact Sound.ask (by simp [quietKinds]) (fun _ _ => trivial) fun _ => rfl
    · exact Sound.pure trivial
  · exact Moves.bind refuseIf_moves fun _ => Moves.pure rfl

lemma reworkLoop_moves {st : Started} {arm : String} {left : ℕ} {round : Round}
    (hpr : st.openPr = some pr) :
    Moves s pr (owed round.verdict) (reworkLoop s item st arm left round)
      fun last => owed last.verdict := by
  induction left generalizing round with
  | zero => exact Moves.pure rfl
  | succ left ih =>
    unfold reworkLoop
    split_ifs
    · refine Moves.bind (reworkOracle_moves hpr) fun oracle => ?_
      exact Moves.bind (playRound_moves hpr) fun next => ih
    · exact Moves.pure rfl

lemma finish_moves {st : Started} {arm : String} {round : Round} (hpr : st.openPr = some pr) :
    Moves s pr (owed round.verdict) (finish s item st arm round) fun _ => none := by
  unfold finish
  by_cases hacc : round.verdict.accepted = true
  · rw [owed, if_pos hacc, if_pos hacc]
    cases st.entry.calibration with
    | some grant => exact Moves.of_only (by grind) fun _ => rfl
    | none =>
      refine Moves.bind_only Only.get fun l => ?_
      exact Moves.of_only (Only.bind (by grind) fun delivery => by grind) fun _ => rfl
  · rw [if_neg hacc, hpr]
    exact Moves.bind withdraw_moves fun _ => Moves.pure rfl

lemma proceed_moves {authored : Option AuthoredTest} {st : Started} (hpr : st.openPr = some pr) :
    Moves s pr none (proceed s item authored st) fun _ => none := by
  unfold proceed
  refine Moves.bind_only (by grind) fun oracle => ?_
  refine Moves.bind_only (by grind) fun held => ?_
  refine Moves.bind (playRound_moves hpr) fun first => ?_
  exact Moves.bind (reworkLoop_moves hpr) fun last => finish_moves hpr

/-- What `run_item` does of a started item. -/
def afterStart (s : FactorySpec F) (item : BacklogItem) (authored : Option AuthoredTest)
    (st : Started) : Item F ItemOutcome := do
  let (status, error) ← ((proceed s item authored st >>= fun status =>
    pure (status, "")).attempt handle).ensuring (closeKept s)
  let l ← Prog.get
  let _ ← note (.itemOutcome status l.builds.length
    ((l.verdicts.getLast?.map fun v => v.verdict.text).getD "") l.delivery.isSome l.reworks error
    (if l.builds = [] then "" else (l.entry.calibration.map (·.eventId)).getD ""))
  say "item.done"
  return ⟨status, l, error⟩

lemma runItem_of_start {authored : Option AuthoredTest} {w : World (face F)} {l l' : Locals}
    {h h' : List (Call (face F))} {st : Started}
    (hstart : (say "item.start" >>= fun _ => start s item authored) w l h = (.ok st, l', h')) :
    runItem s item authored w l h = afterStart s item authored st w l' h' := by
  obtain ⟨r, l₁, h₁, hsay⟩ : ∃ r l₁ h₁, say "item.start" w l h = (r, l₁, h₁) := ⟨_, _, _, rfl⟩
  cases r with
  | error e =>
    rw [Prog.bind_error hsay] at hstart
    cases hstart
  | ok u =>
    rw [Prog.bind_ok hsay] at hstart
    refine (Prog.bind_ok hsay).trans (Prog.bind_at (Prog.ensuring_at (Prog.attempt_at ?_)))
    exact Prog.bind_at (Prog.bind_ok hstart)

lemma afterStart_settles {authored : Option AuthoredTest} {st : Started}
    (hpr : st.openPr = some pr) :
    Triple (At s pr none) (afterStart s item authored st) fun h _ => At s pr none h := by
  have hquiet : ∀ {α : Type} {p : Item F α}, Only quietKinds p →
      Triple (At s pr none) p fun h _ => At s pr none h := fun hp =>
    Triple.post (Moves.of_only hp fun _ => rfl) fun h r hP => by cases r <;> exact hP
  refine Triple.bind (R := fun h _ => At s pr none h) (Triple.ensuring (R := fun h _ =>
    At s pr none h) (Triple.attempt (R := fun h _ => At s pr none h) ?_ (fun _ _ hP => hP)
    fun e => hquiet (by grind)) fun r => Triple.post (hquiet (by grind)) fun _ _ hP => hP)
    (fun a => hquiet ?_) fun _ _ hP => hP
  · refine Triple.post (Moves.bind (y := fun _ => none) (z := fun _ => none) (proceed_moves hpr)
      fun status => Moves.pure rfl) fun h r hP => ?_
    cases r <;> exact hP
  · obtain ⟨status, error⟩ := a
    grind

/-- Where every call that stands between a review that did not accept and the next one comes back
well, the run closes the pull request or a later review accepts. -/
theorem withdrawn_of_smooth {authored : Option AuthoredTest} {w : World (face F)}
    (hopen : openAtStart s item authored w = some pr)
    (hsmooth : Smooth s pr (runCalls s item authored w)) :
    Withdrawn pr (runCalls s item authored w) := by
  unfold openAtStart at hopen
  obtain ⟨r, l, h, hstart⟩ : ∃ r l h, (say "item.start" >>= fun _ => start s item authored)
    w Locals.init [] = (r, l, h) := ⟨_, _, _, rfl⟩
  rw [hstart] at hopen
  cases r with
  | error e => cases hopen
  | ok st =>
    have hquiet : Only quietKinds (say "item.start" >>= fun _ => start s item authored) := by grind
    have hnone : At s pr none h := fun _ => by
      have hrun := (Triple.of_makes (P := fun h => pending pr h = none) hquiet
        fun h c hc hP => by rw [pending_quiet (by simpa using hc), hP]).run (w := w)
        (s := Locals.init) (h := []) rfl
      rwa [hstart] at hrun
    have hsettles : Triple (At s pr none) (afterStart s item authored st)
      fun h _ => At s pr none h := afterStart_settles hopen
    have hrun := hsettles.run (w := w) (s := l) hnone
    rw [← runItem_of_start hstart] at hrun
    exact withdrawn_of_pending (hrun hsmooth)

end Run

section Samples

/-- Smoothness, checked call by call. -/
def smoothFrom (s : FactorySpec F) (pr : DeliveryResult) :
    Option Verdict → List (Call (face F)) → Bool
  | _, [] => true
  | x, c :: cs => (x.isNone || well s c) && smoothFrom s pr (pendingAfter pr x c) cs

lemma well_of_smoothFrom {s : FactorySpec F} {pr : DeliveryResult} {x : Option Verdict}
    {pre post : List (Call (face F))} {c : Call (face F)}
    (h : smoothFrom s pr x (pre ++ c :: post) = true)
    (hx : pre.foldl (pendingAfter pr) x ≠ none) : well s c = true := by
  induction pre generalizing x with
  | nil =>
    simp only [List.nil_append, smoothFrom, Bool.and_eq_true, Bool.or_eq_true] at h
    exact h.1.resolve_left fun hnone => hx (Option.isNone_iff_eq_none.mp hnone)
  | cons c' pre ih =>
    simp only [List.cons_append, smoothFrom, Bool.and_eq_true] at h
    exact ih h.2 hx

lemma smooth_of_smoothFrom {s : FactorySpec F} {pr : DeliveryResult}
    {calls : List (Call (face F))} (h : smoothFrom s pr none calls = true) : Smooth s pr calls := by
  rintro pre c post rfl hpre
  exact well_of_smoothFrom h hpre

lemma not_withdrawn {pr : DeliveryResult} {calls : List (Call (face F))}
    (hv : ∃ v ∈ calls.filterMap recordedVerdict, v.verdict ≠ .accept)
    (hall : ∀ v ∈ calls.filterMap recordedVerdict, v.verdict ≠ .accept)
    (hclosed : calls.filterMap closedFor = []) : ¬ Withdrawn pr calls := by
  intro hw
  obtain ⟨v, hmem, hne⟩ := hv
  obtain ⟨c, hc, hv⟩ := List.mem_filterMap.mp hmem
  obtain ⟨pre, post, heq⟩ := List.append_of_mem hc
  rcases hw pre c post v heq hv hne with ⟨c', hc', u, hu, hacc⟩ | ⟨c', hc', c'', -, u, -, hcl⟩
  · exact hall u (List.mem_filterMap.mpr ⟨c', by simp [heq, hc'], hu⟩) hacc
  · have hin := List.mem_filterMap.mpr ⟨c', hc', hcl⟩
    rw [hclosed] at hin
    cases hin

/-- The pull request of the sample's chain. -/
def samplePullRequest : DeliveryResult := ⟨"item-1", "", "", "", "", 7, "", "", "", "", false, ""⟩

/-- An edit is asked for, the reworked test is refused its RED proof, and the pull request stays
open. -/
theorem stays_open : openAtStart sampleSpec sampleItem (some sampleTest)
      (sampleWorld .acceptWithEdit) = some samplePullRequest ∧
    ((runItem sampleSpec sampleItem (some sampleTest) (sampleWorld .acceptWithEdit) Locals.init
      []).1.toOption.map fun o => o.status) = some .notRed ∧
    ¬ Withdrawn samplePullRequest
      (runCalls sampleSpec sampleItem (some sampleTest) (sampleWorld .acceptWithEdit)) :=
  ⟨by decide +kernel, by decide +kernel,
    not_withdrawn (by decide +kernel) (by decide +kernel) (by decide +kernel)⟩

/-- A rejected change is withdrawn. -/
theorem withdrawn_of_smooth_sample : Withdrawn samplePullRequest
    (runCalls sampleSpec sampleItem (some sampleTest) (sampleWorld .reject)) :=
  withdrawn_of_smooth (by decide +kernel) (smooth_of_smoothFrom (by decide +kernel))

end Samples

end CommitReplay.WithdrawnDeliveries
