import CommitReplay.ClassSets
import CommitReplay.TransitionRuns

/-! Requests on the organisations' class sets. A request reads the acts and decides, and a locked
append checks the act again against its own organisation's versions alone. -/
namespace CommitReplay.ClassSetRuns

open CommitReplay.RowChecks (bind_eq_ok)
open CommitReplay.ClassSets CommitReplay.TransitionRuns

variable {K : Type}

section Store

variable (voc : Vocabulary K)

def orgActs (org : String) (acts : List (ClassSetAct K)) : List (ClassSetAct K) :=
  acts.filter (·.org = org)

/-- `orgs()`. -/
def orgs (acts : List (ClassSetAct K)) : List String :=
  (acts.map (·.org)).eraseDups.insertionSort (· ≤ ·)

/-- `versions()`: every organisation's. -/
def versions (acts : List (ClassSetAct K)) : Except Refusal (List (VersionState K)) := do
  let folds ← (orgs acts).mapM fun org => fold voc (orgActs org acts)
  return folds.flatMap States.values

/-- `append`: in one locked transaction. -/
def append (acts : List (ClassSetAct K)) (act : ClassSetAct K) :
    Except Refusal (List (ClassSetAct K)) := do
  let states ← fold voc (orgActs act.org acts)
  let _ ← apply voc states act
  return acts ++ [act]

end Store

section Requests

/-- The repositories that are registered and the components signed in their libraries. -/
structure Deployment where
  registered : String → Bool
  named : ∀ r, registered r = true → isName 64 r = true
  componentNames : List String → List String

inductive Request (K : Type)
  | propose (org : String) (repos : List String) (classes : List K) (who created : String)
  | sign (org : String) (n : ℕ) (digest who created : String)
  | revoke (org : String) (n : ℕ) (reason who created : String)

variable (voc : Vocabulary K)

/-- `_propose`, up to its append. -/
def proposal (dep : Deployment) (acts : List (ClassSetAct K)) (org : String) (repos : List String)
    (classes : List K) (who created : String) : Except Refusal (ClassSetAct K) :=
  if repos.any (!dep.registered ·) then .error .invalid
  else if classes.any fun k => (voc.components k).any (· ∉ dep.componentNames repos) then
    .error .invalid
  else do
    let current ← fold voc (orgActs org acts)
    let top := highest current.values
    let all ← versions voc acts
    if all.any fun other => other.version.org ≠ org && other.status ≠ .revoked &&
        other.version.repos.any (· ∈ repos) then
      .error .repoTaken
    else
      let basedOn := if top = 0 then none else some top
      match ClassSetVersion.make voc org (top + 1) classes repos who basedOn with
      | none => .error .invalid
      | some version =>
        .ok ⟨org, version.n, voc.digest version, who, created, .propose version⟩

/-- The act a request goes on to append after what it read. -/
def decision (dep : Deployment) (acts : List (ClassSetAct K)) :
    Request K → Except Refusal (ClassSetAct K)
  | .propose org repos classes who created => proposal voc dep acts org repos classes who created
  | .sign org n digest who created => do
    match (← fold voc (orgActs org acts)).lookup n with
    | none => .error .unknownEntry
    | some _ => .ok ⟨org, n, digest, who, created, .sign⟩
  | .revoke org n reason who created => do
    match (← fold voc (orgActs org acts)).lookup n with
    | none => .error .unknownEntry
    | some state => .ok ⟨org, n, voc.digest state.version, who, created, .revoke reason⟩

end Requests

section System

/-- A request that has read the acts and has yet to append. -/
structure Pending (K : Type) where
  seen : List (ClassSetAct K)
  act : ClassSetAct K

/-- The acts, and the request each client is in. -/
structure State (P K : Type) where
  acts : List (ClassSetAct K)
  pending : P → Option (Pending K)

def State.init {P : Type} : State P K := ⟨[], fun _ => none⟩

inductive Label (P K : Type)
  | read (p : P) (dep : Deployment) (request : Request K)
  | append (p : P)

variable {P : Type} [DecidableEq P] (voc : Vocabulary K)

def step (s : State P K) : Label P K → State P K
  | .read p dep request =>
    if (s.pending p).isSome then s
    else match decision voc dep s.acts request with
      | .error _ => s
      | .ok act => { s with pending := Function.update s.pending p (some ⟨s.acts, act⟩) }
  | .append p =>
    match s.pending p with
    | none => s
    | some q =>
      ⟨(append voc s.acts q.act).toOption.getD s.acts, Function.update s.pending p none⟩

end System

section Claim

/-- Each repository is described by one organisation's classes, and each organisation's acts are
in order. -/
structure Described (voc : Vocabulary K) (acts : List (ClassSetAct K)) : Prop where
  oneOwner : ∃ all, versions voc acts = .ok all ∧ ∀ s ∈ all, ∀ t ∈ all, s.status ≠ .revoked →
    t.status ≠ .revoked → ∀ repo ∈ s.version.repos, repo ∈ t.version.repos →
      s.version.org = t.version.org
  ordered : ∀ org, Ordered (orgActs org acts)

/-- Both acts propose versions, of two organisations, that share a repository. -/
def conflicts (a b : ClassSetAct K) : Bool :=
  match a.body, b.body with
  | .propose v, .propose w => v.org ≠ w.org && v.repos.any (· ∈ w.repos)
  | _, _ => false

/-- Since a proposal read the acts no other organisation's came for one of its repositories. -/
def undisturbed {P : Type} (s : State P K) : Label P K → Prop
  | .read .. => True
  | .append p => ∀ q ∈ s.pending p, ∀ e ∈ s.acts.drop q.seen.length, conflicts e q.act = false

end Claim

section Versions

variable {voc : Vocabulary K} {acts : List (ClassSetAct K)}

/-- The acts of each organisation fold. -/
def Folds (voc : Vocabulary K) (acts : List (ClassSetAct K)) : Prop :=
  ∀ org, ∃ states, fold voc (orgActs org acts) = .ok states

/-- No act revokes the version. -/
def Standing (acts : List (ClassSetAct K)) (v : ClassSetVersion K) : Prop :=
  ∀ c ∈ acts, c.org = v.org → c.n = v.n → c.isRevoke = false

lemma org_of_mem {org : String} : ∀ a ∈ orgActs org acts, a.org = org :=
  fun a ha => by simpa using (List.mem_filter.mp ha).2

lemma mapM_eq_ok {α β ε : Type} {f : α → Except ε β} {g : α → β} (l : List α)
    (h : ∀ a, f a = .ok (g a)) : l.mapM f = .ok (l.map g) := by
  induction l with
  | nil => rfl
  | cons a l ih =>
    rw [List.mapM_cons, h, ih]
    rfl

/-- A version of one organisation, as its state and as its acts have it. -/
lemma state_of_fold {org : String} {states : States K}
    (h : fold voc (orgActs org acts) = .ok states) {n : ℕ} {s : VersionState K}
    (hs : states.lookup n = some s) : (∃ a ∈ acts, a.body = .propose s.version) ∧
      s.version.org = org ∧ s.version.n = n ∧
      (s.status ≠ .revoked ↔ Standing acts s.version) := by
  have hfold := folded_of_fold org_of_mem h
  obtain ⟨a, ha, -, hbody⟩ := hfold.source n s hs
  obtain ⟨hn, horg⟩ := hfold.self n s hs
  refine ⟨⟨a, (List.mem_filter.mp ha).1, hbody⟩, horg, hn, ?_⟩
  rw [Ne, hfold.revoked n s hs, Standing, hn, horg]
  constructor
  · intro hnone c hc hco hcn
    by_contra hr
    exact hnone ⟨c, List.mem_filter.mpr ⟨hc, by simpa using hco⟩, hcn, by simpa using hr⟩
  · rintro hstanding ⟨c, hc, hcn, hr⟩
    have hno := hstanding c (List.mem_filter.mp hc).1 (org_of_mem c hc) hcn
    rw [hr] at hno
    cases hno

lemma mem_orgs {a : ClassSetAct K} (ha : a ∈ acts) : a.org ∈ orgs acts := by
  rw [orgs, List.mem_insertionSort, List.mem_eraseDups]
  exact List.mem_map_of_mem ha

lemma mem_values {states : States K} {s : VersionState K} :
    s ∈ states.values ↔ ∃ n, states.lookup n = some s := by
  rw [States.values, List.mem_map]
  constructor
  · rintro ⟨⟨n, t⟩, ht, rfl⟩
    exact ⟨n, AList.mem_lookup_iff.mpr ht⟩
  · rintro ⟨n, hn⟩
    exact ⟨_, AList.mem_lookup_iff.mp hn, rfl⟩

/-- The states read are those of the versions that were proposed. -/
lemma versions_eq_ok (h : Folds voc acts) : ∃ all, versions voc acts = .ok all ∧
    (∀ s ∈ all, (∃ a ∈ acts, a.body = .propose s.version) ∧
      (s.status ≠ .revoked ↔ Standing acts s.version)) ∧
    ∀ a ∈ acts, ∀ v, a.body = .propose v → v.org = a.org ∧ ∃ s ∈ all, s.version = v := by
  choose states hstates using h
  refine ⟨((orgs acts).map states).flatMap States.values, ?_, fun s hs => ?_, fun a ha v hv => ?_⟩
  · rw [versions, mapM_eq_ok (g := states) _ hstates]
    rfl
  · obtain ⟨org, -, hs⟩ := List.mem_flatMap.mp (List.flatMap_map .. ▸ hs)
    obtain ⟨n, hn⟩ := mem_values.mp hs
    obtain ⟨ha, -, -, hiff⟩ := state_of_fold (hstates org) hn
    exact ⟨ha, hiff⟩
  · have hfold := folded_of_fold org_of_mem (hstates a.org)
    have hin : a ∈ orgActs a.org acts := List.mem_filter.mpr ⟨ha, by simp⟩
    obtain ⟨s, hs, rfl, -⟩ := hfold.proposed a hin v hv
    refine ⟨(hfold.self _ s hs).2, s, ?_, rfl⟩
    rw [List.flatMap_map]
    exact List.mem_flatMap.mpr ⟨a.org, mem_orgs ha, mem_values.mpr ⟨_, hs⟩⟩

/-- Proposals of standing versions that share a repository are one organisation's. -/
def OneOwner (acts : List (ClassSetAct K)) : Prop :=
  ∀ a ∈ acts, ∀ b ∈ acts, ∀ v w, a.body = .propose v → b.body = .propose w →
    Standing acts v → Standing acts w → ∀ repo ∈ v.repos, repo ∈ w.repos → v.org = w.org

lemma described_of_folds (h : Folds voc acts) (hone : OneOwner acts) : Described voc acts where
  oneOwner := by
    obtain ⟨all, hall, hof, -⟩ := versions_eq_ok h
    refine ⟨all, hall, fun s hs t ht hsr htr repo hrs hrt => ?_⟩
    obtain ⟨⟨a, ha, hav⟩, hsiff⟩ := hof s hs
    obtain ⟨⟨b, hb, hbv⟩, htiff⟩ := hof t ht
    exact hone a ha b hb _ _ hav hbv (hsiff.mp hsr) (htiff.mp htr) repo hrs hrt
  ordered := fun org => by
    obtain ⟨states, hstates⟩ := h org
    exact ordered_of_fold org_of_mem hstates

/-- The converse: the acts say what the states read from them do. -/
lemma Described.oneOwner_acts (hd : Described voc acts) (h : Folds voc acts) : OneOwner acts := by
  obtain ⟨all, hall, hone⟩ := hd.oneOwner
  obtain ⟨all', hall', hof, hread⟩ := versions_eq_ok h
  obtain rfl : all' = all := Except.ok.inj (hall'.symm.trans hall)
  intro a ha b hb v w hv hw hsv hsw
  obtain ⟨-, s, hs, rfl⟩ := hread a ha v hv
  obtain ⟨-, t, ht, rfl⟩ := hread b hb w hw
  exact hone s hs t ht ((hof s hs).2.mpr hsv) ((hof t ht).2.mpr hsw)

end Versions

section Steps

variable {voc : Vocabulary K}

lemma make_cases {org who : String} {n : ℕ} {classes : List K} {repos : List String}
    {basedOn : Option ℕ} {v : ClassSetVersion K}
    (h : ClassSetVersion.make voc org n classes repos who basedOn = some v) :
    v.org = org ∧ v.repos = (repos.map trim).eraseDups := by
  rw [ClassSetVersion.make] at h
  dsimp only at h
  split_ifs at h
  obtain rfl := Option.some.inj h
  exact ⟨rfl, rfl⟩

/-- A proposal decided on what was read is of repositories that no standing version of another
organisation covers. -/
lemma proposal_cases {dep : Deployment} {seen : List (ClassSetAct K)} {request : Request K}
    {act : ClassSetAct K} (h : decision voc dep seen request = .ok act)
    {v : ClassSetVersion K} (hv : act.body = .propose v) : v.org = act.org ∧
      ∃ all, versions voc seen = .ok all ∧ ∀ s ∈ all, s.version.org ≠ v.org →
        s.status ≠ .revoked → ∀ repo ∈ s.version.repos, repo ∉ v.repos := by
  cases request with
  | propose org repos classes who created =>
    rw [decision, proposal] at h
    split_ifs at h with hregistered
    rw [bind_eq_ok] at h
    obtain ⟨current, -, h⟩ := h
    rw [bind_eq_ok] at h
    obtain ⟨all, hall, h⟩ := h
    split at h
    · cases h
    rename_i htaken
    dsimp only at h
    generalize (if highest current.values = 0 then none else some (highest current.values)) =
      basedOn at h
    split at h
    · cases h
    · rename_i version hmake
      obtain rfl := Except.ok.inj h
      obtain rfl := Body.propose.inj hv
      obtain ⟨horg, hrepos⟩ := make_cases hmake
      refine ⟨horg, all, hall, fun s hs hso hsr repo hrepo hin => htaken ?_⟩
      -- registered names are what they are trimmed to
      have hgiven : repo ∈ repos := by
        rw [hrepos, List.mem_eraseDups] at hin
        obtain ⟨r, hr, rfl⟩ := List.mem_map.mp hin
        have hname : dep.registered r = true := by
          by_contra hno
          exact hregistered (List.any_eq_true.mpr ⟨r, hr, by simpa using hno⟩)
        rwa [trim_of_isName (dep.named r hname)]
      refine List.any_eq_true.mpr ⟨s, hs, ?_⟩
      rw [horg] at hso
      simp only [hso, hsr, ne_eq, not_false_eq_true, decide_true, Bool.true_and, List.any_eq_true,
        decide_eq_true_eq]
      exact ⟨repo, hrepo, hgiven⟩
  | sign org n digest who created =>
    obtain ⟨states, -, h⟩ := bind_eq_ok.mp h
    split at h
    · cases h
    · obtain rfl := Except.ok.inj h
      cases hv
  | revoke org n reason who created =>
    obtain ⟨states, -, h⟩ := bind_eq_ok.mp h
    split at h
    · cases h
    · obtain rfl := Except.ok.inj h
      cases hv

/-- An append that succeeds adds an act that applies. -/
lemma append_cases {acts acts' : List (ClassSetAct K)} {act : ClassSetAct K}
    (h : append voc acts act = .ok acts') : acts' = acts ++ [act] ∧
      ∃ states s, fold voc (orgActs act.org acts) = .ok states ∧ apply voc states act = .ok s := by
  obtain ⟨states, hstates, h⟩ := bind_eq_ok.mp h
  obtain ⟨s, hs, h⟩ := bind_eq_ok.mp h
  exact ⟨(Except.ok.inj h).symm, states, s, hstates, hs⟩

lemma Folds.append {acts : List (ClassSetAct K)} (h : Folds voc acts) {act : ClassSetAct K}
    {states : States K} {s : VersionState K} (hstates : fold voc (orgActs act.org acts) = .ok states)
    (hs : apply voc states act = .ok s) : Folds voc (acts ++ [act]) := by
  intro org
  rw [orgActs, List.filter_append]
  by_cases horg : act.org = org
  · subst horg
    rw [List.filter_cons_of_pos (by simp), List.filter_nil]
    exact ⟨_, (fold_concat _ _).mpr ⟨states, s, hstates, hs, rfl⟩⟩
  · rw [List.filter_cons_of_neg (by simpa using horg), List.filter_nil, List.append_nil]
    exact h org

lemma Standing.of_append {acts new : List (ClassSetAct K)} {v : ClassSetVersion K}
    (h : Standing (acts ++ new) v) : Standing acts v :=
  fun c hc => h c (List.mem_append_left _ hc)

lemma OneOwner.append {acts : List (ClassSetAct K)} (h : OneOwner acts) {act : ClassSetAct K}
    (hact : ∀ v, act.body = .propose v → ∀ a ∈ acts, ∀ w, a.body = .propose w →
      Standing acts w → w.org ≠ v.org → ∀ repo ∈ w.repos, repo ∉ v.repos) :
    OneOwner (acts ++ [act]) := by
  intro a ha b hb v w hv hw hsv hsw repo hrv hrw
  have hsv := hsv.of_append
  have hsw := hsw.of_append
  by_contra hne
  rcases List.mem_append.mp ha with ha | ha
  · rcases List.mem_append.mp hb with hb | hb
    · exact hne (h a ha b hb v w hv hw hsv hsw repo hrv hrw)
    · rw [List.mem_singleton.mp hb] at hw
      exact hact w hw a ha v hv hsv hne repo hrv hrw
  · rw [List.mem_singleton.mp ha] at hv
    rcases List.mem_append.mp hb with hb | hb
    · exact hact v hv b hb w hw hsw (Ne.symm hne) repo hrw hrv
    · rw [List.mem_singleton.mp hb, hv] at hw
      exact hne (congrArg ClassSetVersion.org (Body.propose.inj hw))

end Steps

section Runs

variable {P : Type} [DecidableEq P] {voc : Vocabulary K}

/-- The locked appends keep the acts of each organisation in order, whatever comes between. -/
lemma folds_step {s : State P K} (h : Folds voc s.acts) (label : Label P K) :
    Folds voc (step voc s label).acts := by
  cases label with
  | read p dep request =>
    rw [step]
    split_ifs
    · exact h
    · split <;> exact h
  | append p =>
    rw [step]
    split
    · exact h
    · rename_i q _
      cases happ : append voc s.acts q.act with
      | error e => exact h
      | ok acts' =>
        obtain ⟨rfl, states, t, hstates, ht⟩ := append_cases happ
        exact h.append hstates ht

lemma folds_run (labels : List (Label P K)) :
    Folds voc (runFrom (step voc) .init labels).acts :=
  Along.preserves (I := fun s : State P K => Folds voc s.acts)
    (fun _ label h _ => folds_step h label) (along_of_forall (P := fun _ _ => True) (by simp))
    fun _ => ⟨∅, rfl⟩

/-- Within an organisation the acts are in order in every state reached. -/
theorem ordered_run (labels : List (Label P K)) (org : String) :
    Ordered (orgActs org (runFrom (step voc) .init labels).acts) := by
  obtain ⟨states, hstates⟩ := @folds_run K P _ voc labels org
  exact ordered_of_fold org_of_mem hstates

/-- What holds in every state an undisturbed run reaches. -/
structure Settled (voc : Vocabulary K) (s : State P K) : Prop where
  folds : Folds voc s.acts
  oneOwner : OneOwner s.acts
  read : ∀ p, ∀ q ∈ s.pending p, q.seen <+: s.acts ∧ Folds voc q.seen ∧
    ∃ dep request, decision voc dep q.seen request = .ok q.act

omit [DecidableEq P] in
lemma settled_init : Settled voc (State.init : State P K) where
  folds := fun _ => ⟨∅, rfl⟩
  oneOwner := by simp [State.init, OneOwner]
  read := by simp [State.init]

omit [DecidableEq P] in
/-- The append of a proposal that nothing disturbed since it read. -/
lemma Settled.oneOwner_append {s : State P K} (h : Settled voc s) {p : P} {q : Pending K}
    (hq : q ∈ s.pending p) (hu : ∀ e ∈ s.acts.drop q.seen.length, conflicts e q.act = false) :
    OneOwner (s.acts ++ [q.act]) := by
  obtain ⟨⟨new, hacts⟩, hfolds, dep, request, hdecide⟩ := h.read p q hq
  refine h.oneOwner.append fun v hv a ha w hw hstanding hne repo hrw hrv => ?_
  obtain ⟨-, all, hall, hfree⟩ := proposal_cases hdecide hv
  rw [← hacts] at ha hstanding hu
  rw [List.drop_left] at hu
  rcases List.mem_append.mp ha with ha | ha
  · -- a version that was there would have been read
    obtain ⟨all', hall', hof, hread⟩ := versions_eq_ok hfolds
    obtain rfl : all' = all := Except.ok.inj (hall'.symm.trans hall)
    obtain ⟨-, t, ht, rfl⟩ := hread a ha w hw
    exact hfree t ht hne ((hof t ht).2.mpr hstanding.of_append) repo hrw hrv
  · have hno := hu a ha
    rw [conflicts, hw, hv] at hno
    simp only [hne, ne_eq, not_false_eq_true, decide_true, Bool.true_and, List.any_eq_false,
      decide_eq_true_eq] at hno
    exact hno repo hrw hrv

lemma settled_step {s : State P K} {label : Label P K} (h : Settled voc s)
    (hu : undisturbed s label) : Settled voc (step voc s label) := by
  cases label with
  | read p dep request =>
    rw [step]
    split_ifs
    · exact h
    · split
      · exact h
      · rename_i act hdecide
        refine ⟨h.folds, h.oneOwner, fun p' q hq => ?_⟩
        dsimp only at hq ⊢
        by_cases hp : p' = p
        · subst hp
          rw [Function.update_self] at hq
          obtain rfl := Option.some.inj hq
          exact ⟨List.prefix_rfl, h.folds, dep, request, hdecide⟩
        · rw [Function.update_of_ne hp] at hq
          exact h.read p' q hq
  | append p =>
    rw [step]
    split
    · exact h
    · rename_i q hq
      have hread : ∀ acts, s.acts <+: acts → ∀ p', ∀ r ∈ Function.update s.pending p none p',
          r.seen <+: acts ∧ Folds voc r.seen ∧
            ∃ dep request, decision voc dep r.seen request = .ok r.act := by
        intro acts hpre p' r hr
        by_cases hp : p' = p
        · subst hp
          simp at hr
        · rw [Function.update_of_ne hp] at hr
          obtain ⟨hseen, hrest⟩ := h.read p' r hr
          exact ⟨hseen.trans hpre, hrest⟩
      cases happ : append voc s.acts q.act with
      | error e => exact ⟨h.folds, h.oneOwner, hread _ List.prefix_rfl⟩
      | ok acts' =>
        obtain ⟨rfl, states, t, hstates, ht⟩ := append_cases happ
        exact ⟨h.folds.append hstates ht, h.oneOwner_append hq (hu q hq),
          hread _ (List.prefix_append _ _)⟩

/-- In a run in which no organisation proposes for a repository between another's reading and
proposing for it, every state reached has each repository described by one organisation. -/
theorem described_run (voc : Vocabulary K) (labels : List (Label P K))
    (h : Along (step voc) undisturbed .init labels) :
    ∀ done, done <+: labels → Described voc (runFrom (step voc) .init done).acts := by
  rintro done ⟨rest, rfl⟩
  have hdone := (along_append.mp h).1
  have hsettled := hdone.preserves (fun s label hs hu => settled_step hs hu) settled_init
  exact described_of_folds hsettled.folds hsettled.oneOwner

end Runs

section Samples

/-- Classes that are texts, with rules that name no component. -/
def sampleVocabulary : Vocabulary String where
  slug := id
  components := fun _ => []
  digest := fun v => v.org
  carriesCredential := fun _ => false
  contentCarries := fun _ => false

def sampleDeployment : Deployment := ⟨isName 64, fun _ h => h, fun _ => []⟩

def sampleProposal (org who : String) : Request String :=
  .propose org ["app"] ["fix"] who "2026-01-01T00:00:00Z"

def sampleVersion (org who : String) : ClassSetVersion String :=
  ⟨org, 1, ["fix"], ["app"], who, none⟩

def sampleOverlap : List (Label Bool String) :=
  [.read false sampleDeployment (sampleProposal "acme" "ann"),
    .read true sampleDeployment (sampleProposal "beta" "bob"), .append false, .append true]

def proposes (v : ClassSetVersion String) (a : ClassSetAct String) : Bool :=
  match a.body with
  | .propose w => w = v
  | _ => false

lemma exists_of_proposes (acts : List (ClassSetAct String)) (v : ClassSetVersion String)
    (h : acts.any (proposes v) = true) : ∃ a ∈ acts, a.body = .propose v := by
  obtain ⟨a, ha, hv⟩ := List.any_eq_true.mp h
  refine ⟨a, ha, ?_⟩
  cases hb : a.body <;> simp_all [proposes]

/-- Two organisations that read before either appends both describe one repository. -/
theorem not_described_overlapping : ¬ Described sampleVocabulary
    (runFrom (step sampleVocabulary) .init sampleOverlap).acts := by
  intro hd
  have hone := hd.oneOwner_acts (folds_run _)
  have hstanding : ∀ v, Standing (runFrom (step sampleVocabulary) .init sampleOverlap).acts v := by
    have hall : (runFrom (step sampleVocabulary) .init sampleOverlap).acts.all
        (!·.isRevoke) = true := by rfl
    exact fun v c hc _ _ => by simpa using List.all_eq_true.mp hall c hc
  obtain ⟨a, ha, hav⟩ := exists_of_proposes
    (runFrom (step sampleVocabulary) .init sampleOverlap).acts (sampleVersion "acme" "ann")
    (by rfl)
  obtain ⟨b, hb, hbv⟩ := exists_of_proposes
    (runFrom (step sampleVocabulary) .init sampleOverlap).acts (sampleVersion "beta" "bob")
    (by rfl)
  have horg := hone a ha b hb _ _ hav hbv (hstanding _) (hstanding _) "app"
    (by simp [sampleVersion]) (by simp [sampleVersion])
  simp [sampleVersion] at horg

lemma undisturbed_of_quiet {s : State Bool String} {p : Bool}
    (h : ((s.pending p).all fun q =>
      (s.acts.drop q.seen.length).all fun e => !conflicts e q.act) = true) :
    undisturbed s (.append p) := by
  intro q hq e he
  rw [Option.mem_def.mp hq] at h
  simpa using List.all_eq_true.mp h e he

/-- The same requests one after the other: the second is refused. -/
theorem described_sequential : Described sampleVocabulary
    (runFrom (step sampleVocabulary) (.init : State Bool String)
      [.read false sampleDeployment (sampleProposal "acme" "ann"), .append false,
        .read true sampleDeployment (sampleProposal "beta" "bob"), .append true]).acts := by
  refine described_run sampleVocabulary _ ?_ _ List.prefix_rfl
  exact ⟨trivial, undisturbed_of_quiet (by rfl), trivial,
    undisturbed_of_quiet (by rfl), trivial⟩

end Samples

end CommitReplay.ClassSetRuns
