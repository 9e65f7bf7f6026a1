import CommitReplay.RowChecks

/-! The acts on the organisations' class sets, the rule that admits one, and the fold of what was
admitted into the state of each version. -/
namespace CommitReplay.ClassSets

open CommitReplay.PythonText
open CommitReplay.RowChecks (bind_eq_ok)

/-- `[a-z0-9][a-z0-9._-]*` of at most a length. -/
def isName (bound : ℕ) (s : String) : Bool :=
  let plain := fun c : Char => c.isLower || c.isDigit
  s.toList.head?.any plain && (s.toList.all fun c => plain c || c ∈ ['.', '_', '-']) &&
    s.toList.length ≤ bound

/-- `str.strip`. -/
def trim (s : String) : String := .ofList (strip s.toList)

/-- What names no person's account. -/
def nonPersonPrefixes : List String :=
  ["system", "worker", "cli:", "service:", "import", "mined:", "drafted:"]

def isPerson (actor : String) : Bool :=
  trim actor ≠ "" && nonPersonPrefixes.all fun p => !startsWith (strip actor.toList) p.toList

lemma trim_of_isName {bound : ℕ} {s : String} (h : isName bound s = true) : trim s = s := by
  have hspace : ∀ c ∈ s.toList, isSpace c = false := by
    intro c hc
    simp only [isName, Bool.and_eq_true, List.all_eq_true, decide_eq_true_eq] at h
    have hplain := h.1.2 c hc
    simp only [Bool.or_eq_true, Char.isLower, Char.isDigit, Bool.and_eq_true,
      decide_eq_true_eq] at hplain
    have hrange : 45 ≤ c.toNat ∧ c.toNat ≤ 122 := by
      rcases hplain with (⟨hlo, hhi⟩ | ⟨hlo, hhi⟩) | hin
      · have hlo : 97 ≤ c.toNat := hlo
        have hhi : c.toNat ≤ 122 := hhi
        omega
      · have hlo : 48 ≤ c.toNat := hlo
        have hhi : c.toNat ≤ 57 := hhi
        omega
      · simp only [List.mem_cons, List.not_mem_nil, or_false] at hin
        rcases hin with rfl | rfl | rfl <;> decide
    rw [isSpace]
    simp only [Bool.or_eq_false_iff, Bool.and_eq_false_iff, decide_eq_false_iff_not,
      beq_eq_false_iff_ne]
    omega
  have hdrop : s.toList.dropWhile isSpace = s.toList := by
    cases hs : s.toList with
    | nil => rfl
    | cons c cs => simp [hspace c (by simp [hs])]
  have hstrip : strip s.toList = s.toList := by
    rw [strip, hdrop, List.rdropWhile_eq_self_iff]
    intro hl
    simp [hspace _ (List.getLast_mem hl)]
  rw [trim, hstrip, String.ofList_toList]

variable {K : Type}

/-- One version of an organisation's class set. Its classes are kept as they are given. -/
structure ClassSetVersion (K : Type) where
  org : String
  n : ℕ
  classes : List K
  repos : List String
  proposedBy : String
  basedOn : Option ℕ
deriving DecidableEq

inductive Body (K : Type)
  | propose (version : ClassSetVersion K)
  | sign
  | revoke (reason : String)

/-- One act on the version `<org>/classes@v<n>`. The chain of hashes is left out. -/
structure ClassSetAct (K : Type) where
  org : String
  n : ℕ
  digest : String
  actor : String
  created : String
  body : Body K

namespace ClassSetAct

variable (a : ClassSetAct K)

def isPropose : Bool := match a.body with | .propose _ => true | _ => false
def isSign : Bool := match a.body with | .sign => true | _ => false
def isRevoke : Bool := match a.body with | .revoke _ => true | _ => false

end ClassSetAct

inductive Status
  | proposed | signed | revoked
deriving DecidableEq, Repr

structure Revocation where
  actor : String
  reason : String
  at_ : String
deriving DecidableEq, Repr

/-- Where one version stands. -/
structure VersionState (K : Type) where
  version : ClassSetVersion K
  status : Status
  sponsor : String
  proposedAt : String
  approver : String
  signedAt : String
  revoked : Option Revocation

inductive Refusal
  | credential | notAPerson | outOfOrder | unknownEntry | versionMismatch | notSignable
  | samePerson | reasonMissing | repoTaken
  /-- The acts no longer fold. -/
  | integrity
  /-- A request that is no proposal. -/
  | invalid
deriving DecidableEq, Repr

/-- What the classes and the texts of acts are made of. -/
structure Vocabulary (K : Type) where
  slug : K → String
  components : K → List String
  digest : ClassSetVersion K → String
  carriesCredential : ClassSetAct K → Bool
  contentCarries : ClassSetVersion K → Bool

abbrev States (K : Type) := AList fun _ : ℕ => VersionState K

section Rule

variable (voc : Vocabulary K)

/-- `ClassSetVersion(...)`, and `none` where it raises. -/
def ClassSetVersion.make (org : String) (n : ℕ) (classes : List K) (repos : List String)
    (proposedBy : String) (basedOn : Option ℕ) : Option (ClassSetVersion K) :=
  let version : ClassSetVersion K :=
    ⟨org, n, classes, (repos.map trim).eraseDups, proposedBy, basedOn⟩
  if isName 48 org && org ≠ "global" && 1 ≤ n && 1 ≤ classes.length && classes.length ≤ 64 &&
      (classes.map voc.slug).Nodup && !version.repos.isEmpty && version.repos.all (· ≠ "") &&
      isPerson proposedBy && !voc.contentCarries version then
    some version
  else none

def States.values (states : States K) : List (VersionState K) := states.entries.map Sigma.snd

/-- The highest number of some versions. -/
def highest (l : List (VersionState K)) : ℕ := l.foldr (max ·.version.n) 0

def top (org : String) (states : States K) : ℕ :=
  highest (states.values.filter (·.version.org = org))

/-- The version's state after an act, given every version of the organisation so far. -/
def apply (states : States K) (act : ClassSetAct K) : Except Refusal (VersionState K) :=
  if voc.carriesCredential act then .error .credential
  else match act.body, states.lookup act.n with
    | .propose version, _ =>
      if version.org ≠ act.org ∨ version.n ≠ act.n ∨ voc.digest version ≠ act.digest then
        .error .integrity
      else if !isPerson act.actor then .error .notAPerson
      else if act.actor ≠ version.proposedBy then .error .notAPerson
      else if version.n ≠ top act.org states + 1 then .error .outOfOrder
      else .ok ⟨version, .proposed, act.actor, act.created, "", "", none⟩
    | _, none => .error .unknownEntry
    | .sign, some state =>
      if !isPerson act.actor then .error .notAPerson
      else if act.digest ≠ voc.digest state.version then .error .versionMismatch
      else if state.status ≠ .proposed then .error .notSignable
      else if act.actor = state.sponsor then .error .samePerson
      else .ok { state with status := .signed, approver := act.actor, signedAt := act.created }
    | .revoke reason, some state =>
      if !isPerson act.actor then .error .notAPerson
      else if trim reason = "" then .error .reasonMissing
      else if state.status = .revoked then .error .notSignable
      else .ok { state with
        status := .revoked
        revoked := some ⟨act.actor, trim reason, act.created⟩ }

/-- Number → state over one organisation's acts; an act that no longer applies is an error. -/
def fold (acts : List (ClassSetAct K)) : Except Refusal (States K) :=
  acts.foldlM (fun states a =>
    match apply voc states a with
    | .ok s => .ok (states.insert a.n s)
    | .error _ => .error .integrity) ∅

end Rule

section Cases

variable {voc : Vocabulary K} {states : States K} {act : ClassSetAct K} {s : VersionState K}

/-- What an act that applies does. -/
theorem apply_cases (h : apply voc states act = .ok s) :
    (∃ version, act.body = .propose version ∧ version.org = act.org ∧ version.n = act.n ∧
      act.actor = version.proposedBy ∧ act.n = top act.org states + 1 ∧
      s = ⟨version, .proposed, act.actor, act.created, "", "", none⟩) ∨
    (∃ old, act.body = .sign ∧ states.lookup act.n = some old ∧ old.status = .proposed ∧
      act.actor ≠ old.sponsor ∧
      s = { old with status := .signed, approver := act.actor, signedAt := act.created }) ∨
    (∃ old reason, act.body = .revoke reason ∧ states.lookup act.n = some old ∧
      old.status ≠ .revoked ∧ s = { old with
        status := .revoked
        revoked := some ⟨act.actor, trim reason, act.created⟩ }) := by
  rw [apply] at h
  by_cases hsecret : voc.carriesCredential act = true
  · rw [if_pos hsecret] at h
    cases h
  rw [if_neg hsecret] at h
  split at h
  · rename_i version hbody
    split_ifs at h with hid _ hactor htop
    obtain ⟨horg, hrest⟩ := not_or.mp hid
    have hn := not_not.mp (not_or.mp hrest).1
    refine .inl ⟨version, hbody, not_not.mp horg, hn, not_not.mp hactor, ?_,
      (Except.ok.inj h).symm⟩
    rw [← hn]
    exact not_not.mp htop
  · cases h
  · rename_i old hbody hold
    split_ifs at h with _ _ hstatus hsame
    exact .inr (.inl ⟨old, hbody, hold, not_not.mp hstatus, hsame, (Except.ok.inj h).symm⟩)
  · rename_i reason old hbody hold
    split_ifs at h with _ _ hstatus
    exact .inr (.inr ⟨old, reason, hbody, hold, hstatus, (Except.ok.inj h).symm⟩)

lemma fold_concat (acts : List (ClassSetAct K)) (states' : States K) :
    fold voc (acts ++ [act]) = .ok states' ↔
      ∃ states s, fold voc acts = .ok states ∧ apply voc states act = .ok s ∧
        states' = states.insert act.n s := by
  rw [fold, List.foldlM_append, bind_eq_ok]
  refine exists_congr fun states => ?_
  rw [List.foldlM_cons, bind_eq_ok]
  constructor
  · rintro ⟨hstates, t, ht, hlast⟩
    obtain rfl : t = states' := Except.ok.inj hlast
    split at ht
    · rename_i s hs
      exact ⟨s, hstates, hs, (Except.ok.inj ht).symm⟩
    · cases ht
  · rintro ⟨s, hstates, hs, rfl⟩
    exact ⟨hstates, _, by rw [hs], rfl⟩

end Cases

section Fold

variable {voc : Vocabulary K}

/-- What the states folded from one organisation's acts say of those acts. -/
structure Folded (org : String) (acts : List (ClassSetAct K)) (states : States K) : Prop where
  keys : ∀ n, n ∈ states ↔ 1 ≤ n ∧ n ≤ (acts.filter (·.isPropose)).length
  self : ∀ n s, states.lookup n = some s → s.version.n = n ∧ s.version.org = org
  proposed : ∀ a ∈ acts, ∀ v, a.body = .propose v →
    ∃ s, states.lookup a.n = some s ∧ s.version = v ∧ s.sponsor = a.actor
  source : ∀ n s, states.lookup n = some s → ∃ a ∈ acts, a.n = n ∧ a.body = .propose s.version
  revoked : ∀ n s, states.lookup n = some s →
    (s.status = .revoked ↔ ∃ a ∈ acts, a.n = n ∧ a.isRevoke = true)
  known : ∀ a ∈ acts, a.n ∈ states

omit voc in
lemma highest_eq {l : List (VersionState K)} {k : ℕ} (hle : ∀ s ∈ l, s.version.n ≤ k)
    (hk : k = 0 ∨ ∃ s ∈ l, s.version.n = k) : highest l = k := by
  have hupper : highest l ≤ k := by
    clear hk
    induction l with
    | nil => exact Nat.zero_le k
    | cons s l ih =>
      obtain ⟨hs, hl⟩ := List.forall_mem_cons.mp hle
      exact max_le hs (ih hl)
  have hlower : ∀ s ∈ l, s.version.n ≤ highest l := by
    clear hk hle hupper
    induction l with
    | nil => simp
    | cons t l ih =>
      refine List.forall_mem_cons.mpr ⟨le_max_left _ _, fun s hs => ?_⟩
      exact (ih s hs).trans (le_max_right _ _)
  rcases hk with rfl | ⟨s, hs, rfl⟩
  · exact Nat.le_zero.mp hupper
  · exact le_antisymm hupper (hlower s hs)

lemma Folded.top_eq {org : String} {acts : List (ClassSetAct K)} {states : States K}
    (h : Folded org acts states) : top org states = (acts.filter (·.isPropose)).length := by
  have hmem : ∀ s, s ∈ states.values.filter (·.version.org = org) ↔
      states.lookup s.version.n = some s := by
    intro s
    rw [List.mem_filter, States.values, List.mem_map]
    constructor
    · rintro ⟨⟨⟨n, t⟩, ht, rfl⟩, -⟩
      have hlook := AList.mem_lookup_iff.mpr ht
      rw [(h.self n t hlook).1]
      exact hlook
    · intro hlook
      exact ⟨⟨_, AList.mem_lookup_iff.mp hlook, rfl⟩, by simpa using (h.self _ s hlook).2⟩
  have hle : ∀ s, states.lookup s.version.n = some s →
      s.version.n ≤ (acts.filter (·.isPropose)).length := fun s hs =>
    ((h.keys _).mp (AList.lookup_isSome.mp (by rw [hs]; rfl))).2
  refine highest_eq (fun s hs => hle s ((hmem s).mp hs)) ?_
  by_cases hzero : (acts.filter (·.isPropose)).length = 0
  · exact .inl hzero
  · right
    have hkey := (h.keys (acts.filter (·.isPropose)).length).mpr ⟨by omega, le_rfl⟩
    obtain ⟨s, hs⟩ := Option.isSome_iff_exists.mp (AList.lookup_isSome.mpr hkey)
    have hself := (h.self _ s hs).1
    exact ⟨s, (hmem s).mpr (hself.symm ▸ hs), hself⟩

lemma folded_nil (org : String) : Folded (K := K) org [] ∅ where
  keys n := by simp; omega
  self := by simp
  proposed := by simp
  source := by simp
  revoked := by simp
  known := by simp

/-- A version proposed next. -/
lemma Folded.propose {org : String} {acts : List (ClassSetAct K)} {states : States K}
    (h : Folded org acts states) {act : ClassSetAct K} {version : ClassSetVersion K}
    {s : VersionState K} (hbody : act.body = .propose version) (horg : version.org = org)
    (hn : version.n = act.n) (htop : act.n = (acts.filter (·.isPropose)).length + 1)
    (hs : s = ⟨version, .proposed, act.actor, act.created, "", "", none⟩) :
    Folded org (acts ++ [act]) (states.insert act.n s) := by
  have hpropose : act.isPropose = true := by simp [ClassSetAct.isPropose, hbody]
  have hrevoke : act.isRevoke = false := by simp [ClassSetAct.isRevoke, hbody]
  have hnew : act.n ∉ states := by
    intro hmem
    have := ((h.keys _).mp hmem).2
    omega
  have hne : ∀ n t, states.lookup n = some t → n ≠ act.n := by
    rintro n t ht rfl
    exact hnew (AList.lookup_isSome.mp (by rw [ht]; rfl))
  have hcount : ((acts ++ [act]).filter (·.isPropose)).length =
      (acts.filter (·.isPropose)).length + 1 := by
    rw [List.filter_append, List.filter_cons_of_pos hpropose, List.length_append]
    rfl
  -- every state but the new one is an old one
  have hcases : ∀ n t, (states.insert act.n s).lookup n = some t →
      n = act.n ∧ t = s ∨ n ≠ act.n ∧ states.lookup n = some t := by
    intro n t ht
    by_cases hn' : n = act.n
    · subst hn'
      rw [AList.lookup_insert] at ht
      exact .inl ⟨rfl, (Option.some.inj ht).symm⟩
    · rw [AList.lookup_insert_ne hn'] at ht
      exact .inr ⟨hn', ht⟩
  refine ⟨fun n => ?_, fun n t ht => ?_, fun a ha v hv => ?_, fun n t ht => ?_, fun n t ht => ?_,
    fun a ha => ?_⟩
  · rw [AList.mem_insert, h.keys, hcount]
    omega
  · rcases hcases n t ht with ⟨rfl, rfl⟩ | ⟨-, ht⟩
    · rw [hs]
      exact ⟨hn, horg⟩
    · exact h.self n t ht
  · rcases List.mem_append.mp ha with ha | ha
    · obtain ⟨t, ht, hrest⟩ := h.proposed a ha v hv
      exact ⟨t, by rw [AList.lookup_insert_ne (hne _ _ ht), ht], hrest⟩
    · obtain rfl := List.mem_singleton.mp ha
      obtain rfl : version = v := Body.propose.inj (hbody.symm.trans hv)
      exact ⟨s, AList.lookup_insert _, by rw [hs], by rw [hs]⟩
  · rcases hcases n t ht with ⟨rfl, rfl⟩ | ⟨-, ht⟩
    · exact ⟨act, by simp, rfl, by rw [hbody, hs]⟩
    · obtain ⟨a, ha, hrest⟩ := h.source n t ht
      exact ⟨a, List.mem_append_left _ ha, hrest⟩
  · rcases hcases n t ht with ⟨rfl, rfl⟩ | ⟨-, ht⟩
    · rw [hs]
      refine iff_of_false (by simp) ?_
      rintro ⟨a, ha, hn', hr⟩
      rcases List.mem_append.mp ha with ha | ha
      · exact hnew (hn' ▸ h.known a ha)
      · rw [List.mem_singleton.mp ha, hrevoke] at hr
        cases hr
    · rw [h.revoked n t ht]
      simp [hrevoke]
  · rw [AList.mem_insert]
    rcases List.mem_append.mp ha with ha | ha
    · exact .inr (h.known a ha)
    · exact .inl (by rw [List.mem_singleton.mp ha])

/-- A version signed or revoked. -/
lemma Folded.change {org : String} {acts : List (ClassSetAct K)} {states : States K}
    (h : Folded org acts states) {act : ClassSetAct K} {old s : VersionState K}
    (hold : states.lookup act.n = some old) (hbody : act.isPropose = false)
    (hversion : s.version = old.version) (hsponsor : s.sponsor = old.sponsor)
    (hrevoked : s.status = .revoked ↔ act.isRevoke = true) (hstatus : old.status ≠ .revoked) :
    Folded org (acts ++ [act]) (states.insert act.n s) := by
  have hkey : act.n ∈ states := AList.lookup_isSome.mp (by rw [hold]; rfl)
  have hfilter : (acts ++ [act]).filter (·.isPropose) = acts.filter (·.isPropose) := by
    rw [List.filter_append, List.filter_cons_of_neg (by simp [hbody]), List.filter_nil,
      List.append_nil]
  -- each state has the version and the sponsor it had before
  have hcases : ∀ n t, (states.insert act.n s).lookup n = some t →
      ∃ u, states.lookup n = some u ∧ t.version = u.version ∧ t.sponsor = u.sponsor ∧
        (n = act.n ∧ t = s ∨ n ≠ act.n ∧ t = u) := by
    intro n t ht
    by_cases hn : n = act.n
    · subst hn
      rw [AList.lookup_insert] at ht
      obtain rfl := Option.some.inj ht
      exact ⟨old, hold, hversion, hsponsor, .inl ⟨rfl, rfl⟩⟩
    · rw [AList.lookup_insert_ne hn] at ht
      exact ⟨t, ht, rfl, rfl, .inr ⟨hn, rfl⟩⟩
  refine ⟨fun n => ?_, fun n t ht => ?_, fun a ha v hv => ?_, fun n t ht => ?_, fun n t ht => ?_,
    fun a ha => ?_⟩
  · rw [AList.mem_insert, hfilter, ← h.keys]
    exact or_iff_right_of_imp fun hn => hn ▸ hkey
  · obtain ⟨u, hu, hv, -, -⟩ := hcases n t ht
    rw [hv]
    exact h.self n u hu
  · rcases List.mem_append.mp ha with ha | ha
    · obtain ⟨t, ht, htv, hts⟩ := h.proposed a ha v hv
      by_cases hn : a.n = act.n
      · rw [hn, hold] at ht
        obtain rfl := Option.some.inj ht
        exact ⟨s, by rw [hn, AList.lookup_insert], hversion.trans htv, hsponsor.trans hts⟩
      · exact ⟨t, by rw [AList.lookup_insert_ne hn, ht], htv, hts⟩
    · rw [List.mem_singleton.mp ha] at hv
      simp [ClassSetAct.isPropose, hv] at hbody
  · obtain ⟨u, hu, hv, -, -⟩ := hcases n t ht
    obtain ⟨a, ha, hn, hpropose⟩ := h.source n u hu
    exact ⟨a, List.mem_append_left _ ha, hn, hv ▸ hpropose⟩
  · obtain ⟨u, hu, -, -, hsame⟩ := hcases n t ht
    rcases hsame with ⟨rfl, rfl⟩ | ⟨hn, rfl⟩
    · rw [hold] at hu
      obtain rfl := Option.some.inj hu
      have hnone : ¬ ∃ a ∈ acts, a.n = act.n ∧ a.isRevoke = true :=
        fun he => hstatus ((h.revoked _ _ hold).mpr he)
      rw [hrevoked]
      refine ⟨fun hr => ⟨act, by simp, rfl, hr⟩, ?_⟩
      rintro ⟨a, ha, hn, hr⟩
      rcases List.mem_append.mp ha with ha | ha
      · exact absurd ⟨a, ha, hn, hr⟩ hnone
      · rwa [List.mem_singleton.mp ha] at hr
    · rw [h.revoked n t hu]
      refine ⟨fun ⟨a, ha, hrest⟩ => ⟨a, List.mem_append_left _ ha, hrest⟩, ?_⟩
      rintro ⟨a, ha, ha', hr⟩
      rcases List.mem_append.mp ha with ha | ha
      · exact ⟨a, ha, ha', hr⟩
      · rw [List.mem_singleton.mp ha] at ha'
        exact absurd ha'.symm hn
  · rw [AList.mem_insert]
    rcases List.mem_append.mp ha with ha | ha
    · exact .inr (h.known a ha)
    · exact .inl (by rw [List.mem_singleton.mp ha])

theorem folded_of_fold {org : String} {acts : List (ClassSetAct K)} {states : States K}
    (horg : ∀ a ∈ acts, a.org = org) (h : fold voc acts = .ok states) : Folded org acts states := by
  induction acts using List.reverseRecOn generalizing states with
  | nil =>
    obtain rfl : ∅ = states := Except.ok.inj h
    exact folded_nil org
  | append_singleton acts act ih =>
    obtain ⟨states, s, hstates, hs, rfl⟩ := (fold_concat acts _).mp h
    have hacts := ih (fun a ha => horg a (List.mem_append_left _ ha)) hstates
    have hact := horg act (by simp)
    rcases apply_cases hs with ⟨version, hbody, hvorg, hn, -, htop, rfl⟩ |
      ⟨old, hbody, hold, hstatus, -, rfl⟩ | ⟨old, reason, hbody, hold, hstatus, rfl⟩
    · rw [hact, hacts.top_eq] at htop
      exact hacts.propose hbody (hvorg.trans hact) hn htop rfl
    · exact hacts.change hold (by simp [ClassSetAct.isPropose, hbody]) rfl rfl
        (by simp [ClassSetAct.isRevoke, hbody]) (by simp [hstatus])
    · exact hacts.change hold (by simp [ClassSetAct.isPropose, hbody]) rfl rfl
        (by simp [ClassSetAct.isRevoke, hbody]) hstatus

/-- Within an organisation the versions are numbered without gaps, none is signed by its
sponsor, and none that was revoked is proposed or signed again. -/
structure Ordered (acts : List (ClassSetAct K)) : Prop where
  numbered : (acts.filter (·.isPropose)).map (·.n) =
    List.range' 1 (acts.filter (·.isPropose)).length
  twoPerson : ∀ a ∈ acts, ∀ b ∈ acts, a.isPropose = true → b.isSign = true → b.n = a.n →
    b.actor ≠ a.actor
  final : acts.Pairwise fun a b => a.isRevoke = true → b.n = a.n →
    b.isPropose = false ∧ b.isSign = false

omit voc in
/-- The acts stay ordered under a proposal of the next number, a signature by another person
than the sponsor, and nothing but revocations of what was revoked. -/
lemma Ordered.concat {acts : List (ClassSetAct K)} (h : Ordered acts) {act : ClassSetAct K}
    (hnext : act.isPropose = true → act.n = (acts.filter (·.isPropose)).length + 1)
    (hnew : ∀ b ∈ acts, act.isPropose = true → b.n ≠ act.n)
    (hperson : ∀ a ∈ acts, a.isPropose = true → act.isSign = true → act.n = a.n →
      act.actor ≠ a.actor)
    (hrevoked : ∀ a ∈ acts, a.isRevoke = true → act.n = a.n →
      act.isPropose = false ∧ act.isSign = false) : Ordered (acts ++ [act]) where
  numbered := by
    rw [List.filter_append]
    by_cases hpropose : act.isPropose = true
    · rw [List.filter_cons_of_pos hpropose, List.filter_nil, List.map_append, List.length_append,
        h.numbered, List.map_singleton, List.length_singleton, hnext hpropose, List.range'_concat,
        one_mul, Nat.add_comm 1]
    · rw [List.filter_cons_of_neg hpropose, List.filter_nil, List.append_nil]
      exact h.numbered
  twoPerson := by
    intro a ha b hb hpropose hsign hn
    rcases List.mem_append.mp ha with hina | hina
    · rcases List.mem_append.mp hb with hinb | hinb
      · exact h.twoPerson a hina b hinb hpropose hsign hn
      · obtain rfl := List.mem_singleton.mp hinb
        exact hperson a hina hpropose hsign hn
    · obtain rfl := List.mem_singleton.mp hina
      rcases List.mem_append.mp hb with hinb | hinb
      · exact absurd hn (hnew b hinb hpropose)
      · obtain rfl := List.mem_singleton.mp hinb
        cases hbody : b.body <;> simp_all [ClassSetAct.isPropose, ClassSetAct.isSign]
  final := by
    refine List.pairwise_append.mpr ⟨h.final, List.pairwise_singleton _ _,
      fun a ha b hb hr hn => ?_⟩
    obtain rfl := List.mem_singleton.mp hb
    exact hrevoked a ha hr hn

theorem ordered_of_fold {org : String} {acts : List (ClassSetAct K)} {states : States K}
    (horg : ∀ a ∈ acts, a.org = org) (h : fold voc acts = .ok states) : Ordered acts := by
  induction acts using List.reverseRecOn generalizing states with
  | nil => exact ⟨rfl, by simp, List.Pairwise.nil⟩
  | append_singleton acts act ih =>
    obtain ⟨states, s, hstates, hs, rfl⟩ := (fold_concat acts _).mp h
    have hacts : ∀ a ∈ acts, a.org = org := fun a ha => horg a (List.mem_append_left _ ha)
    have hord := ih hacts hstates
    have hfold := folded_of_fold hacts hstates
    have hact := horg act (by simp)
    rcases apply_cases hs with ⟨version, hbody, -, -, -, htop, -⟩ |
      ⟨old, hbody, hold, hstatus, hsponsor, -⟩ | ⟨old, reason, hbody, -, -, -⟩
    · rw [hact, hfold.top_eq] at htop
      have hsign : act.isSign = false := by simp [ClassSetAct.isSign, hbody]
      have hnew : ∀ a ∈ acts, a.n ≠ act.n := by
        intro a ha hn
        have := ((hfold.keys _).mp (hfold.known a ha)).2
        omega
      refine hord.concat (fun _ => htop) (fun b hb _ => hnew b hb) (fun a _ _ h => ?_)
        fun a ha _ hn => absurd hn.symm (hnew a ha)
      rw [hsign] at h
      cases h
    · have hpropose : act.isPropose = false := by simp [ClassSetAct.isPropose, hbody]
      refine hord.concat (by simp [hpropose]) (by simp [hpropose]) (fun a ha hp _ hn => ?_)
        fun a ha hr hn => ?_
      · obtain ⟨v, hv⟩ : ∃ v, a.body = .propose v := by
          cases hab : a.body <;> simp_all [ClassSetAct.isPropose]
        obtain ⟨s, hs, -, hsp⟩ := hfold.proposed a ha v hv
        rw [← hn, hold] at hs
        obtain rfl := Option.some.inj hs
        rwa [← hsp]
      · have hrevoked := (hfold.revoked _ _ hold).mpr ⟨a, ha, hn.symm, hr⟩
        rw [hstatus] at hrevoked
        cases hrevoked
    · have hpropose : act.isPropose = false := by simp [ClassSetAct.isPropose, hbody]
      have hsign : act.isSign = false := by simp [ClassSetAct.isSign, hbody]
      exact hord.concat (by simp [hpropose]) (by simp [hpropose]) (by simp [hsign])
        fun _ _ _ _ => ⟨hpropose, hsign⟩

end Fold

end CommitReplay.ClassSets
