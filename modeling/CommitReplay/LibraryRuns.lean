import CommitReplay.LibraryActs

/-! Runs of a library: what an accepted act can do to its entry, what the acts on an entry say of a signed
one, and when its two people are two. -/
namespace CommitReplay.LibraryRuns

open CommitReplay.PythonText CommitReplay.JsonValue CommitReplay.JsonText CommitReplay.GradeRows
open CommitReplay.LibraryEntries CommitReplay.LibraryActs CommitReplay.OrderedItems
open CommitReplay.ClassSets (trim isPerson)
open CommitReplay.JsonRoundTrip (Whole)
open CommitReplay.PythonRepr (pyStr)
open CommitReplay.RowChecks (bind_eq_ok)

variable {F : Type} [PyFloat F] {isWide isPrintable : Char → Bool} {sha256 : Sha256}

section Steps

/-- The rows cited were found, and the approver produced none of them. -/
def Independent (isPrintable : Char → Bool) (g : LibraryAct F) : Prop :=
  ∃ actors, g.body.lookup "row_actors" = some (.arr actors) ∧
    g.body.lookup "rows_missing" = some (.arr []) ∧ g.actor ∉ producersOf isPrintable actors

/-- What an accepted act does. -/
inductive Step (isPrintable : Char → Bool) (sha256 : Sha256) (state : Option (EntryState F isWide))
    (act : LibraryAct F) (after : EntryState F isWide) : Prop
  | propose (hact : act.act = .propose) (hid : after.entry.entryId = act.entryId)
      (hstatus : after.status = .proposed)
      (hsponsor : after.sponsor = if isPerson act.actor then act.actor else "")
  | sponsor (s : EntryState F isWide) (hs : state = some s) (hfinal : s.status.final = false)
      (hact : act.act = .sponsor) (hperson : isPerson act.actor = true) (hnone : s.sponsor = "")
      (hafter : after = { s with sponsor := act.actor, sponsoredAt := act.created, acts := s.acts + 1 })
  | sign (s : EntryState F isWide) (hs : state = some s) (hfinal : s.status.final = false)
      (hact : act.act = .sign) (hperson : isPerson act.actor = true)
      (hversion : act.version = s.entry.version sha256) (hsome : s.sponsor ≠ "")
      (hother : act.actor ≠ s.sponsor)
      (hrows : s.entry.provenance.kind = .rows → Independent isPrintable act)
      (hentry : after.entry = s.entry) (hstatus : after.status = .signed)
      (hsponsor : after.sponsor = s.sponsor) (happrover : after.approver = act.actor)
  | stale (s : EntryState F isWide) (hs : state = some s) (hfinal : s.status.final = false)
      (hact : act.act = .stale) (hentry : after.entry = s.entry) (hstatus : after.status = .stale)
      (hsponsor : after.sponsor = s.sponsor)
  | close (s : EntryState F isWide) (hs : state = some s)
      (hact : act.act = .revoke ∨ act.act = .retire) (hentry : after.entry = s.entry)
      (hfinal : after.status.final = true) (hsponsor : after.sponsor = s.sponsor)

variable {state : Option (EntryState F isWide)} {act : LibraryAct F} {after s : EntryState F isWide}

lemma needIndependentOfRows_ok {u : Unit} (h : needIndependentOfRows isPrintable act = .ok u) :
    Independent isPrintable act := by
  unfold needIndependentOfRows at h
  split at h
  · rename_i actors missing hactors hmissing
    split_ifs at h with hno hin
    exact ⟨actors, hactors, by rw [hmissing, not_not.mp hno], hin⟩
  · cases h

lemma applyPropose_ok (hact : act.act = .propose)
    (h : applyPropose isWide isPrintable sha256 state act = .ok after) :
    Step isPrintable sha256 state act after := by
  unfold applyPropose at h
  split at h
  · cases h
  · rename_i entry hentry
    split_ifs at h with hbad hactor hsame
    rw [not_or] at hbad
    obtain rfl := Except.ok.inj h
    rw [not_not] at hactor
    exact .propose hact (not_not.mp hbad.1) rfl (by rw [hactor, proposed])

lemma applySponsor_ok (hfinal : s.status.final = false) (hact : act.act = .sponsor)
    (h : applySponsor isWide sha256 s act = .ok after) : Step isPrintable sha256 (some s) act after := by
  unfold applySponsor at h
  split_ifs at h with hperson hversion hnone
  exact .sponsor s rfl hfinal hact (by simpa using hperson) (not_not.mp hnone) (Except.ok.inj h).symm

lemma applySign_ok (hfinal : s.status.final = false) (hact : act.act = .sign)
    (h : applySign isWide isPrintable sha256 s act = .ok after) :
    Step isPrintable sha256 (some s) act after := by
  unfold applySign at h
  split_ifs at h with hperson hversion hstatus hnone hsame
  · cases hrows : needIndependentOfRows isPrintable act with
    | error e => simp [hrows, Except.map] at h
    | ok u =>
      rw [hrows] at h
      obtain rfl := Except.ok.inj h
      exact .sign s rfl hfinal hact (by simpa using hperson) (not_not.mp hversion) hnone hsame
        (fun _ => needIndependentOfRows_ok hrows) rfl rfl rfl rfl
  · rename_i hkind
    obtain rfl := Except.ok.inj h
    exact .sign s rfl hfinal hact (by simpa using hperson) (not_not.mp hversion) hnone hsame
      (fun h => absurd h hkind) rfl rfl rfl rfl

lemma applyStale_ok (hfinal : s.status.final = false) (hact : act.act = .stale)
    (h : applyStale isWide isPrintable s act = .ok after) : Step isPrintable sha256 (some s) act after := by
  simp only [applyStale] at h
  split_ifs at h
  obtain rfl := Except.ok.inj h
  exact .stale s rfl hfinal hact rfl rfl rfl

lemma applyRevoke_ok (hact : act.act = .revoke) (h : applyRevoke isWide isPrintable s act = .ok after) :
    Step isPrintable sha256 (some s) act after := by
  simp only [applyRevoke] at h
  split_ifs at h
  obtain rfl := Except.ok.inj h
  exact .close s rfl (.inl hact) rfl rfl rfl

lemma applyRetire_ok (hact : act.act = .retire) (h : applyRetire isWide isPrintable s act = .ok after) :
    Step isPrintable sha256 (some s) act after := by
  unfold applyRetire at h
  dsimp only at h
  generalize (if _ = "measurement" then _ else "person" : String) = by_ at h
  split_ifs at h
  obtain rfl := Except.ok.inj h
  exact .close s rfl (.inr hact) rfl rfl rfl

theorem apply_ok (h : apply isWide isPrintable sha256 state act = .ok after) :
    Step isPrintable sha256 state act after := by
  unfold apply at h
  split_ifs at h
  cases hact : act.act with
  | propose =>
    simp only [hact] at h
    exact applyPropose_ok hact h
  | _ =>
    cases state with
    | none => simp [hact] at h
    | some s =>
      simp only [hact] at h
      split_ifs at h with hfinal
      rw [Bool.not_eq_true] at hfinal
      first
        | exact applySponsor_ok hfinal hact h
        | exact applySign_ok hfinal hact h
        | exact applyStale_ok hfinal hact h
        | exact applyRevoke_ok hact h
        | exact applyRetire_ok hact h

lemma apply_propose {act : LibraryAct F} {entry : LibraryEntry F isWide}
    (hclean : carriesCredential isWide act.hashed = false) (hact : act.act = .propose)
    (hentry : (dictAt act.body "entry").bind (LibraryEntry.fromDict isPrintable isWide) = some entry)
    (hid : entry.entryId = act.entryId) (hrepo : entry.repo = act.repo)
    (hversion : entry.version sha256 = act.version) (hactor : act.actor = entry.proposedBy) :
    apply isWide isPrintable sha256 none act = .ok (proposed entry act.created 0) := by
  unfold apply
  simp only [hclean, Bool.false_eq_true, if_false, hact]
  unfold applyPropose
  simp only [hentry, hid, hrepo, hversion, hactor, ne_eq, not_true_eq_false, or_self, if_false,
    Option.any_none, Bool.false_eq_true, Option.elim_none]

lemma apply_sign {act : LibraryAct F} {s : EntryState F isWide}
    (hclean : carriesCredential isWide act.hashed = false) (hact : act.act = .sign)
    (hopen : s.status = .proposed ∨ s.status = .stale) (hperson : isPerson act.actor = true)
    (hversion : act.version = s.entry.version sha256) (hsome : s.sponsor ≠ "")
    (hother : act.actor ≠ s.sponsor) (hkind : s.entry.provenance.kind ≠ .rows) :
    apply isWide isPrintable sha256 (some s) act = .ok (signed s act) := by
  have hfinal : s.status.final = false := by rcases hopen with h | h <;> rw [h] <;> rfl
  have hstatus : ¬(s.status ≠ .proposed ∧ s.status ≠ .stale) := by
    rcases hopen with h | h <;> simp [h]
  unfold apply
  simp only [hclean, Bool.false_eq_true, if_false, hact, hfinal]
  unfold applySign
  rw [if_neg (by simp [hperson]), if_neg (not_not.mpr hversion), if_neg hstatus, if_neg hsome, if_neg hother,
    if_neg hkind]

end Steps

section Entries

/-- What the acts on an entry, in order, say of where it stands. -/
structure Track (isPrintable : Char → Bool) (sha256 : Sha256) (id : String) (history : List (LibraryAct F))
    (s : EntryState F isWide) : Prop where
  id_eq : s.entry.entryId = id
  /-- Its last proposal: nothing has closed it since, and who sponsors it. -/
  proposed : ∃ earlier p later, history = earlier ++ p :: later ∧ p.act = .propose ∧
    (s.status.final = false → ∀ b ∈ later, b.act ≠ .retire ∧ b.act ≠ .revoke) ∧
    (s.sponsor ≠ "" → isPerson s.sponsor = true ∧
      (s.sponsor = p.actor ∨ ∃ q ∈ later, q.act = .sponsor ∧ q.actor = s.sponsor))
  /-- A signed entry's last act is its signature. -/
  signed : s.status = .signed → s.sponsor ≠ "" ∧ isPerson s.approver = true ∧
    ∃ earlier g, history = earlier ++ [g] ∧ g.act = .sign ∧ g.actor = s.approver ∧
      g.version = s.entry.version sha256 ∧
      (s.entry.provenance.kind = .rows → Independent isPrintable g)

variable {id : String} {history : List (LibraryAct F)} {state : Option (EntryState F isWide)}
  {act : LibraryAct F} {s after : EntryState F isWide}

lemma isPerson_ne {actor : String} (h : isPerson actor = true) : actor ≠ "" := by
  rintro rfl
  revert h
  decide

/-- The last proposal is still the last one after an act that is none and closes nothing. -/
lemma Track.keep (h : Track isPrintable sha256 id history s) (hsponsor : after.sponsor = s.sponsor)
    (hfinal : after.status.final = false → s.status.final = false ∧ act.act ≠ .retire ∧ act.act ≠ .revoke) :
    ∃ earlier p later, history ++ [act] = earlier ++ p :: later ∧ p.act = .propose ∧
      (after.status.final = false → ∀ b ∈ later, b.act ≠ .retire ∧ b.act ≠ .revoke) ∧
      (after.sponsor ≠ "" → isPerson after.sponsor = true ∧
        (after.sponsor = p.actor ∨ ∃ q ∈ later, q.act = .sponsor ∧ q.actor = after.sponsor)) := by
  obtain ⟨earlier, p, later, rfl, hp, hopen, hwho⟩ := h.proposed
  refine ⟨earlier, p, later ++ [act], by simp, hp, fun hf b hb => ?_, fun hs => ?_⟩
  · rcases List.mem_append.mp hb with hb | hb
    · exact hopen (hfinal hf).1 b hb
    · exact List.mem_singleton.mp hb ▸ (hfinal hf).2
  · rw [hsponsor] at hs ⊢
    obtain ⟨hperson, hfrom⟩ := hwho hs
    exact ⟨hperson, hfrom.imp_right <| Exists.imp fun q hq => hq.imp_left (List.mem_append_left _)⟩

/-- An accepted act keeps what the acts on its entry say of it. -/
lemma Track.step (h : ∀ s, state = some s → Track isPrintable sha256 act.entryId history s)
    (hstep : Step isPrintable sha256 state act after) :
    Track isPrintable sha256 act.entryId (history ++ [act]) after := by
  cases hstep with
  | propose hact hid hstatus hsponsor =>
    refine ⟨hid, ⟨history, act, [], rfl, hact, fun _ b hb => absurd hb List.not_mem_nil, fun hs => ?_⟩,
      fun hsigned => absurd (hstatus.symm.trans hsigned) (by decide)⟩
    rw [hsponsor] at hs ⊢
    split_ifs at hs ⊢ with hperson
    · exact ⟨hperson, .inl rfl⟩
    · exact absurd rfl hs
  | sponsor s hs hfinal hact hperson hnone hafter =>
    have ht := h s hs
    subst hafter
    obtain ⟨earlier, p, later, hhistory, hp, hopen, -⟩ := ht.proposed
    refine ⟨ht.id_eq, ⟨earlier, p, later ++ [act], by simp [hhistory], hp, fun hf b hb => ?_, fun _ =>
      ⟨hperson, .inr ⟨act, by simp, hact, rfl⟩⟩⟩, fun hsigned => ?_⟩
    · rcases List.mem_append.mp hb with hb | hb
      · exact hopen hf b hb
      · rw [List.mem_singleton.mp hb, hact]
        exact ⟨by decide, by decide⟩
    · exact absurd hnone (ht.signed hsigned).1
  | sign s hs hfinal hact hperson hversion hsome hother hrows hentry hstatus hsponsor happrover =>
    have ht := h s hs
    refine ⟨hentry ▸ ht.id_eq, ht.keep hsponsor fun _ => ⟨hfinal, ?_⟩, fun _ =>
      ⟨hsponsor ▸ hsome, happrover ▸ hperson, history, act, rfl, hact, happrover.symm, ?_, ?_⟩⟩
    · rw [hact]
      exact ⟨by decide, by decide⟩
    · rw [hentry, hversion]
    · rw [hentry]
      exact hrows
  | stale s hs hfinal hact hentry hstatus hsponsor =>
    have ht := h s hs
    refine ⟨hentry ▸ ht.id_eq, ht.keep hsponsor fun _ => ⟨hfinal, ?_⟩, fun hsigned =>
      absurd (hstatus.symm.trans hsigned) (by decide)⟩
    rw [hact]
    exact ⟨by decide, by decide⟩
  | close s hs hact hentry hfinal hsponsor =>
    have ht := h s hs
    refine ⟨hentry ▸ ht.id_eq, ht.keep hsponsor fun hf => absurd (hf.symm.trans hfinal) (by decide),
      fun hsigned => ?_⟩
    rw [hsigned] at hfinal
    cases hfinal

end Entries

section Runs

variable {acts : List (LibraryAct F)} {states states' : States F isWide} {act : LibraryAct F}

/-- The acts on an entry, in order. -/
def onEntry (id : String) (acts : List (LibraryAct F)) : List (LibraryAct F) :=
  acts.filter fun a => a.entryId = id

lemma fold_concat : fold isWide isPrintable sha256 (acts ++ [act]) = .ok states' ↔
    ∃ states, fold isWide isPrintable sha256 acts = .ok states ∧ ∃ after,
      apply isWide isPrintable sha256 (states.lookup act.entryId) act = .ok after ∧
      states' = setItem act.entryId after states := by
  rw [fold, List.foldlM_append, bind_eq_ok]
  refine exists_congr fun states => and_congr_right fun _ => ?_
  simp only [List.foldlM_cons, List.foldlM_nil, foldStep, bind_pure]
  cases apply isWide isPrintable sha256 (states.lookup act.entryId) act with
  | error e => simp [Except.map, Except.mapError]
  | ok after => simp [Except.map, Except.mapError, eq_comm]

/-- What a run keeps of every entry. -/
structure Tracked (isPrintable : Char → Bool) (sha256 : Sha256) (acts : List (LibraryAct F))
    (states : States F isWide) : Prop where
  keyed : Keyed states
  track : ∀ p ∈ states, Track isPrintable sha256 p.1 (onEntry p.1 acts) p.2

theorem tracked_of_fold (h : fold isWide isPrintable sha256 acts = .ok states) :
    Tracked isPrintable sha256 acts states := by
  induction acts using List.reverseRecOn generalizing states with
  | nil =>
    obtain rfl := Except.ok.inj h
    exact ⟨keyed_nil, fun p hp => absurd hp List.not_mem_nil⟩
  | append_singleton acts act ih =>
    obtain ⟨before, hbefore, after, hafter, rfl⟩ := fold_concat.mp h
    have ht := ih hbefore
    refine ⟨ht.keyed.setItem, fun p hp => ?_⟩
    rw [onEntry, List.filter_append]
    rcases (mem_setItem ht.keyed).mp hp with rfl | ⟨hp, hne⟩
    · rw [List.filter_singleton, decide_eq_true rfl]
      exact Track.step (fun s hs => ht.track _ ((lookup_eq_some_iff ht.keyed).mp hs)) (apply_ok hafter)
    · rw [List.filter_singleton, decide_eq_false (Ne.symm hne)]
      simpa [onEntry] using ht.track p hp

/-- After stale acts an entry of one is stale, and every other is as it was. -/
lemma marked_cases {marks : List (LibraryAct F)} (h : fold isWide isPrintable sha256 acts = .ok states)
    (hmarks : ∀ a ∈ marks, a.act = .stale)
    (h' : fold isWide isPrintable sha256 (acts ++ marks) = .ok states') :
    ∀ p ∈ states', p.2.status = .stale ∨ (p ∈ states ∧ ∀ a ∈ marks, a.entryId ≠ p.1) := by
  induction marks using List.reverseRecOn generalizing states' with
  | nil =>
    rw [List.append_nil, h] at h'
    obtain rfl := Except.ok.inj h'
    exact fun p hp => .inr ⟨hp, fun a ha => absurd ha List.not_mem_nil⟩
  | append_singleton marks act ih =>
    rw [← List.append_assoc] at h'
    obtain ⟨before, hbefore, after, hafter, rfl⟩ := fold_concat.mp h'
    have hkeyed := (tracked_of_fold hbefore).keyed
    have hact := hmarks act (by simp)
    intro p hp
    rcases (mem_setItem hkeyed).mp hp with rfl | ⟨hp, hne⟩
    · left
      cases apply_ok hafter with
      | stale s hs hfinal hact' hentry hstatus hsponsor => exact hstatus
      | close s hs hact' => rcases hact' with h | h <;> cases hact.symm.trans h
      | propose hact' => cases hact.symm.trans hact'
      | sponsor s hs hfinal hact' => cases hact.symm.trans hact'
      | sign s hs hfinal hact' => cases hact.symm.trans hact'
    · refine (ih (fun a ha => hmarks a (by simp [ha])) hbefore p hp).imp_right <|
        And.imp_right fun hno a ha => ?_
      rcases List.mem_append.mp ha with ha | ha
      · exact hno a ha
      · exact List.mem_singleton.mp ha ▸ Ne.symm hne

omit [PyFloat F] in
lemma judged_iff {s : EntryState F isWide} : judged s = true ↔
    s.entry.provenance.kind = .file ∧ (s.status = .proposed ∨ s.status = .signed) := by
  simp [judged]

omit [PyFloat F] in
lemma mem_staleCandidates {l : List (EntryState F isWide)} {heads : Heads} {s : EntryState F isWide}
    {now : String} : (s, now) ∈ staleCandidates l heads ↔ s ∈ l ∧ judged s = true ∧
      heads.now s.entry.provenance.path = some now ∧ now ∉ s.signedAgainst := by
  rw [staleCandidates, List.mem_filterMap]
  constructor
  · rintro ⟨t, ht, h⟩
    split_ifs at h with hjudged
    split at h
    · rename_i found hfound
      split_ifs at h with hin
      cases h
      exact ⟨ht, hjudged, hfound, hin⟩
    · cases h
  · rintro ⟨hs, hjudged, hnow, hin⟩
    refine ⟨s, hs, ?_⟩
    rw [if_pos hjudged, hnow]
    exact if_neg hin

/-- The acts that mark every candidate. -/
def Marks (isPrintable : Char → Bool) (states : States F isWide) (heads : Heads)
    (marks : List (LibraryAct F)) : Prop :=
  (∀ a ∈ marks, a.act = .stale) ∧ marks.map (fun a => (a.entryId, a.digest isPrintable)) =
    (staleCandidates (states.map Prod.snd) heads).map fun c => (c.1.entry.entryId, c.2)

/-- Once every candidate is marked none is left. -/
theorem staleCandidates_marked {heads : Heads} {marks : List (LibraryAct F)}
    (h : fold isWide isPrintable sha256 acts = .ok states) (hmarks : Marks isPrintable states heads marks)
    (h' : fold isWide isPrintable sha256 (acts ++ marks) = .ok states') :
    staleCandidates (states'.map Prod.snd) heads = [] := by
  refine List.eq_nil_iff_forall_not_mem.mpr fun c hc => ?_
  obtain ⟨s, now⟩ := c
  obtain ⟨hs, hjudged, hnow, hin⟩ := mem_staleCandidates.mp hc
  obtain ⟨p, hp, rfl⟩ := List.mem_map.mp hs
  rcases marked_cases h hmarks.1 h' p hp with hstale | ⟨hp, hno⟩
  · rw [judged_iff, hstale] at hjudged
    simp at hjudged
  · -- it was a candidate before, so one of the marks is its own
    have hcandidate : (p.1, now) ∈ marks.map fun a => (a.entryId, a.digest isPrintable) := by
      rw [hmarks.2, ← ((tracked_of_fold h).track p hp).id_eq]
      exact List.mem_map.mpr ⟨(p.2, now), mem_staleCandidates.mpr
        ⟨List.mem_map_of_mem hp, hjudged, hnow, hin⟩, rfl⟩
    obtain ⟨a, ha, he⟩ := List.mem_map.mp hcandidate
    exact hno a ha (congrArg Prod.fst he)

end Runs

section Kept

variable {acts : List (LibraryAct F)} {states : States F isWide}

/-- What holds of the signed entries of a library. -/
structure Kept (isPrintable : Char → Bool) (sha256 : Sha256) (acts : List (LibraryAct F))
    (states : States F isWide) : Prop where
  /-- Two people, with two names. -/
  people : ∀ p ∈ states, p.2.status = .signed → isPerson p.2.sponsor = true ∧
    isPerson p.2.approver = true ∧ trim p.2.sponsor ≠ trim p.2.approver
  /-- The last act on it is the approver's signature of the version that stands, of which the approver
  produced no row, so nothing made it stale since. -/
  signature : ∀ p ∈ states, p.2.status = .signed → ∃ earlier g, onEntry p.1 acts = earlier ++ [g] ∧
    g.act = .sign ∧ g.actor = p.2.approver ∧ g.version = p.2.entry.version sha256 ∧
    (p.2.entry.provenance.kind = .rows → Independent isPrintable g)
  /-- After it was retired or revoked it was proposed again, sponsored and signed. -/
  renewed : ∀ p ∈ states, p.2.status = .signed → ∀ before a behind, onEntry p.1 acts = before ++ a :: behind →
    (a.act = .retire ∨ a.act = .revoke) → ∃ between q later g, behind = between ++ q :: (later ++ [g]) ∧
      q.act = .propose ∧ g.act = .sign ∧
      (p.2.sponsor = q.actor ∨ ∃ r ∈ later, r.act = .sponsor ∧ r.actor = p.2.sponsor)
  /-- Once every candidate is marked stale none is left, and what is signed vouches for its file. -/
  marked : ∀ heads marks states', Marks isPrintable states heads marks →
    fold isWide isPrintable sha256 (acts ++ marks) = .ok states' →
    staleCandidates (states'.map Prod.snd) heads = [] ∧ ∀ p ∈ states', p.2.status = .signed →
      p.2.entry.provenance.kind = .file → ∀ now, heads.now p.2.entry.provenance.path = some now →
        now ∈ p.2.signedAgainst

/-- Every signature is by somebody whose name is the standing sponsor's as it is written, if it is the
sponsor's at all. -/
def Spelled (isWide isPrintable : Char → Bool) (sha256 : Sha256) (acts : List (LibraryAct F)) : Prop :=
  ∀ before a, before ++ [a] <+: acts → a.act = .sign → ∀ states : States F isWide,
    fold isWide isPrintable sha256 before = .ok states → ∀ s, states.lookup a.entryId = some s →
      trim a.actor = trim s.sponsor → a.actor = s.sponsor

lemma Spelled.of_prefix {acts' : List (LibraryAct F)} (h : Spelled isWide isPrintable sha256 acts)
    (hle : acts' <+: acts) : Spelled isWide isPrintable sha256 acts' :=
  fun before a ha => h before a (ha.trans hle)

/-- A run of spelled signatures has two people behind every signed entry. -/
lemma Spelled.people (h : Spelled isWide isPrintable sha256 acts)
    (hfold : fold isWide isPrintable sha256 acts = .ok states) :
    ∀ p ∈ states, p.2.status = .signed → trim p.2.sponsor ≠ trim p.2.approver := by
  induction acts using List.reverseRecOn generalizing states with
  | nil =>
    obtain rfl := Except.ok.inj hfold
    exact fun p hp => absurd hp List.not_mem_nil
  | append_singleton acts act ih =>
    obtain ⟨before, hbefore, after, hafter, rfl⟩ := fold_concat.mp hfold
    have ht := tracked_of_fold hbefore
    intro p hp hsigned
    rcases (mem_setItem ht.keyed).mp hp with rfl | ⟨hp, -⟩
    · cases apply_ok hafter with
      | propose hact hid hstatus => cases hstatus.symm.trans hsigned
      | sponsor s hs hfinal hact hperson hnone hafter =>
        subst hafter
        have htrack := ht.track _ ((lookup_eq_some_iff ht.keyed).mp hs)
        exact absurd hnone (htrack.signed hsigned).1
      | sign s hs hfinal hact hperson hversion hsome hother hrows hentry hstatus hsponsor happrover =>
        show trim after.sponsor ≠ trim after.approver
        rw [hsponsor, happrover]
        exact fun he => hother (h acts act List.prefix_rfl hact before hbefore s hs he.symm)
      | stale s hs hfinal hact hentry hstatus => cases hstatus.symm.trans hsigned
      | close s hs hact hentry hfinal =>
        rw [show after.status = .signed from hsigned] at hfinal
        cases hfinal
    · exact ih (h.of_prefix (List.prefix_append _ _)) hbefore p hp hsigned

/-- The last proposal of a signed entry is behind all that closed it. -/
lemma Track.renewed {id : String} {history : List (LibraryAct F)} {s : EntryState F isWide}
    (h : Track isPrintable sha256 id history s) (hsigned : s.status = .signed)
    {before behind : List (LibraryAct F)} {a : LibraryAct F} (ha : history = before ++ a :: behind)
    (hclosed : a.act = .retire ∨ a.act = .revoke) :
    ∃ between q later g, behind = between ++ q :: (later ++ [g]) ∧ q.act = .propose ∧ g.act = .sign ∧
      (s.sponsor = q.actor ∨ ∃ r ∈ later, r.act = .sponsor ∧ r.actor = s.sponsor) := by
  obtain ⟨earlier, p, later, hp, hpropose, hopen, hwho⟩ := h.proposed
  obtain ⟨hsome, -, first, g, hg, hsign, -⟩ := h.signed hsigned
  have hopen := hopen (by rw [hsigned]; rfl)
  have hne : a ≠ p := by
    rintro rfl
    rcases hclosed with h | h <;> cases hpropose.symm.trans h
  obtain ⟨between, rfl⟩ : ∃ between, behind = between ++ p :: later := by
    rcases List.append_eq_append_iff.mp (ha.symm.trans hp) with ⟨x, -, hx⟩ | ⟨x, -, hx⟩
    · cases x with
      | nil => exact absurd (List.cons.inj hx).1 hne
      | cons y x => exact ⟨x, (List.cons.inj hx).2⟩
    · cases x with
      | nil => exact absurd (List.cons.inj hx).1.symm hne
      | cons y x =>
        have hin : a ∈ later := (List.cons.inj hx).2 ▸ List.mem_append_right x List.mem_cons_self
        rcases hclosed with h | h
        · exact absurd h (hopen a hin).1
        · exact absurd h (hopen a hin).2
  rcases List.eq_nil_or_concat later with rfl | ⟨rest, b, rfl⟩
  · have hlast := congrArg List.getLast? (hp.symm.trans hg)
    simp only [List.getLast?_append, List.getLast?_singleton, Option.some_or, Option.some.injEq] at hlast
    cases hpropose.symm.trans (hlast ▸ hsign)
  · rw [List.concat_eq_append] at *
    have hlast := congrArg List.getLast? (hp.symm.trans hg)
    rw [← List.cons_append, ← List.append_assoc, List.getLast?_concat, List.getLast?_concat] at hlast
    obtain rfl := Option.some.inj hlast
    refine ⟨between, p, rest, b, rfl, hpropose, hsign, (hwho hsome).2.imp_right ?_⟩
    rintro ⟨q, hq, hqs, hqa⟩
    rcases List.mem_append.mp hq with hq | hq
    · exact ⟨q, hq, hqs, hqa⟩
    · rw [List.mem_singleton.mp hq] at hqs
      cases hqs.symm.trans hsign

theorem kept_of_spelled (h : Spelled isWide isPrintable sha256 acts)
    (hfold : fold isWide isPrintable sha256 acts = .ok states) : Kept isPrintable sha256 acts states := by
  have ht := tracked_of_fold hfold
  refine ⟨fun p hp hsigned => ?_, fun p hp hsigned => ((ht.track p hp).signed hsigned).2.2,
    fun p hp hsigned before a behind ha hclosed => (ht.track p hp).renewed hsigned ha hclosed,
    fun heads marks states' hmarks h' => ?_⟩
  · obtain ⟨hsome, hperson, -⟩ := (ht.track p hp).signed hsigned
    obtain ⟨earlier, q, later, -, -, -, hwho⟩ := (ht.track p hp).proposed
    exact ⟨(hwho hsome).1, hperson, h.people hfold p hp hsigned⟩
  · have hnone := staleCandidates_marked hfold hmarks h'
    refine ⟨hnone, fun p hp hsigned hkind now hnow => ?_⟩
    by_contra hin
    have hc := mem_staleCandidates.mpr ⟨List.mem_map_of_mem hp,
      judged_iff.mpr ⟨hkind, .inr hsigned⟩, hnow, hin⟩
    rw [hnone] at hc
    cases hc

/-- What holds of the signed entries holds wherever a run stands if and only if every signature of the run
is spelled. -/
theorem kept_iff_spelled (h : fold isWide isPrintable sha256 acts = .ok states) :
    (∀ before, before <+: acts → ∀ states : States F isWide,
      fold isWide isPrintable sha256 before = .ok states → Kept isPrintable sha256 before states) ↔
    Spelled isWide isPrintable sha256 acts := by
  constructor
  · rintro hkept before a ⟨rest, rfl⟩ hsign st hst s hs htrim
    rw [fold, List.foldlM_append] at h
    obtain ⟨st', hst', -⟩ := bind_eq_ok.mp h
    have hpeople := (hkept (before ++ [a]) (List.prefix_append _ _) st' hst').people
    obtain ⟨st₀, hst₀, after, hafter, rfl⟩ := fold_concat.mp hst'
    obtain rfl := Except.ok.inj (hst.symm.trans hst₀)
    have hin : (a.entryId, after) ∈ setItem a.entryId after st :=
      (mem_setItem (tracked_of_fold hst).keyed).mpr (.inl rfl)
    cases apply_ok hafter with
    | sign s' hs' hfinal hact hperson hversion hsome hother hrows hentry hstatus hsponsor happrover =>
      obtain rfl := Option.some.inj (hs.symm.trans hs')
      have hne := (hpeople _ hin hstatus).2.2
      rw [show (a.entryId, after).2.sponsor = s.sponsor from hsponsor,
        show (a.entryId, after).2.approver = a.actor from happrover] at hne
      exact absurd htrim.symm hne
    | propose hact => cases hsign.symm.trans hact
    | sponsor s hs hfinal hact => cases hsign.symm.trans hact
    | stale s hs hfinal hact => cases hsign.symm.trans hact
    | close s hs hact => rcases hact with hact | hact <;> cases hsign.symm.trans hact
  · exact fun hspelled before hle states hfold => kept_of_spelled (hspelled.of_prefix hle) hfold

end Kept

section Samples

def noChar (_ : Char) : Bool := false

def sampleProvenance : Provenance := ⟨⟨.person, "", "", "", [], "alice"⟩, by rfl⟩

def sampleFields : EntryFields where
  repo := "calc"
  kind := .decision
  slug := "io"
  title := "files"
  statement := "read once"
  provenance := sampleProvenance
  proposedBy := "alice"
  components := []
  workTypes := []
  characteristic := ""
  check := ""
  parentClass := ""
  examples := []
  slots := []

lemma sample_valid : sampleFields.postInit Whole noChar = true := by
  have hclean : (sampleFields.contentValues (F := Whole)).all (fun v => (texts v).all unmarked) = true := by
    rfl
  refine Bool.and_eq_true_iff.mpr ⟨by rfl, List.all_eq_true.mpr fun v hv => ?_⟩
  rw [carriesCredential_eq_false (List.all_eq_true.mp hclean v hv)]
  rfl

def sampleEntry : LibraryEntry Whole noChar := ⟨sampleFields, sample_valid⟩

def sampleBody : List (String × Json Whole) :=
  [("repo", .str "calc"), ("kind", .str "decision"), ("slug", .str "io"), ("title", .str "files"),
    ("statement", .str "read once"), ("proposed_by", .str "alice"),
    ("provenance", .obj [("kind", .str "person"), ("person", .str "alice")])]

lemma stripped_sample : sampleFields.stripped = sampleFields := by rfl

lemma fromDict_sample : LibraryEntry.fromDict noChar noChar sampleBody = some sampleEntry := by
  have hprovenance : (dictAt sampleBody "provenance").bind (Provenance.fromDict noChar) =
      some sampleProvenance := by rfl
  have hmake : LibraryEntry.make noChar sampleFields = some sampleEntry := by
    simp only [LibraryEntry.make, stripped_sample]
    exact dif_pos sample_valid
  rw [← hmake, LibraryEntry.fromDict, hprovenance]
  simp [textAt, textsAt, sampleBody, List.lookup_cons, pyStr, Kind.ofName, Kind.name, sampleFields]

/-- A digest of which the empty text is the only one of its kind. -/
def sampleDigest : Sha256 := markDigest []

def sampleVersion : String := String.ofList (List.replicate 64 'b')

lemma sampleDigest_hex {text : Text} (h : text ≠ []) : sampleDigest.hex text = sampleVersion := by
  exact congrArg (fun c => String.ofList (List.replicate 64 c)) (if_neg h)

lemma canonicalJson_obj_ne (ps : List (String × Json Whole)) : canonicalJson (.obj ps) ≠ [] := by
  rw [canonicalJson, dumps]
  exact List.cons_ne_nil _ _

lemma version_sample : sampleEntry.version sampleDigest = sampleVersion :=
  sampleDigest_hex (canonicalJson_obj_ne _)

def sampleAct (kind : ActKind) (actor : String) (body : List (String × Json Whole)) : LibraryAct Whole :=
  ⟨"a1", "crb.library.v1", "calc", "decision/io", sampleVersion, kind, actor, "now", body, ""⟩

def sampleActs (approver : String) : List (LibraryAct Whole) :=
  [sampleAct .propose "alice" [("entry", .obj sampleBody)], sampleAct .sign approver []]

def sampleState : EntryState Whole noChar := proposed sampleEntry "now" 0

lemma sampleState_sponsor : sampleState.sponsor = "alice" := by rfl

lemma unmarked_version : unmarked sampleVersion = true := by
  rfl

lemma clean_sample {kind : ActKind} {actor : String} {body : List (String × Json Whole)}
    (hactor : unmarked actor = true) (hbody : (textsFields body).all unmarked = true) :
    carriesCredential noChar (sampleAct kind actor body).hashed = false := by
  refine carriesCredential_eq_false ?_
  have hkind : unmarked kind.name = true := by cases kind <;> rfl
  have hkeys : ["act_id", "a1", "schema", "crb.library.v1", "repo", "calc", "entry_id", "decision/io",
    "version", "act", "actor", "created", "now", "body", "prev_hash", ""].all unmarked = true := by
    rfl
  simp only [List.all_cons, List.all_nil, Bool.and_true, Bool.and_eq_true] at hkeys
  simp only [LibraryAct.hashed, sampleAct, texts, textsFields, textsField, List.all_append, List.all_cons,
    List.all_nil, hactor, hbody, hkind, unmarked_version, hkeys, Bool.and_true]

lemma dictAt_self {key : String} {ps : List (String × Json F)} : dictAt [(key, .obj ps)] key = some ps := by
  rw [dictAt, List.lookup_cons_self]
  cases ps <;> rfl

lemma apply_propose_sample : apply noChar noChar sampleDigest none
    (sampleAct .propose "alice" [("entry", .obj sampleBody)]) = .ok sampleState := by
  refine apply_propose (clean_sample (by rfl) (by rfl)) rfl ?_ (by rfl) rfl
    version_sample rfl
  rw [show (sampleAct .propose "alice" [("entry", .obj sampleBody)]).body = [("entry", .obj sampleBody)] from rfl,
    dictAt_self, Option.bind_some, fromDict_sample]

lemma apply_sign_sample {approver : String} (hclean : unmarked approver = true)
    (hperson : isPerson approver = true) (hother : approver ≠ "alice") :
    apply noChar noChar sampleDigest (some sampleState) (sampleAct .sign approver []) =
      .ok (signed sampleState (sampleAct .sign approver [])) := by
  refine apply_sign (clean_sample hclean rfl) rfl (.inl rfl) hperson version_sample.symm ?_ ?_ ?_
  · rw [sampleState_sponsor]
    decide
  · rw [sampleState_sponsor]
    exact hother
  · decide

/-- Any person but the proposer, by the letter, can sign the proposal. -/
lemma fold_sample {approver : String} (hclean : unmarked approver = true) (hperson : isPerson approver = true)
    (hother : approver ≠ "alice") : fold noChar noChar sampleDigest (sampleActs approver) =
      .ok [("decision/io", signed sampleState (sampleAct .sign approver []))] := by
  have hpropose : fold noChar noChar sampleDigest [sampleAct .propose "alice" [("entry", .obj sampleBody)]] =
      .ok [("decision/io", sampleState)] := by
    rw [← List.nil_append [_], fold_concat]
    exact ⟨[], rfl, _, apply_propose_sample, rfl⟩
  rw [sampleActs, ← List.singleton_append, fold_concat]
  exact ⟨_, hpropose, _, apply_sign_sample hclean hperson hother, rfl⟩

theorem kept_iff_spelled_sample : ∃ states, fold noChar noChar sampleDigest (sampleActs "bob") = .ok states ∧
    ((∀ before, before <+: sampleActs "bob" → ∀ states : States Whole noChar,
      fold noChar noChar sampleDigest before = .ok states → Kept noChar sampleDigest before states) ↔
    Spelled noChar noChar sampleDigest (sampleActs "bob")) := by
  have hrun : fold noChar noChar sampleDigest (sampleActs "bob") = .ok _ :=
    fold_sample (by rfl) (by rfl) (by decide)
  exact ⟨_, hrun, kept_iff_spelled hrun⟩

/-- A run can reach a signed entry whose two people are one. -/
theorem not_forall_two_people : ¬ ∀ (acts : List (LibraryAct Whole)) (states : States Whole noChar),
    fold noChar noChar sampleDigest acts = .ok states → ∀ p ∈ states, p.2.status = .signed →
      trim p.2.sponsor ≠ trim p.2.approver := by
  intro h
  have hrun : fold noChar noChar sampleDigest (sampleActs "alice ") = .ok _ :=
    fold_sample (by rfl) (by rfl) (by decide)
  refine h _ _ hrun _ (List.mem_singleton.mpr rfl) rfl ?_
  show trim sampleState.sponsor = trim "alice "
  rw [sampleState_sponsor]
  rfl

end Samples

end CommitReplay.LibraryRuns
