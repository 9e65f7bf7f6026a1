import CommitReplay.PostureGates

/-! What stands in the store of qualifications. A record measured before a set failed or a gold went red, and
appended after what it should have ended with, stands; without such an append nothing does. -/
namespace CommitReplay.StandingRecords

open CommitReplay.TransitionRuns CommitReplay.PostureGates

variable {P ι : Type}

section Rows

lemma latest_append (rows : List (Row P)) (r : Row P) (p : Place) :
    latest (rows ++ [r]) p = if r.record.place = p then some r else latest rows p := by
  unfold latest
  rw [List.filter_append]
  split_ifs with h
  · rw [List.filter_cons_of_pos (by simpa using h), List.filter_nil, List.getLast?_concat]
  · rw [List.filter_cons_of_neg (by simpa using h), List.filter_nil, List.append_nil]

lemma place_of_latest {rows : List (Row P)} {p : Place} {r : Row P} (h : latest rows p = some r) :
    r.record.place = p := by
  simpa using List.of_mem_filter (List.mem_of_getLast? h)

lemma mem_citing {rows : List (Row P)} {p : Place} {r : Row P} {key : String} (h : latest rows p = some r)
    (hq : r.record.isQualified = true) (hk : key ∈ r.record.keys) : r.record ∈ citing rows [key] := by
  have hmem : r ∈ rows := List.mem_of_mem_filter (List.mem_of_getLast? h)
  refine List.mem_filter.mpr ⟨List.mem_map_of_mem (List.mem_filterMap.mpr ⟨p, ?_, h⟩), ?_⟩
  · simp only [placesOf, List.mem_reverse, List.mem_dedup]
    exact place_of_latest h ▸ List.mem_map_of_mem hmem
  · rw [hq, Bool.true_and]
    exact List.any_eq_true.mpr ⟨key, hk, by simp⟩

/-- Of the records in force, the qualified ones that cite the key were measured since, but at some places. -/
def Cleared (rows : List (Row P)) (key : String) (since : ℕ) (but : Place → Prop) : Prop :=
  ∀ p r, latest rows p = some r → r.record.isQualified = true → key ∈ r.record.keys → since ≤ r.began ∨ but p

lemma Cleared.append {rows : List (Row P)} {key : String} {since : ℕ} {but but' : Place → Prop} {r : Row P}
    (h : Cleared rows key since but) (hr : r.record.isQualified = true → key ∈ r.record.keys → since ≤ r.began)
    (hbut : ∀ p, p ≠ r.record.place → but p → but' p) : Cleared (rows ++ [r]) key since but' := by
  intro p x hx hq hk
  rw [latest_append] at hx
  split_ifs at hx with hp
  · obtain rfl := Option.some.inj hx
    exact .inl (hr hq hk)
  · exact (h p x hx hq hk).imp_right (hbut p fun he => hp he.symm)

@[simp] lemma isQualified_revoked (newId code actor reason runId : String) (q : Qualification P) :
    (revoked newId code actor reason runId q).isQualified = false := rfl

@[simp] lemma place_revoked (newId code actor reason runId : String) (q : Qualification P) :
    (revoked newId code actor reason runId q).place = q.place := rfl

@[simp] lemma place_ownView (key reason : String) (q : Qualification P) :
    (ownView key reason q).place = q.place := by
  unfold ownView
  split_ifs <;> rfl

end Rows

section Invariant

/-- The key failed, and that was all that had happened then. -/
def FailedAt (hist : List (Entry ι)) (key : String) (since : ℕ) : Prop :=
  ∃ n, since = n + 1 ∧ hist[n]? = some (.failed key)

lemma FailedAt.append {hist : List (Entry ι)} {key : String} {since : ℕ} (h : FailedAt hist key since)
    (more : List (Entry ι)) : FailedAt (hist ++ more) key since := by
  obtain ⟨n, hn, hkey⟩ := h
  exact ⟨n, hn, by rw [List.getElem?_append_left (List.getElem?_eq_some_iff.mp hkey).1, hkey]⟩

lemma getElem?_concat {hist : List (Entry ι)} {e e' : Entry ι} {n : ℕ} (h : (hist ++ [e])[n]? = some e') :
    (n < hist.length ∧ hist[n]? = some e') ∨ (n = hist.length ∧ e = e') := by
  obtain hlt | rfl | hgt := Nat.lt_trichotomy n hist.length
  · exact .inl ⟨hlt, by rwa [List.getElem?_append_left hlt] at h⟩
  · exact .inr ⟨rfl, by simpa using h⟩
  · rw [List.getElem?_eq_none (by rw [List.length_append, List.length_singleton]; omega)] at h
    cases h

/-- What a gate in the middle of a phase knows. -/
def PhaseOk (rows : List (Row P)) (hist : List (Entry ι)) (g : Gate P) : Phase P → Prop
  | .idle | .measuring .. => True
  | .measured q _ => q.place = g.placeOf q.taskId
  | .refused key since => FailedAt hist key since
  | .revoking key since todo => Entry.read key since ∈ hist ∧ Cleared rows key since fun p => ∃ q ∈ todo, q.place = p
  | .grading task | .controlled task _ _ => ∃ q, g.qualifications task = some q ∧ q.isQualified = true

structure GateOk (i : ι) (rows : List (Row P)) (hist : List (Entry ι)) (g : Gate P) : Prop where
  own : ∀ task q, g.qualifications task = some q → q.place = g.placeOf task
  known : ∀ task q, g.known task = some q → q.place = g.placeOf task
  verified : ∀ k ∈ g.verified, Entry.intact i k ∈ hist
  phase : PhaseOk rows hist g g.phase

/-- The gate of a control that ran red has not yet heard of it. -/
def Unheard (s : State P ι) (p : Place) (since : ℕ) : Prop :=
  ∃ i task error, (s.gates i).phase = .controlled task error since ∧ (s.gates i).placeOf task = p

structure Sound (s : State P ι) : Prop where
  gates : ∀ i, GateOk i s.rows s.log (s.gates i)
  read : ∀ key since, Entry.read key since ∈ s.log → FailedAt s.log key since
  returned : ∀ key since, Entry.returned key since ∈ s.log → Entry.read key since ∈ s.log ∧
    Cleared s.rows key since fun _ => False
  red : ∀ n p, s.log[n]? = some (.red p) → .revokedRed p (n + 1) ∈ s.log ∨ Unheard s p (n + 1)
  revokedRed : ∀ p since, Entry.revokedRed p since ∈ s.log → ∀ r, latest s.rows p = some r →
    r.record.isQualified = true → since ≤ r.began
  context : ∀ n i task keys, s.log[n]? = some (.context i task keys) → ∀ k ∈ keys,
    Entry.intact i k ∈ s.log.take n

variable {i : ι} {rows : List (Row P)} {hist : List (Entry ι)} {g : Gate P}

lemma GateOk.midst (h : GateOk i rows hist g) {phase : Phase P} (hp : g.phase = phase) :
    PhaseOk rows hist g phase := hp ▸ h.phase

lemma GateOk.push (h : GateOk i rows hist g) (more : List (Entry ι)) : GateOk i rows (hist ++ more) g where
  own := h.own
  known := h.known
  verified k hk := List.mem_append_left _ (h.verified k hk)
  phase := by
    have hp := h.phase
    revert hp
    cases g.phase with
    | refused key since => exact fun hp => hp.append more
    | revoking key since todo => exact fun hp => ⟨List.mem_append_left _ hp.1, hp.2⟩
    | _ => exact id

/-- A row that was measured since every reading of the table for a set it cites. -/
lemma GateOk.row (h : GateOk i rows hist g) {r : Row P} (hr : r.record.isQualified = true →
    ∀ key since, Entry.read key since ∈ hist → key ∈ r.record.keys → since ≤ r.began) :
    GateOk i (rows ++ [r]) hist g where
  own := h.own
  known := h.known
  verified := h.verified
  phase := by
    have hp := h.phase
    revert hp
    cases g.phase with
    | revoking key since todo =>
      exact fun hp => ⟨hp.1, hp.2.append (fun hq hk => hr hq key since hp.1 hk) fun _ _ hb => hb⟩
    | _ => exact id

/-- Of no red control the gate has yet to hear. -/
def Heard : Phase P → Prop
  | .controlled .. => False
  | _ => True

end Invariant

section Moves

variable [DecidableEq ι] {s : State P ι} {i : ι} {g : Gate P}

omit [DecidableEq ι] in
lemma Sound.sets (h : Sound s) (sets : String → SetState) : Sound { s with sets } :=
  ⟨h.gates, h.read, h.returned, h.red, h.revokedRed, h.context⟩

omit [DecidableEq ι] in
/-- A row that was measured since what it should have ended with. -/
lemma Sound.row (h : Sound s) {r : Row P} (hread : r.record.isQualified = true →
      ∀ key since, Entry.read key since ∈ s.log → key ∈ r.record.keys → since ≤ r.began)
    (hred : r.record.isQualified = true →
      ∀ since, Entry.revokedRed r.record.place since ∈ s.log → since ≤ r.began) :
    Sound { s with rows := s.rows ++ [r] } where
  gates j := (h.gates j).row hread
  read := h.read
  returned key since hmem := by
    obtain ⟨hr, hclear⟩ := h.returned key since hmem
    exact ⟨hr, hclear.append (fun hq hk => hread hq key since hr hk) fun _ _ hb => hb⟩
  red := h.red
  revokedRed p since hmem x hx hq := by
    rw [latest_append] at hx
    split_ifs at hx with hp
    · obtain rfl := Option.some.inj hx
      exact hred hq since (hp ▸ hmem)
    · exact h.revokedRed p since hmem x hx hq
  context := h.context

omit [DecidableEq ι] in
/-- An entry is added that is as the entries of its kind are. -/
lemma Sound.entry (h : Sound s) (e : Entry ι)
    (hread : ∀ key since, e = .read key since → FailedAt s.log key since)
    (hret : ∀ key since, e = .returned key since → Entry.read key since ∈ s.log ∧
      Cleared s.rows key since fun _ => False)
    (hred : ∀ p, e = .red p → Unheard s p (s.log.length + 1))
    (hrev : ∀ p since, e = .revokedRed p since → ∀ r, latest s.rows p = some r →
      r.record.isQualified = true → since ≤ r.began)
    (hctx : ∀ j task keys, e = .context j task keys → ∀ k ∈ keys, Entry.intact j k ∈ s.log) :
    Sound { s with log := s.log ++ [e] } where
  gates j := (h.gates j).push [e]
  read key since hmem := by
    obtain hmem | hmem := List.mem_append.mp hmem
    · exact (h.read key since hmem).append [e]
    · exact (hread key since (List.mem_singleton.mp hmem).symm).append [e]
  returned key since hmem := by
    obtain ⟨hr, hc⟩ : Entry.read key since ∈ s.log ∧ Cleared s.rows key since fun _ => False := by
      obtain hmem | hmem := List.mem_append.mp hmem
      · exact h.returned key since hmem
      · exact hret key since (List.mem_singleton.mp hmem).symm
    exact ⟨List.mem_append_left _ hr, hc⟩
  red n p hn := by
    obtain ⟨-, hn⟩ | ⟨rfl, he⟩ := getElem?_concat hn
    · exact (h.red n p hn).imp_left (List.mem_append_left _)
    · exact .inr (hred p he)
  revokedRed p since hmem := (List.mem_append.mp hmem).elim (h.revokedRed p since) fun hmem =>
    hrev p since (List.mem_singleton.mp hmem).symm
  context n j task keys hn k hk := by
    obtain ⟨hlt, hn⟩ | ⟨rfl, he⟩ := getElem?_concat hn
    · rw [List.take_append_of_le_length (Nat.le_of_lt hlt)]
      exact h.context n j task keys hn k hk
    · rw [List.take_left]
      exact hctx j task keys he k hk

lemma Sound.setGate (h : Sound s) (hg : GateOk i s.rows s.log g) (hc : ∀ task error since,
      (s.gates i).phase = .controlled task error since →
      Entry.revokedRed ((s.gates i).placeOf task) since ∈ s.log) : Sound (s.setGate i g) where
  gates j := by
    dsimp only [State.setGate]
    by_cases hj : j = i
    · subst hj
      rw [Function.update_self]
      exact hg
    · rw [Function.update_of_ne hj]
      exact h.gates j
  read := h.read
  returned := h.returned
  red n p hn := by
    obtain hrev | ⟨j, task, error, hp, hplace⟩ := h.red n p hn
    · exact .inl hrev
    by_cases hj : j = i
    · subst hj
      exact .inl (hplace ▸ hc task error (n + 1) hp)
    · have hgate : (s.setGate i g).gates j = s.gates j := Function.update_of_ne hj _ _
      exact .inr ⟨j, task, error, by rw [hgate, hp], by rw [hgate, hplace]⟩
  revokedRed := h.revokedRed
  context := h.context

lemma Sound.move (h : Sound s) (hp : Heard (s.gates i).phase) {g : Gate P} (hg : GateOk i s.rows s.log g) :
    Sound (s.setGate i g) := by
  refine h.setGate hg fun task error since hc => ?_
  rw [hc] at hp
  exact hp.elim

end Moves

section Sealing

variable [DecidableEq ι] {s s' s'' : State P ι} {i : ι}

/-- Sets were sealed, hashed and quarantined; nothing else happened. -/
structure Idled (i : ι) (s s' : State P ι) : Prop where
  sound : Sound s'
  log : s.log <+: s'.log
  phase : (s'.gates i).phase = (s.gates i).phase
  own : (s'.gates i).qualifications = (s.gates i).qualifications

omit [DecidableEq ι] in
lemma Idled.refl (h : Sound s) : Idled i s s := ⟨h, List.prefix_refl _, rfl, rfl⟩

omit [DecidableEq ι] in
lemma Idled.trans (h : Idled i s s') (h' : Idled i s' s'') : Idled i s s'' :=
  ⟨h'.sound, h.log.trans h'.log, h'.phase.trans h.phase, h'.own.trans h.own⟩

/-- An idle gate notes what it resolved, hashed or found whole. -/
lemma Sound.idled_setGate (h : Sound s) (hp : (s.gates i).phase = .idle) {g : Gate P}
    (hplace : g.placeOf = (s.gates i).placeOf) (hown : g.qualifications = (s.gates i).qualifications)
    (hknown : g.known = (s.gates i).known) (hphase : g.phase = .idle)
    (hver : ∀ k ∈ g.verified, Entry.intact i k ∈ s.log) : Idled i s (s.setGate i g) where
  sound := by
    have hg := h.gates i
    refine h.move (by rw [hp]; trivial) ⟨?_, ?_, hver, by rw [hphase]; trivial⟩
    · rw [hplace, hown]
      exact hg.own
    · rw [hplace, hknown]
      exact hg.known
  log := List.prefix_refl _
  phase := by simp only [State.setGate, Function.update_self, hphase, hp]
  own := by simp only [State.setGate, Function.update_self, hown]

omit [DecidableEq ι] in
lemma Sound.quarantined (h : Sound s) (key : String) : Sound { s with log := s.log ++ [.quarantined key] } :=
  h.entry _ (fun _ _ he => nomatch he) (fun _ _ he => nomatch he) (fun _ he => nomatch he)
    (fun _ _ he => nomatch he) fun _ _ _ he => nomatch he

omit [DecidableEq ι] in
lemma Sound.failed (h : Sound s) (key : String) : Sound { s with log := s.log ++ [.failed key] } :=
  h.entry _ (fun _ _ he => nomatch he) (fun _ _ he => nomatch he) (fun _ he => nomatch he)
    (fun _ _ he => nomatch he) fun _ _ _ he => nomatch he

omit [DecidableEq ι] in
lemma Sound.intact (h : Sound s) (key : String) : Sound { s with log := s.log ++ [.intact i key] } :=
  h.entry _ (fun _ _ he => nomatch he) (fun _ _ he => nomatch he) (fun _ he => nomatch he)
    (fun _ _ he => nomatch he) fun _ _ _ he => nomatch he

lemma idled_sealOrReuse (h : Sound s) (hp : (s.gates i).phase = .idle) (key : String) :
    Idled i s (sealOrReuse s i key) := by
  unfold sealOrReuse
  cases s.sets key with
  | absent => exact ⟨h.sets _, List.prefix_refl _, rfl, rfl⟩
  | intact => exact h.idled_setGate hp rfl rfl rfl hp (h.gates i).verified
  | damaged =>
    dsimp only
    split_ifs with hw
    · exact .refl h
    · exact ⟨(h.quarantined key).sets _, List.prefix_append _ _, rfl, rfl⟩

lemma idled_foldl (h : Sound s) (hp : (s.gates i).phase = .idle) (keys : List String) :
    Idled i s (keys.foldl (fun s key => sealOrReuse s i key) s) := by
  induction keys generalizing s with
  | nil => exact .refl h
  | cons key keys ih =>
    have h₁ := idled_sealOrReuse h hp key
    exact h₁.trans (ih h₁.sound (h₁.phase.trans hp))

omit [DecidableEq ι] in
lemma idled_verify (h : Sound s) (keys : List String) : Idled i s (verify s i keys).1 := by
  induction keys generalizing s with
  | nil => exact .refl h
  | cons key keys ih =>
    unfold verify
    cases s.sets key with
    | intact =>
      have h₁ : Idled i s { s with log := s.log ++ [.intact i key] } :=
        ⟨h.intact key, List.prefix_append _ _, rfl, rfl⟩
      exact h₁.trans (ih h₁.sound)
    | absent => exact ⟨h.failed key, List.prefix_append _ _, rfl, rfl⟩
    | damaged =>
      refine ⟨?_, List.prefix_append _ _, rfl, rfl⟩
      have h₁ := ((h.quarantined key).failed key).sets (Function.update s.sets key .absent)
      rwa [show s.log ++ [.quarantined key, .failed key] = s.log ++ [.quarantined key] ++ [.failed key] by simp]

omit [DecidableEq ι] in
lemma intact_of_verify (hs : Sound s) {keys : List String} (h : (verify s i keys).2 = none) :
    ∀ k ∈ keys, Entry.intact i k ∈ (verify s i keys).1.log := by
  induction keys generalizing s with
  | nil => intro k hk; cases hk
  | cons key keys ih =>
    unfold verify at h ⊢
    cases hset : s.sets key with
    | intact =>
      rw [hset] at h
      have h₁ := hs.intact (i := i) key
      intro k hk
      obtain rfl | hk := List.mem_cons.mp hk
      · exact (idled_verify h₁ keys).log.subset (List.mem_append_right _ (List.mem_singleton_self _))
      · exact ih h₁ h k hk
    | absent => rw [hset] at h; cases h
    | damaged => rw [hset] at h; cases h

omit [DecidableEq ι] in
lemma failedAt_of_verify {keys : List String} {key : String} (h : (verify s i keys).2 = some key) :
    FailedAt (verify s i keys).1.log key (verify s i keys).1.log.length := by
  induction keys generalizing s with
  | nil => cases h
  | cons k keys ih =>
    unfold verify at h ⊢
    cases hs : s.sets k with
    | intact =>
      rw [hs] at h
      exact ih h
    | absent =>
      rw [hs] at h
      obtain rfl := Option.some.inj h
      exact ⟨s.log.length, by simp, by simp⟩
    | damaged =>
      rw [hs] at h
      obtain rfl := Option.some.inj h
      exact ⟨s.log.length + 1, by simp, by simp⟩

lemma idled_depsFor (h : Sound s) (hp : (s.gates i).phase = .idle) (task : String) (resolved : List String) :
    Idled i s (depsFor s i task resolved).1 := by
  unfold depsFor
  split
  · exact .refl h
  · have hi := idled_foldl h hp resolved
    have hp' := hi.phase.trans hp
    exact hi.trans (hi.sound.idled_setGate hp' rfl rfl rfl hp' (hi.sound.gates i).verified)

lemma idled_verifyOnce (h : Sound s) (hp : (s.gates i).phase = .idle) (keys : List String) :
    Idled i s (verifyOnce s i keys).1 := by
  unfold verifyOnce
  split_ifs
  · exact .refl h
  · have hi := idled_verify (i := i) h keys
    have hp' := hi.phase.trans hp
    split
    · rename_i hnone
      refine hi.trans (hi.sound.idled_setGate hp' rfl rfl rfl hp' fun k hk => ?_)
      exact (List.mem_append.mp hk).elim ((hi.sound.gates i).verified k) (intact_of_verify h hnone k)
    · exact hi

lemma intact_of_verifyOnce (h : Sound s) {keys : List String} (hnone : (verifyOnce s i keys).2 = none) :
    ∀ k ∈ keys, Entry.intact i k ∈ (verifyOnce s i keys).1.log := by
  unfold verifyOnce at hnone ⊢
  split_ifs at hnone ⊢ with hall
  · exact fun k hk => (h.gates i).verified k (by simpa using List.all_eq_true.mp hall k hk)
  · split at hnone
    · rename_i hv
      exact intact_of_verify h hv
    · cases hnone

lemma failedAt_of_verifyOnce {keys : List String} {key : String} (hsome : (verifyOnce s i keys).2 = some key) :
    FailedAt (verifyOnce s i keys).1.log key (verifyOnce s i keys).1.log.length := by
  unfold verifyOnce at hsome ⊢
  split_ifs at hsome ⊢
  · dsimp only at hsome ⊢
    split at hsome
    · cases hsome
    · rename_i key' hv
      obtain rfl := Option.some.inj hsome
      exact failedAt_of_verify hv

end Sealing

section Acts

variable [DecidableEq ι] {s : State P ι} {i : ι}

lemma sound_load (h : Sound s) : Sound (load s i) := by
  unfold load
  dsimp only
  split
  · rename_i hp
    have hg := h.gates i
    refine h.move (by rw [hp]; trivial) ⟨hg.own, ?_, hg.verified, by rw [hp]; trivial⟩
    intro task q hq
    obtain ⟨r, hr, rfl⟩ := Option.map_eq_some_iff.mp hq
    exact place_of_latest hr
  · exact h

/-- The gate's own view of one task is replaced. -/
lemma own_update {g : Gate P} (h : ∀ task q, g.qualifications task = some q → q.place = g.placeOf task)
    {task : String} {q : Qualification P} (hq : q.place = g.placeOf task) (task' : String) (q' : Qualification P)
    (h' : Function.update g.qualifications task (some q) task' = some q') : q'.place = g.placeOf task' := by
  rw [Function.update_apply] at h'
  split_ifs at h' with ht
  · obtain rfl := Option.some.inj h'
    rw [ht, hq]
  · exact h task' q' h'

lemma sound_admitTask (h : Sound s) (task : String) (keys : List String) : Sound (admitTask s i task keys) := by
  unfold admitTask
  dsimp only
  have hg := h.gates i
  split
  · rename_i hp
    split
    · rename_i q hq
      exact h.move (by rw [hp]; trivial)
        ⟨own_update hg.own (hg.known task q (Option.filter_eq_some_iff.mp hq).1), hg.known, hg.verified,
          by rw [hp]; trivial⟩
    · split_ifs
      · have hi := idled_foldl h hp keys
        have hg' := hi.sound.gates i
        exact hi.sound.move (by rw [hi.phase, hp]; trivial) ⟨hg'.own, hg'.known, hg'.verified, trivial⟩
      · exact h
  · exact h

lemma sound_measure (h : Sound s) (newId : String) (state : QualState) (code message : String) (facts : P) :
    Sound (PostureGates.measure s i newId state code message facts) := by
  unfold PostureGates.measure
  dsimp only
  split
  · rename_i hp
    have hg := h.gates i
    exact h.move (by rw [hp]; trivial) ⟨hg.own, hg.known, hg.verified, rfl⟩
  · exact h

/-- A qualified record that is appended was measured since every reading of the table for a set it cites, and
since every red control that revoked its task. -/
def Fresh (s : State P ι) : Label P ι → Prop
  | .append i => ∀ q began, (s.gates i).phase = .measured q began → q.isQualified = true →
      (∀ key since, Entry.read key since ∈ s.log → key ∈ q.keys → since ≤ began) ∧
        ∀ since, Entry.revokedRed q.place since ∈ s.log → since ≤ began
  | _ => True

lemma sound_append (h : Sound s) (hf : Fresh s (.append i)) : Sound (append s i) := by
  unfold append
  dsimp only
  split
  · rename_i q began hp
    have hg := h.gates i
    have hq : q.place = (s.gates i).placeOf q.taskId := hg.midst hp
    have hrow : Sound { s with rows := s.rows ++ [⟨q, began⟩] } :=
      h.row (fun hqual => (hf q began hp hqual).1) fun hqual => (hf q began hp hqual).2
    exact hrow.move (by rw [hp]; trivial) ⟨own_update hg.own hq, hg.known, hg.verified, trivial⟩
  · exact h

lemma sound_readTable (h : Sound s) : Sound (readTable s i) := by
  unfold readTable
  dsimp only
  split
  · rename_i key since hp
    have hfail : FailedAt s.log key since := (h.gates i).midst hp
    have hlog : Sound { s with log := s.log ++ [.read key since] } :=
      h.entry _ (fun key' since' he => by obtain ⟨rfl, rfl⟩ := Entry.read.inj he; exact hfail)
        (fun _ _ he => nomatch he) (fun _ he => nomatch he) (fun _ _ he => nomatch he) fun _ _ _ he => nomatch he
    have hg := hlog.gates i
    refine hlog.move (by rw [hp]; trivial) ⟨hg.own, hg.known, hg.verified, ?_, ?_⟩
    · exact List.mem_append_right _ (List.mem_singleton_self _)
    · exact fun p r hr hq hk => .inr ⟨r.record, mem_citing hr hq hk, place_of_latest hr⟩
  · exact h

lemma sound_revokeNext (h : Sound s) (newId reason : String) : Sound (revokeNext s i newId reason) := by
  unfold revokeNext
  dsimp only
  have hg := h.gates i
  split
  · rename_i key since q todo hp
    obtain ⟨hread, hclear⟩ : Entry.read key since ∈ s.log ∧
        Cleared s.rows key since fun p => ∃ x ∈ q :: todo, x.place = p := hg.midst hp
    have hrow := h.row (r := ⟨revoked newId "BUNDLE_INTEGRITY"
      (if (s.gates i).actor = "" then "worker" else (s.gates i).actor) reason (s.gates i).runId q,
        s.log.length⟩) (fun hq => nomatch hq) fun hq => nomatch hq
    refine hrow.move (by rw [hp]; trivial) ⟨hg.own, hg.known, hg.verified, hread, ?_⟩
    refine hclear.append (fun hq => nomatch hq) fun p hne => ?_
    rintro ⟨x, hx, rfl⟩
    obtain rfl | hx := List.mem_cons.mp hx
    · exact absurd rfl hne
    · exact ⟨x, hx, rfl⟩
  · rename_i key since hp
    obtain ⟨hread, hclear⟩ : Entry.read key since ∈ s.log ∧
        Cleared s.rows key since fun p => ∃ x ∈ ([] : List (Qualification P)), x.place = p := hg.midst hp
    have hlog : Sound { s with log := s.log ++ [.returned key since] } := by
      refine h.entry _ (fun _ _ he => nomatch he) (fun key' since' he => ?_) (fun _ he => nomatch he)
        (fun _ _ he => nomatch he) fun _ _ _ he => nomatch he
      obtain ⟨rfl, rfl⟩ := Entry.returned.inj he
      exact ⟨hread, fun p r hr hq hk => (hclear p r hr hq hk).imp_right fun ⟨x, hx, _⟩ => nomatch hx⟩
    have hg' := hlog.gates i
    refine hlog.move (by rw [hp]; trivial) ⟨?_, hg'.known, hg'.verified, trivial⟩
    intro task q hq
    obtain ⟨q₀, hq₀, rfl⟩ := Option.map_eq_some_iff.mp hq
    rw [place_ownView]
    exact hg.own task q₀ hq₀
  · exact h

lemma sound_control (h : Sound s) (error : String) (red : Bool) : Sound (PostureGates.control s i error red) := by
  unfold PostureGates.control
  dsimp only
  have hg := h.gates i
  split
  · rename_i task hp
    split_ifs with hred
    · have hgate : Sound (s.setGate i { s.gates i with phase := .controlled task error (s.log.length + 1) }) :=
        h.move (by rw [hp]; trivial) ⟨hg.own, hg.known, hg.verified, hg.midst hp⟩
      refine hgate.entry (.red ((s.gates i).placeOf task)) (fun _ _ he => nomatch he) (fun _ _ he => nomatch he)
        (fun p he => ?_) (fun _ _ he => nomatch he) fun _ _ _ he => nomatch he
      obtain rfl := Entry.red.inj he
      exact ⟨i, task, error, by simp [State.setGate], by simp [State.setGate, Gate.placeOf]⟩
    · exact h.move (by rw [hp]; trivial) ⟨hg.own, hg.known, hg.verified, trivial⟩
  · exact h

lemma sound_onEnvironment (h : Sound s) (newId : String) : Sound (onEnvironment s i newId) := by
  unfold onEnvironment
  dsimp only
  have hg := h.gates i
  split
  · rename_i task error since hp
    obtain ⟨q, hq, hqual⟩ := hg.midst hp
    rw [hq, Option.filter_some, if_pos hqual]
    dsimp only
    have hplace := hg.own task q hq
    generalize hr : revoked newId "QUAL_ENV_WITNESS_RED" _ error (s.gates i).runId q = record
    have hrp : record.place = (s.gates i).placeOf task := by rw [← hr, place_revoked, hplace]
    have hrq : record.isQualified = false := by rw [← hr, isQualified_revoked]
    have hrow : Sound { s with rows := s.rows ++ [⟨record, s.log.length⟩] } :=
      h.row (fun hq => by rw [hrq] at hq; cases hq) fun hq => by rw [hrq] at hq; cases hq
    have hlog := hrow.entry (.revokedRed ((s.gates i).placeOf task) since) (fun _ _ he => nomatch he)
      (fun _ _ he => nomatch he) (fun _ he => nomatch he) (fun p since' he x hx hq => ?_)
      fun _ _ _ he => nomatch he
    · have hg' := hlog.gates i
      refine hlog.setGate ⟨own_update hg.own hrp, hg'.known, hg'.verified, trivial⟩ fun task' error' since' hc => ?_
      obtain ⟨rfl, rfl, rfl⟩ := Phase.controlled.inj (hp.symm.trans hc)
      exact List.mem_append_right _ (List.mem_singleton_self _)
    · obtain ⟨rfl, rfl⟩ := Entry.revokedRed.inj he
      rw [latest_append, if_pos hrp] at hx
      obtain rfl := Option.some.inj hx
      rw [hrq] at hq
      cases hq
  · exact h

lemma sound_contextFor (h : Sound s) (task : String) (resolved : List String) :
    Sound (contextFor s i task resolved) := by
  unfold contextFor
  dsimp only
  split
  · rename_i q hp hq
    have h₁ := idled_depsFor h hp task resolved
    have hp₁ := h₁.phase.trans hp
    generalize depsFor s i task resolved = r at h₁ hp₁ ⊢
    obtain ⟨s₁, keys⟩ := r
    have h₂ := h₁.trans (idled_verifyOnce h₁.sound hp₁ keys)
    have hp₂ := h₂.phase.trans hp
    have hg := h₂.sound.gates i
    split
    · rename_i key hsome
      exact h₂.sound.move (by rw [hp₂]; trivial)
        ⟨hg.own, hg.known, hg.verified, failedAt_of_verifyOnce hsome⟩
    · rename_i hnone
      split_ifs with hc
      · refine (h₂.sound.entry (.context i task keys) (fun _ _ he => nomatch he) (fun _ _ he => nomatch he)
          (fun _ he => nomatch he) (fun _ _ he => nomatch he) fun j task' keys' he => ?_).move
          (by rw [hp₂]; trivial) ⟨hg.own, hg.known, fun k hk => List.mem_append_left _ (hg.verified k hk), q,
            (congrFun h₂.own task).trans hq, hc.2.2⟩
        obtain ⟨rfl, rfl, rfl⟩ := Entry.context.inj he
        exact intact_of_verifyOnce h₁.sound hnone
      · exact h₂.sound
  · exact h

lemma sound_step (h : Sound s) (l : Label P ι) (hf : Fresh s l) : Sound (step s l) := by
  cases l with
  | damage key => exact h.sets _
  | load i => exact sound_load h
  | admitTask i task keys => exact sound_admitTask h task keys
  | measure i newId state code message facts => exact sound_measure h newId state code message facts
  | append i => exact sound_append h hf
  | context i task keys => exact sound_contextFor h task keys
  | readTable i => exact sound_readTable h
  | revokeNext i newId reason => exact sound_revokeNext h newId reason
  | control i error red => exact sound_control h error red
  | onEnvironment i newId => exact sound_onEnvironment h newId

end Acts

section Runs

/-- Nothing has happened yet; the store and the sets are as they are. -/
structure Started (s : State P ι) : Prop where
  log : s.log = []
  gates : ∀ i, (s.gates i).phase = .idle ∧ (∀ task, (s.gates i).qualifications task = none) ∧
    (∀ task, (s.gates i).known task = none) ∧ (s.gates i).verified = []

lemma Started.sound {s : State P ι} (h : Started s) : Sound s where
  gates i := by
    obtain ⟨hp, hq, hk, hv⟩ := h.gates i
    refine ⟨fun task q he => ?_, fun task q he => ?_, fun k hk => ?_, by rw [hp]; trivial⟩
    · rw [hq] at he
      cases he
    · rw [hk] at he
      cases he
    · rw [hv] at hk
      cases hk
  read key since hmem := by rw [h.log] at hmem; cases hmem
  returned key since hmem := by rw [h.log] at hmem; cases hmem
  red n p hn := by rw [h.log] at hn; cases hn
  revokedRed p since hmem := by rw [h.log] at hmem; cases hmem
  context n i task keys hn := by rw [h.log] at hn; cases hn

/-- Of the records in force, what is qualified and cites a set whose revocations are done was measured since
the set failed; what is qualified where a gold went red was measured since, once the gate has heard of it; and
the sets of a context were found intact by its gate before. -/
structure NothingStands (s : State P ι) : Prop where
  cited : ∀ key since, Entry.returned key since ∈ s.log → FailedAt s.log key since ∧
    ∀ p r, latest s.rows p = some r → r.record.isQualified = true → key ∈ r.record.keys → since ≤ r.began
  red : ∀ n p, s.log[n]? = some (.red p) → Unheard s p (n + 1) ∨
    ∀ r, latest s.rows p = some r → r.record.isQualified = true → n + 1 ≤ r.began
  context : ∀ n i task keys, s.log[n]? = some (.context i task keys) → ∀ k ∈ keys,
    Entry.intact i k ∈ s.log.take n

lemma Sound.nothingStands {s : State P ι} (h : Sound s) : NothingStands s where
  cited key since hmem := by
    obtain ⟨hread, hclear⟩ := h.returned key since hmem
    exact ⟨h.read key since hread, fun p r hr hq hk => (hclear p r hr hq hk).resolve_right id⟩
  red n p hn := (h.red n p hn).symm.imp_right (h.revokedRed p (n + 1))
  context := h.context

/-- Where every qualified record that is appended is fresh, nothing stands that should not. -/
theorem nothing_stands [DecidableEq ι] {s : State P ι} {labels : List (Label P ι)} (hs : Started s)
    (h : Along step Fresh s labels) : NothingStands (runFrom step s labels) :=
  (h.preserves (I := Sound) (fun _ l hs hf => sound_step hs l hf) hs.sound).nothingStands

/-- Two gates of one posture over an empty store, and one sealed set. -/
def twoRuns : State Unit Bool where
  rows := []
  sets key := if key = "set" then .intact else .absent
  gates i := ⟨"repo", "posture", if i then "run-a" else "run-b", "", true, fun _ => none, fun _ => none,
    fun _ => none, [], [], .idle⟩
  log := []

lemma started_twoRuns : Started twoRuns := ⟨rfl, fun _ => ⟨rfl, fun _ => rfl, fun _ => rfl, rfl⟩⟩

/-- One run qualifies a task, finds its set damaged, and revokes what cites the set. -/
def damagedRun : List (Label Unit Bool) :=
  [.damage "set", .context false "other" ["set"], .readTable false, .revokeNext false "q-3" "digest",
    .revokeNext false "q-4" "digest", .revokeNext false "q-5" "digest"]

/-- Both runs have appended their records before. -/
def appendedFirst : List (Label Unit Bool) :=
  [.admitTask false "other" ["set"], .measure false "q-1" .qualified "" "" (), .append false,
    .admitTask true "task" ["set"], .measure true "q-2" .qualified "" "" (), .append true] ++ damagedRun

/-- The record of the other run is measured before and appended after. -/
def appendedLast : List (Label Unit Bool) :=
  [.admitTask false "other" ["set"], .measure false "q-1" .qualified "" "" (), .append false,
    .admitTask true "task" ["set"], .measure true "q-2" .qualified "" "" ()] ++ damagedRun ++ [.append true]

lemma fresh_of_log [DecidableEq ι] {s : State P ι} (h : s.log = []) (l : Label P ι) : Fresh s l := by
  cases l with
  | append i =>
    intro q began _ _
    rw [h]
    exact ⟨fun _ _ hmem => (nomatch hmem), fun _ hmem => nomatch hmem⟩
  | _ => trivial

theorem nothing_stands_appendedFirst : NothingStands (runFrom step twoRuns appendedFirst) :=
  nothing_stands started_twoRuns
    ⟨trivial, trivial, fresh_of_log rfl _, trivial, trivial, fresh_of_log rfl _, trivial, trivial, trivial,
      trivial, trivial, trivial, trivial⟩

theorem stands_appendedLast : Started twoRuns ∧ ¬ NothingStands (runFrom step twoRuns appendedLast) := by
  refine ⟨started_twoRuns, fun h => ?_⟩
  have hlog : (runFrom step twoRuns appendedLast).log =
      [.quarantined "set", .failed "set", .read "set" 2, .returned "set" 2] := by rfl
  have hrow : latest (runFrom step twoRuns appendedLast).rows ⟨"repo", "task", "posture"⟩ =
      some ⟨⟨"q-2", "repo", "task", "posture", .qualified, "", "", ["set"], "run-a", ()⟩, 0⟩ := by rfl
  exact Nat.not_succ_le_zero 1
    ((h.cited "set" 2 (by rw [hlog]; simp)).2 _ _ hrow rfl (List.mem_singleton_self _))

end Runs

end CommitReplay.StandingRecords
