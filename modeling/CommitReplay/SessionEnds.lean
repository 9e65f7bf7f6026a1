import CommitReplay.SessionFlows

/-! An act that ends the sessions of an account cannot be outrun. A nonce is written once, so a session
whose account's sessions have ended since carries a nonce no row holds again; a hash is written once too,
so a sign-in that verified a password finds under the lock whether the row's hash is still that one. -/
namespace CommitReplay.SessionEnds

open CommitReplay.PythonText CommitReplay.KeyedTable CommitReplay.TransitionRuns
open CommitReplay.Accounts CommitReplay.SessionFlows
open CommitReplay.LastAdmin hiding Act

section Views

variable {β : Type*} (g : User → β) (z : β) (t : Users)

/-- A field of an account, or the value given where there is none. -/
def view (uid : String) : β := ((t.get? uid).map g).getD z

variable {g z t}

lemma view_of_get? {uid : String} {u : User} (h : t.get? uid = some u) : view g z t uid = g u := by
  simp [view, h]

lemma view_modify {uid : String} {u : User} {f : User → User} {hf : ∀ v, (f v).id = v.id}
    (h : t.get? uid = some u) (j : String) :
    view g z (t.modify uid f hf) j = if j = uid then g (f u) else view g z t j := by
  unfold view
  rw [Table.get?_modify]
  split_ifs with hj
  · simp [hj, h]
  · rfl

lemma view_modify_same {uid : String} {f : User → User} {hf : ∀ v, (f v).id = v.id}
    (hg : ∀ v, g (f v) = g v) (j : String) : view g z (t.modify uid f hf) j = view g z t j := by
  unfold view
  rw [Table.get?_modify]
  split_ifs
  · cases t.get? j <;> simp [hg]
  · rfl

lemma view_insert {u : User} {t' : Users} (h : t.insert? u = some t') (hg : g u = z) (j : String) :
    view g z t' j = view g z t j := by
  cases hj : t.get? j with
  | some v => simp [view, hj, Table.get?_insert? h hj]
  | none =>
    cases hj' : t'.get? j with
    | none => simp [view, hj, hj']
    | some v =>
      obtain ⟨hv, hk⟩ := Table.get?_eq_some.mp hj'
      obtain hv | rfl := (Table.mem_insert? h).mp hv
      · simp [Table.get?_eq_some.mpr ⟨hv, hk⟩] at hj
      · simp [view, hj, hj', hg]

end Views

def hashOf : Users → String → String := view User.passwordHash ""

def nonceOf : Users → String → String := view User.sessionNonce ""

def activeOf : Users → String → Bool := view User.active false

/-- Some write of the log, from this one on, does it to the account. -/
def Since (does : String → Event → Bool) (log : List Event) (uid : String) (i : ℕ) : Prop :=
  ∃ e ∈ log.drop i, does uid e = true

/-- The hash the writes leave on an account that had the one given. -/
def storedHash (first : String) (uid : String) (log : List Event) : String :=
  log.foldl (fun h e => (e.stores uid).getD h) first

/-- The write has its maker signed in to the account. -/
def signs (uid : String) : Event → Bool
  | .signedIn u | .login u .. | .passwordSet u .. => u = uid
  | .sessionsEnded _ | .activeSet .. => false

lemma storedHash_concat (first : String) (uid : String) (log : List Event) (e : Event) :
    storedHash first uid (log ++ [e]) = (e.stores uid).getD (storedHash first uid log) := by
  simp [storedHash]

lemma since_concat {does : String → Event → Bool} {log : List Event} {uid : String} {i : ℕ} {e : Event}
    (hi : i ≤ log.length) :
    Since does (log ++ [e]) uid i ↔ Since does log uid i ∨ does uid e = true := by
  simp [Since, List.drop_append_of_le_length hi, or_and_right, exists_or]

lemma not_since_length {does : String → Event → Bool} {log : List Event} {uid : String} :
    ¬ Since does log uid log.length := by
  simp [Since]

section Invariant

variable (k : Crypto)

/-- No password's hash that is still to be drawn is this one. -/
def OldHash (tick : ℕ) (h : String) : Prop := ∀ a, tick ≤ a → ∀ p, k.hash a p ≠ h

def OldNonce (tick : ℕ) (n : String) : Prop := ∀ a, tick ≤ a → k.nonce a ≠ n

variable {k} in
lemma OldHash.mono {tick tick' : ℕ} {h : String} (hold : OldHash k tick h) (hle : tick ≤ tick') :
    OldHash k tick' h :=
  fun a ha => hold a (hle.trans ha)

variable {k} in
lemma OldNonce.mono {tick tick' : ℕ} {n : String} (hold : OldNonce k tick n) (hle : tick ≤ tick') :
    OldNonce k tick' n :=
  fun a ha => hold a (hle.trans ha)

lemma oldHash_drawn (tick : ℕ) (p : String) : OldHash k (tick + 1) (k.hash tick p) := by
  intro a ha q heq
  have := k.hash_salt heq
  omega

lemma oldNonce_drawn (tick : ℕ) : OldNonce k (tick + 1) (k.nonce tick) := by
  intro a ha heq
  have := k.nonce_inj heq
  omega

/-- The version carries a nonce that is drawn, and that the account no longer has once its sessions
have ended since. -/
def Held (s : State) (uid cv : String) (i : ℕ) : Prop :=
  i ≤ s.log.length ∧ ∃ h n, cv = k.version h n ∧ OldNonce k s.tick n ∧
    (Since Event.ends s.log uid i → nonceOf s.users uid ≠ n)

/-- The version was accepted of an active account, and is not while the account is inactive. -/
def Lapses (s : State) (uid cv : String) : Prop :=
  ∃ h n, cv = k.version h n ∧ OldNonce k s.tick n ∧
    (activeOf s.users uid = false → nonceOf s.users uid ≠ n)

/-- No flow is about this hash: none verified it, and none would store it. -/
def Clear (h : String) : Flow → Prop
  | .loggingIn _ _ verified upgraded _ => h ≠ verified ∧ upgraded ≠ some h
  | _ => True

/-- What a flow knows of the accounts, whatever was committed since it read them. -/
def FlowOk (s : State) : Flow → Prop
  | .loggingIn uid password verified upgraded begun =>
    begun ≤ s.log.length ∧ OldHash k s.tick verified ∧ verifyPassword k verified password = true ∧
      (Since Event.resets s.log uid begun → hashOf s.users uid ≠ verified) ∧
      ∀ w, upgraded = some w → OldHash k s.tick w ∧ ∀ v, hashOf s.users v ≠ w
  | .signingIn uid cv _ _ => Held k s uid cv s.log.length
  | .changing uid cv begun _ => Held k s uid cv begun
  | .idle | .autologin _ | .joining .. | .admin _ => True

/-- The flows of two clients: what one would store is neither what the other verified nor what it would
store. -/
def Apart (f g : Flow) : Prop := ∀ uid p v w b, f = .loggingIn uid p v (some w) b → Clear w g

/-- A password sign-in verified the hash stored when it committed, and replaced none that was set since
it began; a password is changed by a session that was not ended since the change began. -/
def EntryOk (first : String → String) (log : List Event) : Event → Prop
  | .login uid password stored upgraded begun =>
    stored = storedHash (first uid) uid log ∧ verifyPassword k stored password = true ∧
      (upgraded ≠ none → begun ≤ log.length ∧ ¬ Since Event.resets log uid begun)
  | .passwordSet uid _ (some begun) => begun ≤ log.length ∧ ¬ Since Event.ends log uid begun
  | _ => True

/-- What every run keeps, of accounts that held the hashes given at its start. -/
structure Sound (first : String → String) (s : State) : Prop where
  hashes : ∀ uid, OldHash k s.tick (hashOf s.users uid)
  nonces : ∀ uid, OldNonce k s.tick (nonceOf s.users uid)
  stored : ∀ uid, hashOf s.users uid = storedHash (first uid) uid s.log
  issued : ∀ i ∈ s.issued, Held k s i.uid i.cv i.since ∧
    ∃ pre e, pre ++ [e] <+: s.log ∧ i.since = pre.length + 1 ∧ signs i.uid e = true
  flows : ∀ c, FlowOk k s (s.flows c)
  apart : ∀ c c', c ≠ c' → Apart (s.flows c) (s.flows c')
  entries : ∀ pre e, pre ++ [e] <+: s.log → EntryOk k first pre e

/-- The write, and what is drawn for it: an account's nonce is kept, or a fresh one where its sessions end;
its hash is the one the write stores, which no flow is about. -/
structure Writes (first : String → String) (s : State) (t : Users) (e : Event) (tick : ℕ) : Prop where
  drawn : s.tick ≤ tick
  nonce : ∀ uid, (nonceOf t uid = nonceOf s.users uid ∧ e.ends uid = false) ∨
    (nonceOf t uid = k.nonce s.tick ∧ s.tick < tick)
  active : ∀ uid, activeOf t uid = false →
    activeOf s.users uid = false ∨ nonceOf t uid = k.nonce s.tick
  hash : ∀ uid, hashOf t uid = (e.stores uid).getD (hashOf s.users uid)
  clear : ∀ uid h, e.stores uid = some h → OldHash k tick h ∧ ∀ c, Clear h (s.flows c)
  entry : EntryOk k first s.log e

end Invariant

section Kept

variable {k : Crypto} {first : String → String} {s : State} {t : Users} {e : Event} {tick : ℕ}

/-- A write, with the draws it uses. -/
def written (s : State) (t : Users) (e : Event) (tick : ℕ) : State :=
  { s with users := t, log := s.log ++ [e], tick }

lemma Held.mono_tick {uid cv : String} {i n : ℕ} (h : Held k s uid cv i) (hn : s.tick ≤ n) :
    Held k { s with tick := n } uid cv i := by
  obtain ⟨hi, a, m, hcv, hm, hend⟩ := h
  exact ⟨hi, a, m, hcv, hm.mono hn, hend⟩

lemma FlowOk.mono_tick {f : Flow} {n : ℕ} (h : FlowOk k s f) (hn : s.tick ≤ n) :
    FlowOk k { s with tick := n } f := by
  cases f with
  | idle | autologin | joining | admin => trivial
  | signingIn | changing => exact Held.mono_tick h hn
  | loggingIn uid p v up begun =>
    obtain ⟨hb, hold, hv, hreset, hup⟩ := h
    exact ⟨hb, hold.mono hn, hv, hreset, fun w hw => ⟨(hup w hw).1.mono hn, (hup w hw).2⟩⟩

lemma Held.weaken {uid cv : String} {i j : ℕ} (h : Held k s uid cv i) (hij : i ≤ j)
    (hj : j ≤ s.log.length) : Held k s uid cv j := by
  obtain ⟨-, a, n, hcv, hn, hend⟩ := h
  refine ⟨hj, a, n, hcv, hn, fun ⟨e, he, hends⟩ => hend ⟨e, ?_, hends⟩⟩
  rw [← Nat.add_sub_cancel' hij, ← List.drop_drop] at he
  exact List.mem_of_mem_drop he

/-- A nonce that was drawn before is not the one a write leaves, unless it was there already. -/
lemma Writes.nonce_ne (hw : Writes k first s t e tick) {uid n : String} (hn : OldNonce k s.tick n)
    (hne : nonceOf s.users uid ≠ n) : nonceOf t uid ≠ n := by
  obtain ⟨h, -⟩ | ⟨h, -⟩ := hw.nonce uid
  · rwa [h]
  · rw [h]
    exact hn s.tick le_rfl

lemma Writes.nonce_ne_of_ends (hw : Writes k first s t e tick) {uid n : String}
    (hn : OldNonce k s.tick n) (he : e.ends uid = true) : nonceOf t uid ≠ n := by
  obtain ⟨-, h⟩ | ⟨h, -⟩ := hw.nonce uid
  · simp [h] at he
  · rw [h]
    exact hn s.tick le_rfl

lemma Held.written {uid cv : String} {i : ℕ} (h : Held k s uid cv i) (hw : Writes k first s t e tick) :
    Held k (written s t e tick) uid cv i := by
  obtain ⟨hi, a, n, hcv, hn, hend⟩ := h
  refine ⟨?_, a, n, hcv, hn.mono hw.drawn, fun hs => ?_⟩
  · simp only [SessionEnds.written, List.length_append]
    omega
  · obtain hs | hs := (since_concat hi).mp hs
    · exact hw.nonce_ne hn (hend hs)
    · exact hw.nonce_ne_of_ends hn hs

lemma Lapses.written {uid cv : String} (h : Lapses k s uid cv) (hw : Writes k first s t e tick) :
    Lapses k (written s t e tick) uid cv := by
  obtain ⟨a, n, hcv, hn, hact⟩ := h
  refine ⟨a, n, hcv, hn.mono hw.drawn, fun hf => ?_⟩
  obtain hf | hf := hw.active uid hf
  · exact hw.nonce_ne hn (hact hf)
  · change nonceOf t uid ≠ n
    rw [hf]
    exact hn s.tick le_rfl

/-- What a write leaves on an account is not a hash the write is clear of, unless it was there already. -/
lemma Writes.hash_ne (hw : Writes k first s t e tick) {uid h : String}
    (hne : hashOf s.users uid ≠ h) (hst : e.stores uid ≠ some h) : hashOf t uid ≠ h := by
  rw [hw.hash uid]
  cases he : e.stores uid with
  | none => exact hne
  | some w => exact fun heq => hst (he.trans (congrArg some heq))

lemma stores_of_resets {uid : String} (h : e.resets uid = true) : (e.stores uid).isSome := by
  cases e <;> simp_all [Event.resets, Event.stores]

lemma FlowOk.written {c : ℕ} (h : FlowOk k s (s.flows c)) (hw : Writes k first s t e tick) :
    FlowOk k (written s t e tick) (s.flows c) := by
  cases hf : s.flows c with
  | idle | autologin | joining | admin => trivial
  | signingIn uid cv email display =>
    rw [hf] at h
    exact (Held.written h hw).weaken (by simp [SessionEnds.written]) le_rfl
  | changing uid cv begun verified =>
    rw [hf] at h
    exact Held.written h hw
  | loggingIn uid p v up begun =>
    rw [hf] at h
    obtain ⟨hb, hold, hv, hreset, hup⟩ := h
    have hclear : ∀ u w, e.stores u = some w → w ≠ v ∧ up ≠ some w := fun u w hs => by
      simpa [Clear, hf] using (hw.clear u w hs).2 c
    refine ⟨?_, hold.mono hw.drawn, hv, fun hs => ?_, fun w hup' => ⟨(hup w hup').1.mono hw.drawn, ?_⟩⟩
    · simp only [SessionEnds.written, List.length_append]
      omega
    · have hne : e.stores uid ≠ some v := fun h => (hclear uid v h).1 rfl
      obtain hs | hs := (since_concat hb).mp hs
      · exact hw.hash_ne (hreset hs) hne
      · obtain ⟨w, hst⟩ := Option.isSome_iff_exists.mp (stores_of_resets hs)
        change hashOf t uid ≠ v
        rw [hw.hash uid, hst]
        exact (hclear uid w hst).1
    · exact fun u => hw.hash_ne ((hup w hup').2 u) fun h => (hclear u w h).2 hup'

/-- A write keeps what every run keeps. -/
theorem Sound.written (h : Sound k first s) (hw : Writes k first s t e tick) :
    Sound k first (written s t e tick) where
  hashes uid := by
    change OldHash k tick (hashOf t uid)
    rw [hw.hash uid]
    cases he : e.stores uid with
    | none => exact (h.hashes uid).mono hw.drawn
    | some w => exact (hw.clear uid w he).1
  nonces uid := by
    change OldNonce k tick (nonceOf t uid)
    obtain ⟨hn, -⟩ | ⟨hn, hlt⟩ := hw.nonce uid
    · rw [hn]
      exact (h.nonces uid).mono hw.drawn
    · rw [hn]
      exact (oldNonce_drawn k s.tick).mono hlt
  stored uid := by
    change hashOf t uid = storedHash (first uid) uid (s.log ++ [e])
    rw [hw.hash uid, storedHash_concat, h.stored uid]
  issued i hi := by
    obtain ⟨hheld, pre, x, hpre, hsince, hsigns⟩ := h.issued i hi
    exact ⟨hheld.written hw, pre, x, hpre.trans (List.prefix_append _ _), hsince, hsigns⟩
  flows c := (h.flows c).written hw
  apart := h.apart
  entries pre x hpre := by
    obtain heq | hpre := List.prefix_concat_iff.mp hpre
    · obtain ⟨rfl, hx⟩ := List.append_inj' heq rfl
      obtain rfl := List.singleton_inj.mp hx
      exact hw.entry
    · exact h.entries pre x hpre

/-- A draw keeps it, too. -/
lemma Sound.draw (h : Sound k first s) : Sound k first s.draw where
  hashes uid := (h.hashes uid).mono (Nat.le_succ _)
  nonces uid := (h.nonces uid).mono (Nat.le_succ _)
  stored := h.stored
  issued i hi := ⟨(h.issued i hi).1.mono_tick (Nat.le_succ _), (h.issued i hi).2⟩
  flows c := (h.flows c).mono_tick (Nat.le_succ _)
  apart := h.apart
  entries := h.entries

/-- A flow that knows what it says of the accounts may start. -/
lemma Sound.goto (h : Sound k first s) {f : Flow} (c : ℕ) (hf : FlowOk k s f)
    (hap : ∀ c', c' ≠ c → Apart f (s.flows c') ∧ Apart (s.flows c') f) :
    Sound k first (s.goto c f) where
  hashes := h.hashes
  nonces := h.nonces
  stored := h.stored
  issued := h.issued
  flows c' := by
    by_cases hc : c' = c
    · subst hc
      simp only [State.goto, Function.update_self]
      exact hf
    · simp only [State.goto, Function.update_of_ne hc]
      exact h.flows c'
  apart a b hab := by
    simp only [State.goto, Function.update_apply]
    split_ifs with ha hb hb
    · exact absurd (ha.trans hb.symm) hab
    · exact (hap b hb).1
    · exact (hap a ha).2
    · exact h.apart a b hab
  entries := h.entries

/-- A flow that stores no hash is apart from every other. -/
lemma Sound.goto_quiet (h : Sound k first s) {f : Flow} (c : ℕ) (hf : FlowOk k s f)
    (hq : ∀ uid p v up b, f ≠ .loggingIn uid p v up b) : Sound k first (s.goto c f) := by
  refine h.goto c hf fun c' _ => ⟨fun uid p v w b heq => (hq _ _ _ _ _ heq).elim, fun uid p v w b _ => ?_⟩
  cases f with
  | loggingIn uid p v up b => exact (hq _ _ _ _ _ rfl).elim
  | _ => trivial

lemma Sound.idle (h : Sound k first s) (c : ℕ) : Sound k first (s.goto c .idle) :=
  h.goto_quiet c trivial (by simp)

/-- A session may be issued with the version of the last write, which signs its holder in. -/
lemma Sound.issue (h : Sound k first s) {uid cv : String} (hheld : Held k s uid cv s.log.length)
    (hlast : ∃ pre e, s.log = pre ++ [e] ∧ signs uid e = true) : Sound k first (s.issue uid cv) where
  hashes := h.hashes
  nonces := h.nonces
  stored := h.stored
  issued i hi := by
    obtain hi | hi := List.mem_append.mp hi
    · exact h.issued i hi
    · obtain rfl := List.mem_singleton.mp hi
      obtain ⟨pre, e, heq, hs⟩ := hlast
      exact ⟨hheld, pre, e, heq ▸ List.prefix_rfl, by simp [heq], hs⟩
  flows := h.flows
  apart := h.apart
  entries := h.entries

end Kept

section Writers

variable {k : Crypto} {d : Setup} {first : String → String} {s : State} {c : ℕ}

/-- The version of an account as it stands is held from now on. -/
lemma Sound.held_now (h : Sound k first s) {uid : String} {u : User} (hu : s.users.get? uid = some u) :
    Held k s uid (credentialVersion k u) s.log.length := by
  refine ⟨le_rfl, u.passwordHash, u.sessionNonce, rfl, ?_, fun hs => absurd hs not_since_length⟩
  have := h.nonces uid
  rwa [nonceOf, view_of_get? hu] at this

lemma accepts_iff {t : Users} {uid cv : String} :
    accepts k t uid cv = true ↔
      ∃ u, t.get? uid = some u ∧ u.active = true ∧ cv = credentialVersion k u := by
  simp [accepts, Option.any_eq_true]

lemma Held.not_ended {uid cv : String} {i : ℕ} (h : Held k s uid cv i)
    (hacc : accepts k s.users uid cv = true) : ¬ Since Event.ends s.log uid i := by
  obtain ⟨-, a, n, hcv, -, hend⟩ := h
  intro hs
  obtain ⟨u, hu, -, hu'⟩ := accepts_iff.mp hacc
  obtain ⟨-, hn⟩ := k.version_inj (hcv.symm.trans hu')
  exact hend hs (by rw [nonceOf, view_of_get? hu, hn])

/-- A freshly drawn hash is one no flow is about. -/
lemma Sound.clear_drawn (h : Sound k first s) (p : String) (c : ℕ) :
    Clear (k.hash s.tick p) (s.flows c) := by
  have hf := h.flows c
  cases hc : s.flows c with
  | loggingIn uid q v up b =>
    rw [hc] at hf
    obtain ⟨-, hold, -, -, hup⟩ := hf
    exact ⟨hold s.tick le_rfl p, fun heq => (hup _ heq).1 s.tick le_rfl p rfl⟩
  | _ => trivial

/-- A sign-in that checks no password leaves the hashes, the nonces and the active accounts as they
were. -/
lemma writes_signedIn {t : Users} {uid : String} (hh : ∀ j, hashOf t j = hashOf s.users j)
    (hn : ∀ j, nonceOf t j = nonceOf s.users j)
    (ha : ∀ j, activeOf t j = false → activeOf s.users j = false) :
    Writes k first s t (.signedIn uid) s.tick where
  drawn := le_rfl
  nonce j := .inl ⟨hn j, rfl⟩
  active j hj := .inl (ha j hj)
  hash := hh
  clear j h hst := by simp [Event.stores] at hst
  entry := trivial

lemma writes_setPassword (h : Sound k first s) {uid : String} {u : User}
    (hu : s.users.get? uid = some u) (new : String) (begun : Option ℕ)
    (hentry : EntryOk k first s.log (.passwordSet uid (k.hash s.tick new) begun)) :
    Writes k first s (s.users.modify uid (setPassword k new s.tick) (setPassword_id k new s.tick))
      (.passwordSet uid (k.hash s.tick new) begun) (s.tick + 1) where
  drawn := Nat.le_succ _
  nonce j := by
    rw [nonceOf, view_modify hu]
    by_cases hj : j = uid
    · exact .inr ⟨by simp [hj, setPassword], Nat.lt_succ_self _⟩
    · exact .inl ⟨if_neg hj, by simpa [Event.ends] using Ne.symm hj⟩
  active j hj := .inl (by
    rwa [activeOf, view_modify_same (f := setPassword k new s.tick) fun _ => rfl] at hj)
  hash j := by
    rw [hashOf, view_modify hu]
    simp only [Event.stores, eq_comm (a := j)]
    split_ifs <;> rfl
  clear j x hst := by
    simp only [Event.stores, Option.ite_none_right_eq_some, Option.some.injEq] at hst
    obtain ⟨-, rfl⟩ := hst
    exact ⟨oldHash_drawn k s.tick new, h.clear_drawn new⟩
  entry := hentry

/-- A change that keeps every hash, and gives the account a fresh nonce if the write ends its sessions or
the account is turned off. -/
lemma writes_rotate {uid : String} {u : User} {e : Event} {f : User → User} {hf : ∀ v, (f v).id = v.id}
    (hu : s.users.get? uid = some u) (hhash : ∀ v, (f v).passwordHash = v.passwordHash)
    (hst : ∀ j, e.stores j = none) (hother : ∀ j, j ≠ uid → e.ends j = false)
    (hends : (f u).sessionNonce = k.nonce s.tick ∨ ((f u).sessionNonce = u.sessionNonce ∧
      e.ends uid = false ∧ ((f u).active = false → u.active = false)))
    (hentry : EntryOk k first s.log e) :
    Writes k first s (s.users.modify uid f hf) e (s.tick + 1) where
  drawn := Nat.le_succ _
  nonce j := by
    rw [nonceOf, view_modify hu]
    by_cases hj : j = uid
    · subst hj
      rw [if_pos rfl, view_of_get? hu]
      obtain hn | ⟨hn, he, -⟩ := hends
      · exact .inr ⟨hn, Nat.lt_succ_self _⟩
      · exact .inl ⟨hn, he⟩
    · exact .inl ⟨if_neg hj, hother j hj⟩
  active j hj := by
    rw [activeOf, view_modify hu] at hj
    rw [nonceOf, view_modify hu, activeOf]
    split_ifs at hj ⊢ with heq
    · subst heq
      rw [view_of_get? hu]
      obtain hn | ⟨-, -, ha⟩ := hends
      · exact .inr hn
      · exact .inl (ha hj)
    · exact .inl hj
  hash j := by rw [hashOf, view_modify_same hhash, hst j]; rfl
  clear j h h' := by simp [hst j] at h'
  entry := hentry

/-- The upgrade of a sign-in is stored over the hash it verified, and no other flow is about it. -/
lemma writes_login (h : Sound k first s) {uid p v : String} {up₀ : Option String} {b : ℕ} {a : User}
    (hf : s.flows c = .loggingIn uid p v up₀ b) (ha : s.users.get? uid = some a)
    (hv : a.passwordHash = v ∨ verifyPassword k a.passwordHash p = true) :
    let up := if a.passwordHash = v then up₀ else none
    let upgrade : User → User := fun u => { u with passwordHash := up.getD u.passwordHash }
    Writes k first (s.goto c .idle) (s.users.modify uid upgrade fun _ => rfl)
      (.login uid p a.passwordHash up b) s.tick := by
  intro up upgrade
  have hflow := h.flows c
  rw [hf] at hflow
  obtain ⟨hb, -, hver, hreset, hup⟩ := hflow
  have hhash : hashOf s.users uid = a.passwordHash := view_of_get? ha
  have hstores : ∀ w, up = some w → a.passwordHash = v ∧ up₀ = some w := fun w hw => by
    simpa [up] using hw
  exact {
    drawn := le_rfl
    nonce := fun j => .inl ⟨view_modify_same (f := upgrade) (fun _ => rfl) j, rfl⟩
    active := fun j hj => .inl (by
      rwa [activeOf, view_modify_same (f := upgrade) fun _ => rfl] at hj)
    hash := fun j => by
      rw [hashOf, view_modify ha]
      by_cases hj : uid = j
      · subst hj
        simp only [if_true, Event.stores]
        exact congrArg up.getD hhash.symm
      · simp only [Event.stores, if_neg hj, if_neg (Ne.symm hj)]
        rfl
    clear := fun j w hw => by
      simp only [Event.stores, Option.ite_none_right_eq_some] at hw
      obtain ⟨-, hw⟩ := hstores w hw.2
      refine ⟨(hup w hw).1, fun c' => ?_⟩
      by_cases hc : c' = c
      · subst hc
        simp [State.goto, Clear]
      · simp only [State.goto, Function.update_of_ne hc]
        exact h.apart c c' (Ne.symm hc) _ _ _ _ _ (hw ▸ hf)
    entry := by
      refine ⟨hhash ▸ h.stored uid, ?_, fun hne => ⟨hb, fun hs => ?_⟩⟩
      · obtain rfl | hv := hv
        · exact hver
        · exact hv
      · obtain ⟨w, hw⟩ := Option.ne_none_iff_exists'.mp hne
        exact hreset hs (hhash.trans (hstores w hw).1) }

/-- The account a sign-in of the identity provider makes or refreshes: no hash and no nonce moves, and no
account is turned off. -/
lemma upsert_keeps {t t' : Users} {issuer newId : String} {claims : Claims} {role : Role}
    {source : RoleSource} {paths : SignInPaths} {u : User}
    (h : upsertOidcUser t issuer claims role source paths newId = some (t', u)) :
    t'.get? u.id = some u ∧ (∀ j, hashOf t' j = hashOf t j) ∧ (∀ j, nonceOf t' j = nonceOf t j) ∧
      ∀ j, activeOf t' j = false → activeOf t j = false := by
  unfold upsertOidcUser at h
  dsimp only at h
  split at h
  · simp only [Option.map_eq_some_iff, Prod.mk.injEq] at h
    obtain ⟨t'', hadd, rfl, rfl⟩ := h
    unfold Users.add at hadd
    split_ifs at hadd
    refine ⟨Table.get?_eq_some.mpr ⟨(Table.mem_insert? hadd).mpr (.inr rfl), rfl⟩,
      view_insert hadd rfl, view_insert hadd rfl, fun j hj => ?_⟩
    cases hu : t.get? j with
    | none => simp [activeOf, view, hu]
    | some v =>
      rw [activeOf, view_of_get? hu]
      rwa [activeOf, view_of_get? (Table.get?_insert? hadd hu)] at hj
  · rename_i v hv
    simp only [Option.some.injEq, Prod.mk.injEq] at h
    obtain ⟨rfl, rfl⟩ := h
    have hget : t.get? v.id = some v :=
      Table.get?_eq_some.mpr ⟨List.mem_of_find?_eq_some hv, rfl⟩
    refine ⟨by rw [Table.get?_modify]; simp [hget], view_modify_same fun _ => rfl,
      view_modify_same fun _ => rfl, fun j hj => Eq.trans (view_modify_same ?_ j).symm hj⟩
    exact fun _ => rfl

end Writers

section Steps

variable {k : Crypto} {d : Setup} {first : String → String} {s : State} {c : ℕ}

/-- The state keeps what every run keeps, and a version that lapsed with its account in the one before
still does. -/
structure Kept (k : Crypto) (first : String → String) (s₀ s : State) : Prop where
  sound : Sound k first s
  lapses : ∀ uid cv, Lapses k s₀ uid cv → Lapses k s uid cv

lemma Sound.kept (h : Sound k first s) : Kept k first s s := ⟨h, fun _ _ => id⟩

namespace Kept

variable {s₀ : State}

lemma draw (h : Kept k first s₀ s) : Kept k first s₀ s.draw := by
  refine ⟨h.sound.draw, fun uid cv hl => ?_⟩
  obtain ⟨a, n, hcv, hn, hact⟩ := h.lapses uid cv hl
  exact ⟨a, n, hcv, hn.mono (Nat.le_succ _), hact⟩

lemma write (h : Kept k first s₀ s) {t : Users} {e : Event} {tick : ℕ}
    (hw : Writes k first s t e tick) : Kept k first s₀ (written s t e tick) :=
  ⟨h.sound.written hw, fun uid cv hl => (h.lapses uid cv hl).written hw⟩

lemma goto_quiet (h : Kept k first s₀ s) {f : Flow} (hf : FlowOk k s f)
    (hq : ∀ uid p v up b, f ≠ .loggingIn uid p v up b) : Kept k first s₀ (s.goto c f) :=
  ⟨h.sound.goto_quiet c hf hq, h.lapses⟩

lemma idle (h : Kept k first s₀ s) : Kept k first s₀ (s.goto c .idle) :=
  h.goto_quiet trivial (by simp)

lemma issue (h : Kept k first s₀ s) {uid cv : String} (hheld : Held k s uid cv s.log.length)
    (hlast : ∃ pre e, s.log = pre ++ [e] ∧ signs uid e = true) : Kept k first s₀ (s.issue uid cv) :=
  ⟨h.sound.issue hheld hlast, h.lapses⟩

/-- A write that signs its maker in to an account, whose version it then issues. -/
lemma sign (h : Kept k first s₀ s) {t : Users} {e : Event} {tick : ℕ} {uid : String} {u : User}
    (hw : Writes k first s t e tick) (hu : t.get? uid = some u) (he : signs uid e = true) :
    Kept k first s₀ ((written s t e tick).issue uid (credentialVersion k u)) :=
  (h.write hw).issue ((h.write hw).sound.held_now hu) ⟨s.log, e, rfl, he⟩

lemma sign_modify (h : Kept k first s₀ s) {e : Event} {tick : ℕ} {uid : String} {u : User}
    {f : User → User} {hf : ∀ v, (f v).id = v.id}
    (hw : Writes k first s (s.users.modify uid f hf) e tick) (hu : s.users.get? uid = some u)
    (he : signs uid e = true) :
    Kept k first s₀ ((written s (s.users.modify uid f hf) e tick).issue uid
      (credentialVersion k (f u))) := by
  refine h.sign hw ?_ he
  rw [Table.get?_modify, if_pos rfl, hu]
  rfl

end Kept

section SignIns

lemma kept_startLogin (h : Sound k first s) (username password : String) :
    Kept k first s (startLogin k d s c username password) := by
  unfold startLogin
  split
  · exact h.kept
  split
  · exact h.kept
  rename_i u hu
  split_ifs with hv
  · rw [Bool.and_eq_true] at hv
    have hget : s.users.get? u.id = some u :=
      Table.get?_eq_some.mpr ⟨List.mem_of_find?_eq_some hu, rfl⟩
    have hhash : hashOf s.users u.id = u.passwordHash := view_of_get? hget
    have hdraw : ∀ w, rehashIfOutdated k u.passwordHash password s.tick = some w →
        w = k.hash s.tick password := fun w hw => by
      unfold rehashIfOutdated at hw
      split_ifs at hw
      exact (Option.some.inj hw).symm
    -- the hash drawn is fresh, and the one verified is stored, so no flow would store it
    refine ⟨h.draw.goto c ⟨le_rfl, ?_, hv.1, fun hs => absurd hs not_since_length, fun w hw => ?_⟩
      fun c' _ => ⟨?_, ?_⟩, h.kept.draw.lapses⟩
    · exact hhash ▸ (h.hashes u.id).mono (Nat.le_succ _)
    · rw [hdraw w hw]
      exact ⟨oldHash_drawn k _ _, fun v heq => h.hashes v _ le_rfl _ heq.symm⟩
    · intro uid p v w b heq
      simp only [Flow.loggingIn.injEq] at heq
      rw [hdraw w heq.2.2.2.1]
      exact h.clear_drawn password c'
    · intro uid p v w b heq
      have hf := h.flows c'
      change s.flows c' = _ at heq
      rw [heq] at hf
      obtain ⟨-, -, -, -, hup⟩ := hf
      refine ⟨fun hw => (hup w rfl).2 u.id (hhash.trans hw.symm), fun hw => ?_⟩
      exact (hup w rfl).1 s.tick le_rfl password (hdraw w hw).symm
  · exact h.kept

lemma kept_commitLogin (h : Sound k first s) {uid p v : String} {up : Option String} {b : ℕ}
    (hf : s.flows c = .loggingIn uid p v up b) :
    Kept k first s (commitLogin k s c uid p v up b) := by
  unfold commitLogin
  split
  · exact h.kept.idle
  rename_i a ha
  split
  · exact h.kept.idle
  · rename_i hno
    have hv : a.passwordHash = v ∨ verifyPassword k a.passwordHash p = true := by
      by_contra hcon
      push Not at hcon
      exact hno (.inr ⟨hcon.1, by simpa using hcon.2⟩)
    exact h.kept.idle.sign_modify (writes_login h hf ha hv) ha (by simp [signs])

lemma kept_startAutologin (h : Sound k first s) : Kept k first s (startAutologin d s c) := by
  unfold startAutologin
  split
  · exact h.kept
  split
  · exact h.kept
  · exact h.kept.goto_quiet trivial (by simp)

lemma kept_readAutologin (h : Sound k first s) (uid : String) :
    Kept k first s (readAutologin k d s c uid) := by
  unfold readAutologin
  split
  · exact h.kept.idle
  · rename_i a ha
    have hu : s.users.get? uid = some a := (Option.filter_eq_some_iff.mp ha).1
    exact h.kept.goto_quiet (h.held_now hu) (by simp)

lemma kept_upsert (h : Sound k first s) {t : Users} {u : User} {issuer newId : String} {claims : Claims}
    {role : Role} {source : RoleSource} {paths : SignInPaths}
    (hup : upsertOidcUser s.users issuer claims role source paths newId = some (t, u)) :
    Kept k first s ((s.commit t (.signedIn u.id)).issue u.id (credentialVersion k u)) := by
  obtain ⟨hget, hh, hn, ha⟩ := upsert_keeps hup
  exact h.kept.sign (writes_signedIn hh hn ha) hget (by simp [signs])

lemma kept_startOidc (h : Sound k first s) (claims : Claims) (newId : String) :
    Kept k first s (startOidc k d s c claims newId) := by
  unfold startOidc
  dsimp only
  split
  · exact h.kept
  split
  · split
    · exact h.kept
    · rename_i t u hup
      split_ifs
      · exact kept_upsert h hup
      · exact h.kept
  · split
    · exact h.kept.goto_quiet trivial (by simp)
    · rename_i u hu
      have hget : s.users.get? u.id = some u :=
        Table.get?_eq_some.mpr ⟨List.mem_of_find?_eq_some hu, rfl⟩
      split_ifs
      · exact h.kept.goto_quiet (h.held_now hget) (by simp)
      · exact h.kept

lemma kept_commitSignIn (h : Sound k first s) {uid cv email display : String}
    (hf : s.flows c = .signingIn uid cv email display) :
    Kept k first s (commitSignIn s c uid cv email display) := by
  let refresh : User → User := fun v =>
    { v with email := firstOf [email, v.email], displayName := firstOf [display, v.displayName] }
  have hw : Writes k first s (s.users.modify uid refresh fun _ => rfl) (.signedIn uid) s.tick :=
    writes_signedIn (view_modify_same fun _ => rfl) (view_modify_same fun _ => rfl)
      fun j hj => Eq.trans (view_modify_same (f := refresh) (fun _ => rfl) j).symm hj
  have hheld := (h.written hw).flows c
  change FlowOk k _ (s.flows c) at hheld
  rw [hf] at hheld
  exact ((h.kept.write hw).issue hheld ⟨s.log, _, rfl, by simp [signs]⟩).idle

lemma kept_commitJoin (h : Sound k first s) (issuer : String) (claims : Claims) (newId : String) :
    Kept k first s (commitJoin k d s c issuer claims newId) := by
  unfold commitJoin
  split
  · exact h.kept.idle
  split
  · exact h.kept.idle
  · rename_i t u hup
    exact (kept_upsert h hup).idle

end SignIns

section Ends

lemma kept_openChange (h : Sound k first s) (t : Token) : Kept k first s (openChange k s c t) := by
  unfold openChange
  split_ifs with hacc
  · rw [Bool.and_eq_true] at hacc
    obtain ⟨u, hu, -, hcv⟩ := accepts_iff.mp hacc.2
    exact h.kept.goto_quiet (hcv ▸ h.held_now hu : Held k s t.uid t.cv s.log.length) (by simp)
  · exact h.kept

lemma kept_verifyChange (h : Sound k first s) {uid cv : String} {b : ℕ}
    (hf : s.flows c = .changing uid cv b false) (current : String) :
    Kept k first s (verifyChange k s c uid cv b current) := by
  have hheld := h.flows c
  rw [hf] at hheld
  unfold verifyChange
  split
  · exact h.kept.idle
  split_ifs
  · exact h.kept.goto_quiet (f := .changing uid cv b true) hheld (by simp)
  · exact h.kept.idle

lemma kept_commitChange (h : Sound k first s) {uid cv : String} {b : ℕ}
    (hf : s.flows c = .changing uid cv b true) (new : String) :
    Kept k first s (commitChange k s c uid cv b new) := by
  have hheld := h.flows c
  rw [hf] at hheld
  unfold commitChange
  split
  · exact h.kept.idle
  rename_i u hu
  split_ifs with hok
  · simp only [Bool.and_eq_true] at hok
    have hw := writes_setPassword h hu new (some b)
      ⟨hheld.1, Held.not_ended hheld hok.1.1⟩
    exact (h.kept.sign_modify hw hu (by simp [signs])).idle
  · exact h.kept.idle

lemma kept_openAdmin (h : Sound k first s) (t : Token) : Kept k first s (openAdmin k s c t) := by
  unfold openAdmin
  split_ifs
  · exact h.kept.goto_quiet trivial (by simp)
  · exact h.kept

lemma kept_resetPassword (h : Sound k first s) (admin uid new : String) :
    Kept k first s (resetPassword k s c admin uid new) := by
  unfold resetPassword
  split
  · exact h.kept.idle
  rename_i u hu
  split
  · have hw := writes_setPassword h hu new none trivial
    dsimp only
    split_ifs
    · exact (h.kept.sign_modify hw hu (by simp [signs])).idle
    · exact (h.kept.write hw).idle
  · exact h.kept.idle

/-- Every session of the account ends. -/
lemma writes_sessionsEnded {uid : String} {u : User} (hu : s.users.get? uid = some u) :
    Writes k first s (s.users.modify uid (rotateSessionNonce k s.tick) (rotateSessionNonce_id k s.tick))
      (.sessionsEnded uid) (s.tick + 1) :=
  writes_rotate hu (fun _ => rfl) (fun _ => rfl)
    (fun j hj => by simpa [Event.ends] using Ne.symm hj) (.inl rfl) trivial

lemma kept_revokeSessions (h : Sound k first s) (uid : String) :
    Kept k first s (revokeSessions k s c uid) := by
  unfold revokeSessions
  split
  · exact h.kept.idle
  · rename_i u hu
    exact (h.kept.write (writes_sessionsEnded hu)).idle

lemma kept_logout (h : Sound k first s) (t : Token) : Kept k first s (logout k s t) := by
  unfold logout
  split
  · exact h.kept
  rename_i u hu
  split_ifs
  · exact h.kept.write (writes_sessionsEnded hu)
  · exact h.kept

lemma kept_setActive (h : Sound k first s) (uid : String) (active : Bool) :
    Kept k first s (setActive k d s c uid active) := by
  unfold setActive
  split
  · exact h.kept.idle
  rename_i u hu
  split_ifs with hsame
  · exact h.kept.idle
  unfold setUserActive
  simp only [hu, if_neg hsame]
  split_ifs
  · exact h.kept.idle
  · have hw : Writes k first s
        (s.users.modify uid (setAccountActive (k.nonce s.tick) active) fun _ => rfl)
        (.activeSet uid active) (s.tick + 1) := by
      refine writes_rotate hu (fun _ => rfl) (fun _ => rfl)
        (fun j hj => by simp [Event.ends, Ne.symm hj]) ?_ trivial
      cases active with
      | false => exact .inl (by simp_all [setAccountActive])
      | true => exact .inr (by simp [setAccountActive, Event.ends])
    exact (h.kept.write hw).idle

end Ends

/-- One step of one client. -/
theorem kept_step (h : Sound k first s) (a : ℕ × Act) : Kept k first s (step k d s a) := by
  obtain ⟨c, a⟩ := a
  cases a with
  | login username password => exact kept_startLogin h username password
  | autologin => exact kept_startAutologin h
  | oidc claims newId => exact kept_startOidc h claims newId
  | openChange t => exact kept_openChange h t
  | openAdmin t => exact kept_openAdmin h t
  | logout t => exact kept_logout h t
  | loginCommit =>
    cases hf : s.flows c with
    | loggingIn uid p v up b => simpa only [step, hf] using kept_commitLogin h hf
    | _ => simpa only [step, hf] using h.kept
  | autologinRead =>
    cases hf : s.flows c with
    | autologin uid => simpa only [step, hf] using kept_readAutologin h uid
    | _ => simpa only [step, hf] using h.kept
  | signInCommit =>
    cases hf : s.flows c with
    | signingIn uid cv email display => simpa only [step, hf] using kept_commitSignIn h hf
    | joining issuer claims newId => simpa only [step, hf] using kept_commitJoin h issuer claims newId
    | _ => simpa only [step, hf] using h.kept
  | verifyChange current =>
    cases hf : s.flows c with
    | changing uid cv b verified =>
      cases verified with
      | false => simpa only [step, hf] using kept_verifyChange h hf current
      | true => simpa only [step, hf] using h.kept
    | _ => simpa only [step, hf] using h.kept
  | commitChange new =>
    cases hf : s.flows c with
    | changing uid cv b verified =>
      cases verified with
      | true => simpa only [step, hf] using kept_commitChange h hf new
      | false => simpa only [step, hf] using h.kept
    | _ => simpa only [step, hf] using h.kept
  | resetPassword uid new =>
    cases hf : s.flows c with
    | admin a => simpa only [step, hf] using kept_resetPassword h a uid new
    | _ => simpa only [step, hf] using h.kept
  | revokeSessions uid =>
    cases hf : s.flows c with
    | admin a => simpa only [step, hf] using kept_revokeSessions h uid
    | _ => simpa only [step, hf] using h.kept
  | setActive uid active =>
    cases hf : s.flows c with
    | admin a => simpa only [step, hf] using kept_setActive h uid active
    | _ => simpa only [step, hf] using h.kept

end Steps

section Runs

variable {k : Crypto} {d : Setup} {first : String → String} {s : State}

theorem sound_run (h : Sound k first s) (run : List (ℕ × Act)) :
    Sound k first (runFrom (step k d) s run) := by
  induction run generalizing s with
  | nil => exact h
  | cons a run ih => exact ih (kept_step h a).sound

theorem lapses_run (h : Sound k first s) {uid cv : String} (hl : Lapses k s uid cv)
    (run : List (ℕ × Act)) : Lapses k (runFrom (step k d) s run) uid cv := by
  induction run generalizing s with
  | nil => exact hl
  | cons a run ih => exact ih (kept_step h a).sound ((kept_step h a).lapses uid cv hl)

/-- No client has begun and no write is on record; what is drawn from here on is not on any account. -/
structure Initial (k : Crypto) (s : State) : Prop where
  flows : ∀ c, s.flows c = .idle
  issued : s.issued = []
  log : s.log = []
  hashes : ∀ u ∈ s.users.rows, OldHash k s.tick u.passwordHash
  nonces : ∀ u ∈ s.users.rows, OldNonce k s.tick u.sessionNonce

lemma Initial.sound (h : Initial k s) : Sound k (hashOf s.users) s where
  hashes uid := by
    cases hu : s.users.get? uid with
    | none =>
      rw [hashOf, view, hu]
      exact fun a _ p => k.hash_ne a p
    | some u =>
      rw [hashOf, view_of_get? hu]
      exact h.hashes u (Table.get?_eq_some.mp hu).1
  nonces uid := by
    cases hu : s.users.get? uid with
    | none =>
      rw [nonceOf, view, hu]
      exact fun a _ => k.nonce_ne a
    | some u =>
      rw [nonceOf, view_of_get? hu]
      exact h.nonces u (Table.get?_eq_some.mp hu).1
  stored uid := by simp [h.log, storedHash]
  issued i hi := by simp [h.issued] at hi
  flows c := by rw [h.flows c]; trivial
  apart c c' _ := by simp [Apart, h.flows c]
  entries pre e hpre := by simp [h.log] at hpre

/-- A version that lapsed with its account and is refused is not the account's, so its logout finds no
current session. -/
lemma logout_of_lapsed {t : Token} (hl : Lapses k s t.uid t.cv)
    (hno : accepts k s.users t.uid t.cv = false) : logout k s t = s := by
  obtain ⟨a, n, hcv, -, hact⟩ := hl
  unfold logout
  split
  · rfl
  rename_i u hu
  have hne : t.cv ≠ credentialVersion k u := fun heq => by
    obtain ⟨-, hn⟩ := k.version_inj (hcv.symm.trans heq)
    cases hu' : u.active with
    | true => exact Bool.false_ne_true (hno.symm.trans (accepts_iff.mpr ⟨u, hu, hu', heq⟩))
    | false => exact hact ((view_of_get? hu).trans hu') ((view_of_get? hu).trans hn.symm)
  simp [hne]

lemma Sound.lapses (h : Sound k first s) {uid cv : String} (hacc : accepts k s.users uid cv = true) :
    Lapses k s uid cv := by
  obtain ⟨u, hu, hact, hcv⟩ := accepts_iff.mp hacc
  have hn := h.nonces uid
  rw [nonceOf, view_of_get? hu] at hn
  refine ⟨u.passwordHash, u.sessionNonce, hcv, hn, fun hf => ?_⟩
  simp [activeOf, view_of_get? hu, hact] at hf

/-- In every run, of any clients: a session whose account's sessions have ended since it was issued is
refused; a session is issued by a write that signs its holder in; a sign-in with a password verified the
hash that was stored when it committed, and replaces none that was set since it began; a password is
changed by a session that no act ended since the change began; and the logout of a session that was
accepted once and is refused now, or is of another version than the account's, changes nothing. -/
theorem sessions_ended_run (k : Crypto) (d : Setup) (s : State) (h : Initial k s)
    (run : List (ℕ × Act)) :
    let s' := runFrom (step k d) s run
    (∀ i ∈ s'.issued, Since Event.ends s'.log i.uid i.since → accepts k s'.users i.uid i.cv = false) ∧
    (∀ i ∈ s'.issued, ∃ pre e, pre ++ [e] <+: s'.log ∧ i.since = pre.length + 1 ∧
      signs i.uid e = true) ∧
    (∀ pre uid password stored upgraded begun,
      pre ++ [.login uid password stored upgraded begun] <+: s'.log →
        stored = storedHash (hashOf s.users uid) uid pre ∧ verifyPassword k stored password = true ∧
          (upgraded ≠ none → begun ≤ pre.length ∧ ¬ Since Event.resets pre uid begun)) ∧
    (∀ pre uid hash begun, pre ++ [.passwordSet uid hash (some begun)] <+: s'.log →
      begun ≤ pre.length ∧ ¬ Since Event.ends pre uid begun) ∧
    (∀ run' c t,
      let s'' := runFrom (step k d) s' run'
      (accepts k s'.users t.uid t.cv = true ∧ accepts k s''.users t.uid t.cv = false) ∨
          (∀ u, s''.users.get? t.uid = some u → t.cv ≠ credentialVersion k u) →
        step k d s'' (c, .logout t) = s'') := by
  intro s'
  have hs : Sound k (hashOf s.users) s' := sound_run h.sound run
  refine ⟨fun i hi hend => ?_, fun i hi => (hs.issued i hi).2,
    fun pre uid password stored upgraded begun hpre => hs.entries _ _ hpre,
    fun pre uid hash begun hpre => hs.entries _ _ hpre, ?_⟩
  · rw [← Bool.not_eq_true]
    exact fun hacc => (hs.issued i hi).1.not_ended hacc hend
  · intro run' c t s'' hcase
    change logout k s'' t = s''
    obtain ⟨hacc, hno⟩ | hother := hcase
    · exact logout_of_lapsed (lapses_run hs (hs.lapses hacc) run') hno
    · unfold logout
      split
      · rfl
      · rename_i u hu
        simp [hother u hu]

end Runs

section Instance

/-- So many of the character, a mark, and what follows. -/
def marked (n : ℕ) (rest : List Char) : String := String.ofList (List.replicate n 'x' ++ '$' :: rest)

lemma replicate_append_inj {n m : ℕ} {l r : List Char}
    (h : List.replicate n 'x' ++ '$' :: l = List.replicate m 'x' ++ '$' :: r) : n = m ∧ l = r := by
  induction n generalizing m with
  | zero =>
    cases m with
    | zero => simpa using h
    | succ m => simp [List.replicate_succ] at h
  | succ n ih =>
    cases m with
    | zero => simp [List.replicate_succ] at h
    | succ m =>
      simp only [List.replicate_succ, List.cons_append, List.cons.injEq, true_and] at h
      exact ⟨congrArg _ (ih h).1, (ih h).2⟩

lemma marked_inj {n m : ℕ} {l r : List Char} (h : marked n l = marked m r) : n = m ∧ l = r :=
  replicate_append_inj (String.ofList_injective h)

lemma marked_ne (n : ℕ) (l : List Char) : marked n l ≠ "" := fun h => by
  simpa [marked] using congrArg String.toList h

/-- A hash that keeps its salt and its password apart, and a fingerprint that keeps both its parts. -/
def plainCrypto : Crypto where
  hash a p := marked a p.toList
  verify h p := h.toList.dropWhile (· = 'x') = '$' :: p.toList
  needsRehash _ := false
  nonce a := marked a []
  version h n := marked h.toList.length (h.toList ++ n.toList)
  hash_salt h := (marked_inj h).1
  hash_ne a p := marked_ne a p.toList
  nonce_inj h := (marked_inj h).1
  nonce_ne a := marked_ne a []
  version_inj h := by
    obtain ⟨hl, hr⟩ := marked_inj h
    obtain ⟨ha, hb⟩ := List.append_inj hr hl
    exact ⟨String.toList_injective ha, String.toList_injective hb⟩

/-- One local administrator, whose hash was drawn first. -/
def oneAdmin : State where
  users := ⟨[⟨"u1", "local:root", localIssuer, "", "", .admin, plainCrypto.hash 0 "a long password", true,
    ""⟩], List.nodup_singleton _⟩
  flows _ := .idle
  issued := []
  log := []
  tick := 1

lemma initial_oneAdmin : Initial plainCrypto oneAdmin where
  flows _ := rfl
  issued := rfl
  log := rfl
  hashes u hu := by
    obtain rfl := List.mem_singleton.mp hu
    intro a ha p h
    have := (marked_inj h).1
    simp only [oneAdmin] at ha
    omega
  nonces u hu := by
    obtain rfl := List.mem_singleton.mp hu
    exact fun a _ => marked_ne a []

/-- Two sessions of one account, of which one signs out. -/
theorem sessions_ended_oneAdmin :
    let d : Setup := ⟨⟨true, ⟨"", "", "", [], [], .firstLogin⟩⟩, "", ""⟩
    let held : Token := ⟨"u1", plainCrypto.version (plainCrypto.hash 0 "a long password") ""⟩
    let run : List (ℕ × Act) := [(0, .login "root" "a long password"), (0, .loginCommit),
      (1, .login "root" "a long password"), (1, .loginCommit), (0, .logout held)]
    let s' := runFrom (step plainCrypto d) oneAdmin run
    (s'.issued.length = 2 ∧ s'.log.length = 3) ∧
      ∀ i ∈ s'.issued, Since Event.ends s'.log i.uid i.since →
        accepts plainCrypto s'.users i.uid i.cv = false :=
  ⟨by decide, (sessions_ended_run plainCrypto _ oneAdmin initial_oneAdmin _).1⟩

end Instance

end CommitReplay.SessionEnds
