import CommitReplay.Invitations

/-! A one-time link opens its account at most once, and never after another way in. -/
namespace CommitReplay.OneTimeLinks

open CommitReplay.KeyedTable CommitReplay.TransitionRuns
open CommitReplay.Accounts
open CommitReplay.LastAdmin (minPasswordLength setUserActive createLocalUser)
open CommitReplay.SessionFlows (Crypto setPassword setPassword_id)
open CommitReplay.Invitations

section Links

/-- The link can no longer be used. -/
def Closed (inv : Invitation) (now : ℕ) : Prop :=
  inv.accepted.isSome ∨ inv.revoked.isSome ∨ inv.expires ≤ now

lemma Closed.later {inv : Invitation} {now then' : ℕ} (h : Closed inv now) (hle : now ≤ then') :
    Closed inv then' :=
  h.imp_right fun h => h.imp_right fun h => h.trans hle

lemma pending_iff (inv : Invitation) (now : ℕ) :
    invitationState inv now = .pending ↔ ¬ Closed inv now := by
  unfold invitationState Closed
  split_ifs <;> simp_all

def opened (uid : String) (log : List Event) : Bool := log.any (Event.opens uid)

lemma opened_append (uid : String) (m n : List Event) : opened uid (m ++ n) = (opened uid m || opened uid n) :=
  List.any_append

/-- The same link, accepted or revoked since. -/
structure Onward (inv inv' : Invitation) : Prop where
  id : inv'.id = inv.id
  userId : inv'.userId = inv.userId
  tokenHash : inv'.tokenHash = inv.tokenHash
  expires : inv'.expires = inv.expires
  accepted : inv.accepted.isSome → inv'.accepted.isSome
  revoked : inv.revoked.isSome → inv'.revoked.isSome

lemma Onward.refl (inv : Invitation) : Onward inv inv := ⟨rfl, rfl, rfl, rfl, fun h => h, fun h => h⟩

lemma Onward.closed {inv inv' : Invitation} {now : ℕ} (h : Onward inv inv') (hc : Closed inv now) :
    Closed inv' now := by
  obtain ha | hr | he := hc
  · exact .inl (h.accepted ha)
  · exact .inr (.inl (h.revoked hr))
  · exact .inr (.inr (h.expires ▸ he))

/-- Accounts, links and log of every state reached. -/
structure Sound (s : State) : Prop where
  hashes : (s.links.rows.map Invitation.tokenHash).Nodup
  owners : (s.links.rows.map Invitation.userId).Nodup
  known : ∀ inv ∈ s.links.rows, (s.users.get? inv.userId).isSome
  once : ∀ inv ∈ s.links.rows, inv.accepted = none ∨ inv.revoked = none
  acted : ∀ uid, opened uid s.log = true → (s.users.get? uid).isSome
  closed : ∀ inv ∈ s.links.rows, opened inv.userId s.log = true → Closed inv s.clock
  taken : ∀ uid i t, Event.accepted uid i t ∈ s.log →
    ∃ inv ∈ s.links.rows, inv.id = i ∧ inv.userId = uid ∧ inv.accepted.isSome ∧ t < inv.expires
  single : ∀ i, s.log.countP (Event.accepts i) ≤ 1
  unopened : ∀ uid i h, Event.invited uid i h ∈ s.log →
    ∃ u, s.users.get? uid = some u ∧ (opened uid s.log = false → u.active = false ∧ u.passwordHash = h)

/-- What an act that makes no link does: it takes links onward, may open accounts, and leaves the inactive
ones it does not open as they were. -/
structure Turns (s s' : State) (f : Invitation → Invitation) (entries : List Event) : Prop where
  links : s'.links.rows = s.links.rows.map f
  onward : ∀ inv ∈ s.links.rows, Onward inv (f inv)
  once : ∀ inv ∈ s.links.rows, (f inv).accepted = none ∨ (f inv).revoked = none
  clock : s.clock ≤ s'.clock
  log : s'.log = s.log ++ entries
  quiet : ∀ uid i h, Event.invited uid i h ∉ entries
  users : ∀ uid u, s.users.get? uid = some u → ∃ u', s'.users.get? uid = some u' ∧
    (opened uid entries = false → u.active = false → u'.active = false ∧ u'.passwordHash = u.passwordHash)
  acted : ∀ uid, opened uid entries = true → (s.users.get? uid).isSome
  closed : ∀ inv ∈ s.links.rows, opened inv.userId entries = true → Closed (f inv) s'.clock
  taken : ∀ uid i t, Event.accepted uid i t ∈ entries → ∃ inv ∈ s.links.rows, inv.id = i ∧ inv.userId = uid ∧
    inv.accepted = none ∧ (f inv).accepted.isSome ∧ t < inv.expires
  single : ∀ i, entries.countP (Event.accepts i) ≤ 1

lemma Sound.turns {s s' : State} {f : Invitation → Invitation} {entries : List Event} (h : Sound s)
    (ht : Turns s s' f entries) : Sound s' := by
  have hmem : ∀ {inv'}, inv' ∈ s'.links.rows → ∃ inv ∈ s.links.rows, f inv = inv' := by
    intro inv' hinv'
    rw [ht.links] at hinv'
    exact List.mem_map.mp hinv'
  have hsome : ∀ {uid}, (s.users.get? uid).isSome → (s'.users.get? uid).isSome := by
    intro uid hu
    obtain ⟨u, hu⟩ := Option.isSome_iff_exists.mp hu
    obtain ⟨u', hu', -⟩ := ht.users uid u hu
    rw [hu']
    rfl
  constructor
  · have hsame : s'.links.rows.map Invitation.tokenHash = s.links.rows.map Invitation.tokenHash := by
      rw [ht.links, List.map_map]
      exact List.map_congr_left fun inv hinv => (ht.onward inv hinv).tokenHash
    exact hsame ▸ h.hashes
  · have hsame : s'.links.rows.map Invitation.userId = s.links.rows.map Invitation.userId := by
      rw [ht.links, List.map_map]
      exact List.map_congr_left fun inv hinv => (ht.onward inv hinv).userId
    exact hsame ▸ h.owners
  · intro inv' hinv'
    obtain ⟨inv, hinv, rfl⟩ := hmem hinv'
    rw [(ht.onward inv hinv).userId]
    exact hsome (h.known inv hinv)
  · intro inv' hinv'
    obtain ⟨inv, hinv, rfl⟩ := hmem hinv'
    exact ht.once inv hinv
  · intro uid huid
    rw [ht.log, opened_append, Bool.or_eq_true] at huid
    exact hsome (huid.elim (h.acted uid) (ht.acted uid))
  · intro inv' hinv' hop
    obtain ⟨inv, hinv, rfl⟩ := hmem hinv'
    have hon := ht.onward inv hinv
    rw [ht.log, opened_append, Bool.or_eq_true, hon.userId] at hop
    exact hop.elim (fun hop => hon.closed ((h.closed inv hinv hop).later ht.clock)) (ht.closed inv hinv)
  · intro uid i t hacc
    rw [ht.log] at hacc
    obtain hacc | hacc := List.mem_append.mp hacc
    · obtain ⟨inv, hinv, hid, huid, hsome, hlt⟩ := h.taken uid i t hacc
      have hon := ht.onward inv hinv
      exact ⟨f inv, ht.links ▸ List.mem_map_of_mem hinv, hon.id.trans hid, hon.userId.trans huid,
        hon.accepted hsome, hon.expires ▸ hlt⟩
    · obtain ⟨inv, hinv, hid, huid, -, hsome, hlt⟩ := ht.taken uid i t hacc
      have hon := ht.onward inv hinv
      exact ⟨f inv, ht.links ▸ List.mem_map_of_mem hinv, hon.id.trans hid, hon.userId.trans huid, hsome,
        hon.expires ▸ hlt⟩
  · intro i
    rw [ht.log, List.countP_append]
    by_cases hn : entries.countP (Event.accepts i) = 0
    · rw [hn]
      exact h.single i
    · -- a link accepted now was not accepted before
      have hzero : s.log.countP (Event.accepts i) = 0 := by
        rw [List.countP_eq_zero]
        intro e he hacc
        obtain ⟨e', he', hacc'⟩ := List.countP_pos_iff.mp (Nat.pos_of_ne_zero hn)
        obtain ⟨uid, t, rfl⟩ : ∃ uid t, e = .accepted uid i t := by
          cases e <;> simp [Event.accepts] at hacc
          exact ⟨_, _, by rw [hacc]⟩
        obtain ⟨uid', t', rfl⟩ : ∃ uid t, e' = .accepted uid i t := by
          cases e' <;> simp [Event.accepts] at hacc'
          exact ⟨_, _, by rw [hacc']⟩
        obtain ⟨inv, hinv, hid, -, hsome, -⟩ := h.taken uid i t he
        obtain ⟨inv', hinv', hid', -, hnone, -⟩ := ht.taken uid' i t' he'
        obtain rfl := List.inj_on_of_nodup_map s.links.nodup hinv hinv' (hid.trans hid'.symm)
        rw [hnone] at hsome
        cases hsome
      rw [hzero, Nat.zero_add]
      exact ht.single i
  · intro uid i hash hinv
    rw [ht.log] at hinv
    obtain hinv | hinv := List.mem_append.mp hinv
    · obtain ⟨u, hu, hun⟩ := h.unopened uid i hash hinv
      obtain ⟨u', hu', hstay⟩ := ht.users uid u hu
      refine ⟨u', hu', fun hop => ?_⟩
      rw [ht.log, opened_append, Bool.or_eq_false_iff] at hop
      obtain ⟨hactive, hhash⟩ := hun hop.1
      obtain ⟨hactive', hhash'⟩ := hstay hop.2 hactive
      exact ⟨hactive', hhash'.trans hhash⟩
    · exact absurd hinv (ht.quiet uid i hash)

end Links

section Acts

/-- The events open no account, accept no link and make none. -/
def Mute (entries : List Event) : Prop :=
  ∀ e ∈ entries, (∀ uid, e.opens uid = false) ∧ (∀ i, e.accepts i = false) ∧ ∀ uid i h, e ≠ .invited uid i h

/-- The accounts that are not opened and are inactive stay as they are. -/
def Spares (t t' : Users) (entries : List Event) : Prop :=
  ∀ uid u, t.get? uid = some u → ∃ u', t'.get? uid = some u' ∧
    (opened uid entries = false → u.active = false → u'.active = false ∧ u'.passwordHash = u.passwordHash)

lemma spares_refl (t : Users) (entries : List Event) : Spares t t entries :=
  fun _ u hu => ⟨u, hu, fun _ ha => ⟨ha, rfl⟩⟩

lemma spares_modify {t t' : Users} {uid : String} {g : User → User} {hg : ∀ v, (g v).id = v.id}
    {entries : List Event} (ht : t' = t.modify uid g hg)
    (h : opened uid entries = false → ∀ u, t.get? uid = some u → u.active = false →
      (g u).active = false ∧ (g u).passwordHash = u.passwordHash) : Spares t t' entries := by
  intro j u hu
  rw [ht, Table.get?_modify]
  split_ifs with hj
  · subst hj
    exact ⟨g u, by rw [hu]; rfl, fun hop ha => h hop u hu ha⟩
  · exact ⟨u, hu, fun _ ha => ⟨ha, rfl⟩⟩

lemma Spares.mono {t t' : Users} {m n : List Event} (h : Spares t t' m)
    (hmn : ∀ uid, opened uid n = false → opened uid m = false) : Spares t t' n := by
  intro uid u hu
  obtain ⟨u', hu', hstay⟩ := h uid u hu
  exact ⟨u', hu', fun hop => hstay (hmn uid hop)⟩

lemma Mute.opened {entries : List Event} (h : Mute entries) (uid : String) : opened uid entries = false := by
  rw [OneTimeLinks.opened, List.any_eq_false]
  intro e he
  rw [(h e he).1 uid]
  exact Bool.false_ne_true

lemma mute_nil : Mute [] := fun _ h => by cases h

lemma mute_singleton {e : Event} (ho : ∀ uid, e.opens uid = false) (ha : ∀ i, e.accepts i = false)
    (hi : ∀ uid i h, e ≠ .invited uid i h) : Mute [e] := fun e' he => by
  obtain rfl := List.mem_singleton.mp he
  exact ⟨ho, ha, hi⟩

lemma Mute.append {m n : List Event} (hm : Mute m) (hn : Mute n) : Mute (m ++ n) := fun e he =>
  (List.mem_append.mp he).elim (hm e) (hn e)

lemma mute_withdrawals (s : State) (uid how : String) : Mute (withdrawals s uid how) := by
  intro e he
  obtain ⟨inv, -, rfl⟩ := List.mem_map.mp he
  exact ⟨fun _ => rfl, fun _ => rfl, fun _ _ _ => Event.noConfusion⟩

/-- An act that opens no account. -/
lemma turns_mute {s s' : State} {f : Invitation → Invitation} {entries : List Event}
    (hlinks : s'.links.rows = s.links.rows.map f) (hon : ∀ inv ∈ s.links.rows, Onward inv (f inv))
    (honce : ∀ inv ∈ s.links.rows, (f inv).accepted = none ∨ (f inv).revoked = none)
    (hclock : s.clock ≤ s'.clock) (hlog : s'.log = s.log ++ entries) (hmute : Mute entries)
    (husers : Spares s.users s'.users entries) : Turns s s' f entries where
  links := hlinks
  onward := hon
  once := honce
  clock := hclock
  log := hlog
  quiet uid i h hmem := (hmute _ hmem).2.2 uid i h rfl
  users := husers
  acted uid h := by rw [hmute.opened] at h; cases h
  closed inv _ h := by rw [hmute.opened] at h; cases h
  taken uid i t h := by
    have := (hmute _ h).2.1 i
    simp [Event.accepts] at this
  single i := by
    rw [List.countP_eq_zero.mpr fun e he => by rw [(hmute e he).2.1 i]; exact Bool.false_ne_true]
    exact Nat.zero_le 1

lemma onward_withdraw (uid how : String) (now : ℕ) (inv : Invitation) :
    Onward inv (withdraw uid how now inv) := by
  unfold withdraw
  split_ifs
  · exact ⟨rfl, rfl, rfl, rfl, fun h => h, fun _ => rfl⟩
  · exact .refl inv

lemma once_withdraw (uid how : String) (now : ℕ) {inv : Invitation}
    (h : inv.accepted = none ∨ inv.revoked = none) :
    (withdraw uid how now inv).accepted = none ∨ (withdraw uid how now inv).revoked = none := by
  unfold withdraw withdraws
  split_ifs with hw
  · simp only [Bool.and_eq_true, Option.isNone_iff_eq_none] at hw
    exact .inl hw.1.1.2
  · exact h

/-- Every link to the account is closed after it was opened. -/
lemma closed_withdraw (how : String) (now : ℕ) (inv : Invitation) :
    Closed (withdraw inv.userId how now inv) now := by
  unfold withdraw
  split_ifs with hw
  · exact .inr (.inl rfl)
  · unfold Closed
    cases ha : inv.accepted with
    | some a => exact .inl rfl
    | none =>
      cases hr : inv.revoked with
      | some r => exact .inr (.inl rfl)
      | none => exact .inr (.inr (by simpa [withdraws, ha, hr] using hw))

/-- The account is opened, or was before, and its links are withdrawn. -/
lemma sound_supersede {s s' : State} {uid : String} {entries : List Event} (how : String) (h : Sound s)
    (hlinks : s'.links = s.links) (hclock : s'.clock = s.clock) (hlog : s'.log = s.log ++ entries)
    (hquiet : ∀ e ∈ entries, (∀ i, e.accepts i = false) ∧ ∀ uid i h, e ≠ .invited uid i h)
    (hopens : ∀ e ∈ entries, ∀ j, e.opens j = true → j = uid) (huid : (s.users.get? uid).isSome)
    (husers : Spares s.users s'.users entries) :
    Sound (supersedeInvitations s' uid how) := by
  have hmute := mute_withdrawals s' uid how
  have hopened : ∀ {j}, opened j (entries ++ withdrawals s' uid how) = true → j = uid := by
    intro j hj
    rw [opened_append, hmute.opened, Bool.or_false] at hj
    obtain ⟨e, he, hop⟩ := List.any_eq_true.mp hj
    exact hopens e he j hop
  have haccepts : ∀ e ∈ entries ++ withdrawals s' uid how, ∀ i, e.accepts i = false := fun e he i =>
    (List.mem_append.mp he).elim (fun he => (hquiet e he).1 i) fun he => (hmute e he).2.1 i
  refine h.turns (f := withdraw uid how s.clock)
    ⟨?_, fun inv _ => onward_withdraw uid how s.clock inv,
      fun inv hinv => once_withdraw uid how s.clock (h.once inv hinv), hclock.ge, ?_, ?_, ?_,
      fun j hj => hopened hj ▸ huid, ?_, ?_, ?_⟩
  · rw [← hclock, ← hlinks]
    rfl
  · rw [← List.append_assoc, ← hlog]
    rfl
  · exact fun j i hash hmem => (List.mem_append.mp hmem).elim
      (fun he => (hquiet _ he).2 j i hash rfl) fun he => (hmute _ he).2.2 j i hash rfl
  · exact husers.mono fun j hj => by
      rw [opened_append, Bool.or_eq_false_iff] at hj
      exact hj.1
  · intro inv hinv hj
    obtain rfl := hopened hj
    exact (closed_withdraw how s.clock inv).later hclock.ge
  · intro j i t hmem
    have hacc := haccepts _ hmem i
    simp [Event.accepts] at hacc
  · intro i
    rw [List.countP_eq_zero.mpr fun e he => by rw [haccepts e he i]; exact Bool.false_ne_true]
    exact Nat.zero_le 1

lemma sound_clock {s : State} (h : Sound s) {n : ℕ} (hn : s.clock ≤ n) : Sound { s with clock := n } :=
  h.turns (turns_mute (f := fun inv => inv) (List.map_id' _).symm (fun inv _ => .refl inv) h.once hn
    (List.append_nil _).symm mute_nil (spares_refl _ _))

/-- Neither the links nor the opened accounts change. -/
lemma sound_users {s s' : State} (h : Sound s) {entries : List Event} (hlinks : s'.links = s.links)
    (hclock : s'.clock = s.clock) (hlog : s'.log = s.log ++ entries) (hmute : Mute entries)
    (husers : Spares s.users s'.users entries) : Sound s' :=
  h.turns (turns_mute (f := fun inv => inv) (by rw [hlinks, List.map_id']) (fun inv _ => .refl inv) h.once
    hclock.ge hlog hmute husers)

lemma sound_revoke {s : State} (h : Sound s) (readAt : ℕ) (id reason : String) :
    Sound (revokeInvitation s readAt id reason).1 := by
  unfold revokeInvitation
  split_ifs
  · exact h
  · cases hget : s.links.get? id with
    | none => exact h
    | some inv =>
      obtain ⟨hinv, rfl⟩ := Table.get?_eq_some.mp hget
      have hrevoke : invitationState inv readAt ≠ .accepted →
          Sound { s with
            links := s.links.modify inv.id (revoke reason s.clock) (revoke_id reason s.clock)
            log := s.log ++ (s.users.get? inv.userId).toList.map fun u => .revoked u.id inv.id reason } := by
        intro hstate
        have hmute : Mute ((s.users.get? inv.userId).toList.map fun u => Event.revoked u.id inv.id reason) := by
          intro e he
          obtain ⟨u, -, rfl⟩ := List.mem_map.mp he
          exact ⟨fun _ => rfl, fun _ => rfl, fun _ _ _ => Event.noConfusion⟩
        refine h.turns (turns_mute (Table.rows_modify _ _ (revoke_id reason s.clock)) (fun x _ => ?_) (fun x hx => ?_) le_rfl rfl hmute
          (spares_refl _ _))
        · split_ifs
          · exact ⟨rfl, rfl, rfl, rfl, fun h => h, fun _ => rfl⟩
          · exact .refl x
        · split_ifs with hid
          · obtain rfl := List.inj_on_of_nodup_map s.links.nodup hx hinv hid
            left
            unfold invitationState at hstate
            split_ifs at hstate with ha
            all_goals first | exact absurd rfl hstate | simpa [revoke] using ha
          · exact h.once x hx
      dsimp only
      cases hstate : invitationState inv readAt with
      | accepted => exact h
      | revoked => exact h
      | expired => exact hrevoke (by rw [hstate]; decide)
      | pending => exact hrevoke (by rw [hstate]; decide)

variable (k : Crypto) (tokenHash : String → String) (d : Settings)

lemma sound_setUserPassword {s : State} (h : Sound s) (uid new : String) :
    Sound (setUserPassword k s uid new).1 := by
  unfold setUserPassword
  cases hu : s.users.get? uid with
  | none => exact h
  | some u =>
    dsimp only
    split_ifs
    · exact h
    · exact h
    · refine sound_supersede _ h rfl rfl rfl ?_ ?_ (by rw [hu]; rfl)
        (spares_modify (withPassword.eq_1 k _ _ _ _) fun hop => ?_)
      · simp [Event.accepts]
      · simp [Event.opens]
      · simp [opened, Event.opens] at hop

lemma setAccountActive_id (nonce : String) (active : Bool) (u : User) :
    (setAccountActive nonce active u).id = u.id := rfl

lemma setUserActive_eq {t t' : Users} {uid nonce : String} {active : Bool} {u : User}
    (hu : t.get? uid = some u) (hne : u.active ≠ active)
    (h : setUserActive d t uid active nonce = .ok t') :
    t' = t.modify uid (setAccountActive nonce active) (setAccountActive_id nonce active) := by
  simp only [setUserActive, hu, if_neg hne] at h
  split_ifs at h
  exact (Except.ok.inj h).symm

lemma sound_setActive {s : State} (h : Sound s) (uid : String) (active : Bool) :
    Sound (setActive k d s uid active).1 := by
  unfold setActive
  cases hu : s.users.get? uid with
  | none => exact h
  | some u =>
    dsimp only
    split_ifs with hne hactive
    · exact h
    · cases hset : setUserActive d s.users uid active (k.nonce s.tick) with
      | error r => exact h
      | ok t =>
        subst hactive
        have ht := setUserActive_eq d hu hne hset
        refine sound_supersede _ h rfl rfl rfl ?_ ?_ (by rw [hu]; rfl) ?_
        · simp [Event.accepts]
        · simp [Event.opens]
        · exact spares_modify ht fun hop => by simp [opened, Event.opens] at hop
    · cases hset : setUserActive d s.users uid active (k.nonce s.tick) with
      | error r => exact h
      | ok t =>
        obtain rfl : active = false := by simpa using hactive
        have ht := setUserActive_eq d hu hne hset
        refine sound_users h rfl rfl rfl (mute_singleton (fun _ => rfl)
          (fun _ => rfl) fun _ _ _ => Event.noConfusion) ?_
        exact spares_modify ht fun _ _ _ _ => ⟨rfl, rfl⟩

lemma setRole_eq {t t' : Users} {uid role nonce : String} {active : Option Bool} {u : User}
    (hu : t.get? uid = some u) (h : LastAdmin.setRole d t uid role active nonce = .ok t') :
    ∃ r, t' = t.modify uid (fun v => setAccountActive nonce (active.getD u.active) { v with role := r })
      fun _ => rfl := by
  unfold LastAdmin.setRole at h
  cases hr : validateRole role with
  | none => rw [hr] at h; cases h
  | some r =>
    simp only [hr, hu] at h
    split_ifs at h
    exact ⟨r, (Except.ok.inj h).symm⟩

lemma sound_setRole {s : State} (h : Sound s) (uid role : String) (active : Option Bool) :
    Sound (setRole k d s uid role active).1 := by
  unfold setRole
  cases hset : LastAdmin.setRole d s.users uid role active (k.nonce s.tick) with
  | error r => exact h
  | ok t =>
    cases hu : s.users.get? uid with
    | none => exact h
    | some u =>
      obtain ⟨r, ht⟩ := setRole_eq d hu hset
      have hrole : Mute (if validateRole role = some u.role then [] else [Event.roleSet uid]) := by
        split_ifs
        · exact mute_nil
        · exact mute_singleton (fun _ => rfl) (fun _ => rfl) fun _ _ _ => Event.noConfusion
      dsimp only
      generalize (if validateRole role = some u.role then [] else [Event.roleSet uid]) = roleEvents at hrole ⊢
      cases hactive : u.active with
      | false =>
        cases hnew : active.getD u.active with
        | false =>
          rw [hactive] at hnew
          rw [hnew]
          refine sound_users h rfl rfl (List.append_assoc _ _ _) (hrole.append mute_nil) ?_
          refine spares_modify ht fun _ v _ ha => ⟨?_, rfl⟩
          simp [setAccountActive, hactive, hnew]
        | true =>
          rw [hactive] at hnew
          rw [hnew]
          refine sound_supersede _ h rfl rfl (List.append_assoc _ _ _) ?_ ?_ (by rw [hu]; rfl) ?_
          · intro e he
            obtain he | he := List.mem_append.mp he
            · exact (hrole e he).2
            · obtain rfl := List.mem_singleton.mp he
              exact ⟨fun _ => rfl, fun _ _ _ => Event.noConfusion⟩
          · intro e he j hj
            obtain he | he := List.mem_append.mp he
            · rw [(hrole e he).1 j] at hj
              cases hj
            · obtain rfl := List.mem_singleton.mp he
              simpa [Event.opens, eq_comm] using hj
          · exact spares_modify ht fun hop => by simp [opened_append, opened, Event.opens] at hop
      | true =>
        have hmute : Mute (if active.getD true = true then [] else
            [if active.getD true = true then Event.activated uid else .deactivated uid]) := by
          split_ifs
          · exact mute_nil
          · exact mute_singleton (fun _ => rfl) (fun _ => rfl) fun _ _ _ => Event.noConfusion
        rw [Bool.not_true, Bool.and_false, if_neg Bool.false_ne_true]
        refine sound_users h rfl rfl (List.append_assoc _ _ _) (hrole.append hmute) (spares_modify ht ?_)
        intro _ v hv ha
        -- the account itself is active
        rw [hu] at hv
        obtain rfl := Option.some.inj hv
        rw [hactive] at ha
        cases ha

lemma createLocalUser_ok {t t' : Users} {newId username password hash role display email : String}
    {active : Bool} (h : createLocalUser t newId username password hash role display email active = .ok t') :
    ∃ u, t.insert? u = some t' ∧ u.id = newId ∧ u.active = active ∧ u.passwordHash = hash := by
  unfold createLocalUser at h
  split at h
  · next name r _ _ =>
    dsimp only at h
    split_ifs at h
    split at h
    · next t'' hadd =>
      obtain rfl := Except.ok.inj h
      unfold Users.add at hadd
      split_ifs at hadd
      exact ⟨_, hadd, rfl, rfl, rfl⟩
    · cases h
  · cases h

lemma get?_of_insert? {u : User} {t t' : Users} (h : t.insert? u = some t') :
    t.get? u.id = none ∧ t'.get? u.id = some u := by
  refine ⟨?_, Table.get?_eq_some.mpr ⟨(Table.mem_insert? h).mpr (.inr rfl), rfl⟩⟩
  by_contra hne
  obtain ⟨v, hv⟩ := Option.ne_none_iff_exists'.mp hne
  obtain ⟨hv, hid⟩ := Table.get?_eq_some.mp hv
  unfold Table.insert? at h
  rw [dif_pos (hid ▸ List.mem_map_of_mem hv)] at h
  cases h

/-- The new account and its link. -/
lemma Sound.create {s : State} (h : Sound s) {users : Users} {links : Table Invitation.id} {u : User}
    {inv : Invitation} {tick : ℕ} (huser : s.users.insert? u = some users) (hactive : u.active = false)
    (hlink : s.links.insert? inv = some links) (hfresh : inv.tokenHash ∉ s.links.rows.map Invitation.tokenHash)
    (howner : inv.userId = u.id) (hacc : inv.accepted = none) :
    Sound { s with users, links, tick, log := s.log ++ [.invited u.id inv.id u.passwordHash] } := by
  obtain ⟨hnone, hnew⟩ := get?_of_insert? huser
  have hrows := Table.rows_insert? hlink
  have hkeep : ∀ {uid}, (s.users.get? uid).isSome → (users.get? uid).isSome := by
    intro uid hu
    obtain ⟨v, hv⟩ := Option.isSome_iff_exists.mp hu
    rw [Table.get?_insert? huser hv]
    rfl
  have hopened : ∀ uid, opened uid (s.log ++ [.invited u.id inv.id u.passwordHash]) = opened uid s.log := by
    intro uid
    simp [opened_append, opened, Event.opens]
  have hunopened : opened u.id s.log = false := by
    by_contra hop
    have := h.acted u.id (by simpa using hop)
    rw [hnone] at this
    cases this
  constructor
  · simp only [hrows, List.map_append]
    exact h.hashes.append (List.nodup_singleton _) (List.disjoint_singleton.mpr hfresh)
  · simp only [hrows, List.map_append]
    refine h.owners.append (List.nodup_singleton _) (List.disjoint_singleton.mpr fun hmem => ?_)
    obtain ⟨x, hx, hxu⟩ := List.mem_map.mp hmem
    have := h.known x hx
    rw [hxu, howner, hnone] at this
    cases this
  · intro x hx
    obtain hx | rfl := (Table.mem_insert? hlink).mp hx
    · exact hkeep (h.known x hx)
    · rw [howner, hnew]
      rfl
  · intro x hx
    obtain hx | rfl := (Table.mem_insert? hlink).mp hx
    · exact h.once x hx
    · exact .inl hacc
  · intro uid huid
    rw [hopened] at huid
    exact hkeep (h.acted uid huid)
  · intro x hx hop
    rw [hopened] at hop
    obtain hx | rfl := (Table.mem_insert? hlink).mp hx
    · exact h.closed x hx hop
    · rw [howner, hunopened] at hop
      cases hop
  · intro uid i t hmem
    obtain hmem | hmem := List.mem_append.mp hmem
    · obtain ⟨x, hx, hrest⟩ := h.taken uid i t hmem
      exact ⟨x, (Table.mem_insert? hlink).mpr (.inl hx), hrest⟩
    · simp at hmem
  · intro i
    simpa [List.countP_append, Event.accepts] using h.single i
  · intro uid i hash hmem
    obtain hmem | hmem := List.mem_append.mp hmem
    · obtain ⟨v, hv, hstay⟩ := h.unopened uid i hash hmem
      refine ⟨v, Table.get?_insert? huser hv, fun hop => hstay ?_⟩
      rwa [hopened] at hop
    · obtain ⟨rfl, rfl, rfl⟩ : uid = u.id ∧ i = inv.id ∧ hash = u.passwordHash := by simpa using hmem
      exact ⟨u, hnew, fun _ => ⟨hactive, rfl⟩⟩

lemma sound_create {s : State} (h : Sound s) (admin newUser newInv token secret : String)
    (b : InviteRequest) : Sound (createInvitation k tokenHash s admin newUser newInv token secret b).1 := by
  unfold createInvitation
  by_cases hvalid : b.Valid
  · rw [if_neg (not_not.mpr hvalid)]
    cases validateRole b.role with
    | none => exact h
    | some role =>
      dsimp only
      by_cases hrole : role ∈ invitableRoles
      · rw [if_neg (not_not.mpr hrole)]
        cases hcreate : createLocalUser s.users newUser b.username secret (k.hash s.tick secret) b.role
          b.displayName b.email false with
        | error r => exact h
        | ok users =>
          dsimp only
          split
          · exact h
          · next hhash =>
            split
            · exact h
            · next links hlink =>
              obtain ⟨u, huser, rfl, hactive, hpass⟩ := createLocalUser_ok hcreate
              rw [← hpass]
              exact h.create huser hactive hlink hhash rfl rfl
      · rw [if_pos hrole]
        exact h
  · rw [if_pos hvalid]
    exact h

/-- The link that was read as pending is accepted, and opens its account. -/
lemma Sound.accept {s : State} (h : Sound s) {readAt : ℕ} {inv : Invitation} {t' : Users} {tick : ℕ}
    (hread : readAt ≤ s.clock) (hinv : inv ∈ s.links.rows) (hpending : ¬ Closed inv readAt)
    (husers : Spares s.users t' [.accepted inv.userId inv.id readAt]) :
    Sound { s with
      users := t', links := s.links.modify inv.id (accept s.clock) (accept_id s.clock), tick
      log := s.log ++ [.accepted inv.userId inv.id readAt] } := by
  simp only [Closed, not_or, not_le, Bool.not_eq_true, Option.isSome_eq_false_iff,
    Option.isNone_iff_eq_none] at hpending
  have hself : ∀ x ∈ s.links.rows, x.id = inv.id → x = inv := fun x hx hid =>
    List.inj_on_of_nodup_map s.links.nodup hx hinv hid
  refine h.turns ⟨Table.rows_modify _ _ (accept_id s.clock), fun x _ => ?_, fun x hx => ?_, le_rfl, rfl, ?_,
    husers, fun uid hop => ?_, fun x hx hop => ?_, fun uid i t hmem => ?_, fun i => ?_⟩
  · split_ifs
    · exact ⟨rfl, rfl, rfl, rfl, fun _ => rfl, fun h => h⟩
    · exact .refl x
  · split_ifs with hid
    · rw [hself x hx hid]
      exact .inr hpending.2.1
    · exact h.once x hx
  · simp
  · obtain rfl : inv.userId = uid := by simpa [opened, Event.opens] using hop
    exact h.known inv hinv
  · -- no other link is to the same account
    have howner : inv.userId = x.userId := by simpa [opened, Event.opens] using hop
    obtain rfl := List.inj_on_of_nodup_map h.owners hinv hx howner
    rw [if_pos rfl]
    exact .inl rfl
  · obtain ⟨rfl, rfl, rfl⟩ : uid = inv.userId ∧ i = inv.id ∧ t = readAt := by simpa using hmem
    exact ⟨inv, hinv, rfl, rfl, hpending.1, by rw [if_pos rfl]; rfl, hpending.2.2⟩
  · exact List.countP_le_length

/-- What an acceptance does: nothing, or it withdraws the links of an account that was opened, or it opens the
account with the password it was called with. -/
inductive Accepts (s : State) (readAt : ℕ) (token password : String) : State × Reply → Prop
  | refused (r : Reply) : r.isAccepted = false → Accepts s readAt token password (s, r)
  | superseded (inv : Invitation) (user : User) (how : String) :
      inv ∈ s.links.rows → s.users.get? inv.userId = some user →
      Accepts s readAt token password (supersedeInvitations s user.id how, invalidToken)
  | opened (inv : Invitation) (user : User) (users : Users) (r : Reply) :
      inv ∈ s.links.rows → inv.tokenHash = tokenHash token → ¬ Closed inv readAt →
      s.users.get? inv.userId = some user → user.active = false →
      setUserActive d s.users user.id true (k.nonce s.tick) = .ok users → r.isAccepted = true →
      Accepts s readAt token password
        ({ s with
          users := withPassword k users user.id password s.tick
          links := s.links.modify inv.id (accept s.clock) (accept_id s.clock)
          tick := s.tick + 1
          log := s.log ++ [.accepted user.id inv.id readAt] }, r)

lemma accepts_acceptInvitation (s : State) (readAt : ℕ) (token password : String) (limited : Bool) :
    Accepts k tokenHash d s readAt token password
      (acceptInvitation k tokenHash d s readAt token password limited) := by
  unfold acceptInvitation
  split
  · exact .refused _ rfl
  · split
    · exact .refused _ rfl
    · cases hfind : s.links.rows.find? fun inv => inv.tokenHash = tokenHash token with
      | none => exact .refused _ rfl
      | some inv =>
        have hinv := List.mem_of_find?_eq_some hfind
        have hhash : inv.tokenHash = tokenHash token := by simpa using List.find?_some hfind
        dsimp only
        cases hu : s.users.get? inv.userId with
        | none => exact .refused _ rfl
        | some user =>
          dsimp only
          split
          · exact .refused _ rfl
          · next hstate =>
            rw [not_not, pending_iff] at hstate
            split
            · exact .superseded inv user _ hinv hu
            · next hactive =>
              split
              · exact .refused _ rfl
              · cases hset : setUserActive d s.users user.id true (k.nonce s.tick) with
                | error r => exact .refused _ rfl
                | ok users =>
                  rw [Bool.or_eq_true, not_or] at hactive
                  exact .opened inv user users _ hinv hhash hstate hu (by simpa using hactive.1) hset rfl

lemma sound_accept {s : State} (h : Sound s) {readAt : ℕ} (hread : readAt ≤ s.clock)
    (token password : String) (limited : Bool) :
    Sound (acceptInvitation k tokenHash d s readAt token password limited).1 := by
  have hacc := accepts_acceptInvitation k tokenHash d s readAt token password limited
  generalize acceptInvitation k tokenHash d s readAt token password limited = out at hacc ⊢
  cases hacc with
  | refused r _ => exact h
  | superseded inv user how hinv hu =>
    refine sound_supersede how h rfl rfl (List.append_nil _).symm (by simp) (by simp) ?_
      (spares_refl _ _)
    rw [(Table.get?_eq_some.mp hu).2, hu]
    rfl
  | opened inv user users r hinv _ hclosed hu hactive hset _ =>
    obtain ⟨-, huid⟩ := Table.get?_eq_some.mp hu
    rw [huid] at hset ⊢
    refine h.accept hread hinv hclosed fun j v hv => ?_
    have hset' := setUserActive_eq d hu (by rw [hactive]; decide) hset
    -- the account itself is opened, the others are as they were
    rw [hset', withPassword, Table.get?_modify, Table.get?_modify]
    by_cases hj : j = inv.userId
    · rw [if_pos hj, if_pos hj, hv]
      exact ⟨_, rfl, fun hop => by simp [opened, Event.opens, hj] at hop⟩
    · rw [if_neg hj, if_neg hj]
      exact ⟨v, hv, fun _ ha => ⟨ha, rfl⟩⟩

lemma sound_signIn {s : State} (h : Sound s) (uid : String) : Sound (signIn s uid).1 := by
  unfold signIn
  split
  · split
    · exact ⟨h.hashes, h.owners, h.known, h.once, h.acted, h.closed, h.taken, h.single, h.unopened⟩
    · exact h
  · exact h

lemma sound_step {s : State} (h : Sound s) (l : Label) : Sound (step k tokenHash d s l) := by
  have hclock : Sound { s with clock := s.clock + l.before + l.during } :=
    sound_clock h (by omega)
  unfold step perform
  cases l.act with
  | create admin newUser newInv token secret body => exact sound_create k tokenHash hclock ..
  | revoke invitationId reason => exact sound_revoke hclock ..
  | accept token password limited => exact sound_accept k tokenHash d hclock (Nat.le_add_right _ _) ..
  | setPassword uid new => exact sound_setUserPassword k hclock ..
  | setActive uid active => exact sound_setActive k d hclock ..
  | setRole uid role active => exact sound_setRole k d hclock ..
  | signIn uid => exact sound_signIn hclock uid

end Acts

section Runs

variable (k : Crypto) (tokenHash : String → String) (d : Settings)

/-- Some accounts, and no invitation yet. -/
def start (users : Users) (lastLogin : String → Bool) (clock tick : ℕ) : State :=
  ⟨users, lastLogin, Table.empty, clock, tick, []⟩

lemma sound_start (users : Users) (lastLogin : String → Bool) (clock tick : ℕ) :
    Sound (start users lastLogin clock tick) where
  hashes := List.nodup_nil
  owners := List.nodup_nil
  known _ h := by cases h
  once _ h := by cases h
  acted _ h := by cases h
  closed _ h := by cases h
  taken _ _ _ h := by cases h
  single _ := Nat.zero_le 1
  unopened _ _ _ h := by cases h

def acceptAt (s : State) (token password : String) (limited : Bool) (before during : ℕ) : State × Reply :=
  perform k tokenHash d s ⟨.accept token password limited, before, during⟩

lemma accepts_acceptAt (s : State) (token password : String) (limited : Bool) (before during : ℕ) :
    Accepts k tokenHash d { s with clock := s.clock + before + during } (s.clock + before) token password
      (acceptAt k tokenHash d s token password limited before during) :=
  accepts_acceptInvitation k tokenHash d _ _ token password limited

/-- A closed link opens nothing. -/
lemma acceptAt_of_closed {s : State} (h : Sound s) {inv : Invitation} (hinv : inv ∈ s.links.rows)
    (hclosed : Closed inv s.clock) {token : String} (hhash : inv.tokenHash = tokenHash token)
    (password : String) (limited : Bool) (before during : ℕ) :
    (acceptAt k tokenHash d s token password limited before during).2.isAccepted = false ∧
      (acceptAt k tokenHash d s token password limited before during).1.users = s.users := by
  have hacc := accepts_acceptAt k tokenHash d s token password limited before during
  generalize acceptAt k tokenHash d s token password limited before during = out at hacc ⊢
  cases hacc with
  | refused r hr => exact ⟨hr, rfl⟩
  | superseded => exact ⟨rfl, rfl⟩
  | opened inv' user users r hinv' hhash' hopen =>
    obtain rfl := List.inj_on_of_nodup_map h.hashes hinv hinv' (hhash.trans hhash'.symm)
    exact absurd (hclosed.later (Nat.le_add_right _ _)) hopen

/-- An acceptance that succeeds leaves the account active with the password it was called with. -/
lemma acceptAt_opens {s : State} {token password : String} {limited : Bool} {before during : ℕ}
    (hacc : (acceptAt k tokenHash d s token password limited before during).2.isAccepted = true) :
    ∃ inv ∈ s.links.rows, inv.tokenHash = tokenHash token ∧ s.clock + before < inv.expires ∧
      ∃ u, (acceptAt k tokenHash d s token password limited before during).1.users.get? inv.userId = some u ∧
        u.active = true ∧ u.passwordHash = k.hash s.tick password := by
  have hout := accepts_acceptAt k tokenHash d s token password limited before during
  generalize acceptAt k tokenHash d s token password limited before during = out at hacc hout ⊢
  cases hout with
  | refused r hr =>
    rw [hr] at hacc
    cases hacc
  | superseded => cases hacc
  | opened inv user users r hinv hhash hopen hu hactive hset =>
    have hlt : s.clock + before < inv.expires := not_le.mp fun hle => hopen (.inr (.inr hle))
    obtain ⟨-, huid⟩ := Table.get?_eq_some.mp hu
    rw [huid] at hset ⊢
    have hset' := setUserActive_eq d hu (by rw [hactive]; decide) hset
    refine ⟨inv, hinv, hhash, hlt, setPassword k password s.tick (setAccountActive (k.nonce s.tick) true user),
      ?_, rfl, rfl⟩
    dsimp only
    rw [hset', withPassword, Table.get?_modify, if_pos rfl, Table.get?_modify, if_pos rfl, hu]
    rfl

/-- In every state reached: no link is both accepted and revoked, and each is accepted at most once, read as
pending before it expires; once its account was opened a link opens nothing more; until then the account is
inactive with the password it was made with, and an acceptance that succeeds opens it with its own; and of
an acceptance and a revocation the later changes nothing. -/
theorem link_opens_once (users : Users) (lastLogin : String → Bool) (clock tick : ℕ) (labels : List Label) :
    let s := runFrom (step k tokenHash d) (start users lastLogin clock tick) labels
    ((∀ inv ∈ s.links.rows, inv.accepted = none ∨ inv.revoked = none) ∧
      (∀ i, s.log.countP (Event.accepts i) ≤ 1) ∧
      ∀ uid i t, Event.accepted uid i t ∈ s.log →
        ∃ inv ∈ s.links.rows, inv.id = i ∧ inv.userId = uid ∧ t < inv.expires) ∧
    (∀ inv ∈ s.links.rows, opened inv.userId s.log = true → ∀ token, inv.tokenHash = tokenHash token →
      ∀ password limited before during,
        (acceptAt k tokenHash d s token password limited before during).2.isAccepted = false ∧
          (acceptAt k tokenHash d s token password limited before during).1.users = s.users) ∧
    ((∀ uid i h, Event.invited uid i h ∈ s.log → opened uid s.log = false →
        ∃ u, s.users.get? uid = some u ∧ u.active = false ∧ u.passwordHash = h) ∧
      ∀ token password limited before during,
        (acceptAt k tokenHash d s token password limited before during).2.isAccepted = true →
          ∃ inv ∈ s.links.rows, inv.tokenHash = tokenHash token ∧ ∃ u,
            (acceptAt k tokenHash d s token password limited before during).1.users.get? inv.userId = some u ∧
              u.active = true ∧ u.passwordHash = k.hash s.tick password) ∧
    (∀ inv ∈ s.links.rows, (inv.accepted.isSome → ∀ reason before during,
        (step k tokenHash d s ⟨.revoke inv.id reason, before, during⟩).links = s.links) ∧
      (inv.revoked.isSome → ∀ token, inv.tokenHash = tokenHash token → ∀ password limited before during,
        (acceptAt k tokenHash d s token password limited before during).2.isAccepted = false ∧
          (acceptAt k tokenHash d s token password limited before during).1.users = s.users)) := by
  intro s
  have hany : Along (step k tokenHash d) (fun _ _ => True) (start users lastLogin clock tick) labels :=
    along_of_forall fun _ _ _ => trivial
  have h : Sound s := hany.preserves (I := Sound) (fun _ l hs _ => sound_step k tokenHash d hs l)
    (sound_start users lastLogin clock tick)
  refine ⟨⟨h.once, h.single, fun uid i t hmem => ?_⟩, fun inv hinv hop token hhash password limited before during =>
    acceptAt_of_closed k tokenHash d h hinv (h.closed inv hinv hop) hhash password limited before during,
    ⟨fun uid i hash hmem hop => ?_, fun token password limited before during hacc => ?_⟩,
    fun inv hinv => ⟨fun hacc reason before during => ?_, fun hrev token hhash password limited before during =>
      acceptAt_of_closed k tokenHash d h hinv (.inr (.inl hrev)) hhash password limited before during⟩⟩
  · obtain ⟨inv, hinv, hid, huid, -, hlt⟩ := h.taken uid i t hmem
    exact ⟨inv, hinv, hid, huid, hlt⟩
  · obtain ⟨u, hu, hstay⟩ := h.unopened uid i hash hmem
    exact ⟨u, hu, hstay hop⟩
  · obtain ⟨inv, hinv, hhash, -, hu⟩ := acceptAt_opens k tokenHash d hacc
    exact ⟨inv, hinv, hhash, hu⟩
  · have hget : s.links.get? inv.id = some inv := Table.get?_eq_some.mpr ⟨hinv, rfl⟩
    simp only [step, perform, revokeInvitation, hget, invitationState, if_pos hacc]
    split_ifs <;> rfl

end Runs

end CommitReplay.OneTimeLinks
