import CommitReplay.Accounts
import CommitReplay.TransitionRuns

/-! The acts that change an account's role or its active flag, and when they leave somebody who can
administer the deployment. The rule each act asks reads who can sign in from the settings; who can is
decided by the issuer the provider's tokens are validated against. -/
namespace CommitReplay.LastAdmin

open CommitReplay.PythonText CommitReplay.KeyedTable CommitReplay.TransitionRuns
open CommitReplay.Accounts

inductive Refusal
  | notFound | validation | userExists | lastAdmin | notConfigured | exchangeFailed | accountDisabled
  | integrity
deriving DecidableEq, Repr

inductive Act
  | create (newId username password passwordHash role displayName email : String) (active : Bool)
  | setRole (id role : String) (active : Option Bool) (nonce : String)
  | setActive (id : String) (active : Bool) (nonce : String)
  | signIn (claims : Claims) (newId : String)

section Acts

def usernameChars : Text :=
  "ABCDEFGHIJKLMNOPQRSTUVWXYZabcdefghijklmnopqrstuvwxyz0123456789._@-".toList

def validateUsername (username : String) : Option String :=
  let name := strip username.toList
  if 2 ≤ name.length ∧ name.length ≤ 64 ∧ ∀ c ∈ name, c ∈ usernameChars then
    some (String.ofList name)
  else none

def minPasswordLength : ℕ := 12

def createLocalUser (t : Users) (newId username password passwordHash role displayName email : String)
    (active : Bool) : Except Refusal Users :=
  match validateUsername username, validateRole role with
  | some name, some role =>
    let subject := "local:" ++ name
    if password.length < minPasswordLength then .error .validation
    else if (t.byLogin localIssuer subject).isSome then .error .userExists
    else
      let display := firstOf [displayName, name]
      match t.add ⟨newId, subject, localIssuer, email, display, role, passwordHash, active, ""⟩ with
      | some t' => .ok t'
      | none => .error .integrity
  | _, _ => .error .validation

def setRole (s : Settings) (t : Users) (id role : String) (active : Option Bool) (nonce : String) :
    Except Refusal Users :=
  match validateRole role with
  | none => .error .validation
  | some role =>
    match t.get? id with
    | none => .error .notFound
    | some u =>
      let newActive := active.getD u.active
      if wouldOrphanAdmins t u role newActive (some (.of s [])) then .error .lastAdmin
      else
        .ok (t.modify id (fun v => setAccountActive nonce newActive { v with role }) fun _ => rfl)

/-- `set_user_active`, which changes nothing where the flag stands already. -/
def setUserActive (s : Settings) (t : Users) (id : String) (active : Bool) (nonce : String) :
    Except Refusal Users :=
  match t.get? id with
  | none => .error .notFound
  | some u =>
    if u.active = active then .ok t
    else if wouldOrphanAdmins t u u.role active (some (.of s [])) then .error .lastAdmin
    else .ok (t.modify id (setAccountActive nonce active) fun _ => rfl)

/-- The issuer an account is looked up under, of a token validated against the provider's. -/
def signInIssuer (s : Settings) (proven : String) : String :=
  if proven = "" then s.oidc.issuer else proven

/-- The callback of a sign-in, whose token names the issuer it is validated against. -/
def completeOidc (s : Settings) (proven : String) (t : Users) (claims : Claims) (newId : String) :
    Except Refusal Users :=
  if s.oidc.enabled = false then .error .notConfigured
  else if claims "iss" ≠ .text proven then .error .exchangeFailed
  else
    let issuer := signInIssuer s proven
    let role := mapRole claims s.oidc
    if (claims "sub").str = "" then .error .exchangeFailed
    else
      match upsertOidcUser t issuer claims role s.oidc.roleFromClaims (.of s [issuer]) newId with
      | none => .error .integrity
      | some (t', u) => if u.active then .ok t' else .error .accountDisabled

variable (s : Settings) (proven : String)

def perform (t : Users) : Act → Except Refusal Users
  | .create newId username password passwordHash role displayName email active =>
    createLocalUser t newId username password passwordHash role displayName email active
  | .setRole id role active nonce => setRole s t id role active nonce
  | .setActive id active nonce => setUserActive s t id active nonce
  | .signIn claims newId => completeOidc s proven t claims newId

/-- The accounts after an act; one that is refused is rolled back. -/
def after (t : Users) (a : Act) : Users :=
  match perform s proven t a with
  | .ok t' => t'
  | .error _ => t

end Acts

section Usable

variable (s : Settings) (proven : String)

/-- Active, and able to complete a sign-in: with a local account while local sign-in is on, or with one
of the issuer the provider's tokens are validated against. -/
def Usable (u : User) : Prop :=
  u.active = true ∧ ((u.isLocal = true ∧ s.localAuthEnabled = true) ∨
    (u.isLocal = false ∧ s.oidc.enabled = true ∧ u.issuer = signInIssuer s proven))

instance (u : User) : Decidable (Usable s proven u) := by
  unfold Usable
  infer_instance

/-- Somebody can administer the deployment. -/
def Administrable (t : Users) : Prop := ∃ u ∈ t.admins, Usable s proven u

instance (t : Users) : Decidable (Administrable s proven t) := by
  unfold Administrable
  infer_instance

/-- The active administrator an act would take the role or the flag of, with the sign-in paths its
rule counts by. -/
def takes (t : Users) : Act → Option (User × SignInPaths)
  | .create .. => none
  | .setRole id role active _ =>
    match validateRole role, t.get? id with
    | some role, some u =>
      if u.isAdmin && (role ≠ .admin || !(active.getD u.active)) then some (u, .of s []) else none
    | _, _ => none
  | .setActive id active _ =>
    match t.get? id with
    | some u => if u.isAdmin && !active then some (u, .of s []) else none
    | none => none
  | .signIn claims _ =>
    let issuer := signInIssuer s proven
    if s.oidc.enabled = false ∨ claims "iss" ≠ .text proven ∨ (claims "sub").str = "" ∨
        s.oidc.roleFromClaims ≠ .always then none
    else
      match t.byLogin issuer (claims "sub").str with
      | some u =>
        if u.isAdmin && mapRole claims s.oidc ≠ .admin then some (u, .of s [issuer]) else none
      | none => none

/-- What the rule answers for an active administrator that would stop being one. -/
def orphans (t : Users) (u : User) (paths : SignInPaths) : Bool :=
  t.admins.length ≤ 1 || (paths.admits u && t.admins.countP paths.admits ≤ 1)

/-- An act leaves the last usable administrator alone: where it would take the only usable one, no
other active administrator is stored, or the rule admits this one and no other. -/
def Spares (t : Users) (a : Act) : Prop :=
  ∀ u paths, takes s proven t a = some (u, paths) → Usable s proven u →
    (∀ v ∈ t.admins, Usable s proven v → v = u) → orphans t u paths = true

end Usable

section Step

variable {s : Settings} {proven : String} {t : Users} {u : User}

lemma mem_admins : u ∈ t.admins ↔ u ∈ t.rows ∧ u.isAdmin = true := List.mem_filter

lemma usable_congr {v : User} (hactive : v.active = u.active) (hissuer : v.issuer = u.issuer) :
    Usable s proven v ↔ Usable s proven u := by
  simp only [Usable, User.isLocal, hactive, hissuer]

lemma active_of_isAdmin (h : u.isAdmin = true) : u.active = true :=
  (Bool.and_eq_true_iff.mp h).2

lemma mem_modify {k : String} {f : User → User} {hf : ∀ v, (f v).id = v.id} :
    u ∈ (t.modify k f hf).rows ↔ ∃ v ∈ t.rows, (if v.id = k then f v else v) = u := by
  rw [Table.rows_modify, List.mem_map]

/-- A change that leaves an administrator what it is leaves the deployment administrable. -/
lemma administrable_modify {k : String} {f : User → User} {hf : ∀ v, (f v).id = v.id}
    (hkeeps : ∀ v ∈ t.admins, v.id = k → (f v).isAdmin = true ∧ (f v).issuer = v.issuer)
    (h : Administrable s proven t) : Administrable s proven (t.modify k f hf) := by
  obtain ⟨v, hv, husable⟩ := h
  by_cases hk : v.id = k
  · obtain ⟨hadmin, hissuer⟩ := hkeeps v hv hk
    have hactive : (f v).active = v.active :=
      (active_of_isAdmin hadmin).trans (active_of_isAdmin (mem_admins.mp hv).2).symm
    refine ⟨f v, mem_admins.mpr ⟨mem_modify.mpr ⟨v, (mem_admins.mp hv).1, if_pos hk⟩, hadmin⟩, ?_⟩
    exact (usable_congr hactive hissuer).mpr husable
  · exact ⟨v, mem_admins.mpr ⟨mem_modify.mpr ⟨v, (mem_admins.mp hv).1, if_neg hk⟩,
      (mem_admins.mp hv).2⟩, husable⟩

/-- A change that ends an administrator leaves the others. -/
lemma administrable_modify_iff {f : User → User} {hf : ∀ v, (f v).id = v.id} (hu : u ∈ t.admins)
    (hends : (f u).isAdmin = false) : Administrable s proven (t.modify u.id f hf) ↔
      ∃ v ∈ t.admins, v ≠ u ∧ Usable s proven v := by
  have heq : ∀ v ∈ t.rows, v.id = u.id → v = u := fun v hv hid =>
    List.inj_on_of_nodup_map t.nodup hv (mem_admins.mp hu).1 hid
  constructor
  · rintro ⟨w, hw, husable⟩
    obtain ⟨hmem, hadmin⟩ := mem_admins.mp hw
    obtain ⟨v, hv, rfl⟩ := mem_modify.mp hmem
    by_cases hid : v.id = u.id
    · rw [if_pos hid, heq v hv hid, hends] at hadmin
      cases hadmin
    · rw [if_neg hid] at hadmin husable
      exact ⟨v, mem_admins.mpr ⟨hv, hadmin⟩, fun he => hid (he ▸ rfl), husable⟩
  · rintro ⟨v, hv, hne, husable⟩
    have hid : v.id ≠ u.id := fun hid => hne (heq v (mem_admins.mp hv).1 hid)
    exact ⟨v, mem_admins.mpr ⟨mem_modify.mpr ⟨v, (mem_admins.mp hv).1, if_neg hid⟩,
      (mem_admins.mp hv).2⟩, husable⟩

lemma administrable_add {t' : Users} (hadd : t.add u = some t') (h : Administrable s proven t) :
    Administrable s proven t' := by
  unfold Users.add at hadd
  split_ifs at hadd
  obtain ⟨v, hv, husable⟩ := h
  have hrows := Table.rows_insert? hadd
  exact ⟨v, mem_admins.mpr ⟨hrows ▸ List.mem_append_left _ (mem_admins.mp hv).1,
    (mem_admins.mp hv).2⟩, husable⟩

/-- The rule, asked of an administrator that would stop being one and of any other account. -/
lemma wouldOrphanAdmins_eq (role : Role) (active : Bool) (paths : SignInPaths) :
    wouldOrphanAdmins t u role active (some paths) =
      ((u.isAdmin && (role ≠ .admin || !active)) && orphans t u paths) := by
  unfold wouldOrphanAdmins orphans
  cases u.isAdmin && (decide (role ≠ .admin) || !active) with
  | false => rfl
  | true =>
    by_cases hlen : t.admins.length ≤ 1
    · simp [hlen]
    · cases hadmits : paths.admits u <;> simp [hlen, hadmits]

lemma get?_admin {k : String} {v : User} (hget : t.get? k = some u) (hv : v ∈ t.admins)
    (hid : v.id = k) : v = u := by
  have hu := Table.get?_eq_some.mp hget
  exact List.inj_on_of_nodup_map t.nodup (mem_admins.mp hv).1 hu.1 (hid.trans hu.2.symm)

lemma isAdmin_setAccountActive (nonce : String) (active : Bool) (v : User) (role : Role) :
    (setAccountActive nonce active { v with role }).isAdmin = (decide (role = .admin) && active) := rfl

lemma byLogin_eq_some {issuer subject : String} (h : t.byLogin issuer subject = some u) :
    u ∈ t.rows := List.mem_of_find?_eq_some h

lemma after_ok {a : Act} {t' : Users} (h : perform s proven t a = .ok t') : after s proven t a = t' := by
  rw [after, h]

lemma after_error {a : Act} {e : Refusal} (h : perform s proven t a = .error e) :
    after s proven t a = t := by
  rw [after, h]

/-- A sign-in that is let in brings an account up to date or makes it. -/
lemma completeOidc_ok {claims : Claims} {newId : String} {t' : Users}
    (h : completeOidc s proven t claims newId = .ok t') :
    (s.oidc.enabled = true ∧ claims "iss" = .text proven ∧ (claims "sub").str ≠ "") ∧
      ((t.byLogin (signInIssuer s proven) (claims "sub").str = none ∧ ∃ u, t.add u = some t') ∨
        ∃ u f hf, t.byLogin (signInIssuer s proven) (claims "sub").str = some u ∧
          t' = t.modify u.id f hf ∧ ∀ v, (f v).issuer = v.issuer ∧ (f v).active = v.active ∧
            (f v).role = if s.oidc.roleFromClaims = .firstLogin ∨ wouldOrphanAdmins t u
              (mapRole claims s.oidc) u.active (some (.of s [signInIssuer s proven])) = true
              then v.role else mapRole claims s.oidc) := by
  unfold completeOidc at h
  split_ifs at h with henabled hiss hsub
  refine ⟨⟨by simpa using henabled, not_not.mp hiss, hsub⟩, ?_⟩
  unfold upsertOidcUser at h
  cases hlogin : t.byLogin (signInIssuer s proven) (claims "sub").str with
  | none =>
    simp only [hlogin] at h
    refine .inl ⟨rfl, ?_⟩
    generalize User.mk newId _ _ _ _ _ _ _ _ = u at h
    cases hadd : t.add u with
    | none => simp [hadd] at h
    | some t₁ =>
      simp only [hadd, Option.map_some] at h
      split_ifs at h
      exact ⟨u, Except.ok.inj h ▸ hadd⟩
  | some u =>
    simp only [hlogin] at h
    by_cases hactive : u.active = true
    · rw [if_pos hactive] at h
      refine .inr ⟨u, _, _, rfl, (Except.ok.inj h).symm, fun v => ⟨rfl, rfl, ?_⟩⟩
      simp only [Bool.or_eq_true, decide_eq_true_eq]
    · rw [if_neg hactive] at h
      cases h

/-- An act that takes no administrator leaves the deployment administrable. -/
lemma administrable_of_takes_none {a : Act} (htakes : takes s proven t a = none)
    (h : Administrable s proven t) : Administrable s proven (after s proven t a) := by
  cases hperform : perform s proven t a with
  | error e => rwa [after_error hperform]
  | ok t' =>
    rw [after_ok hperform]
    cases a with
    | create newId username password passwordHash role displayName email active =>
      simp only [perform, createLocalUser] at hperform
      split at hperform
      · split_ifs at hperform
        split at hperform
        · rename_i hadd
          exact Except.ok.inj hperform ▸ administrable_add hadd h
        · cases hperform
      · cases hperform
    | setRole id role active nonce =>
      simp only [perform, setRole] at hperform
      simp only [takes] at htakes
      cases hrole : validateRole role with
      | none => simp [hrole] at hperform
      | some r =>
        cases hget : t.get? id with
        | none => simp [hrole, hget] at hperform
        | some u =>
          simp only [hrole, hget] at hperform htakes
          split_ifs at hperform htakes with horphan hloses
          obtain rfl := Except.ok.inj hperform
          refine administrable_modify (fun v hv hid => ⟨?_, rfl⟩) h
          obtain rfl := get?_admin hget hv hid
          rw [isAdmin_setAccountActive]
          simpa [(mem_admins.mp hv).2] using hloses
    | setActive id active nonce =>
      simp only [perform, setUserActive] at hperform
      simp only [takes] at htakes
      cases hget : t.get? id with
      | none => simp [hget] at hperform
      | some u =>
        simp only [hget] at hperform htakes
        have hloses : ¬ (u.isAdmin && !active) = true := fun hc => by
          rw [if_pos hc] at htakes
          cases htakes
        by_cases hsame : u.active = active
        · rw [if_pos hsame] at hperform
          exact Except.ok.inj hperform ▸ h
        · rw [if_neg hsame] at hperform
          split_ifs at hperform
          obtain rfl := Except.ok.inj hperform
          refine administrable_modify (fun v hv hid => ⟨?_, rfl⟩) h
          obtain rfl := get?_admin hget hv hid
          have hadmin := (mem_admins.mp hv).2
          have hactive : active = true := by simpa [hadmin] using hloses
          simpa [setAccountActive, User.isAdmin, hactive] using (Bool.and_eq_true_iff.mp hadmin).1
    | signIn claims newId =>
      obtain ⟨⟨henabled, hiss, hsub⟩, ⟨hlogin, u, hadd⟩ | ⟨u, f, hf, hlogin, rfl, hfields⟩⟩ :=
        completeOidc_ok hperform
      · exact administrable_add hadd h
      · refine administrable_modify (fun v hv hid => ⟨?_, (hfields v).1⟩) h
        have hu := byLogin_eq_some hlogin
        obtain rfl := List.inj_on_of_nodup_map t.nodup (mem_admins.mp hv).1 hu hid
        have hadmin := (mem_admins.mp hv).2
        by_cases hsource : s.oidc.roleFromClaims = .firstLogin
        · simpa [User.isAdmin, (hfields v).2.1, (hfields v).2.2, hsource] using hadmin
        · have halways : s.oidc.roleFromClaims = .always := by
            cases hs : s.oidc.roleFromClaims <;> simp_all
          have hrole : mapRole claims s.oidc = .admin := by
            simpa [takes, henabled, hiss, hsub, hlogin, halways, hadmin] using htakes
          obtain ⟨hwas, hactive⟩ : v.role = .admin ∧ v.active = true := by
            simpa [User.isAdmin] using hadmin
          simp [User.isAdmin, (hfields v).2.1, (hfields v).2.2, hrole, hwas, hactive]

/-- An act that would take an administrator is refused, or keeps it, where the rule says so, and
otherwise ends it. -/
lemma of_takes_some {a : Act} {paths : SignInPaths} (htakes : takes s proven t a = some (u, paths)) :
    u ∈ t.admins ∧
      (orphans t u paths = true → Administrable s proven t → Administrable s proven (after s proven t a)) ∧
      (orphans t u paths = false → ∃ f hf, after s proven t a = t.modify u.id f hf ∧
        (f u).isAdmin = false) := by
  cases a with
  | create => cases htakes
  | setRole id role active nonce =>
    simp only [takes] at htakes
    cases hrole : validateRole role with
    | none => simp [hrole] at htakes
    | some r =>
      cases hget : t.get? id with
      | none => simp [hrole, hget] at htakes
      | some v =>
        simp only [hrole, hget] at htakes
        split_ifs at htakes with hloses
        obtain ⟨rfl, rfl⟩ := Prod.mk.inj (Option.some.inj htakes)
        obtain ⟨hmem, rfl⟩ := Table.get?_eq_some.mp hget
        have hadmin := (Bool.and_eq_true_iff.mp hloses).1
        have hasks : wouldOrphanAdmins t v r (active.getD v.active) (some (.of s [])) =
            orphans t v (.of s []) := by rw [wouldOrphanAdmins_eq, hloses, Bool.true_and]
        refine ⟨mem_admins.mpr ⟨hmem, hadmin⟩, fun hkeeps h => ?_, fun hends => ?_⟩
        · have hperform : perform s proven t (.setRole v.id role active nonce) = .error .lastAdmin := by
            simp [perform, setRole, hrole, hget, hasks, hkeeps]
          rwa [after_error hperform]
        · have hperform : perform s proven t (.setRole v.id role active nonce) = .ok (t.modify v.id
              (fun w => setAccountActive nonce (active.getD v.active) { w with role := r })
              fun _ => rfl) := by
            simp [perform, setRole, hrole, hget, hasks, hends]
          refine ⟨_, _, after_ok hperform, ?_⟩
          have hlost := (Bool.and_eq_true_iff.mp hloses).2
          rw [isAdmin_setAccountActive]
          by_cases hr : r = .admin
          · simpa [hr] using hlost
          · simp [hr]
  | setActive id active nonce =>
    simp only [takes] at htakes
    cases hget : t.get? id with
    | none => simp [hget] at htakes
    | some v =>
      simp only [hget] at htakes
      split_ifs at htakes with hloses
      obtain ⟨rfl, rfl⟩ := Prod.mk.inj (Option.some.inj htakes)
      obtain ⟨hmem, rfl⟩ := Table.get?_eq_some.mp hget
      obtain ⟨hadmin, hoff⟩ := Bool.and_eq_true_iff.mp hloses
      obtain rfl : active = false := by simpa using hoff
      have hdiffer : v.active ≠ false := by simp [active_of_isAdmin hadmin]
      have hasks : wouldOrphanAdmins t v v.role false (some (.of s [])) = orphans t v (.of s []) := by
        simp [wouldOrphanAdmins_eq, hadmin]
      refine ⟨mem_admins.mpr ⟨hmem, hadmin⟩, fun hkeeps h => ?_, fun hends => ?_⟩
      · have hperform : perform s proven t (.setActive v.id false nonce) = .error .lastAdmin := by
          simp only [perform, setUserActive, hget, if_neg hdiffer, hasks, hkeeps, if_true]
        rwa [after_error hperform]
      · have hperform : perform s proven t (.setActive v.id false nonce) =
            .ok (t.modify v.id (setAccountActive nonce false) fun _ => rfl) := by
          simp [perform, setUserActive, hget, hdiffer, hasks, hends]
        exact ⟨_, _, after_ok hperform, by simp [setAccountActive, User.isAdmin]⟩
  | signIn claims newId =>
    simp only [takes] at htakes
    split_ifs at htakes with hnot
    push Not at hnot
    obtain ⟨henabled, hiss, hsub, halways⟩ := hnot
    cases hlogin : t.byLogin (signInIssuer s proven) (claims "sub").str with
    | none => simp [hlogin] at htakes
    | some v =>
      simp only [hlogin] at htakes
      split_ifs at htakes with hloses
      obtain ⟨rfl, rfl⟩ := Prod.mk.inj (Option.some.inj htakes)
      obtain ⟨hadmin, hrole⟩ := Bool.and_eq_true_iff.mp hloses
      have hactive := active_of_isAdmin hadmin
      have hmem := byLogin_eq_some hlogin
      have hasks : wouldOrphanAdmins t v (mapRole claims s.oidc) v.active
          (some (.of s [signInIssuer s proven])) = orphans t v (.of s [signInIssuer s proven]) := by
        simp [wouldOrphanAdmins_eq, hadmin, hrole]
      obtain ⟨t', hperform⟩ : ∃ t', perform s proven t (.signIn claims newId) = .ok t' := by
        simp only [perform, completeOidc, if_neg henabled, if_neg (not_not.mpr hiss), if_neg hsub,
          upsertOidcUser, hlogin, hactive, if_true]
        exact ⟨_, rfl⟩
      have hok := after_ok hperform
      obtain ⟨-, ⟨hnone, -⟩ | ⟨w, f, hf, hw, rfl, hfields⟩⟩ := completeOidc_ok hperform
      · simp [hlogin] at hnone
      · obtain rfl := Option.some.inj (hlogin.symm.trans hw)
        rw [hok]
        refine ⟨mem_admins.mpr ⟨hmem, hadmin⟩, fun hkeeps h => ?_, fun hends => ?_⟩
        · refine administrable_modify (fun u hu hid => ⟨?_, (hfields u).1⟩) h
          have huadmin := (mem_admins.mp hu).2
          simpa [User.isAdmin, (hfields u).2.1, (hfields u).2.2, hasks, hkeeps] using huadmin
        · refine ⟨f, hf, rfl, ?_⟩
          have hsource : s.oidc.roleFromClaims ≠ .firstLogin := by simp [halways]
          have hother : mapRole claims s.oidc ≠ .admin := of_decide_eq_true hrole
          simp [User.isAdmin, (hfields v).2.2, hasks, hends, hsource, hother]

/-- One act leaves the deployment administrable exactly where it spares the last usable administrator. -/
theorem administrable_after_iff {a : Act} (h : Administrable s proven t) :
    Administrable s proven (after s proven t a) ↔ Spares s proven t a := by
  cases htakes : takes s proven t a with
  | none =>
    refine iff_of_true (administrable_of_takes_none htakes h) fun u paths hu => ?_
    rw [htakes] at hu
    cases hu
  | some taken =>
    obtain ⟨u, paths⟩ := taken
    obtain ⟨hmem, hkept, hended⟩ := of_takes_some htakes
    have hspares : Spares s proven t a ↔ (Usable s proven u →
        (∀ v ∈ t.admins, Usable s proven v → v = u) → orphans t u paths = true) := by
      unfold Spares
      simp [htakes]
    rw [hspares]
    cases horphans : orphans t u paths with
    | true => exact iff_of_true (hkept horphans h) fun _ _ => rfl
    | false =>
      obtain ⟨f, hf, hafter, hends⟩ := hended horphans
      rw [hafter, administrable_modify_iff hmem hends]
      constructor
      · rintro ⟨v, hv, hne, husable⟩ - honly
        exact absurd (honly v hv husable) hne
      · intro hnever
        obtain ⟨v, hv, husable⟩ := h
        by_contra hnone
        have honly : ∀ w ∈ t.admins, Usable s proven w → w = u := fun w hw hwusable =>
          by_contra fun hne => hnone ⟨w, hw, hne, hwusable⟩
        exact Bool.false_ne_true (hnever (honly v hv husable ▸ husable) honly)

/-- Where the paths an act's rule counts by admit exactly the administrators who can sign in, the act
spares the last of them. -/
theorem spares_of_admits {a : Act}
    (hadmits : ∀ u paths, takes s proven t a = some (u, paths) →
      ∀ v ∈ t.admins, (paths.admits v = true ↔ Usable s proven v)) : Spares s proven t a := by
  intro u paths htakes husable honly
  have hagree := hadmits u paths htakes
  have hmem := (of_takes_some htakes).1
  have hnodup : t.admins.Nodup := (List.Nodup.of_map _ t.nodup).filter _
  have hcount : t.admins.countP paths.admits ≤ 1 := by
    rw [List.countP_eq_length_filter]
    have hsub : t.admins.filter paths.admits ⊆ [u] := fun v hv => by
      obtain ⟨hv, hadmit⟩ := List.mem_filter.mp hv
      exact List.mem_singleton.mpr (honly v hv ((hagree v hv).mp hadmit))
    simpa using (List.subperm_of_subset (hnodup.filter _) hsub).length_le
  simp [orphans, hcount, (hagree u hmem).mpr husable]

end Step

section Runs

variable {s : Settings} {proven : String}

/-- Every state a run reaches is administrable, and an act refused for the last administrator changes
nothing, exactly when every act of the run spares the last usable administrator. -/
theorem administrable_run_iff {t : Users} (h : Administrable s proven t) (acts : List Act) :
    ((∀ pre, pre <+: acts → Administrable s proven (runFrom (after s proven) t pre)) ∧
      ∀ pre a, pre ++ [a] <+: acts →
        perform s proven (runFrom (after s proven) t pre) a = .error .lastAdmin →
        runFrom (after s proven) t (pre ++ [a]) = runFrom (after s proven) t pre) ↔
      Along (after s proven) (Spares s proven) t acts := by
  have hrefused : ∀ pre a, perform s proven (runFrom (after s proven) t pre) a = .error .lastAdmin →
      runFrom (after s proven) t (pre ++ [a]) = runFrom (after s proven) t pre := fun pre a he => by
    rw [runFrom_append, runFrom_cons, runFrom_nil, after_error he]
  rw [and_iff_left fun pre a _ => hrefused pre a]
  clear hrefused
  induction acts generalizing t with
  | nil =>
    refine iff_of_true (fun pre hpre => ?_) trivial
    rwa [List.prefix_nil.mp hpre]
  | cons a acts ih =>
    constructor
    · intro hrun
      have hafter : Administrable s proven (after s proven t a) := hrun [a] (by simp)
      refine ⟨(administrable_after_iff h).mp hafter, (ih hafter).mp fun pre hpre => ?_⟩
      exact hrun (a :: pre) (List.prefix_cons_inj a |>.mpr hpre)
    · rintro ⟨hspares, halong⟩ pre hpre
      have hafter := (administrable_after_iff h).mpr hspares
      cases pre with
      | nil => exact h
      | cons b pre =>
        obtain ⟨rfl, hrest⟩ := List.cons_prefix_cons.mp hpre
        exact (ih hafter).mpr halong pre hrest

/-- Local sign-in is off, and the provider's tokens name another issuer than the configured one. -/
def movedIssuer : Settings where
  localAuthEnabled := false
  oidc := ⟨"https://idp.example/common", "crb", "roles", [], [], .firstLogin⟩

def provenIssuer : String := "https://idp.example/tenant"

lemma twoAdmins_nodup : (["a", "b"] : List String).Nodup := by decide

/-- An administrator of the provider, and a local one that nobody can use. -/
def twoAdmins : Users where
  rows := [⟨"a", "sub-a", provenIssuer, "", "a", .admin, "", true, ""⟩,
    ⟨"b", "local:b", localIssuer, "", "b", .admin, "h", true, ""⟩]
  nodup := twoAdmins_nodup

theorem administrable_run_iff_twoAdmins :
    ((∀ pre, pre <+: [Act.setActive "a" false "n"] →
        Administrable movedIssuer provenIssuer (runFrom (after movedIssuer provenIssuer) twoAdmins pre)) ∧
      ∀ pre a, pre ++ [a] <+: [Act.setActive "a" false "n"] →
        perform movedIssuer provenIssuer (runFrom (after movedIssuer provenIssuer) twoAdmins pre) a =
          .error .lastAdmin →
        runFrom (after movedIssuer provenIssuer) twoAdmins (pre ++ [a]) =
          runFrom (after movedIssuer provenIssuer) twoAdmins pre) ↔
      Along (after movedIssuer provenIssuer) (Spares movedIssuer provenIssuer) twoAdmins
        [.setActive "a" false "n"] :=
  administrable_run_iff (by decide) _

/-- The role route lets the only administrator who can sign in be demoted. -/
theorem demoted_twoAdmins : Administrable movedIssuer provenIssuer twoAdmins ∧
    ¬ Administrable movedIssuer provenIssuer
      (runFrom (after movedIssuer provenIssuer) twoAdmins [.setRole "a" "viewer" none "n"]) := by
  decide

end Runs

end CommitReplay.LastAdmin
