import CommitReplay.SessionFlows

/-! Invitations: an inactive account with a one-time link, the link accepted, revoked or withdrawn when the
account is opened another way, and the acts of an admin that open accounts. Each act is one transaction under
the users lock. -/
namespace CommitReplay.Invitations

open CommitReplay.KeyedTable CommitReplay.TransitionRuns
open CommitReplay.Accounts CommitReplay.LastAdmin CommitReplay.SessionFlows

structure Invitation where
  id : String
  userId : String
  tokenHash : String
  role : Role
  created : ℕ
  expires : ℕ
  accepted : Option ℕ := none
  revoked : Option ℕ := none
  createdBy : String
  revokedReason : String := ""
deriving DecidableEq

inductive LinkState
  | accepted | revoked | expired | pending
deriving DecidableEq

/-- An invitation that was accepted stays so whatever the clock says. -/
def invitationState (inv : Invitation) (now : ℕ) : LinkState :=
  if inv.accepted.isSome then .accepted
  else if inv.revoked.isSome then .revoked
  else if inv.expires ≤ now then .expired
  else .pending

/-- What was committed: the hash an invited account was stored with, and when an accepted link was read as
pending. -/
inductive Event
  | invited (uid inv hash : String)
  | accepted (uid inv : String) (readAt : ℕ)
  | revoked (uid inv reason : String)
  | passwordSet (uid : String)
  | activated (uid : String)
  | deactivated (uid : String)
  | roleSet (uid : String)
deriving DecidableEq

namespace Event

/-- The act activates the account or sets its password. -/
def opens (uid : String) : Event → Bool
  | accepted u _ _ => u = uid
  | passwordSet u => u = uid
  | activated u => u = uid
  | invited .. | revoked .. | deactivated _ | roleSet _ => false

def accepts (inv : String) : Event → Bool
  | accepted _ i _ => i = inv
  | _ => false

end Event

/-- `lastLogin` tells the accounts that have signed in; `tick` counts the salts and nonces drawn. -/
structure State where
  users : Users
  lastLogin : String → Bool
  links : Table Invitation.id
  clock : ℕ
  tick : ℕ
  log : List Event

inductive Reply
  | created (inv : Invitation) (token : String)
  | withdrawn (inv : Invitation)
  | accepted (username displayName : String) (role : Role) (stamp : ℕ)
  | account
  | refused (status : ℕ) (code : String)
  | failed (r : Refusal)

def Reply.isAccepted : Reply → Bool
  | .accepted .. => true
  | _ => false

structure InviteRequest where
  username : String
  role : String := "approver"
  displayName : String := ""
  email : String := ""
  expiresHours : ℕ := 72

def invitableRoles : List Role := [.approver, .admin]

def InviteRequest.Valid (b : InviteRequest) : Prop :=
  2 ≤ b.username.length ∧ b.username.length ≤ 64 ∧ b.displayName.length ≤ 256 ∧ b.email.length ≤ 256 ∧
    1 ≤ b.expiresHours ∧ b.expiresHours ≤ 336

instance (b : InviteRequest) : Decidable b.Valid := by
  unfold InviteRequest.Valid
  infer_instance

/-- `_username`. -/
def usernameOf (u : User) : String :=
  if u.isLocal ∧ "local:".toList <+: u.subject.toList then String.ofList (u.subject.toList.drop 6) else u.subject

def invalidToken : Reply := .refused 401 "invalid_token"

variable (k : Crypto) (tokenHash : String → String) (d : Settings)

section Acts

/-- The links `supersede_invitations` withdraws: those to the account that could still be used. -/
def withdraws (uid : String) (now : ℕ) (inv : Invitation) : Bool :=
  inv.userId = uid && inv.accepted.isNone && inv.revoked.isNone && !decide (inv.expires ≤ now)

def withdraw (uid how : String) (now : ℕ) (inv : Invitation) : Invitation :=
  if withdraws uid now inv then { inv with revoked := some now, revokedReason := "superseded: " ++ how }
  else inv

lemma withdraw_id (uid how : String) (now : ℕ) (inv : Invitation) :
    (withdraw uid how now inv).id = inv.id := by
  unfold withdraw
  split_ifs <;> rfl

def withdrawals (s : State) (uid how : String) : List Event :=
  (s.links.rows.filter (withdraws uid s.clock)).map fun inv => .revoked uid inv.id ("superseded: " ++ how)

def supersedeInvitations (s : State) (uid how : String) : State :=
  { s with
    links := s.links.mapRows (withdraw uid how s.clock) (withdraw_id uid how s.clock)
    log := s.log ++ withdrawals s uid how }

/-- The password of a new account is a secret that no response carries. -/
def createInvitation (s : State) (admin newUser newInv token secret : String) (b : InviteRequest) :
    State × Reply :=
  if ¬ b.Valid then (s, .refused 422 "validation_error")
  else
    match validateRole b.role with
    | none => (s, .refused 422 "validation_error")
    | some role =>
      if role ∉ invitableRoles then (s, .refused 422 "validation_error")
      else
        match createLocalUser s.users newUser b.username secret (k.hash s.tick secret) b.role b.displayName
          b.email false with
        | .error r => (s, .failed r)
        | .ok users =>
          let inv : Invitation :=
            { id := newInv, userId := newUser, tokenHash := tokenHash token, role, created := s.clock
              expires := s.clock + b.expiresHours * 3600, createdBy := admin }
          if tokenHash token ∈ s.links.rows.map Invitation.tokenHash then (s, .failed .integrity)
          else
            match s.links.insert? inv with
            | none => (s, .failed .integrity)
            | some links =>
              ({ s with
                users, links, tick := s.tick + 1
                log := s.log ++ [.invited newUser newInv (k.hash s.tick secret)] }, .created inv token)

def revoke (reason : String) (now : ℕ) (inv : Invitation) : Invitation :=
  { inv with revoked := some now, revokedReason := reason }

lemma revoke_id (reason : String) (now : ℕ) (inv : Invitation) : (revoke reason now inv).id = inv.id := rfl

def revokeInvitation (s : State) (readAt : ℕ) (invitationId reason : String) : State × Reply :=
  if reason.length < 3 ∨ 500 < reason.length then (s, .refused 422 "validation_error")
  else
    match s.links.get? invitationId with
    | none => (s, .refused 404 "not_found")
    | some inv =>
      match invitationState inv readAt with
      | .accepted => (s, .refused 409 "already_accepted")
      | .revoked => (s, .withdrawn inv)
      | .expired | .pending =>
        ({ s with
          links := s.links.modify invitationId (revoke reason s.clock) (revoke_id reason s.clock)
          log := s.log ++ (s.users.get? inv.userId).toList.map fun u => .revoked u.id inv.id reason },
          .withdrawn (revoke reason s.clock inv))

/-- The account with a password of its own. -/
def withPassword (t : Users) (uid password : String) (draw : ℕ) : Users :=
  t.modify uid (setPassword k password draw) (setPassword_id k password draw)

def accept (now : ℕ) (inv : Invitation) : Invitation := { inv with accepted := some now }

lemma accept_id (now : ℕ) (inv : Invitation) : (accept now inv).id = inv.id := rfl

/-- The limiter answers before the lock is taken. The account is activated first and its password set on the
row read again. -/
def acceptInvitation (s : State) (readAt : ℕ) (token password : String) (limited : Bool) : State × Reply :=
  if token.length < 8 ∨ 512 < token.length ∨ password.length < minPasswordLength ∨ 1024 < password.length then
    (s, .refused 422 "validation_error")
  else if limited then (s, .refused 429 "rate_limited")
  else
    match s.links.rows.find? fun inv => inv.tokenHash = tokenHash token with
    | none => (s, invalidToken)
    | some inv =>
      match s.users.get? inv.userId with
      | none => (s, invalidToken)
      | some user =>
        if invitationState inv readAt ≠ .pending then (s, invalidToken)
        else if user.active || s.lastLogin user.id then
          (supersedeInvitations s user.id "the account was opened before the link was used", invalidToken)
        else if !user.isLocal then (s, .refused 409 "not_local")
        else
          match setUserActive d s.users user.id true (k.nonce s.tick) with
          | .error r => (s, .failed r)
          | .ok users =>
            ({ s with
              users := withPassword k users user.id password s.tick
              links := s.links.modify inv.id (accept s.clock) (accept_id s.clock)
              tick := s.tick + 1
              log := s.log ++ [.accepted user.id inv.id readAt] },
              .accepted (usernameOf user) user.displayName user.role s.clock)

def setUserPassword (s : State) (uid new : String) : State × Reply :=
  match s.users.get? uid with
  | none => (s, .failed .notFound)
  | some u =>
    if !u.isLocal then (s, .refused 409 "not_local")
    else if new.length < minPasswordLength then (s, .refused 422 "validation_error")
    else
      let s' := { s with
        users := withPassword k s.users uid new s.tick
        tick := s.tick + 1
        log := s.log ++ [.passwordSet uid] }
      (supersedeInvitations s' uid "the admin set the account's password", .account)

def setActive (s : State) (uid : String) (active : Bool) : State × Reply :=
  match s.users.get? uid with
  | none => (s, .failed .notFound)
  | some u =>
    if u.active = active then (s, .account)
    else
      match setUserActive d s.users uid active (k.nonce s.tick) with
      | .error r => (s, .failed r)
      | .ok users =>
        let s' := { s with
          users, tick := s.tick + 1
          log := s.log ++ [if active then .activated uid else .deactivated uid] }
        (if active then supersedeInvitations s' uid "the admin activated the account" else s', .account)

def setRole (s : State) (uid role : String) (active : Option Bool) : State × Reply :=
  match LastAdmin.setRole d s.users uid role active (k.nonce s.tick), s.users.get? uid with
  | .error r, _ => (s, .failed r)
  | .ok _, none => (s, .failed .notFound)
  | .ok users, some u =>
    let newActive := active.getD u.active
    let roleEvents : List Event := if validateRole role = some u.role then [] else [.roleSet uid]
    let activeEvents : List Event :=
      if newActive = u.active then [] else [if newActive then .activated uid else .deactivated uid]
    let s' := { s with users, tick := s.tick + 1, log := s.log ++ roleEvents ++ activeEvents }
    (if newActive && !u.active then supersedeInvitations s' uid "the admin activated the account" else s',
      .account)

/-- Any sign-in of an active account. -/
def signIn (s : State) (uid : String) : State × Reply :=
  match s.users.get? uid with
  | some u => if u.active then ({ s with lastLogin := Function.update s.lastLogin uid true }, .account)
      else (s, .account)
  | none => (s, .account)

end Acts

inductive Act
  | create (admin newUser newInv token secret : String) (body : InviteRequest)
  | revoke (invitationId reason : String)
  | accept (token password : String) (limited : Bool)
  | setPassword (uid new : String)
  | setActive (uid : String) (active : Bool)
  | setRole (uid role : String) (active : Option Bool)
  | signIn (uid : String)

/-- An act, how long after the last reading of the clock it reads it first, and how long after that again. -/
structure Label where
  act : Act
  before : ℕ
  during : ℕ

def perform (s : State) (l : Label) : State × Reply :=
  let readAt := s.clock + l.before
  let s := { s with clock := readAt + l.during }
  match l.act with
  | .create admin newUser newInv token secret body =>
    createInvitation k tokenHash s admin newUser newInv token secret body
  | .revoke invitationId reason => revokeInvitation s readAt invitationId reason
  | .accept token password limited => acceptInvitation k tokenHash d s readAt token password limited
  | .setPassword uid new => setUserPassword k s uid new
  | .setActive uid active => setActive k d s uid active
  | .setRole uid role active => setRole k d s uid role active
  | .signIn uid => signIn s uid

def step (s : State) (l : Label) : State := (perform k tokenHash d s l).1

end CommitReplay.Invitations
