import CommitReplay.LastAdmin
import Mathlib.Logic.Function.Basic

/-! The flows that issue a session or end an account's sessions, each by the steps in which it reads and
writes the accounts: a password is verified before the users lock is taken, and what is written under it
is one transaction. -/
namespace CommitReplay.SessionFlows

open CommitReplay.PythonText CommitReplay.KeyedTable CommitReplay.TransitionRuns
open CommitReplay.Accounts CommitReplay.LastAdmin

/-- The password hash, the nonces and the fingerprint of a credential. No salt and no nonce is drawn
twice, and the fingerprint tells credentials apart. -/
structure Crypto where
  hash : ℕ → String → String
  verify : String → String → Bool
  needsRehash : String → Bool
  nonce : ℕ → String
  version : String → String → String
  hash_salt : ∀ {a b : ℕ} {p q : String}, hash a p = hash b q → a = b
  hash_ne : ∀ a p, hash a p ≠ ""
  nonce_inj : ∀ {a b : ℕ}, nonce a = nonce b → a = b
  nonce_ne : ∀ a, nonce a ≠ ""
  version_inj : ∀ {h n h' n' : String}, version h n = version h' n' → h = h' ∧ n = n'

/-- What a deployment is set up with, and the issuer its provider's tokens are validated against. -/
structure Setup where
  settings : Settings
  proven : String
  devAutologin : String

/-- What a session token says. -/
structure Token where
  uid : String
  cv : String
deriving DecidableEq

/-- A token, with how many writes had been committed when its own was. -/
structure Issued extends Token where
  since : ℕ

/-- A committed write. Of a sign-in with a password it has the hash the row held and the upgrade that was
stored; of a sign-in or a change that had begun before its lock, how many writes there were then. -/
inductive Event
  | signedIn (uid : String)
  | login (uid password stored : String) (upgraded : Option String) (begun : ℕ)
  | passwordSet (uid hash : String) (begun : Option ℕ)
  | sessionsEnded (uid : String)
  | activeSet (uid : String) (active : Bool)

namespace Event

/-- The password of the account was changed or reset. -/
def resets (uid : String) : Event → Bool
  | passwordSet u _ _ => u = uid
  | signedIn _ | login .. | sessionsEnded _ | activeSet .. => false

/-- The act ends every session of the account. -/
def ends (uid : String) : Event → Bool
  | passwordSet u _ _ => u = uid
  | sessionsEnded u => u = uid
  | activeSet u active => u = uid && !active
  | signedIn _ | login .. => false

/-- The hash the act stores on the account. -/
def stores (uid : String) : Event → Option String
  | passwordSet u h _ => if u = uid then some h else none
  | login u _ _ upgraded _ => if u = uid then upgraded else none
  | signedIn _ | sessionsEnded _ | activeSet .. => none

end Event

/-- Where a client's request stands. -/
inductive Flow
  | idle
  | loggingIn (uid password verified : String) (upgraded : Option String) (begun : ℕ)
  | autologin (uid : String)
  | signingIn (uid cv email display : String)
  | joining (issuer : String) (claims : Claims) (newId : String)
  | changing (uid cv : String) (begun : ℕ) (verified : Bool)
  | admin (uid : String)

inductive Act
  | login (username password : String) | loginCommit
  | autologin | autologinRead
  | oidc (claims : Claims) (newId : String)
  | signInCommit
  | openChange (k : Token) | verifyChange (current : String) | commitChange (new : String)
  | openAdmin (k : Token)
  | resetPassword (uid new : String) | revokeSessions (uid : String)
  | setActive (uid : String) (active : Bool)
  | logout (k : Token)

/-- `tick` counts the salts and the nonces drawn. -/
structure State where
  users : Users
  flows : ℕ → Flow
  issued : List Issued
  log : List Event
  tick : ℕ

variable (k : Crypto)

def credentialVersion (u : User) : String := k.version u.passwordHash u.sessionNonce

/-- A stored hash that is empty is verified against a hash nobody has the password of. -/
def verifyPassword (stored password : String) : Bool := stored ≠ "" && k.verify stored password

/-- `refuse_an_ended_session` lets a session of this version through. -/
def accepts (t : Users) (uid cv : String) : Bool :=
  (t.get? uid).any fun u => u.active && cv = credentialVersion k u

def rehashIfOutdated (stored password : String) (salt : ℕ) : Option String :=
  if stored ≠ "" ∧ k.needsRehash stored then some (k.hash salt password) else none

def setPassword (password : String) (draw : ℕ) (u : User) : User :=
  { u with passwordHash := k.hash draw password, sessionNonce := k.nonce draw }

def rotateSessionNonce (draw : ℕ) (u : User) : User := { u with sessionNonce := k.nonce draw }

lemma setPassword_id (password : String) (draw : ℕ) (u : User) :
    (setPassword k password draw u).id = u.id := rfl

lemma rotateSessionNonce_id (draw : ℕ) (u : User) : (rotateSessionNonce k draw u).id = u.id := rfl

namespace State

variable (s : State)

def goto (c : ℕ) (f : Flow) : State := { s with flows := Function.update s.flows c f }

def commit (t : Users) (e : Event) : State := { s with users := t, log := s.log ++ [e] }

def issue (uid cv : String) : State := { s with issued := s.issued ++ [⟨⟨uid, cv⟩, s.log.length⟩] }

def draw : State := { s with tick := s.tick + 1 }

end State

section SignIns

variable (d : Setup) (s : State) (c : ℕ)

/-- The password is verified before the lock, and hashed anew where its hash is outdated. -/
def startLogin (username password : String) : State :=
  if d.settings.localAuthEnabled = false then s
  else
    match s.users.byLogin localIssuer ("local:" ++ username) with
    | none => s
    | some u =>
      if verifyPassword k u.passwordHash password && u.active then
        (s.goto c (.loggingIn u.id password u.passwordHash
          (rehashIfOutdated k u.passwordHash password s.tick) s.log.length)).draw
      else s

/-- The account is read again under the users lock. -/
def commitLogin (uid password verified : String) (upgraded : Option String) (begun : ℕ) : State :=
  match s.users.get? uid with
  | none => s.goto c .idle
  | some a =>
    if a.active = false ∨ a.passwordHash ≠ verified ∧ verifyPassword k a.passwordHash password = false then
      s.goto c .idle
    else
      let up := if a.passwordHash = verified then upgraded else none
      let upgrade : User → User := fun u => { u with passwordHash := up.getD u.passwordHash }
      ((s.commit (s.users.modify uid upgrade fun _ => rfl)
        (.login uid password a.passwordHash up begun)).issue uid
          (credentialVersion k (upgrade a))).goto c .idle

/-- `_autologin_account`: active, and one the sign-in paths admit. -/
def autologinAccount (u : Option User) : Option User :=
  u.filter fun u => u.active && (SignInPaths.of d.settings []).admits u

/-- The development sign-in, which takes no users lock: its account is checked, read and committed in three
steps. -/
def startAutologin : State :=
  if d.devAutologin = "" then s
  else
    match autologinAccount d (s.users.byLogin localIssuer ("local:" ++ d.devAutologin)) with
    | none => s
    | some u => s.goto c (.autologin u.id)

def readAutologin (uid : String) : State :=
  match autologinAccount d (s.users.get? uid) with
  | none => s.goto c .idle
  | some a => s.goto c (.signingIn uid (credentialVersion k a) "" "")

/-- The callback of the provider. Where the claims set the role of every sign-in it holds the users lock,
and otherwise it reads the account before it commits. -/
def startOidc (claims : Claims) (newId : String) : State :=
  let issuer := signInIssuer d.settings d.proven
  let oidc := d.settings.oidc
  if oidc.enabled = false ∨ claims "iss" ≠ .text d.proven ∨ (claims "sub").str = "" then s
  else
    match oidc.roleFromClaims with
    | .always =>
      match upsertOidcUser s.users issuer claims (mapRole claims oidc) .always (.of d.settings [issuer])
        newId with
      | none => s
      | some (t, u) =>
        if u.active then (s.commit t (.signedIn u.id)).issue u.id (credentialVersion k u) else s
    | .firstLogin =>
      match s.users.byLogin issuer (claims "sub").str with
      | none => s.goto c (.joining issuer claims newId)
      | some u =>
        let email := firstOf [(claims "email").str, (claims "preferred_username").str]
        let display := firstOf [(claims "name").str, (claims "preferred_username").str, email,
          (claims "sub").str]
        if u.active then s.goto c (.signingIn u.id (credentialVersion k u) email display) else s

/-- A sign-in without the lock commits: it writes no credential, and its session is of the row it read. -/
def commitSignIn (uid cv email display : String) : State :=
  let refresh : User → User := fun v =>
    { v with email := firstOf [email, v.email], displayName := firstOf [display, v.displayName] }
  ((s.commit (s.users.modify uid refresh fun _ => rfl) (.signedIn uid)).issue uid cv).goto c .idle

/-- The first sign-in of a subject makes its account, unless another one was first. -/
def commitJoin (issuer : String) (claims : Claims) (newId : String) : State :=
  if (s.users.byLogin issuer (claims "sub").str).isSome then s.goto c .idle
  else
    match upsertOidcUser s.users issuer claims (mapRole claims d.settings.oidc) .firstLogin
      (.of d.settings [issuer]) newId with
    | none => s.goto c .idle
    | some (t, u) =>
      ((s.commit t (.signedIn u.id)).issue u.id (credentialVersion k u)).goto c .idle

end SignIns

section Ends

variable (d : Setup) (s : State) (c : ℕ)

/-- A token is signed, so only one that was issued is read. -/
def presented (t : Token) : Bool := s.issued.any fun i => i.toToken = t

def openChange (t : Token) : State :=
  if presented s t && accepts k s.users t.uid t.cv then
    s.goto c (.changing t.uid t.cv s.log.length false)
  else s

def verifyChange (uid cv : String) (begun : ℕ) (current : String) : State :=
  match s.users.get? uid with
  | none => s.goto c .idle
  | some u =>
    if u.isLocal && verifyPassword k u.passwordHash current then s.goto c (.changing uid cv begun true)
    else s.goto c .idle

/-- Under the lock the session must still hold. -/
def commitChange (uid cv : String) (begun : ℕ) (new : String) : State :=
  match s.users.get? uid with
  | none => s.goto c .idle
  | some u =>
    if accepts k s.users uid cv && u.isLocal && decide (minPasswordLength ≤ new.length) then
      (((s.commit (s.users.modify uid (setPassword k new s.tick) (setPassword_id k new s.tick))
        (.passwordSet uid (k.hash s.tick new) (some begun))).issue uid
          (credentialVersion k (setPassword k new s.tick u))).draw).goto c .idle
    else s.goto c .idle

def openAdmin (t : Token) : State :=
  if presented s t && accepts k s.users t.uid t.cv && (s.users.get? t.uid).any (·.role = .admin) then
    s.goto c (.admin t.uid)
  else s

def resetPassword (admin uid new : String) : State :=
  match s.users.get? uid with
  | none => s.goto c .idle
  | some u =>
    if u.isLocal && decide (minPasswordLength ≤ new.length) then
      let s' := (s.commit (s.users.modify uid (setPassword k new s.tick) (setPassword_id k new s.tick))
        (.passwordSet uid (k.hash s.tick new) none)).draw
      -- an admin who resets their own password gets a fresh session
      (if uid = admin then s'.issue uid (credentialVersion k (setPassword k new s.tick u)) else s').goto
        c .idle
    else s.goto c .idle

def revokeSessions (uid : String) : State :=
  match s.users.get? uid with
  | none => s.goto c .idle
  | some _ =>
    ((s.commit (s.users.modify uid (rotateSessionNonce k s.tick) (rotateSessionNonce_id k s.tick))
      (.sessionsEnded uid)).draw).goto c .idle

def setActive (uid : String) (active : Bool) : State :=
  match s.users.get? uid with
  | none => s.goto c .idle
  | some u =>
    if u.active = active then s.goto c .idle
    else
      match setUserActive d.settings s.users uid active (k.nonce s.tick) with
      | .ok t => ((s.commit t (.activeSet uid active)).draw).goto c .idle
      | .error _ => s.goto c .idle

/-- Only a current session's logout ends the sessions of its account. -/
def logout (t : Token) : State :=
  match s.users.get? t.uid with
  | none => s
  | some u =>
    if presented s t && t.cv = credentialVersion k u then
      (s.commit (s.users.modify t.uid (rotateSessionNonce k s.tick) (rotateSessionNonce_id k s.tick))
        (.sessionsEnded t.uid)).draw
    else s

end Ends

/-- One step of one client; a step its flow is not at changes nothing. -/
def step (d : Setup) (s : State) : ℕ × Act → State
  | (c, .login username password) => startLogin k d s c username password
  | (c, .autologin) => startAutologin d s c
  | (c, .oidc claims newId) => startOidc k d s c claims newId
  | (c, .openChange t) => openChange k s c t
  | (c, .openAdmin t) => openAdmin k s c t
  | (_, .logout t) => logout k s t
  | (c, .loginCommit) =>
    match s.flows c with
    | .loggingIn uid password verified upgraded begun =>
      commitLogin k s c uid password verified upgraded begun
    | _ => s
  | (c, .autologinRead) =>
    match s.flows c with
    | .autologin uid => readAutologin k d s c uid
    | _ => s
  | (c, .signInCommit) =>
    match s.flows c with
    | .signingIn uid cv email display => commitSignIn s c uid cv email display
    | .joining issuer claims newId => commitJoin k d s c issuer claims newId
    | _ => s
  | (c, .verifyChange current) =>
    match s.flows c with
    | .changing uid cv begun false => verifyChange k s c uid cv begun current
    | _ => s
  | (c, .commitChange new) =>
    match s.flows c with
    | .changing uid cv begun true => commitChange k s c uid cv begun new
    | _ => s
  | (c, .resetPassword uid new) =>
    match s.flows c with
    | .admin a => resetPassword k s c a uid new
    | _ => s
  | (c, .revokeSessions uid) =>
    match s.flows c with
    | .admin _ => revokeSessions k s c uid
    | _ => s
  | (c, .setActive uid active) =>
    match s.flows c with
    | .admin _ => setActive k d s c uid active
    | _ => s

end CommitReplay.SessionFlows
