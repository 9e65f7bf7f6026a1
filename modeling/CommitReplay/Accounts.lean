import CommitReplay.PythonText
import CommitReplay.KeyedTable

/-! The accounts of a deployment: local ones and those of an identity provider, the role and the
active flag of each, and the one rule that keeps an administrator. -/
namespace CommitReplay.Accounts

open CommitReplay.PythonText CommitReplay.KeyedTable

inductive Role
  | viewer | operator | approver | admin
deriving DecidableEq, Repr

/-- `ROLE_RANK`. -/
def Role.rank : Role → ℕ
  | .viewer => 0
  | .operator => 1
  | .approver => 2
  | .admin => 3

def roleNames : List (String × Role) :=
  [("viewer", .viewer), ("operator", .operator), ("approver", .approver), ("admin", .admin)]

/-- `validate_role`. -/
def validateRole (role : String) : Option Role := roleNames.lookup role

structure User where
  id : String
  subject : String
  issuer : String
  email : String
  displayName : String
  role : Role
  passwordHash : String
  active : Bool
  sessionNonce : String
deriving DecidableEq

def localIssuer : String := "local"

def User.isLocal (u : User) : Bool := u.issuer = localIssuer

def User.isAdmin (u : User) : Bool := u.role = .admin && u.active

/-- The users table; its primary key is the account's identifier. -/
abbrev Users := Table User.id

namespace Users

variable (t : Users)

def byLogin (issuer subject : String) : Option User :=
  t.rows.find? fun u => u.issuer = issuer && u.subject = subject

/-- A new row, unless its identifier or its login is taken. -/
def add (u : User) : Option Users :=
  if (byLogin t u.issuer u.subject).isSome then none else t.insert? u

/-- The active administrators, in the order they were created. -/
def admins : List User := t.rows.filter User.isAdmin

end Users

section Settings

inductive RoleSource
  | firstLogin | always
deriving DecidableEq, Repr

structure OidcSettings where
  issuer : String
  clientId : String
  roleClaim : String
  roleMap : List (String × Role)
  adminGroups : List String
  roleFromClaims : RoleSource

def OidcSettings.enabled (o : OidcSettings) : Bool := o.issuer ≠ "" && o.clientId ≠ ""

structure Settings where
  localAuthEnabled : Bool
  oidc : OidcSettings

end Settings

section SignIn

/-- An issuer as compared: trimmed, without a trailing slash. -/
def issuerKey (issuer : String) : Text := (strip issuer.toList).rdropWhile (· = '/')

structure SignInPaths where
  localOn : Bool
  oidcIssuers : List Text

/-- This deployment's paths, with the issuers just proven. -/
def SignInPaths.of (s : Settings) (also : List String) : SignInPaths where
  localOn := s.localAuthEnabled
  oidcIssuers :=
    if s.oidc.enabled then
      ((s.oidc.issuer :: also).filter fun i => strip i.toList ≠ []).map issuerKey
    else []

def SignInPaths.admits (p : SignInPaths) (u : User) : Bool :=
  if u.isLocal then p.localOn else decide (issuerKey u.issuer ∈ p.oidcIssuers)

/-- Whether the role and the active flag given leave no active administrator, or none who can sign in. -/
def wouldOrphanAdmins (t : Users) (u : User) (role : Role) (active : Bool)
    (signIn : Option SignInPaths) : Bool :=
  let losesAdmin := u.isAdmin && (role ≠ .admin || !active)
  if !losesAdmin then false
  else if t.admins.length ≤ 1 then true
  else
    match signIn with
    | none => false
    | some paths => if !paths.admits u then false else decide (t.admins.countP paths.admits ≤ 1)

end SignIn

section Claims

/-- A claim of a token: nothing, a text, a list as its items' texts, or any other value as its text. -/
inductive Claim
  | null | text (s : String) | list (items : List String) (shown : String)
  | other (shown : String) (truthy : Bool)
deriving DecidableEq

/-- `str(claim or "")`. -/
def Claim.str : Claim → String
  | .null => ""
  | .text s => s
  | .list items shown => if items = [] then "" else shown
  | .other shown truthy => if truthy then shown else ""

abbrev Claims := String → Claim

/-- A claim as a list of texts, whatever the provider sent. -/
def claimValues (claims : Claims) (name : String) : List String :=
  match claims name with
  | .null => []
  | .text s => [s]
  | .list items _ => items
  | .other shown _ => [shown]

/-- The highest role the claims name; a group of administrators wins. -/
def mapRole (claims : Claims) (oidc : OidcSettings) : Role :=
  let values := claimValues claims oidc.roleClaim ++
    if oidc.roleClaim ≠ "groups" then claimValues claims "groups" else []
  if values.any (· ∈ oidc.adminGroups) then .admin
  else
    values.foldl (fun best v =>
      match oidc.roleMap.lookup v with
      | some mapped => if best.rank < mapped.rank then mapped else best
      | none => best) .viewer

/-- The first text of a list that is not empty, or the empty text. -/
def firstOf (texts : List String) : String := (texts.find? (· ≠ "")).getD ""

end Claims

section Writes

/-- Turning an account off gives it a fresh nonce. -/
def setAccountActive (nonce : String) (active : Bool) (u : User) : User :=
  { u with
    sessionNonce := if u.active && !active then nonce else u.sessionNonce
    active := active }

/-- The account of the subject the claims name, made or brought up to date; `none` where a login is
taken twice. -/
def upsertOidcUser (t : Users) (issuer : String) (claims : Claims) (role : Role)
    (source : RoleSource) (signIn : SignInPaths) (newId : String) : Option (Users × User) :=
  let subject := (claims "sub").str
  let preferred := (claims "preferred_username").str
  let email := firstOf [(claims "email").str, preferred]
  let display := firstOf [(claims "name").str, preferred, email, subject]
  match t.byLogin issuer subject with
  | none =>
    let u : User := ⟨newId, subject, issuer, email, display, role, "", true, ""⟩
    (t.add u).map (·, u)
  | some u =>
    let keeps := source = .firstLogin || wouldOrphanAdmins t u role u.active (some signIn)
    let refreshed : User → User := fun v =>
      { v with
        email := firstOf [email, v.email]
        displayName := firstOf [display, v.displayName]
        role := if keeps then v.role else role }
    some (t.modify u.id refreshed fun _ => rfl, refreshed u)

end Writes

end CommitReplay.Accounts
