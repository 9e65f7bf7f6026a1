import CommitReplay.PythonText
import CommitReplay.StampWindows
import CommitReplay.TransitionRuns

/-! The login rate limiter: a bucket of stamps for each username and address, and one for each
address, checked and charged in one step under a lock. The clock is read before the lock is taken,
so two attempts can take it in the other order than they read the clock. -/
namespace CommitReplay.LoginLimiter

open CommitReplay.PythonText CommitReplay.StampWindows

section Limiter

variable {T : Type} [AddCommGroup T] [LinearOrder T]

structure LimiterConfig (T : Type) where
  limit : ℕ
  ipLimit : ℕ
  windowS : T

/-- A username and an address. -/
abbrev Key := Text × Text

/-- The bucket of an address, under no username. -/
def ipKey (ip : Text) : Key := ([], ip)

/-- One attempt's reservation. -/
structure LoginSlot (T : Type) where
  username : Text
  ip : Text
  stamp : T

/-- The buckets, without stamps where the dictionary has no key, and the number of operations. -/
structure Limiter (T : Type) where
  failures : Key → List T
  ops : ℕ

/-- What `acquire` returns, or raises: the limit, or an index out of range. -/
inductive Acquired (T : Type)
  | granted (slot : LoginSlot T)
  | limited (retryAfterS : T)
  | crashed

def Limiter.change (l : Limiter T) (k : Key) (f : List T → List T) : Limiter T :=
  { l with failures := Function.update l.failures k (f (l.failures k)) }

variable (cfg : LimiterConfig T)

/-- `_sweep`: every thousandth operation prunes every bucket. -/
def sweep (now : T) (l : Limiter T) : Limiter T :=
  if (l.ops + 1) % 1000 = 0 then ⟨fun k => prune cfg.windowS now (l.failures k), l.ops + 1⟩
  else ⟨l.failures, l.ops + 1⟩

/-- `q[-n]`. -/
def fromEnd (q : List T) (n : ℕ) : Option T := if n = 0 then q.head? else q[q.length - n]?

/-- How long a full bucket makes an attempt wait. -/
def waitFor (now : T) (q : List T) (limit : ℕ) : Option (List T) :=
  if limit ≤ q.length then (fromEnd q limit).map fun s => [max 0 (cfg.windowS - (now - s))]
  else some []

def acquire (now : T) (username ip : Text) (l : Limiter T) : Acquired T × Limiter T :=
  let l₁ := (sweep cfg now l).change (username, ip) (prune cfg.windowS now)
  match waitFor cfg now (l₁.failures (username, ip)) cfg.limit with
  | none => (.crashed, l₁)
  | some waits =>
    let l₂ := l₁.change (ipKey ip) (prune cfg.windowS now)
    match waitFor cfg now (l₂.failures (ipKey ip)) cfg.ipLimit with
    | none => (.crashed, l₂)
    | some waits' =>
      match waits ++ waits' with
      | [] => (.granted ⟨username, ip, now⟩,
          (l₂.change (username, ip) (· ++ [now])).change (ipKey ip) (· ++ [now]))
      | w :: ws => (.limited (ws.foldl max w), l₂)

def succeed (slot : LoginSlot T) (l : Limiter T) : Limiter T :=
  (l.change (slot.username, slot.ip) fun _ => []).change (ipKey slot.ip) (·.erase slot.stamp)

end Limiter

section Runs

variable {T : Type} [AddCommGroup T] [LinearOrder T]

/-- A slot granted, whether it was given to `succeed`, and whether its username and address had a
success since. -/
structure Grant (T : Type) where
  slot : LoginSlot T
  given : Bool
  current : Bool

/-- The limiter with the threads that have read the clock and wait for the lock, the readings that
have taken it, and the slots granted. -/
structure Desk (T : Type) where
  limiter : Limiter T
  clock : T
  pending : ℕ → Option (Key × T)
  entered : List T
  grants : List (Grant T)

inductive Event (T : Type)
  /-- A thread calls `acquire` and reads the clock. -/
  | read (thread : ℕ) (key : Key) (now : T)
  /-- A thread that read the clock takes the lock. -/
  | enter (thread : ℕ)
  /-- The slot granted at a place in the order is given to `succeed`. -/
  | succeed (n : ℕ)

def Grant.clear (g : Grant T) (slot : LoginSlot T) : Grant T :=
  if g.slot.username = slot.username ∧ g.slot.ip = slot.ip then { g with current := false } else g

variable (cfg : LimiterConfig T)

def step (s : Desk T) : Event T → Desk T
  | .read i key now => { s with clock := now, pending := Function.update s.pending i (some (key, now)) }
  | .enter i =>
    match s.pending i with
    | none => s
    | some (key, now) =>
      let r := acquire cfg now key.1 key.2 s.limiter
      { s with
        limiter := r.2
        pending := Function.update s.pending i none
        entered := s.entered ++ [now]
        grants := match r.1 with
          | .granted slot => s.grants ++ [⟨slot, false, true⟩]
          | _ => s.grants }
  | .succeed n =>
    match s.grants[n]? with
    | none => s
    | some g =>
      { s with
        limiter := succeed g.slot s.limiter
        grants := (s.grants.map (·.clear g.slot)).set n { g with given := true, current := false } }

/-- The events of a run: a thread makes one call at a time, and the clock does not go back. -/
def Allowed (s : Desk T) : Event T → Prop
  | .read i _ now => s.pending i = none ∧ s.clock ≤ now
  | .enter i => (s.pending i).isSome
  | .succeed n => n < s.grants.length

def start (clock : T) : Desk T := ⟨⟨fun _ => [], 0⟩, clock, fun _ => none, [], []⟩

end Runs

section Property

variable {T : Type} [AddCommGroup T] [LinearOrder T] (cfg : LimiterConfig T)

/-- The stamps of an address's attempts that were not given to `succeed`. -/
def charged (s : Desk T) (ip : Text) : List T :=
  (s.grants.filter fun g => ¬ g.given ∧ g.slot.ip = ip).map (·.slot.stamp)

/-- The stamps of the attempts of a username and address since its last success. -/
def running (s : Desk T) (key : Key) : List T :=
  (s.grants.filter fun g => g.current ∧ (g.slot.username, g.slot.ip) = key).map (·.slot.stamp)

/-- The bounds on guesses in every window. -/
def Bounded (s : Desk T) : Prop :=
  (∀ ip, Within cfg.windowS cfg.ipLimit (charged s ip)) ∧
    ∀ key, Within cfg.windowS cfg.limit (running s key)

/-- A bucket lost stamps at its front, each a window old. -/
def Shed (now : T) (q q' : List T) : Prop :=
  ∃ dropped, q = dropped ++ q' ∧ ∀ x ∈ dropped, cfg.windowS ≤ now - x

/-- What one event does: an attempt drops only stamps a window old; refused, it adds none, and is
granted when it is made again as late as it was told to; and a success leaves every other attempt
that is counted against its address counted. -/
def Fair (s : Desk T) : Event T → Prop
  | .read _ _ _ => True
  | .enter i => ∀ key now, s.pending i = some (key, now) →
      (∀ slot, (acquire cfg now key.1 key.2 s.limiter).1 = .granted slot → ∀ k, ∃ q,
        Shed cfg now (s.limiter.failures k) q ∧
          q <+: (acquire cfg now key.1 key.2 s.limiter).2.failures k) ∧
      ∀ w, (acquire cfg now key.1 key.2 s.limiter).1 = .limited w →
        (∀ k, Shed cfg now (s.limiter.failures k)
          ((acquire cfg now key.1 key.2 s.limiter).2.failures k)) ∧
        ∃ slot, (acquire cfg (now + w) key.1 key.2
          (acquire cfg now key.1 key.2 s.limiter).2).1 = .granted slot
  | .succeed n => ∀ ip, ∀ x ∈ s.limiter.failures (ipKey ip),
      ((step cfg s (.succeed n)).limiter.failures (ipKey ip)).count x =
        (charged (step cfg s (.succeed n)) ip).count x

/-- The lock is taken in the order the clock was read, no attempt is under an empty username, and
no slot is given back twice. -/
def Orderly (s : Desk T) : Event T → Prop
  | .read _ key _ => key.1 ≠ []
  | .enter i => ∀ key now, s.pending i = some (key, now) → ∀ x ∈ s.entered, x ≤ now
  | .succeed n => ∀ g ∈ s.grants[n]?, g.given = false

end Property

end CommitReplay.LoginLimiter
