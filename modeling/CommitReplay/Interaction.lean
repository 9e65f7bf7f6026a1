import Mathlib.Data.List.Basic

/-! Programs that call on others. What a call answers or raises is up to a world that knows every
call made before; what a program does is said of the calls it makes and of how it ends, in every
world. -/
namespace CommitReplay.Interaction

/-- The calls there are, what each of them answers, and what any of them may raise. -/
structure Interface where
  Op : Type
  Ans : Op → Type
  Exn : Type

/-- A call that was made, with what came back. -/
structure Call (I : Interface) where
  op : I.Op
  answer : Except I.Exn (I.Ans op)

abbrev World (I : Interface) := List (Call I) → (op : I.Op) → Except I.Exn (I.Ans op)

/-- What ends a program early: an exception of a call, or a stop of its own. -/
inductive Halt (I : Interface) (B : Type)
  | raised (e : I.Exn)
  | stopped (b : B)

/-- A program with local variables, which an exception leaves as they are. -/
def Prog (I : Interface) (B S α : Type) :=
  World I → S → List (Call I) → Except (Halt I B) α × S × List (Call I)

variable {I : Interface} {B S α β : Type}

namespace Prog

instance : Monad (Prog I B S) where
  pure a := fun _ s h => (.ok a, s, h)
  bind p f := fun w s h =>
    match p w s h with
    | (.ok a, s', h') => f a w s' h'
    | (.error e, s', h') => (.error e, s', h')

def call (op : I.Op) : Prog I B S (I.Ans op) := fun w s h =>
  (match w h op with
    | .ok a => .ok a
    | .error e => .error (.raised e), s, h ++ [⟨op, w h op⟩])

def halt (e : Halt I B) : Prog I B S α := fun _ s h => (.error e, s, h)

def stop (b : B) : Prog I B S α := halt (.stopped b)

def raise (e : I.Exn) : Prog I B S α := halt (.raised e)

def attempt (p : Prog I B S α) (handler : Halt I B → Prog I B S α) : Prog I B S α := fun w s h =>
  match p w s h with
  | (.ok a, s', h') => (.ok a, s', h')
  | (.error e, s', h') => handler e w s' h'

/-- `finally`: what the last part raises takes the place of the end of the first. -/
def ensuring (p : Prog I B S α) (last : Prog I B S Unit) : Prog I B S α := fun w s h =>
  match p w s h with
  | (r, s', h') =>
    match last w s' h' with
    | (.ok (), s'', h'') => (r, s'', h'')
    | (.error e, s'', h'') => (.error e, s'', h'')

def get : Prog I B S S := fun _ s h => (.ok s, s, h)

def modify (f : S → S) : Prog I B S Unit := fun _ s h => (.ok (), f s, h)

lemma bind_ok {p : Prog I B S α} {f : α → Prog I B S β} {w : World I} {s s' : S}
    {h h' : List (Call I)} {a : α} (hp : p w s h = (.ok a, s', h')) :
    (p >>= f) w s h = f a w s' h' := by
  simp only [bind, hp]

lemma bind_error {p : Prog I B S α} {f : α → Prog I B S β} {w : World I} {s s' : S}
    {h h' : List (Call I)} {e : Halt I B} (hp : p w s h = (.error e, s', h')) :
    (p >>= f) w s h = (.error e, s', h') := by
  simp only [bind, hp]

lemma bind_at {p q : Prog I B S α} {f : α → Prog I B S β} {w : World I} {s s' : S}
    {h h' : List (Call I)} (hpq : p w s h = q w s' h') : (p >>= f) w s h = (q >>= f) w s' h' := by
  simp only [bind, hpq]

lemma attempt_at {p q : Prog I B S α} {handler : Halt I B → Prog I B S α} {w : World I} {s s' : S}
    {h h' : List (Call I)} (hpq : p w s h = q w s' h') :
    p.attempt handler w s h = q.attempt handler w s' h' := by
  simp only [attempt, hpq]

lemma ensuring_at {p q : Prog I B S α} {last : Prog I B S Unit} {w : World I} {s s' : S}
    {h h' : List (Call I)} (hpq : p w s h = q w s' h') :
    p.ensuring last w s h = q.ensuring last w s' h' := by
  simp only [ensuring, hpq]

end Prog

open Prog

/-- In every world, from any calls before, what the calls of the program and its end satisfy. -/
def Does (p : Prog I B S α) (Q : List (Call I) → Except (Halt I B) α → Prop) : Prop :=
  ∀ w s h, ∃ new, (p w s h).2.2 = h ++ new ∧ Q new (p w s h).1

section Rules

variable {p : Prog I B S α} {Q R : List (Call I) → Except (Halt I B) α → Prop}

lemma Does.mono (hp : Does p R) (h : ∀ n r, R n r → Q n r) : Does p Q := by
  intro w s hist
  obtain ⟨new, hnew, hr⟩ := hp w s hist
  exact ⟨new, hnew, h _ _ hr⟩

lemma Does.and (hp : Does p Q) (hp' : Does p R) : Does p fun n r => Q n r ∧ R n r := by
  intro w s h
  obtain ⟨new, hnew, hq⟩ := hp w s h
  obtain ⟨new', hnew', hr⟩ := hp' w s h
  obtain rfl := List.append_cancel_left (hnew.symm.trans hnew')
  exact ⟨new, hnew, hq, hr⟩

lemma Does.pure {a : α} (h : Q [] (.ok a)) : Does (pure a : Prog I B S α) Q :=
  fun _ _ _ => ⟨[], by simp [Pure.pure], h⟩

lemma Does.halt {e : Halt I B} (h : Q [] (.error e)) : Does (Prog.halt e : Prog I B S α) Q :=
  fun _ _ _ => ⟨[], by simp [Prog.halt], h⟩

lemma Does.modify {f : S → S} {Q : List (Call I) → Except (Halt I B) Unit → Prop}
    (h : Q [] (.ok ())) : Does (Prog.modify f : Prog I B S Unit) Q :=
  fun _ _ _ => ⟨[], by simp [Prog.modify], h⟩

lemma Does.get {Q : List (Call I) → Except (Halt I B) S → Prop} (h : ∀ s, Q [] (.ok s)) :
    Does (Prog.get : Prog I B S S) Q :=
  fun _ s _ => ⟨[], by simp [Prog.get], h s⟩

lemma Does.call {op : I.Op} {Q : List (Call I) → Except (Halt I B) (I.Ans op) → Prop}
    (hok : ∀ a, Q [⟨op, .ok a⟩] (.ok a)) (herr : ∀ e, Q [⟨op, .error e⟩] (.error (.raised e))) :
    Does (Prog.call op : Prog I B S (I.Ans op)) Q := by
  intro w s h
  refine ⟨[⟨op, w h op⟩], rfl, ?_⟩
  cases ha : w h op with
  | ok a => simpa [Prog.call, ha] using hok a
  | error e => simpa [Prog.call, ha] using herr e

/-- What a program does first, and then the rest of it. -/
lemma Does.bind {f : α → Prog I B S β} {Q : List (Call I) → Except (Halt I B) β → Prop}
    (hp : Does p R) (hok : ∀ n a, R n (.ok a) → Does (f a) fun n' r => Q (n ++ n') r)
    (herr : ∀ n e, R n (.error e) → Q n (.error e)) : Does (p >>= f) Q := by
  intro w s h
  obtain ⟨new, hnew, hr⟩ := hp w s h
  obtain ⟨r, s', h', hp'⟩ : ∃ r s' h', p w s h = (r, s', h') := ⟨_, _, _, rfl⟩
  rw [hp'] at hnew hr
  obtain rfl : h' = h ++ new := hnew
  cases r with
  | error e =>
    rw [bind_error hp']
    exact ⟨new, rfl, herr new e hr⟩
  | ok a =>
    rw [bind_ok hp']
    obtain ⟨more, hmore, hq⟩ := hok new a hr w s' (h ++ new)
    exact ⟨new ++ more, by rw [hmore, List.append_assoc], hq⟩

lemma Does.attempt {handler : Halt I B → Prog I B S α} (hp : Does p R)
    (hok : ∀ n a, R n (.ok a) → Q n (.ok a))
    (herr : ∀ n e, R n (.error e) → Does (handler e) fun n' r => Q (n ++ n') r) :
    Does (p.attempt handler) Q := by
  intro w s h
  obtain ⟨new, hnew, hr⟩ := hp w s h
  obtain ⟨r, s', h', hp'⟩ : ∃ r s' h', p w s h = (r, s', h') := ⟨_, _, _, rfl⟩
  rw [hp'] at hnew hr
  obtain rfl : h' = h ++ new := hnew
  cases r with
  | ok a =>
    refine ⟨new, ?_, ?_⟩ <;> simp only [Prog.attempt, hp']
    exact hok new a hr
  | error e =>
    obtain ⟨more, hmore, hq⟩ := herr new e hr w s' (h ++ new)
    refine ⟨new ++ more, ?_, ?_⟩ <;> simp only [Prog.attempt, hp']
    · rw [hmore, List.append_assoc]
    · exact hq

/-- `finally` adds calls, and nothing else but an exception of its own. -/
lemma Does.ensuring {last : Prog I B S Unit} {L : List (Call I) → Except (Halt I B) Unit → Prop}
    (hp : Does p R) (hl : Does last L) (hok : ∀ n r n', R n r → L n' (.ok ()) → Q (n ++ n') r)
    (herr : ∀ n r n' e, R n r → L n' (.error e) → Q (n ++ n') (.error e)) :
    Does (p.ensuring last) Q := by
  intro w s h
  obtain ⟨new, hnew, hr⟩ := hp w s h
  obtain ⟨r, s', h', hp'⟩ : ∃ r s' h', p w s h = (r, s', h') := ⟨_, _, _, rfl⟩
  rw [hp'] at hnew hr
  obtain rfl : h' = h ++ new := hnew
  obtain ⟨more, hmore, hlast⟩ := hl w s' (h ++ new)
  obtain ⟨rl, s'', h'', hl'⟩ : ∃ r s'' h'', last w s' (h ++ new) = (r, s'', h'') := ⟨_, _, _, rfl⟩
  rw [hl'] at hmore hlast
  obtain rfl : h'' = h ++ new ++ more := hmore
  cases rl with
  | ok u =>
    refine ⟨new ++ more, ?_, ?_⟩ <;> simp only [Prog.ensuring, hp', hl']
    · rw [List.append_assoc]
    · exact hok new r more hr hlast
  | error e =>
    refine ⟨new ++ more, ?_, ?_⟩ <;> simp only [Prog.ensuring, hp', hl']
    · rw [List.append_assoc]
    · exact herr new r more e hr hlast

end Rules

section Makes

variable {A A' G : Call I → Prop}

/-- Every call of the program is of a kind. -/
def Makes (A : Call I → Prop) (p : Prog I B S α) : Prop := Does p fun n _ => ∀ c ∈ n, A c

lemma Makes.mono {p : Prog I B S α} (hp : Makes A p) (h : ∀ c, A c → A' c) : Makes A' p :=
  Does.mono hp fun _ _ hn c hc => h c (hn c hc)

lemma Makes.pure (a : α) : Makes A (pure a : Prog I B S α) := Does.pure (by simp)

lemma Makes.halt (e : Halt I B) : Makes A (Prog.halt e : Prog I B S α) := Does.halt (by simp)

lemma Makes.modify (f : S → S) : Makes A (Prog.modify f : Prog I B S Unit) := Does.modify (by simp)

lemma Makes.get : Makes A (Prog.get : Prog I B S S) := Does.get (by simp)

lemma Makes.call {op : I.Op} (h : ∀ a, A ⟨op, a⟩) : Makes A (Prog.call op : Prog I B S _) :=
  Does.call (fun a => by simpa using h (.ok a)) fun e => by simpa using h (.error e)

lemma Makes.bind {p : Prog I B S α} {f : α → Prog I B S β} (hp : Makes A p)
    (hf : ∀ a, Makes A (f a)) : Makes A (p >>= f) := by
  refine Does.bind hp (fun n a hn => ?_) fun n e hn => hn
  exact Does.mono (hf a) fun n' _ hn' c hc => (List.mem_append.mp hc).elim (hn c) (hn' c)

lemma Makes.attempt {p : Prog I B S α} {handler : Halt I B → Prog I B S α} (hp : Makes A p)
    (hh : ∀ e, Makes A (handler e)) : Makes A (p.attempt handler) := by
  refine Does.attempt hp (fun n a hn => hn) fun n e hn => ?_
  exact Does.mono (hh e) fun n' _ hn' c hc => (List.mem_append.mp hc).elim (hn c) (hn' c)

/-- The program makes calls of a kind only, and while they all come back well it does not end
early and returns a value with a property. -/
def Sure (A G : Call I → Prop) (p : Prog I B S α) (R : α → Prop) : Prop :=
  Does p fun n r => (∀ c ∈ n, A c) ∧ ((∀ c ∈ n, G c) → ∃ a, r = .ok a ∧ R a)

variable {R : α → Prop}

lemma Sure.makes {p : Prog I B S α} (hp : Sure A G p R) : Makes A p :=
  Does.mono hp fun _ _ h => h.1

lemma Sure.mono {p : Prog I B S α} {R' : α → Prop} (hp : Sure A G p R) (h : ∀ a, R a → R' a) :
    Sure A G p R' :=
  Does.mono hp fun _ _ hn => ⟨hn.1, fun hG => by
    obtain ⟨a, ha, hR⟩ := hn.2 hG
    exact ⟨a, ha, h a hR⟩⟩

lemma Sure.pure {a : α} (h : R a) : Sure A G (pure a : Prog I B S α) R :=
  Does.pure ⟨by simp, fun _ => ⟨a, rfl, h⟩⟩

lemma Sure.modify {f : S → S} : Sure A G (Prog.modify f : Prog I B S Unit) fun _ => True :=
  Does.modify ⟨by simp, fun _ => ⟨(), rfl, trivial⟩⟩

lemma Sure.call {op : I.Op} {R : I.Ans op → Prop} (hA : ∀ a, A ⟨op, a⟩)
    (hok : ∀ a, G ⟨op, .ok a⟩ → R a) (herr : ∀ e, ¬ G ⟨op, .error e⟩) :
    Sure A G (Prog.call op : Prog I B S _) R :=
  Does.call
    (fun a => ⟨by simpa using hA (.ok a), fun hG => ⟨a, rfl, hok a (hG _ (by simp))⟩⟩)
    fun e => ⟨by simpa using hA (.error e), fun hG => absurd (hG _ (by simp)) (herr e)⟩

lemma Sure.bind {p : Prog I B S α} {f : α → Prog I B S β} {R' : β → Prop} (hp : Sure A G p R)
    (hm : ∀ a, Makes A (f a)) (hf : ∀ a, R a → Sure A G (f a) R') : Sure A G (p >>= f) R' := by
  refine Does.bind hp (fun n a hn => ?_) fun n e hn => ⟨hn.1, fun hG => ?_⟩
  · by_cases hG : ∀ c ∈ n, G c
    · obtain ⟨a', ha, hR⟩ := hn.2 hG
      obtain rfl := Except.ok.inj ha
      refine Does.mono (hf a hR) fun n' r hn' => ⟨fun c hc => ?_, fun hall => ?_⟩
      · exact (List.mem_append.mp hc).elim (hn.1 c) (hn'.1 c)
      · exact hn'.2 fun c hc => hall c (List.mem_append_right n hc)
    · refine Does.mono (hm a) fun n' r hn' => ⟨fun c hc => ?_, fun hall => ?_⟩
      · exact (List.mem_append.mp hc).elim (hn.1 c) (hn' c)
      · exact absurd (fun c hc => hall c (List.mem_append_left n' hc)) hG
  · obtain ⟨a, ha, -⟩ := hn.2 hG
    cases ha

/-- An exception is what a call that came back badly raised, so the handler is out of the way. -/
lemma Sure.attempt {p : Prog I B S α} {handler : Halt I B → Prog I B S α} (hp : Sure A G p R)
    (hh : ∀ e, Makes A (handler e)) : Sure A G (p.attempt handler) R := by
  refine Does.attempt hp (fun n a hn => hn) fun n e hn => ?_
  refine Does.mono (hh e) fun n' r hn' => ⟨fun c hc => ?_, fun hall => ?_⟩
  · exact (List.mem_append.mp hc).elim (hn.1 c) (hn' c)
  · obtain ⟨a, ha, -⟩ := hn.2 fun c hc => hall c (List.mem_append_left n' hc)
    cases ha

end Makes

section Triples

variable {P P' : List (Call I) → Prop} {Q R : List (Call I) → Except (Halt I B) α → Prop}

/-- After calls with a property, what the calls so far and the end of the program satisfy. -/
def Triple (P : List (Call I) → Prop) (p : Prog I B S α)
    (Q : List (Call I) → Except (Halt I B) α → Prop) : Prop :=
  Does p fun n r => ∀ h, P h → Q (h ++ n) r

lemma Triple.run {p : Prog I B S α} (hp : Triple P p Q) {w : World I} {s : S} {h : List (Call I)}
    (hP : P h) : Q (p w s h).2.2 (p w s h).1 := by
  obtain ⟨n, hn, hQ⟩ := hp w s h
  rw [hn]
  exact hQ h hP

lemma Triple.mono {p : Prog I B S α} (hp : Triple P p R) (hpre : ∀ h, P' h → P h)
    (hpost : ∀ h r, R h r → Q h r) : Triple P' p Q :=
  Does.mono hp fun _ _ hn h hP => hpost _ _ (hn h (hpre h hP))

lemma Triple.post {p : Prog I B S α} (hp : Triple P p R) (h : ∀ h r, R h r → Q h r) :
    Triple P p Q :=
  hp.mono (fun _ h => h) h

lemma Triple.pure {a : α} (h : ∀ h, P h → Q h (.ok a)) : Triple P (pure a : Prog I B S α) Q :=
  Does.pure fun h' hP => by simpa using h h' hP

lemma Triple.halt {e : Halt I B} (h : ∀ h, P h → Q h (.error e)) :
    Triple P (Prog.halt e : Prog I B S α) Q :=
  Does.halt fun h' hP => by simpa using h h' hP

lemma Triple.modify {f : S → S} {Q : List (Call I) → Except (Halt I B) Unit → Prop}
    (h : ∀ h, P h → Q h (.ok ())) : Triple P (Prog.modify f : Prog I B S Unit) Q :=
  Does.modify fun h' hP => by simpa using h h' hP

lemma Triple.get {Q : List (Call I) → Except (Halt I B) S → Prop} (h : ∀ h s, P h → Q h (.ok s)) :
    Triple P (Prog.get : Prog I B S S) Q :=
  Does.get fun s h' hP => by simpa using h h' s hP

lemma Triple.call {op : I.Op} {Q : List (Call I) → Except (Halt I B) (I.Ans op) → Prop}
    (hok : ∀ h a, P h → Q (h ++ [⟨op, .ok a⟩]) (.ok a))
    (herr : ∀ h e, P h → Q (h ++ [⟨op, .error e⟩]) (.error (.raised e))) :
    Triple P (Prog.call op : Prog I B S (I.Ans op)) Q :=
  Does.call (fun a h => hok h a) fun e h => herr h e

lemma Triple.bind {p : Prog I B S α} {f : α → Prog I B S β}
    {Q : List (Call I) → Except (Halt I B) β → Prop} (hp : Triple P p R)
    (hok : ∀ a, Triple (fun h => R h (.ok a)) (f a) Q)
    (herr : ∀ h e, R h (.error e) → Q h (.error e)) : Triple P (p >>= f) Q := by
  refine Does.bind hp (fun n a hn => ?_) fun n e hn h hP => herr _ _ (hn h hP)
  refine Does.mono (hok a) fun n' r hn' h hP => ?_
  rw [← List.append_assoc]
  exact hn' (h ++ n) (hn h hP)

lemma Triple.attempt {p : Prog I B S α} {handler : Halt I B → Prog I B S α} (hp : Triple P p R)
    (hok : ∀ h a, R h (.ok a) → Q h (.ok a))
    (herr : ∀ e, Triple (fun h => R h (.error e)) (handler e) Q) :
    Triple P (p.attempt handler) Q := by
  refine Does.attempt hp (fun n a hn h hP => hok _ _ (hn h hP)) fun n e hn => ?_
  refine Does.mono (herr e) fun n' r hn' h hP => ?_
  rw [← List.append_assoc]
  exact hn' (h ++ n) (hn h hP)

lemma Triple.ensuring {p : Prog I B S α} {last : Prog I B S Unit} (hp : Triple P p R)
    (hl : ∀ r, Triple (fun h => R h r) last fun h r' =>
      Q h (match r' with | .ok () => r | .error e => .error e)) :
    Triple P (p.ensuring last) Q := by
  intro w s h
  obtain ⟨new, hnew, hr⟩ := hp w s h
  obtain ⟨r, s', h', hp'⟩ : ∃ r s' h', p w s h = (r, s', h') := ⟨_, _, _, rfl⟩
  rw [hp'] at hnew hr
  obtain rfl : h' = h ++ new := hnew
  obtain ⟨more, hmore, hlast⟩ := hl r w s' (h ++ new)
  obtain ⟨rl, s'', h'', hl'⟩ : ∃ r s'' h'', last w s' (h ++ new) = (r, s'', h'') := ⟨_, _, _, rfl⟩
  rw [hl'] at hmore hlast
  obtain rfl : h'' = h ++ new ++ more := hmore
  refine ⟨new ++ more, ?_, fun h₀ hP => ?_⟩
  · cases rl <;> simp only [Prog.ensuring, hp', hl', List.append_assoc]
  · have hq := hlast (h₀ ++ new) (hr h₀ hP)
    rw [List.append_assoc] at hq
    cases rl <;> simpa only [Prog.ensuring, hp', hl'] using hq

/-- A property of the calls so far that calls of a kind do not touch. -/
lemma Triple.of_makes {A : Call I → Prop} {p : Prog I B S α} (hp : Makes A p)
    (h : ∀ h c, A c → P h → P (h ++ [c])) : Triple P p fun h _ => P h := by
  refine Does.mono hp fun n r hn => ?_
  clear hp
  induction n with
  | nil => intro h hP; simpa using hP
  | cons c n ih =>
    intro h₀ hP
    rw [List.append_cons]
    exact ih (fun c' hc' => hn c' (by simp [hc'])) _ (h h₀ c (hn c (by simp)) hP)

end Triples

section Yields

variable {A : Call I → Prop} {R R' : List (Call I) → α → Prop}

/-- When the program returns, the calls it made and the value it returns. -/
def Yields (p : Prog I B S α) (R : List (Call I) → α → Prop) : Prop :=
  Does p fun n r => ∀ a, r = .ok a → R n a

lemma Yields.mono {p : Prog I B S α} (hp : Yields p R) (h : ∀ n a, R n a → R' n a) : Yields p R' :=
  Does.mono hp fun n _ hn a ha => h n a (hn a ha)

lemma Yields.pure {a : α} (h : R [] a) : Yields (pure a : Prog I B S α) R :=
  Does.pure fun _ ha => Except.ok.inj ha ▸ h

lemma Yields.halt {e : Halt I B} : Yields (Prog.halt e : Prog I B S α) R :=
  Does.halt fun _ ha => by cases ha

lemma Yields.call {op : I.Op} {R : List (Call I) → I.Ans op → Prop}
    (h : ∀ a, R [⟨op, .ok a⟩] a) : Yields (Prog.call op : Prog I B S (I.Ans op)) R :=
  Does.call (fun a _ ha => Except.ok.inj ha ▸ h a) fun _ _ ha => by cases ha

lemma Yields.bind {p : Prog I B S α} {f : α → Prog I B S β} {Q : List (Call I) → β → Prop}
    (hp : Yields p R) (hf : ∀ n a, R n a → Yields (f a) fun n' b => Q (n ++ n') b) :
    Yields (p >>= f) Q :=
  Does.bind hp (fun n a hn => hf n a (hn a rfl)) fun _ _ _ _ ha => by cases ha

lemma Yields.of_makes {p : Prog I B S α} (hp : Makes A p) : Yields p fun n _ => ∀ c ∈ n, A c :=
  Does.mono hp fun _ _ hn _ _ => hn

lemma Yields.and {p : Prog I B S α} (hp : Yields p R) (hp' : Yields p R') :
    Yields p fun n a => R n a ∧ R' n a :=
  Does.mono (Does.and hp hp') fun _ _ h a ha => ⟨h.1 a ha, h.2 a ha⟩

end Yields

/-- Where a call that is not among the first ones stands. -/
lemma split_of_not_mem {c : Call I} {xs ys pre post : List (Call I)}
    (h : xs ++ ys = pre ++ c :: post) (hc : c ∉ xs) :
    ∃ mid, pre = xs ++ mid ∧ ys = mid ++ c :: post := by
  rcases List.append_eq_append_iff.mp h with ⟨mid, hpre, hys⟩ | ⟨mid, hxs, hpost⟩
  · exact ⟨mid, hpre, hys⟩
  · cases mid with
    | nil => exact ⟨[], by simp [hxs], by simpa using hpost.symm⟩
    | cons c' mid =>
      obtain ⟨rfl, -⟩ := List.cons.inj hpost
      exact absurd (by simp [hxs]) hc

end CommitReplay.Interaction
