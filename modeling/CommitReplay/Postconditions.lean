import CommitReplay.Interleavings

/-! Two postconditions for a program, one where it comes back with a value and one where it raises, and
the rules that walk through a program with them. -/
namespace CommitReplay.Postconditions

open CommitReplay.Interaction CommitReplay.Interleavings

section Catching

variable {I : Interface} {B S α : Type}

/-- `except Exception`. -/
def catching (p : Prog I B S α) (handler : I.Exn → Prog I B S α) : Prog I B S α :=
  p.attempt fun e =>
    match e with
    | .raised exc => handler exc
    | e => .halt e

/-- What was raised comes back as a value. -/
def tried (p : Prog I B S α) : Prog I B S (Except I.Exn α) :=
  catching (Except.ok <$> p) fun exc => pure (.error exc)

end Catching

variable {I : Interface} {B S α β : Type} {J K E R : S → List (Call I) → Prop}
  {P : α → S → List (Call I) → Prop} {Q : β → S → List (Call I) → Prop}

/-- What holds when a program has come back, and what holds when it raised. -/
def Post (P : α → S → List (Call I) → Prop) (E : S → List (Call I) → Prop) :
    Except (Halt I B) α → S → List (Call I) → Prop
  | .ok a => P a
  | .error _ => E

lemma holds_bind {p : Prog I B S α} {f : α → Prog I B S β} (hp : Holds J p (Post P E))
    (hf : ∀ a, Holds (P a) (f a) (Post Q E)) : Holds J (p >>= f) (Post Q E) :=
  Holds.bind hp hf fun _ _ _ h => h

lemma holds_pure {a : α} (h : ∀ s h, J s h → P a s h) : Holds J (pure a : Prog I B S α) (Post P E) :=
  Holds.pure h

lemma holds_raise {exc : I.Exn} (h : ∀ s h, J s h → E s h) :
    Holds J (Prog.raise exc : Prog I B S α) (Post P E) :=
  Holds.halt h

lemma holds_call {op : I.Op} {P : I.Ans op → S → List (Call I) → Prop}
    (hok : ∀ s h a, J s h → P a s (h ++ [⟨op, .ok a⟩]))
    (herr : ∀ s h e, J s h → E s (h ++ [⟨op, .error e⟩])) :
    Holds J (Prog.call op : Prog I B S (I.Ans op)) (Post P E) :=
  Holds.call hok herr

lemma holds_modify {f : S → S} {p : Prog I B S β} (hf : ∀ s h, J s h → K (f s) h)
    (hp : Holds K p (Post Q E)) : Holds J (Prog.modify f >>= fun _ => p) (Post Q E) :=
  holds_bind (P := fun _ => K) (Holds.modify hf) fun _ => hp

lemma holds_get {f : S → Prog I B S β}
    (hf : ∀ now, Holds (fun s h => J s h ∧ s = now) (f now) (Post Q E)) :
    Holds J (Prog.get >>= f) (Post Q E) :=
  holds_bind (P := fun now s h => J s h ∧ s = now) (Holds.get fun _ _ h => ⟨h, rfl⟩) hf

lemma holds_weaken {p : Prog I B S α} (hp : Holds K p (Post P E)) (h : ∀ s h, J s h → K s h) :
    Holds J p (Post P E) :=
  Holds.mono hp h fun _ _ _ h => h

lemma holds_strengthen {p : Prog I B S α} {P' : α → S → List (Call I) → Prop}
    {E' : S → List (Call I) → Prop} (hp : Holds J p (Post P' E')) (h : ∀ a s h, P' a s h → P a s h)
    (he : ∀ s h, E' s h → E s h) : Holds J p (Post P E) := by
  refine Holds.mono hp (fun _ _ h => h) ?_
  rintro (e | a) s hist hr
  · exact he s hist hr
  · exact h a s hist hr

/-- What is raised is handled. -/
lemma holds_catching [IsEmpty B] {p : Prog I B S α} {handler : I.Exn → Prog I B S α}
    (hp : Holds J p (Post P R)) (hh : ∀ exc, Holds R (handler exc) (Post P E)) :
    Holds J (catching p handler) (Post P E) := by
  refine Holds.attempt hp (fun _ _ _ h => h) fun e => ?_
  cases e with
  | raised exc => exact hh exc
  | stopped b => exact isEmptyElim b

/-- What holds where an exception is told from a value. -/
def Raised (P : α → S → List (Call I) → Prop) (R : I.Exn → S → List (Call I) → Prop) :
    Except (Halt I B) α → S → List (Call I) → Prop
  | .ok a => P a
  | .error (.raised exc) => R exc
  | .error (.stopped _) => fun _ _ => True

/-- The same, where the exception has come back as a value. -/
def Back (P : α → S → List (Call I) → Prop) (R : I.Exn → S → List (Call I) → Prop) :
    Except I.Exn α → S → List (Call I) → Prop
  | .ok a => P a
  | .error exc => R exc

lemma holds_tried [IsEmpty B] {p : Prog I B S α} {R : I.Exn → S → List (Call I) → Prop}
    (hp : Holds J p (Raised P R)) : Holds J (tried p) (Post (Back P R) E) := by
  intro w s h hJ
  have hr := hp w s h hJ
  unfold tried catching
  obtain ⟨r, s', h', hrun⟩ : ∃ r s' h', p w s h = (r, s', h') := ⟨_, _, _, rfl⟩
  rw [hrun] at hr
  rcases r with (⟨exc⟩ | ⟨b⟩) | a
  · have hmap : (Except.ok <$> p : Prog I B S (Except I.Exn α)) w s h = (.error (.raised exc), s', h') :=
      Prog.bind_error hrun
    simp only [Prog.attempt, hmap]
    exact hr
  · exact isEmptyElim b
  · have hmap : (Except.ok <$> p : Prog I B S (Except I.Exn α)) w s h = (.ok (.ok a), s', h') :=
      Prog.bind_ok hrun
    simp only [Prog.attempt, hmap]
    exact hr

end CommitReplay.Postconditions
