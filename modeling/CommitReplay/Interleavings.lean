import CommitReplay.Interaction

/-! Programs that run at once on one shared state: their calls come one at a time, in any order, and each
program may be paused or killed between any two of its own. -/
namespace CommitReplay.Interleavings

open CommitReplay.Interaction

variable {ι σ : Type} {I : Interface} {B S α β : Type}

section Begins

/-- The first calls of a program, up to where it is paused or killed. -/
def Begins (p : Prog I B S α) (s : S) (calls : List (Call I)) : Prop := ∃ w, calls <+: (p w s []).2.2

/-- What holds after every call of a program holds of its first calls, where earlier calls keep it. -/
lemma Begins.holds {p : Prog I B S α} {s : S} {calls : List (Call I)} {Q : List (Call I) → Prop}
    (hb : Begins p s calls) (hp : ∀ w, Q (p w s []).2.2) (hQ : ∀ {m n}, m <+: n → Q n → Q m) :
    Q calls := by
  obtain ⟨w, hw⟩ := hb
  exact hQ hw (hp w)

lemma Begins.cut {p : Prog I B S α} {s : S} {m n : List (Call I)} (hn : Begins p s n) (h : m <+: n) :
    Begins p s m := by
  obtain ⟨w, hw⟩ := hn
  exact ⟨w, h.trans hw⟩

end Begins

section Paths

/-- What the shared state makes of a party's call: the answers it can have, and the states after them. -/
abbrev Reaction (σ ι : Type) (I : Interface) := σ → ι → Call I → σ → Prop

variable (act : Reaction σ ι I) (s₀ : σ)

inductive Path : List (ι × Call I) → σ → Prop
  | start : Path [] s₀
  | call {log s i c s'} : Path log s → act s i c s' → Path (log ++ [(i, c)]) s'

variable {act s₀}

/-- A state passed on the way. -/
lemma Path.before {log : List (ι × Call I)} {s : σ} (h : Path act s₀ log s) {pre post : List (ι × Call I)}
    (heq : log = pre ++ post) : ∃ s', Path act s₀ pre s' := by
  induction h generalizing post with
  | start =>
    obtain ⟨rfl, -⟩ := List.append_eq_nil_iff.mp heq.symm
    exact ⟨s₀, .start⟩
  | @call log s i c s' hlog hact ih =>
    rcases List.eq_nil_or_concat post with rfl | ⟨post', e, rfl⟩
    · rw [List.append_nil] at heq
      exact ⟨s', heq ▸ hlog.call hact⟩
    · rw [List.concat_eq_append, ← List.append_assoc] at heq
      exact ih (List.append_inj' heq rfl).1

end Paths

section Interleaved

variable [DecidableEq ι]

/-- The calls of one party. -/
def callsOf (i : ι) (log : List (ι × Call I)) : List (Call I) :=
  log.filterMap fun e => if e.1 = i then some e.2 else none

lemma callsOf_append (i : ι) (m n : List (ι × Call I)) :
    callsOf i (m ++ n) = callsOf i m ++ callsOf i n :=
  List.filterMap_append

@[simp] lemma callsOf_self (i : ι) (c : Call I) : callsOf i [(i, c)] = [c] := by simp [callsOf]

lemma callsOf_ne {i j : ι} (h : j ≠ i) (c : Call I) : callsOf i [(j, c)] = [] := by simp [callsOf, h]

lemma mem_callsOf {i : ι} {c : Call I} {log : List (ι × Call I)} :
    c ∈ callsOf i log ↔ (i, c) ∈ log := by
  simp only [callsOf, List.mem_filterMap]
  constructor
  · rintro ⟨⟨j, d⟩, he, h⟩
    split_ifs at h with hj
    cases h
    exact hj ▸ he
  · exact fun h => ⟨(i, c), h, by simp⟩

lemma callsOf_mono {i : ι} {m n : List (ι × Call I)} (h : m <+: n) : callsOf i m <+: callsOf i n := by
  obtain ⟨x, rfl⟩ := h
  rw [callsOf_append]
  exact List.prefix_append _ _

/-- Where a party's call stands among all. -/
lemma callsOf_split {i : ι} {log : List (ι × Call I)} {pre post : List (Call I)} {c : Call I}
    (h : callsOf i log = pre ++ c :: post) :
    ∃ before after, log = before ++ (i, c) :: after ∧ callsOf i before = pre := by
  obtain ⟨m, n, rfl, hm, hn⟩ := List.filterMap_eq_append_iff.mp h
  obtain ⟨m', ⟨j, d⟩, n', rfl, hnone, hsome, -⟩ := List.filterMap_eq_cons_iff.mp hn
  dsimp only at hsome
  split_ifs at hsome with hj
  obtain rfl := Option.some.inj hsome
  subst hj
  refine ⟨m ++ m', n', by rw [List.append_assoc], ?_⟩
  rw [callsOf_append]
  have hm' : callsOf j m' = [] := List.filterMap_eq_nil_iff.mpr hnone
  rw [hm', List.append_nil]
  exact hm

/-- The programs of the parties, run at once. -/
structure Interleaved (parties : ι → Prog I B S α) (init : S) (act : Reaction σ ι I) (s₀ : σ)
    (log : List (ι × Call I)) (s : σ) : Prop where
  path : Path act s₀ log s
  begins : ∀ i, Begins (parties i) init (callsOf i log)

variable {parties : ι → Prog I B S α} {init : S} {act : Reaction σ ι I} {s₀ s : σ}
  {log : List (ι × Call I)}

lemma Interleaved.before (h : Interleaved parties init act s₀ log s) {pre post : List (ι × Call I)}
    (heq : log = pre ++ post) : ∃ s', Interleaved parties init act s₀ pre s' := by
  obtain ⟨s', hs'⟩ := h.path.before heq
  exact ⟨s', hs', fun i => (h.begins i).cut (callsOf_mono ⟨post, heq.symm⟩)⟩

/-- What the first state has and each call keeps, every state reached has. -/
lemma Interleaved.induct {J : List (ι × Call I) → σ → Prop} (h : Interleaved parties init act s₀ log s)
    (hstart : J [] s₀)
    (hcall : ∀ log s i c s', J log s → (∀ j, Begins (parties j) init (callsOf j (log ++ [(i, c)]))) →
      act s i c s' → J (log ++ [(i, c)]) s') : J log s := by
  obtain ⟨hpath, hbegins⟩ := h
  induction hpath with
  | start => exact hstart
  | call hlog hact ih =>
    refine hcall _ _ _ _ _ (ih fun j => (hbegins j).cut (callsOf_mono ?_)) hbegins hact
    exact List.prefix_append _ _

end Interleaved

section Keeps

variable {J K : S → List (Call I) → Prop} {Q R : Except (Halt I B) α → S → List (Call I) → Prop}

/-- From locals and calls with a property, how the program ends, and with which locals and calls. -/
def Holds (J : S → List (Call I) → Prop) (p : Prog I B S α)
    (Q : Except (Halt I B) α → S → List (Call I) → Prop) : Prop :=
  ∀ w s h, J s h → Q (p w s h).1 (p w s h).2.1 (p w s h).2.2

lemma Holds.mono {p : Prog I B S α} (hp : Holds J p R) (hJ : ∀ s h, K s h → J s h)
    (hQ : ∀ r s h, R r s h → Q r s h) : Holds K p Q :=
  fun w s h hK => hQ _ _ _ (hp w s h (hJ s h hK))

lemma Holds.pure {a : α} (h : ∀ s h, J s h → Q (.ok a) s h) : Holds J (pure a : Prog I B S α) Q :=
  fun _ s h' hJ => h s h' hJ

lemma Holds.halt {e : Halt I B} (h : ∀ s h, J s h → Q (.error e) s h) :
    Holds J (Prog.halt e : Prog I B S α) Q :=
  fun _ s h' hJ => h s h' hJ

lemma Holds.modify {f : S → S} {Q : Except (Halt I B) Unit → S → List (Call I) → Prop}
    (h : ∀ s h, J s h → Q (.ok ()) (f s) h) : Holds J (Prog.modify f : Prog I B S Unit) Q :=
  fun _ s h' hJ => h s h' hJ

lemma Holds.get {Q : Except (Halt I B) S → S → List (Call I) → Prop}
    (h : ∀ s h, J s h → Q (.ok s) s h) : Holds J (Prog.get : Prog I B S S) Q :=
  fun _ s h' hJ => h s h' hJ

lemma Holds.call {op : I.Op} {Q : Except (Halt I B) (I.Ans op) → S → List (Call I) → Prop}
    (hok : ∀ s h a, J s h → Q (.ok a) s (h ++ [⟨op, .ok a⟩]))
    (herr : ∀ s h e, J s h → Q (.error (.raised e)) s (h ++ [⟨op, .error e⟩])) :
    Holds J (Prog.call op : Prog I B S (I.Ans op)) Q := by
  intro w s h hJ
  cases ha : w h op with
  | ok a => simpa [Prog.call, ha] using hok s h a hJ
  | error e => simpa [Prog.call, ha] using herr s h e hJ

lemma Holds.bind {p : Prog I B S α} {f : α → Prog I B S β}
    {Q : Except (Halt I B) β → S → List (Call I) → Prop} (hp : Holds J p R)
    (hok : ∀ a, Holds (fun s h => R (.ok a) s h) (f a) Q)
    (herr : ∀ e s h, R (.error e) s h → Q (.error e) s h) : Holds J (p >>= f) Q := by
  intro w s h hJ
  have hr := hp w s h hJ
  obtain ⟨r, s', h', hp'⟩ : ∃ r s' h', p w s h = (r, s', h') := ⟨_, _, _, rfl⟩
  rw [hp'] at hr
  cases r with
  | ok a => rw [Prog.bind_ok hp']; exact hok a w s' h' hr
  | error e => rw [Prog.bind_error hp']; exact herr e s' h' hr

lemma Holds.attempt {p : Prog I B S α} {handler : Halt I B → Prog I B S α} (hp : Holds J p R)
    (hok : ∀ a s h, R (.ok a) s h → Q (.ok a) s h)
    (herr : ∀ e, Holds (fun s h => R (.error e) s h) (handler e) Q) : Holds J (p.attempt handler) Q := by
  intro w s h hJ
  have hr := hp w s h hJ
  obtain ⟨r, s', h', hp'⟩ : ∃ r s' h', p w s h = (r, s', h') := ⟨_, _, _, rfl⟩
  rw [hp'] at hr
  cases r with
  | ok a => simp only [Prog.attempt, hp']; exact hok a s' h' hr
  | error e => simp only [Prog.attempt, hp']; exact herr e w s' h' hr

lemma Holds.ensuring {p : Prog I B S α} {last : Prog I B S Unit} (hp : Holds J p R)
    (hl : ∀ r, Holds (fun s h => R r s h) last fun r' s h =>
      Q (match r' with | .ok () => r | .error e => .error e) s h) : Holds J (p.ensuring last) Q := by
  intro w s h hJ
  have hr := hp w s h hJ
  obtain ⟨r, s', h', hp'⟩ : ∃ r s' h', p w s h = (r, s', h') := ⟨_, _, _, rfl⟩
  rw [hp'] at hr
  have hq := hl r w s' h' hr
  obtain ⟨rl, s'', h'', hl'⟩ : ∃ r s'' h'', last w s' h' = (r, s'', h'') := ⟨_, _, _, rfl⟩
  rw [hl'] at hq
  cases rl <;> simpa only [Prog.ensuring, hp', hl'] using hq

/-- A program that keeps a property, however it ends. -/
def Keeps (J : S → List (Call I) → Prop) (p : Prog I B S α) : Prop := Holds J p fun _ => J

lemma Keeps.bind {p : Prog I B S α} {f : α → Prog I B S β} (hp : Keeps J p) (hf : ∀ a, Keeps J (f a)) :
    Keeps J (p >>= f) :=
  Holds.bind hp hf fun _ _ _ h => h

lemma Keeps.attempt {p : Prog I B S α} {handler : Halt I B → Prog I B S α} (hp : Keeps J p)
    (hh : ∀ e, Keeps J (handler e)) : Keeps J (p.attempt handler) :=
  Holds.attempt hp (fun _ _ _ h => h) hh

lemma Keeps.ensuring {p : Prog I B S α} {last : Prog I B S Unit} (hp : Keeps J p) (hl : Keeps J last) :
    Keeps J (p.ensuring last) :=
  Holds.ensuring hp fun _ => Holds.mono hl (fun _ _ h => h) fun _ _ _ h => h

lemma Keeps.pure {a : α} : Keeps J (pure a : Prog I B S α) := Holds.pure fun _ _ h => h

lemma Keeps.halt {e : Halt I B} : Keeps J (Prog.halt e : Prog I B S α) := Holds.halt fun _ _ h => h

lemma Keeps.get : Keeps J (Prog.get : Prog I B S S) := Holds.get fun _ _ h => h

end Keeps

end CommitReplay.Interleavings
