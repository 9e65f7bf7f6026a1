import CommitReplay.PriorityRegex

/-! Patterns that begin at the start of a line, read over a text: the groups of every match, and the text
without its matches. Where no match leaves its line, a text is read line by line. -/
namespace CommitReplay.LineRegex

open CommitReplay.PythonText CommitReplay.PriorityRegex

section Reading

/-- The groups of a match. -/
abbrev Groups := List (ℕ × Text)

/-- `^` of a multi-line pattern, then the expression. -/
def lineRun (r : Rx) (s : At) : List At := if s.prev.all (· = '\n') then run r s else []

/-- The groups of every match, within so many characters of the last. No match is empty. -/
def findFrom (p : At → List At) : ℕ → Option Char → Text → List Groups
  | _, _, [] => []
  | skip + 1, _, c :: cs => findFrom p skip (some c) cs
  | 0, prev, c :: cs =>
    match (p ⟨prev, c :: cs, []⟩).head? with
    | some t => t.groups :: findFrom p (cs.length - t.rest.length) (some c) cs
    | none => findFrom p 0 (some c) cs

def findall (p : At → List At) (s : Text) : List Groups := findFrom p 0 none s

/-- The text without its matches, within so many characters of the last. -/
def cutFrom (p : At → List At) : ℕ → Option Char → Text → Text
  | _, _, [] => []
  | skip + 1, _, c :: cs => cutFrom p skip (some c) cs
  | 0, prev, c :: cs =>
    match (p ⟨prev, c :: cs, []⟩).head? with
    | some t => cutFrom p (cs.length - t.rest.length) (some c) cs
    | none => c :: cutFrom p 0 (some c) cs

def cut (p : At → List At) (s : Text) : Text := cutFrom p 0 none s

/-- The groups of the match of a whole line. -/
def onLine (r : Rx) (line : Text) : Option Groups :=
  ((run r ⟨none, line, []⟩).find? (·.rest = [])).map (·.groups)

end Reading

section Lines

variable {p : At → List At}

/-- A pattern that matches at the start of a line only. -/
def Anchored (p : At → List At) : Prop := ∀ c rest groups, c ≠ '\n' → p ⟨some c, rest, groups⟩ = []

lemma anchored_lineRun (r : Rx) : Anchored (lineRun r) := by
  intro c rest groups hc
  simp [lineRun, hc]

/-- Behind the start of a line nothing matches until the next one. -/
lemma findFrom_within (hp : Anchored p) {l rest : Text} (hl : '\n' ∉ l) {skip : ℕ} {c : Char} (hc : c ≠ '\n')
    (hskip : skip ≤ l.length) :
    findFrom p skip (some c) (l ++ '\n' :: rest) = findFrom p 0 (some '\n') rest := by
  induction l generalizing skip c with
  | nil =>
    obtain rfl : skip = 0 := Nat.le_zero.mp hskip
    simp only [List.nil_append, findFrom, hp _ _ _ hc, List.head?_nil]
  | cons d l ih =>
    have hd : d ≠ '\n' := fun he => hl (he ▸ List.mem_cons_self)
    have hl' : '\n' ∉ l := fun h => hl (List.mem_cons_of_mem _ h)
    cases skip with
    | zero =>
      simp only [List.cons_append, findFrom, hp _ _ _ hc, List.head?_nil]
      exact ih hl' hd (Nat.zero_le _)
    | succ skip => exact ih hl' hd (Nat.le_of_succ_le_succ hskip)

lemma findFrom_last (hp : Anchored p) {l : Text} (hl : '\n' ∉ l) {skip : ℕ} {c : Char} (hc : c ≠ '\n') :
    findFrom p skip (some c) l = [] := by
  induction l generalizing skip c with
  | nil => cases skip <;> rfl
  | cons d l ih =>
    have hd : d ≠ '\n' := fun he => hl (he ▸ List.mem_cons_self)
    have hl' : '\n' ∉ l := fun h => hl (List.mem_cons_of_mem _ h)
    cases skip with
    | zero =>
      simp only [findFrom, hp _ _ _ hc, List.head?_nil]
      exact ih hl' hd
    | succ skip => exact ih hl' hd

/-- What the pattern reads at the start of a line, whatever follows the line: its groups, on the line. -/
def Reads (p : At → List At) (l : Text) (g : Option Groups) : Prop :=
  ∀ (prev : Option Char) (rest : Text), prev.all (· = '\n') = true → rest.head?.all (· = '\n') = true →
    (p ⟨prev, l ++ rest, []⟩).head?.map (·.groups) = g ∧
      ∀ t ∈ (p ⟨prev, l ++ rest, []⟩).head?, rest.length ≤ t.rest.length ∧ t.rest.length < (l ++ rest).length

lemma findFrom_line (hp : Anchored p) {l rest : Text} (hl : '\n' ∉ l) {g : Option Groups} (h : Reads p l g)
    {prev : Option Char} (hprev : prev.all (· = '\n') = true) :
    findFrom p 0 prev (l ++ '\n' :: rest) = g.toList ++ findFrom p 0 (some '\n') rest := by
  obtain ⟨hg, hin⟩ := h prev ('\n' :: rest) hprev (by simp)
  subst hg
  cases l with
  | nil =>
    rw [List.nil_append] at hin ⊢
    cases hread : (p ⟨prev, '\n' :: rest, []⟩).head? with
    | none => simp [findFrom, hread]
    | some t =>
      obtain ⟨h1, h2⟩ := hin t hread
      omega
  | cons d l =>
    have hd : d ≠ '\n' := fun he => hl (he ▸ List.mem_cons_self)
    have hl' : '\n' ∉ l := fun h => hl (List.mem_cons_of_mem _ h)
    rw [List.cons_append] at hin ⊢
    cases hread : (p ⟨prev, d :: (l ++ '\n' :: rest), []⟩).head? with
    | none =>
      simp only [findFrom, hread, Option.map_none, Option.toList_none, List.nil_append]
      exact findFrom_within hp hl' hd (Nat.zero_le _)
    | some t =>
      obtain ⟨h1, -⟩ := hin t hread
      simp only [findFrom, hread, Option.map_some, Option.toList_some, List.cons_append, List.nil_append]
      rw [findFrom_within hp hl' hd]
      simp only [List.length_append, List.length_cons] at h1 ⊢
      omega

lemma findFrom_lastLine (hp : Anchored p) {l : Text} (hl : '\n' ∉ l) {g : Option Groups} (h : Reads p l g)
    {prev : Option Char} (hprev : prev.all (· = '\n') = true) : findFrom p 0 prev l = g.toList := by
  obtain ⟨hg, hin⟩ := h prev [] hprev rfl
  rw [List.append_nil] at hg hin
  subst hg
  cases l with
  | nil =>
    cases hread : (p ⟨prev, [], []⟩).head? with
    | none => rfl
    | some t => exact absurd (hin t hread).2 (Nat.not_lt_zero _)
  | cons d l =>
    have hd : d ≠ '\n' := fun he => hl (he ▸ List.mem_cons_self)
    have hl' : '\n' ∉ l := fun h => hl (List.mem_cons_of_mem _ h)
    cases hread : (p ⟨prev, d :: l, []⟩).head? <;>
      simp [findFrom, hread, findFrom_last hp hl' hd]

/-- The groups that are read of a line. -/
def readLine (p : At → List At) (line : Text) : Option Groups :=
  (p ⟨none, line, []⟩).head?.map (·.groups)

lemma readLine_eq {l : Text} {g : Option Groups} (h : Reads p l g) : readLine p l = g := by
  obtain ⟨hg, -⟩ := h none [] rfl rfl
  rwa [List.append_nil] at hg

/-- A text whose every line is read on the line is read line by line. -/
theorem findall_lines (hp : Anchored p) {l : Text} {ls : List Text}
    (h : ∀ x ∈ l :: ls, '\n' ∉ x ∧ ∃ g, Reads p x g) :
    findall p (['\n'].intercalate (l :: ls)) = (l :: ls).filterMap (readLine p) := by
  suffices H : ∀ prev : Option Char, prev.all (· = '\n') = true →
      findFrom p 0 prev (['\n'].intercalate (l :: ls)) = (l :: ls).filterMap (readLine p) from H none rfl
  induction ls generalizing l with
  | nil =>
    intro prev hprev
    obtain ⟨hl, g, hr⟩ := h l List.mem_cons_self
    rw [List.intercalate_singleton, findFrom_lastLine hp hl hr hprev]
    cases g <;> simp [readLine_eq hr]
  | cons m ls ih =>
    intro prev hprev
    obtain ⟨hl, g, hr⟩ := h l List.mem_cons_self
    have hrest := ih (fun x hx => h x (List.mem_cons_of_mem _ hx)) (some '\n') rfl
    rw [List.intercalate_cons_cons, List.append_assoc, List.singleton_append,
      findFrom_line hp hl hr hprev, hrest]
    cases g <;> simp [readLine_eq hr]

end Lines

end CommitReplay.LineRegex
