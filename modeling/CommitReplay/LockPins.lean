import CommitReplay.PythonText
import CommitReplay.Slugs

/-! What a reader of a Python lock gives: pinned, hashed packages, each with the marker under which it is
installed, or a refusal. -/
namespace CommitReplay.LockPins

open CommitReplay.PythonText

section Pins

/-- The codes of a refusal, each with `PROVISION_` before it. -/
inductive Code
  | sourceRefused
  | unpinned
  | lockUnsupported
  | noLock
  | buildRequired
deriving DecidableEq, Repr

structure ProvisionRefused where
  code : Code
  message : Text
deriving DecidableEq, Repr

structure PyPin where
  name : Text
  version : Text
  hashes : List Text
  /-- Nothing, or `; ` and a marker. -/
  marker : Text
  source : Text
deriving DecidableEq, Repr

/-- `re.sub(r"[-_.]+", "-", name).lower()` -/
def normName (lower : Text → Text) (name : Text) : Text :=
  lower (Slugs.collapse (fun c => c ≠ '-' ∧ c ≠ '_' ∧ c ≠ '.') '-' false name)

def isAlnum (c : Char) : Bool := c.isAlphanum

/-- `[A-Za-z0-9][A-Za-z0-9.+!_-]*` -/
def isVersion : Text → Bool
  | [] => false
  | c :: cs => isAlnum c && cs.all fun d => isAlnum d || ['.', '+', '!', '_', '-'].contains d

def isHex (c : Char) : Bool := c.isDigit || ('a' ≤ c && c ≤ 'f') || ('A' ≤ c && c ≤ 'F')

end Pins

section Markers

def parens (m : Text) : Text := '(' :: m ++ [')']

/-- Each part in parentheses, with the word between them. -/
def joined (word : Text) (ms : List Text) : Text := word.intercalate (ms.map parens)

def orWord : Text := " or ".toList

def andWord : Text := " and ".toList

/-- How an installer reads markers where it runs: which texts are markers, and which of them hold. -/
structure Environment where
  isMarker : Text → Prop
  holds : Text → Prop
  isMarker_strip : ∀ m, isMarker m → isMarker (strip m) ∧ strip m ≠ []
  holds_strip : ∀ m, isMarker m → (holds (strip m) ↔ holds m)
  isMarker_and : ∀ ms, 2 ≤ ms.length → (∀ m ∈ ms, isMarker m) → isMarker (joined andWord ms)
  holds_or : ∀ ms, 2 ≤ ms.length → (∀ m ∈ ms, isMarker m) → (holds (joined orWord ms) ↔ ∃ m ∈ ms, holds m)
  holds_and : ∀ ms, 2 ≤ ms.length → (∀ m ∈ ms, isMarker m) → (holds (joined andWord ms) ↔ ∀ m ∈ ms, holds m)

/-- No marker, or one that holds. -/
def Environment.On (E : Environment) (m : Text) : Prop := m = [] ∨ E.holds m

/-- The marker of a pin holds. -/
def Environment.OnPin (E : Environment) (marker : Text) : Prop :=
  marker = [] ∨ ∃ m, marker = "; ".toList ++ m ∧ E.holds m

/-- What a pin writes for a marker. -/
def pinMarker (m : Text) : Text := if m = [] then [] else "; ".toList ++ m

lemma onPin_pinMarker (E : Environment) (m : Text) : E.OnPin (pinMarker m) ↔ E.On m := by
  rw [Environment.OnPin, Environment.On, pinMarker]
  split_ifs with h
  · simp [h]
  · simp [h]

/-- `_or_markers`: the distinct markers, joined. -/
def orMarkers (markers : List Text) : Text :=
  match ((markers.map strip).filter (· ≠ [])).eraseDups with
  | [] => []
  | [m] => m
  | ms => joined orWord ms

lemma joined_ne_nil {word : Text} {ms : List Text} (h : ms ≠ []) : joined word ms ≠ [] := by
  obtain ⟨m, ms, rfl⟩ := List.exists_cons_of_ne_nil h
  cases ms with
  | nil => simp [joined, parens]
  | cons m' ms => simp [joined, parens, List.intercalate_cons_cons]

/-- The joined markers hold where one of them does. -/
lemma on_orMarkers (E : Environment) {ms : List Text} (hms : ms ≠ []) (h : ∀ m ∈ ms, E.isMarker m) :
    E.On (orMarkers ms) ↔ ∃ m ∈ ms, E.holds m := by
  have hstrip : (ms.map strip).filter (· ≠ []) = ms.map strip := by
    refine List.filter_eq_self.mpr fun t ht => ?_
    obtain ⟨m, hm, rfl⟩ := List.mem_map.mp ht
    simpa using (E.isMarker_strip m (h m hm)).2
  have hmem : ∀ t ∈ (ms.map strip).eraseDups, E.isMarker t ∧ t ≠ [] := by
    intro t ht
    obtain ⟨m, hm, rfl⟩ := List.mem_map.mp (List.mem_eraseDups.mp ht)
    exact E.isMarker_strip m (h m hm)
  have hsome : (∃ t ∈ (ms.map strip).eraseDups, E.holds t) ↔ ∃ m ∈ ms, E.holds m := by
    simp only [List.mem_eraseDups, List.mem_map, exists_exists_and_eq_and]
    exact exists_congr fun m => and_congr_right fun hm => E.holds_strip m (h m hm)
  rw [← hsome, orMarkers, hstrip]
  generalize hts : (ms.map strip).eraseDups = ts at hmem hsome
  match ts with
  | [] =>
    obtain ⟨m, ms, rfl⟩ := List.exists_cons_of_ne_nil hms
    have : strip m ∈ (List.map strip (m :: ms)).eraseDups := by simp
    rw [hts] at this
    cases this
  | [t] => simp [Environment.On, (hmem t (by simp)).2]
  | t :: t' :: ts =>
    rw [← E.holds_or _ (by simp) fun t ht => (hmem t ht).1]
    exact or_iff_right (joined_ne_nil (by simp))

end Markers

end CommitReplay.LockPins
