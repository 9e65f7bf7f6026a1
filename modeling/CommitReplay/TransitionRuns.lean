import Mathlib.Data.List.Basic
import Mathlib.Order.Defs.Unbundled

/-! Runs of a system that takes one labelled step after another. A condition may be put on every
step of a run; what one such step preserves, the whole run preserves. -/
namespace CommitReplay.TransitionRuns

variable {σ α : Type*} (step : σ → α → σ)

/-- The state a run ends in. -/
def runFrom (s : σ) (labels : List α) : σ := labels.foldl step s

@[simp] lemma runFrom_nil (s : σ) : runFrom step s [] = s := rfl

@[simp] lemma runFrom_cons (s : σ) (a : α) (labels : List α) :
    runFrom step s (a :: labels) = runFrom step (step s a) labels := rfl

lemma runFrom_append (s : σ) (l₁ l₂ : List α) :
    runFrom step s (l₁ ++ l₂) = runFrom step (runFrom step s l₁) l₂ :=
  List.foldl_append

/-- Every step of the run is taken in a state where it meets the condition. -/
def Along (P : σ → α → Prop) : σ → List α → Prop
  | _, [] => True
  | s, a :: labels => P s a ∧ Along P (step s a) labels

variable {step} {P Q : σ → α → Prop} {I : σ → Prop}

lemma along_append {s : σ} {l₁ l₂ : List α} :
    Along step P s (l₁ ++ l₂) ↔ Along step P s l₁ ∧ Along step P (runFrom step s l₁) l₂ := by
  induction l₁ generalizing s with
  | nil => simp [Along]
  | cons a l₁ ih => simp [Along, ih, and_assoc]

lemma along_of_forall {s : σ} {labels : List α} (h : ∀ s, ∀ a ∈ labels, P s a) :
    Along step P s labels := by
  induction labels generalizing s with
  | nil => trivial
  | cons a labels ih => exact ⟨h s a (by simp), ih fun s b hb => h s b (by simp [hb])⟩

lemma Along.and {s : σ} {labels : List α} (h : Along step P s labels)
    (h' : Along step Q s labels) : Along step (fun s a => P s a ∧ Q s a) s labels := by
  induction labels generalizing s with
  | nil => trivial
  | cons a labels ih => exact ⟨⟨h.1, h'.1⟩, ih h.2 h'.2⟩

/-- An invariant of the steps holds at the end of the run. -/
theorem Along.preserves (hstep : ∀ s a, I s → P s a → I (step s a)) {s : σ} {labels : List α}
    (h : Along step P s labels) (hs : I s) : I (runFrom step s labels) := by
  induction labels generalizing s with
  | nil => exact hs
  | cons a labels ih => exact ih h.2 (hstep s a hs h.1)

/-- What each step has where the invariant holds, each step of the run has. -/
theorem Along.strengthen (hstep : ∀ s a, I s → P s a → I (step s a))
    (hQ : ∀ s a, I s → P s a → Q s a) {s : σ} {labels : List α}
    (h : Along step P s labels) (hs : I s) : Along step Q s labels := by
  induction labels generalizing s with
  | nil => trivial
  | cons a labels ih => exact ⟨hQ s a hs h.1, ih h.2 (hstep s a hs h.1)⟩

/-- A relation that each step keeps between the state before and the state after, the run keeps
between its ends. -/
theorem Along.relates {R : σ → σ → Prop} (hrefl : ∀ s, R s s)
    (htrans : ∀ s t u, R s t → R t u → R s u) (hinv : ∀ s a, I s → P s a → I (step s a))
    (hstep : ∀ s a, I s → P s a → R s (step s a)) {s : σ} {labels : List α}
    (h : Along step P s labels) (hs : I s) : R s (runFrom step s labels) := by
  induction labels generalizing s with
  | nil => exact hrefl s
  | cons a labels ih =>
    exact htrans _ _ _ (hstep s a hs h.1) (ih h.2 (hinv s a hs h.1))

end CommitReplay.TransitionRuns
