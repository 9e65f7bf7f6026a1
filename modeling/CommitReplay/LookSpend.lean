import CommitReplay.BinomialTails
import CommitReplay.LookRule

/-! The published operating characteristic of a look rule is the chance that its walk delivers: the programme
over the misses so far and the walk over the outcomes decide the same outcome vectors. -/
namespace CommitReplay.LookSpend

open CommitReplay.BinomialTails CommitReplay.LookRule

variable {looks : Looks} {p : ℚ}

section Vectors

/-- The rule reads `deliver` on these outcomes, none of them pending. -/
def delivers (rule : String) (openPool : Bool) (o : List Bool) : Bool :=
  match lookState (o.map some) rule openPool with
  | .ok look => look.state = .deliver
  | .error _ => false

/-- The walk delivers, behind `k` commits with so many misses. -/
def reaches (looks : Looks) (k misses : ℕ) : List Bool → Bool
  | [] => false
  | o :: os =>
    let misses := if o then misses else misses + 1
    if lastAllowance looks < misses then false
    else if (looks.lookup (k + 1)).any (misses ≤ ·) then true
    else reaches looks (k + 1) misses os

lemma walk_of_reaches (os : List Bool) (k clean misses : ℕ) :
    (∃ k' c' m', walk looks k clean misses (os.map some) = .decided .deliver k' c' m') ↔
      reaches looks k misses os = true := by
  induction os generalizing k clean misses with
  | nil => simp [walk, reaches]
  | cons o os ih =>
    simp only [List.map_cons, walk, reaches]
    generalize (if o then misses else misses + 1) = m
    generalize (if o then clean + 1 else clean) = c
    split_ifs
    · simp
    · simp
    · exact ih (k + 1) c m

/-- The rule delivers where its walk from the start does. -/
lemma delivers_eq {rule : String} (h : ruleLooks rule = .ok looks) (openPool : Bool) (o : List Bool) :
    delivers rule openPool o = reaches looks 0 0 o := by
  rw [Bool.eq_iff_iff, ← walk_of_reaches o 0 0 0, delivers]
  obtain ⟨hdecided, hopen⟩ := lookState_eq h (o.map some) openPool
  obtain ⟨look, hlook⟩ := lookState_isOk (o.map some) openPool h
  rw [hlook]
  cases hw : walk looks 0 0 0 (o.map some) with
  | decided state k c m =>
    obtain rfl := Except.ok.inj (hlook.symm.trans (hdecided hw))
    simp
  | open_ k c m =>
    obtain hs | hs := hopen hw look hlook <;> simp [hs]

end Vectors

section Mass

/-- The chance to deliver in `n` more commits, behind `k` with so many misses. -/
def mass (looks : Looks) (p : ℚ) (n k misses : ℕ) : ℚ :=
  ∑ o : Fin n → Bool, if reaches looks k misses (List.ofFn o) then weight p (List.ofFn o) else 0

/-- The same as the `k`-th commit is read, which may end the path. -/
def massAt (looks : Looks) (p : ℚ) (n k misses : ℕ) : ℚ :=
  if lastAllowance looks < misses then 0
  else if (looks.lookup k).any (misses ≤ ·) then 1
  else mass looks p n k misses

lemma mass_zero (k misses : ℕ) : mass looks p 0 k misses = 0 := by simp [mass, reaches]

/-- What one outcome leaves of the chance. -/
lemma sum_outcome (o : Bool) (n k misses : ℕ) :
    ∑ os : Fin n → Bool, (if reaches looks k misses (o :: List.ofFn os) then weight p (o :: List.ofFn os)
      else 0) = (if o then p else 1 - p) * massAt looks p n (k + 1) (if o then misses else misses + 1) := by
  simp only [weight_cons, reaches, massAt]
  generalize (if o then misses else misses + 1) = m
  generalize (if o then p else 1 - p) = q
  by_cases hlast : lastAllowance looks < m
  · simp [hlast]
  by_cases hlook : (looks.lookup (k + 1)).any (m ≤ ·) = true
  · simp only [hlast, hlook, if_true, if_false]
    rw [← Finset.mul_sum, sum_weight]
  · simp only [hlast, hlook, if_false, mass, Finset.mul_sum, mul_ite, mul_zero, Bool.false_eq_true]

lemma mass_succ (n k misses : ℕ) : mass looks p (n + 1) k misses =
    p * massAt looks p n (k + 1) misses + (1 - p) * massAt looks p n (k + 1) (misses + 1) := by
  rw [mass, sum_cons fun o => if reaches looks k misses o then weight p o else 0]
  rw [sum_outcome true, sum_outcome false]
  simp

end Mass

section Programme

/-- What the paths of the draws deliver in `n` more commits. -/
def value (looks : Looks) (p : ℚ) (n k : ℕ) (d : Draws) : ℚ :=
  d.delivered + (d.states.map fun s => s.2 * mass looks p n k s.1).sum

lemma sum_addTo (g : ℕ → ℚ) (m : ℕ) (x : ℚ) (states : List (ℕ × ℚ)) :
    ((addTo m x states).map fun s => s.2 * g s.1).sum = x * g m + (states.map fun s => s.2 * g s.1).sum := by
  induction states with
  | nil => simp [addTo]
  | cons s states ih =>
    obtain ⟨j, y⟩ := s
    rw [addTo]
    split_ifs with h
    · subst h
      simp only [List.map_cons, List.sum_cons]
      ring
    · simp only [List.map_cons, List.sum_cons, ih]
      ring

lemma value_add (n k misses : ℕ) (x : ℚ) (d : Draws) :
    value looks p n k (d.add looks k misses x) = value looks p n k d + x * massAt looks p n k misses := by
  unfold Draws.add massAt value
  split_ifs
  · simp
  · ring
  · rw [sum_addTo (mass looks p n k)]
    ring

/-- One draw moves no chance. -/
lemma value_draw (n k : ℕ) (d : Draws) :
    value looks p n (k + 1) (d.draw looks p (k + 1)) = value looks p (n + 1) k d := by
  have hfold : ∀ (states : List (ℕ × ℚ)) (e : Draws),
      value looks p n (k + 1) (states.foldl (fun e s =>
        (e.add looks (k + 1) s.1 (s.2 * p)).add looks (k + 1) (s.1 + 1) (s.2 * (1 - p))) e) =
        value looks p n (k + 1) e + (states.map fun s => s.2 * mass looks p (n + 1) k s.1).sum := by
    intro states
    induction states with
    | nil => intro e; simp
    | cons s states ih =>
      intro e
      rw [List.foldl_cons, ih, value_add, value_add, List.map_cons, List.sum_cons, mass_succ]
      ring
  rw [Draws.draw, hfold, value, value]
  simp

lemma value_draws (n k : ℕ) (d : Draws) :
    ((List.range' (k + 1) n).foldl (Draws.draw looks p) d).delivered = value looks p n k d := by
  induction n generalizing k d with
  | zero => simp [value, mass_zero]
  | succ n ih => rw [List.range'_succ, List.foldl_cons, ih, value_draw]

end Programme

/-- For every rule, chance and pool the programme's probability is the chance of the outcome vectors on which
the rule reads `deliver`. -/
theorem pDeliver_eq_sum {rule : String} (h : rule ∈ rules.map Prod.fst) (p : ℚ) (pool : ℕ)
    (openPool : Bool) :
    pDeliver rule p (some pool) =
      .ok (∑ o : Fin pool → Bool with delivers rule openPool (List.ofFn o) = true,
        p ^ (List.ofFn o).count true * (1 - p) ^ (List.ofFn o).count false) := by
  obtain ⟨looks, hlooks⟩ := exists_ruleLooks h
  have hvalue := @value_draws looks p pool 0 ⟨[(0, 1)], 0⟩
  simp only [pDeliver, hlooks, bind, Except.bind, pure, Except.pure, Option.getD_some]
  rw [hvalue, Finset.sum_filter]
  simp [value, mass, weight, delivers_eq hlooks]

/-- A pool of twenty, on the rule's first look. -/
theorem pDeliver_eq_sum_twenty : pDeliver "look.v1" (4 / 5) (some 20) =
    .ok (∑ o : Fin 20 → Bool with delivers "look.v1" false (List.ofFn o) = true,
      (4 / 5) ^ (List.ofFn o).count true * (1 - 4 / 5) ^ (List.ofFn o).count false) :=
  pDeliver_eq_sum (by decide) (4 / 5) 20 false

end CommitReplay.LookSpend
