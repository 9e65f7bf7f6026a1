import Mathlib.Data.List.Basic

/-! Many workers take the items of one order, each from a plan of its own. A plan is admitted when
what is left of it is, item for item, the first of what is left of the order; then the items taken
are always the first of the order, however the workers' steps fall. -/
namespace CommitReplay.SharedOrder

variable {α : Type*} [DecidableEq α]

/-- What is left of a list when some items are taken. -/
def left (taken xs : List α) : List α := xs.filter (· ∉ taken)

lemma left_concat (taken : List α) (c : α) (xs : List α) :
    left (taken ++ [c]) xs = (left taken xs).filter (· ≠ c) := by
  unfold left
  rw [List.filter_filter]
  refine List.filter_congr fun x _ => ?_
  simp [not_or, and_comm]

lemma left_congr {taken taken' : List α} (h : ∀ c, c ∈ taken ↔ c ∈ taken') (xs : List α) :
    left taken xs = left taken' xs :=
  List.filter_congr fun x _ => by simp only [h]

structure Shared (α : Type*) where
  taken : List α
  plans : List (List α)

inductive Step (α : Type*)
  | file (plan : List α)
  | advance (i : ℕ)
  | stop (i : ℕ)

/-- A worker takes the next item of its plan, and passes over one that is taken. -/
def step (order : List α) (s : Shared α) : Step α → Shared α
  | .file plan =>
    if left s.taken plan <+: left s.taken order then { s with plans := s.plans ++ [plan] } else s
  | .advance i =>
    match s.plans[i]? with
    | some (c :: plan) =>
      { taken := if c ∈ s.taken then s.taken else s.taken ++ [c], plans := s.plans.set i plan }
    | _ => s
  | .stop i => { s with plans := s.plans.set i [] }

variable {order : List α} {s : Shared α}

lemma step_advance_taken {i : ℕ} {c : α} {plan : List α} (hi : s.plans[i]? = some (c :: plan))
    (hc : c ∈ s.taken) : step order s (.advance i) = ⟨s.taken, s.plans.set i plan⟩ := by
  simp [step, hi, hc]

lemma step_advance_fresh {i : ℕ} {c : α} {plan : List α} (hi : s.plans[i]? = some (c :: plan))
    (hc : c ∉ s.taken) : step order s (.advance i) = ⟨s.taken ++ [c], s.plans.set i plan⟩ := by
  simp [step, hi, hc]

/-- The items taken are the first of the order, and so is what is left of every plan. -/
structure InStep (order : List α) (s : Shared α) : Prop where
  initial : ∃ n, ∀ c, c ∈ s.taken ↔ c ∈ order.take n
  planned : ∀ plan ∈ s.plans, left s.taken plan <+: left s.taken order

/-- With the first item that is left, the items taken are again the first of the order. -/
lemma initial_concat {taken rest : List α} {c : α} (h : ∃ n, ∀ d, d ∈ taken ↔ d ∈ order.take n)
    (hc : left taken order = c :: rest) : ∃ n, ∀ d, d ∈ taken ++ [c] ↔ d ∈ order.take n := by
  obtain ⟨n, hn⟩ := h
  obtain ⟨before, after, rfl, hbefore, hfresh, -⟩ := List.filter_eq_cons_iff.mp hc
  have hcn : c ∉ taken := by simpa using hfresh
  have hle : n ≤ before.length := by
    by_contra hlt
    refine hcn ((hn c).mpr ?_)
    obtain ⟨k, rfl⟩ : ∃ k, n = before.length + (k + 1) := ⟨n - (before.length + 1), by omega⟩
    rw [List.take_length_add_append]
    simp
  have htake : ∀ d, d ∈ taken ↔ d ∈ before := by
    intro d
    refine ⟨fun hd => ?_, fun hd => by simpa using hbefore d hd⟩
    rw [hn, List.take_append_of_le_length hle] at hd
    exact List.mem_of_mem_take hd
  refine ⟨before.length + 1, fun d => ?_⟩
  rw [List.take_length_add_append]
  simp [htake]

/-- Taking an item keeps what is left of a plan the first of what is left of the order. -/
lemma planned_concat {taken plan : List α} (c : α) (h : left taken plan <+: left taken order) :
    left (taken ++ [c]) plan <+: left (taken ++ [c]) order := by
  rw [left_concat, left_concat]
  exact h.filter _

lemma left_cons_taken {taken : List α} {c : α} (hc : c ∈ taken) (plan : List α) :
    left taken (c :: plan) = left taken plan := by
  simp [left, hc]

lemma left_cons_fresh {taken : List α} {c : α} (hc : c ∉ taken) (plan : List α) :
    left taken (c :: plan) = c :: left taken plan := by
  simp [left, hc]

/-- The item a plan goes on with is the first that is left of the order. -/
lemma left_order_of_fresh {taken plan : List α} {c : α} (hc : c ∉ taken)
    (h : left taken (c :: plan) <+: left taken order) : ∃ rest, left taken order = c :: rest := by
  obtain ⟨rest, hrest⟩ := h
  rw [left_cons_fresh hc, List.cons_append] at hrest
  exact ⟨_, hrest.symm⟩

lemma InStep.stop (h : InStep order s) (i : ℕ) : InStep order (step order s (.stop i)) := by
  refine ⟨h.initial, fun plan hplan => ?_⟩
  rcases List.mem_or_eq_of_mem_set hplan with hplan | rfl
  · exact h.planned plan hplan
  · exact List.nil_prefix

lemma InStep.file (h : InStep order s) (plan : List α) :
    InStep order (step order s (.file plan)) := by
  simp only [step]
  split_ifs with hplan
  · refine ⟨h.initial, fun q hq => ?_⟩
    rcases List.mem_append.mp hq with hq | hq
    · exact h.planned q hq
    · exact List.mem_singleton.mp hq ▸ hplan
  · exact h

lemma InStep.advance (h : InStep order s) (i : ℕ) :
    InStep order (step order s (.advance i)) := by
  match hi : s.plans[i]? with
  | none => simpa [step, hi] using h
  | some [] => simpa [step, hi] using h
  | some (c :: plan) =>
    have hplan := h.planned _ (List.mem_of_getElem? hi)
    by_cases hc : c ∈ s.taken
    · rw [step_advance_taken hi hc]
      refine ⟨h.initial, fun q hq => ?_⟩
      rcases List.mem_or_eq_of_mem_set hq with hq | rfl
      · exact h.planned q hq
      · rwa [left_cons_taken hc] at hplan
    · rw [step_advance_fresh hi hc]
      obtain ⟨rest, hrest⟩ := left_order_of_fresh hc hplan
      refine ⟨initial_concat h.initial hrest, fun q hq => ?_⟩
      rcases List.mem_or_eq_of_mem_set hq with hq | rfl
      · exact planned_concat c (h.planned q hq)
      · have hnext := planned_concat c hplan
        rwa [left_cons_taken (by simp)] at hnext

/-- What a step of any worker preserves. -/
theorem InStep.step (h : InStep order s) (a : Step α) : InStep order (step order s a) := by
  cases a with
  | file plan => exact h.file plan
  | advance i => exact h.advance i
  | stop i => exact h.stop i

end CommitReplay.SharedOrder
