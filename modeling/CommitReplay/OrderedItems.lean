import Mathlib.Data.List.Nodup

/-! A dictionary that keeps the order its keys came in, as the list of its items. -/
namespace CommitReplay.OrderedItems

variable {α β : Type*} {k : α} {v : β} {ps : List (α × β)}

/-- No key has two items. -/
def Keyed (ps : List (α × β)) : Prop := (ps.map Prod.fst).Nodup

lemma keyed_nil : Keyed ([] : List (α × β)) := List.nodup_nil

lemma keyed_cons {p : α × β} : Keyed (p :: ps) ↔ p.1 ∉ ps.map Prod.fst ∧ Keyed ps := List.nodup_cons

variable [DecidableEq α]

/-- `d[key] = value`: in the key's place, or at the end. -/
def setItem (k : α) (v : β) : List (α × β) → List (α × β)
  | [] => [(k, v)]
  | p :: ps => if p.1 = k then (k, v) :: ps else p :: setItem k v ps

lemma mem_keys_setItem {j : α} (h : j ∈ (setItem k v ps).map Prod.fst) : j = k ∨ j ∈ ps.map Prod.fst := by
  induction ps with
  | nil => exact .inl (List.mem_singleton.mp h)
  | cons p ps ih =>
    rw [setItem] at h
    split_ifs at h with hp
    · exact (List.mem_cons.mp h).imp_right (List.mem_cons_of_mem _)
    · rcases List.mem_cons.mp h with rfl | h
      · exact .inr List.mem_cons_self
      · exact (ih h).imp_right (List.mem_cons_of_mem _)

lemma Keyed.setItem (h : Keyed ps) : Keyed (setItem k v ps) := by
  induction ps with
  | nil => exact List.nodup_singleton k
  | cons p ps ih =>
    rw [keyed_cons] at h
    rw [OrderedItems.setItem]
    split_ifs with hp
    · exact keyed_cons.mpr ⟨hp ▸ h.1, h.2⟩
    · exact keyed_cons.mpr ⟨fun hk => (mem_keys_setItem hk).elim hp h.1, ih h.2⟩

/-- The item that was set, and those of the other keys as they were. -/
lemma mem_setItem {p : α × β} (h : Keyed ps) :
    p ∈ setItem k v ps ↔ p = (k, v) ∨ (p ∈ ps ∧ p.1 ≠ k) := by
  induction ps with
  | nil => simp [setItem]
  | cons q ps ih =>
    rw [keyed_cons] at h
    rw [setItem]
    split_ifs with hq
    · subst hq
      have hno : ∀ p ∈ ps, p.1 ≠ q.1 := fun p hp he => h.1 (he ▸ List.mem_map_of_mem hp)
      simp only [List.mem_cons]
      constructor
      · rintro (hp | hp)
        · exact .inl hp
        · exact .inr ⟨.inr hp, hno p hp⟩
      · rintro (hp | ⟨rfl | hp, hne⟩)
        · exact .inl hp
        · exact absurd rfl hne
        · exact .inr hp
    · rw [List.mem_cons, ih h.2, List.mem_cons]
      constructor
      · rintro (rfl | hp | ⟨hp, hne⟩)
        · exact .inr ⟨.inl rfl, hq⟩
        · exact .inl hp
        · exact .inr ⟨.inr hp, hne⟩
      · rintro (hp | ⟨hp | hp, hne⟩)
        · exact .inr (.inl hp)
        · exact .inl hp
        · exact .inr (.inr ⟨hp, hne⟩)

lemma mem_of_lookup (h : ps.lookup k = some v) : (k, v) ∈ ps := by
  induction ps with
  | nil => cases h
  | cons q ps ih =>
    rw [List.lookup_cons] at h
    split at h
    · rename_i he
      obtain rfl := Option.some.inj h
      rw [beq_iff_eq.mp he]
      exact List.mem_cons_self
    · exact List.mem_cons_of_mem _ (ih h)

lemma lookup_eq_some_iff (h : Keyed ps) : ps.lookup k = some v ↔ (k, v) ∈ ps := by
  induction ps with
  | nil => simp
  | cons q ps ih =>
    obtain ⟨j, w⟩ := q
    rw [keyed_cons] at h
    by_cases hj : k = j
    · subst hj
      have hno : (k, v) ∉ ps := fun hv => h.1 (List.mem_map.mpr ⟨_, hv, rfl⟩)
      simp [hno, eq_comm]
    · simp [List.lookup_cons, beq_eq_false_iff_ne.mpr hj, hj, ih h.2]

end CommitReplay.OrderedItems
