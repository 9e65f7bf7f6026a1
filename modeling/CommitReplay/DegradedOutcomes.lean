import CommitReplay.LookRule

/-! Outcomes of an arm against the better ones they came from: what delivers after hits became misses
and misses were put in, delivers before. -/
namespace CommitReplay.DegradedOutcomes

open CommitReplay.LookRule

/-- The second outcomes are the first, where hits may have become misses and misses may stand that the
first do not have. -/
inductive Degraded : List (Option Bool) → List (Option Bool) → Prop
  | nil : Degraded [] []
  | keep (o : Option Bool) {xs ys} : Degraded xs ys → Degraded (o :: xs) (o :: ys)
  | spoil {xs ys} : Degraded xs ys → Degraded (some true :: xs) (some false :: ys)
  | insert {xs ys} : Degraded xs ys → Degraded xs (some false :: ys)

lemma Degraded.refl (xs : List (Option Bool)) : Degraded xs xs := by
  induction xs with
  | nil => exact .nil
  | cons o xs ih => exact .keep o ih

/-- Where the second outcomes are read without a pending commit, the first are read so far as well, short
of the misses put in, with that many fewer misses at least. -/
lemma Degraded.take {xs ys : List (Option Bool)} (h : Degraded xs ys) {n : ℕ} (hn : n ≤ ys.length)
    (hnone : none ∉ ys.take n) :
    ∃ d j, j + d = n ∧ j ≤ xs.length ∧ none ∉ xs.take j ∧
      (xs.take j).count (some false) + d ≤ (ys.take n).count (some false) := by
  induction h generalizing n with
  | nil => exact ⟨0, n, rfl, hn, hnone, le_rfl⟩
  | @keep o xs ys _ ih =>
    cases n with
    | zero => exact ⟨0, 0, rfl, Nat.zero_le _, by simp, by simp⟩
    | succ n =>
      simp only [List.take_succ_cons, List.mem_cons, not_or] at hnone
      obtain ⟨d, j, hj, hle, hx, hcount⟩ := ih (by simpa using hn) hnone.2
      refine ⟨d, j + 1, by omega, by simpa using hle, by simpa using ⟨hnone.1, hx⟩, ?_⟩
      simp only [List.take_succ_cons, List.count_cons]
      omega
  | @spoil xs ys _ ih =>
    cases n with
    | zero => exact ⟨0, 0, rfl, Nat.zero_le _, by simp, by simp⟩
    | succ n =>
      simp only [List.take_succ_cons, List.mem_cons, not_or] at hnone
      obtain ⟨d, j, hj, hle, hx, hcount⟩ := ih (by simpa using hn) hnone.2
      refine ⟨d, j + 1, by omega, by simpa using hle, by simpa using hx, ?_⟩
      simp only [List.take_succ_cons, List.count_cons]
      simp
      omega
  | @insert xs ys _ ih =>
    cases n with
    | zero => exact ⟨0, 0, rfl, Nat.zero_le _, by simp, by simp⟩
    | succ n =>
      simp only [List.take_succ_cons, List.mem_cons, not_or] at hnone
      obtain ⟨d, j, hj, hle, hx, hcount⟩ := ih (by simpa using hn) hnone.2
      refine ⟨d + 1, j, by omega, hle, hx, ?_⟩
      simp only [List.take_succ_cons, List.count_cons]
      simp
      omega

section Looks

variable {looks : Looks}

/-- No look allows more than the last, and without some of its misses and as many commits there is an
earlier look that allows the rest. -/
structure Spaced (looks : Looks) : Prop where
  le_last : ∀ n a, looks.lookup n = some a → a ≤ lastAllowance looks
  earlier : ∀ n a, looks.lookup n = some a → ∀ d ≤ a,
    ∃ n' a', looks.lookup n' = some a' ∧ 0 < n' ∧ n' + d ≤ n ∧ a ≤ a' + d

lemma spaced_of_ruleLooks {rule : String} (h : ruleLooks rule = .ok looks) : Spaced looks := by
  have hmem := ruleLooks_eq_ok h
  have hlookup : ∀ n a, looks.lookup n = some a → (n, a) ∈ looks := fun n a hn => by
    obtain ⟨l₁, l₂, hl, -⟩ := List.lookup_eq_some_iff.mp hn
    exact hl ▸ List.mem_append_right _ List.mem_cons_self
  have hle : ∀ l ∈ looks, l.2 ≤ lastAllowance looks := by
    simp only [rules, List.mem_cons, Prod.mk.injEq, List.not_mem_nil, or_false] at hmem
    obtain ⟨-, rfl⟩ | ⟨-, rfl⟩ | ⟨-, rfl⟩ := hmem <;> decide
  have hearlier : ∀ l ∈ looks, ∀ d ≤ l.2,
      ∃ l' ∈ looks, looks.lookup l'.1 = some l'.2 ∧ 0 < l'.1 ∧ l'.1 + d ≤ l.1 ∧ l.2 ≤ l'.2 + d := by
    simp only [rules, List.mem_cons, Prod.mk.injEq, List.not_mem_nil, or_false] at hmem
    obtain ⟨-, rfl⟩ | ⟨-, rfl⟩ | ⟨-, rfl⟩ := hmem <;> decide
  exact ⟨fun n a hn => hle _ (hlookup n a hn), fun n a hn d hd =>
    (hearlier _ (hlookup n a hn) d hd).imp' Prod.fst fun l hl => ⟨l.2, hl.2⟩⟩

/-- A walk delivers where a look ahead finds no pending commit and no more misses than it allows. -/
lemma walk_deliver_of_look (hle : ∀ n a, looks.lookup n = some a → a ≤ lastAllowance looks)
    {outcomes : List (Option Bool)} {k j clean misses allowed : ℕ}
    (hlook : looks.lookup (k + j) = some allowed) (hpos : 0 < j) (hj : j ≤ outcomes.length)
    (hnone : none ∉ outcomes.take j)
    (hm : misses + (outcomes.take j).count (some false) ≤ allowed) :
    ∃ k' c' m', walk looks k clean misses outcomes = .decided .deliver k' c' m' := by
  induction outcomes generalizing k j clean misses with
  | nil => exact absurd (Nat.le_zero.mp hj) hpos.ne'
  | cons o outcomes ih =>
    obtain ⟨i, rfl⟩ : ∃ i, j = i + 1 := ⟨j - 1, by omega⟩
    simp only [List.take_succ_cons, List.mem_cons, not_or, List.count_cons] at hnone hm
    cases o with
    | none => exact absurd rfl hnone.1
    | some b =>
      have hmiss : (if b then misses else misses + 1) + (outcomes.take i).count (some false) ≤ allowed := by
        cases b <;> simp at hm ⊢ <;> omega
      have hlast := hle _ _ hlook
      simp only [walk]
      generalize (if b then misses else misses + 1) = m at hmiss ⊢
      generalize (if b then clean + 1 else clean) = c
      rw [if_neg (by omega : ¬ lastAllowance looks < m)]
      split_ifs with hany
      · exact ⟨_, _, _, rfl⟩
      · have hi : 0 < i := Nat.pos_of_ne_zero fun hi => by
          subst hi
          exact hany (lookup_any_le.mpr ⟨allowed, hlook, by omega⟩)
        exact ih (by rwa [show k + 1 + i = k + (i + 1) by omega]) hi (by simpa using hj) hnone.2
          hmiss

end Looks

/-- What delivers after it was degraded delivers before. -/
theorem lookState_deliver_of_degraded {xs ys : List (Option Bool)} (h : Degraded xs ys)
    {rule : String} {openPool : Bool} {look' : LookState}
    (hl : lookState ys rule openPool = .ok look') (hd : look'.state = .deliver) :
    ∃ look, lookState xs rule openPool = .ok look ∧ look.state = .deliver := by
  obtain ⟨looks, allowed, hr, hlook, hlen, hnone, hcount⟩ := lookState_deliver hl hd
  have hspaced := spaced_of_ruleLooks hr
  obtain ⟨d, j, hj, hle, hx, hfew⟩ := h.take hlen hnone
  obtain ⟨n, a, hn, hpos, hearly, hallow⟩ := hspaced.earlier _ _ hlook d (by omega)
  -- the look before the misses put in reads a part of the outcomes with no more misses
  have hsub : (xs.take n).Sublist (xs.take j) := List.take_sublist_take_left (by omega)
  obtain ⟨k, c, m, hw⟩ : ∃ k c m, walk looks 0 0 0 xs = .decided .deliver k c m :=
    walk_deliver_of_look hspaced.le_last (by simpa using hn) hpos (by omega)
      (fun hmem => hx (hsub.subset hmem)) (by have := hsub.count_le (some false); omega)
  exact ⟨_, (lookState_eq hr xs openPool).1 hw, rfl⟩

end CommitReplay.DegradedOutcomes
