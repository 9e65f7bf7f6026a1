import CommitReplay.LookRule

/-! What a look says of the outcomes to come: a decision is final, a closed pool too small for its next look
never delivers, and a look that is awaited waits for exactly its pending commits. -/
namespace CommitReplay.LookFinality

open CommitReplay.LookRule

variable {looks : Looks} {rule : String} {openPool : Bool} {look : LookState}
  {outcomes outcomes' : List (Option Bool)}

section Open

/-- A walk that stopped before a pending commit read what stands before it. -/
lemma walk_open_counts {k clean misses k' c' m' : ℕ}
    (h : walk looks k clean misses outcomes = .open_ k' c' m') :
    ∃ j ≤ outcomes.length, k' = k + j ∧ none ∉ outcomes.take j ∧
      m' = misses + (outcomes.take j).count (some false) := by
  induction outcomes generalizing k clean misses with
  | nil =>
    cases h
    exact ⟨0, le_rfl, rfl, by simp, by simp⟩
  | cons o outcomes ih =>
    cases o with
    | none =>
      cases h
      exact ⟨0, Nat.zero_le _, rfl, by simp, by simp⟩
    | some b =>
      simp only [walk] at h
      split_ifs at h
      all_goals
        obtain ⟨j, hj, hk, hnone, hm⟩ := ih h
        refine ⟨j + 1, by simpa using hj, by omega, by simpa using hnone, ?_⟩
        rw [hm]
      · subst_vars
        simp
      · cases b
        · simp
          omega
        · exact absurd rfl ‹_›

lemma state_of_walk_decided {k clean misses k' c' m' : ℕ} {state : ArmState}
    (h : walk looks k clean misses outcomes = .decided state k' c' m') :
    state = .deliver ∨ state = .insufficient := by
  induction outcomes generalizing k clean misses with
  | nil => cases h
  | cons o outcomes ih =>
    cases o with
    | none => cases h
    | some b =>
      simp only [walk] at h
      split_ifs at h
      all_goals first
        | exact ih h
        | (cases h; first | exact .inl rfl | exact .inr rfl)

/-- The look an open walk waits for, and what it says of it. -/
lemma lookState_open {k c m : ℕ} (hr : ruleLooks rule = .ok looks)
    (hw : walk looks 0 0 0 outcomes = .open_ k c m) (h : lookState outcomes rule openPool = .ok look) :
    ∃ next allowed, (looks.find? fun l => k < l.1 && m ≤ l.2) = some (next, allowed) ∧
      look.nextLook = some next ∧ look.decidedAt = none ∧
      ((look.state = .undecided ∧ openPool = false ∧ outcomes.length < next) ∨
        (look.state = .lookPending ∧ (openPool = false → next ≤ outcomes.length) ∧
          look.needed = (outcomes.take next).count none + (next - outcomes.length))) := by
  simp only [lookState, hr, hw, bind, Except.bind] at h
  split at h
  · cases h
  · rename_i next allowed hfind
    refine ⟨next, allowed, hfind, ?_⟩
    cases openPool with
    | true =>
      obtain rfl := Except.ok.inj h
      exact ⟨rfl, rfl, .inr ⟨rfl, fun hopen => (by cases hopen), rfl⟩⟩
    | false =>
      simp only [Bool.false_eq_true, if_false] at h
      split_ifs at h with hlt
      · obtain rfl := Except.ok.inj h
        exact ⟨rfl, rfl, .inl ⟨rfl, rfl, hlt⟩⟩
      · obtain rfl := Except.ok.inj h
        refine ⟨rfl, rfl, .inr ⟨rfl, fun _ => not_lt.mp hlt, ?_⟩⟩
        rw [Nat.sub_eq_zero_of_le (not_lt.mp hlt), Nat.add_zero]

end Open

section Pending

/-- How many of the first `k` entries are pending, those not yet present among them. -/
def pendingAmong (outcomes : List (Option Bool)) (k : ℕ) : ℕ :=
  (List.range k).countP fun i => (outcomes[i]?).join = none

lemma pendingAmong_eq (outcomes : List (Option Bool)) (k : ℕ) :
    pendingAmong outcomes k = (outcomes.take k).count none + (k - outcomes.length) := by
  unfold pendingAmong
  induction k with
  | zero => simp
  | succ k ih =>
    rw [List.range_succ, List.countP_append, ih, List.take_add_one, List.count_append]
    cases h : outcomes[k]? with
    | none =>
      have := List.getElem?_eq_none_iff.mp h
      simp [h]
      omega
    | some o =>
      obtain ⟨hlt, -⟩ := List.getElem?_eq_some_iff.mp h
      cases o <;> simp [h] <;> omega

/-- A look decides on commits that are all present and observed. -/
lemma observed_of_decided {d : ℕ} (h : lookState outcomes rule openPool = .ok look)
    (hd : look.decidedAt = some d) {i : ℕ} (hi : i < d) : (outcomes[i]?).join ≠ none := by
  cases hr : ruleLooks rule with
  | error e => simp [lookState, hr, bind, Except.bind] at h
  | ok looks =>
    cases hw : walk looks 0 0 0 outcomes with
    | open_ k c m =>
      obtain ⟨_, _, -, -, hnone, -⟩ := lookState_open hr hw h
      rw [hd] at hnone
      cases hnone
    | decided state k c m =>
      obtain rfl := Except.ok.inj (h.symm.trans ((lookState_eq hr outcomes openPool).1 hw))
      obtain ⟨j, hj, hk, hnone, -⟩ := walk_decided hw
      obtain rfl : d = j := by
        have := Option.some.inj hd
        omega
      have hlt : i < outcomes.length := by omega
      rw [List.getElem?_eq_getElem hlt, Option.join_some]
      intro heq
      exact hnone (heq ▸ List.mem_take_iff_getElem.mpr ⟨i, by omega, rfl⟩)

end Pending

section Filling

/-- A pending outcome may be filled, or stay pending. -/
def Fills (o o' : Option Bool) : Prop := o = none ∨ o' = o

lemma take_eq_of_fills (h : List.Forall₂ Fills outcomes outcomes') {j : ℕ} (hnone : none ∉ outcomes.take j) :
    outcomes'.take j = outcomes.take j := by
  induction h generalizing j with
  | nil => rfl
  | @cons o o' xs ys ho _ ih =>
    cases j with
    | zero => rfl
    | succ j =>
      simp only [List.take_succ_cons, List.mem_cons, not_or] at hnone
      rw [List.take_succ_cons, List.take_succ_cons, ho.resolve_left (Ne.symm hnone.1), ih hnone.2]

lemma count_le_of_fills (h : List.Forall₂ Fills outcomes outcomes') (j : ℕ) :
    (outcomes.take j).count (some false) ≤ (outcomes'.take j).count (some false) := by
  induction h generalizing j with
  | nil => exact le_rfl
  | @cons o o' xs ys ho _ ih =>
    cases j with
    | zero => exact le_rfl
    | succ j =>
      simp only [List.take_succ_cons, List.count_cons]
      have := ih j
      obtain rfl | rfl := ho
      · simp
        omega
      · omega

/-- Of looks in order of size the first that fits is the smallest. -/
lemma find?_le {q : ℕ × ℕ → Bool} (hs : looks.Pairwise fun x y => x.1 < y.1) {x y : ℕ × ℕ}
    (hx : looks.find? q = some x) (hy : y ∈ looks) (hq : q y = true) : x.1 ≤ y.1 := by
  induction hs with
  | nil => cases hy
  | @cons z l hz _ ih =>
    rw [List.find?_cons] at hx
    split at hx
    · obtain rfl := Option.some.inj hx
      obtain rfl | hy := List.mem_cons.mp hy
      · exact le_rfl
      · exact (hz y hy).le
    · rename_i hnot
      obtain rfl | hy := List.mem_cons.mp hy
      · rw [hq] at hnot
        cases hnot
      · exact ih hx hy

lemma pairwise_of_ruleLooks (h : ruleLooks rule = .ok looks) : looks.Pairwise fun x y => x.1 < y.1 := by
  have hmem := ruleLooks_eq_ok h
  simp only [rules, List.mem_cons, Prod.mk.injEq, List.not_mem_nil, or_false] at hmem
  obtain ⟨-, rfl⟩ | ⟨-, rfl⟩ | ⟨-, rfl⟩ := hmem <;> decide

/-- A pool too small for the next look delivers on no filling of its pending commits. -/
lemma not_deliver_of_undecided (h : lookState outcomes rule openPool = .ok look)
    (hs : look.state = .undecided) (hf : List.Forall₂ Fills outcomes outcomes') {look' : LookState}
    (h' : lookState outcomes' rule openPool = .ok look') : look'.state ≠ .deliver := by
  intro hd
  obtain ⟨looks, allowed, hr, hlook, hlen, hnone', hcount⟩ := lookState_deliver h' hd
  have hdecided : look'.state ≠ .lookPending ∧ look'.state ≠ .undecided := by
    rw [hd]
    exact ⟨nofun, nofun⟩
  cases hw : walk looks 0 0 0 outcomes with
  | decided state k c m =>
    obtain rfl := Except.ok.inj (h.symm.trans ((lookState_eq hr outcomes openPool).1 hw))
    obtain rfl | rfl := state_of_walk_decided hw <;> cases hs
  | open_ k c m =>
    obtain ⟨j, hj, hk, hnone, hm⟩ := walk_open_counts hw
    obtain ⟨next, a, hfind, -, -, ⟨-, -, hshort⟩ | ⟨hp, -, -⟩⟩ := lookState_open hr hw h
    swap
    · rw [hs] at hp
      cases hp
    by_cases hle : look'.counted ≤ j
    · -- the decision would stand on what was read already
      have hsub : (outcomes.take look'.counted).Sublist (outcomes.take j) := List.take_sublist_take_left hle
      have htake := take_eq_of_fills hf fun hmem => hnone (hsub.subset hmem)
      have hsame := (lookState_of_take h' hdecided htake.symm).1
      rw [hsame] at h
      rw [Except.ok.inj h, hs] at hd
      cases hd
    · have hsub : (outcomes'.take j).Sublist (outcomes'.take look'.counted) :=
        List.take_sublist_take_left (by omega)
      have hmiss : m ≤ allowed := by
        have := count_le_of_fills hf j
        have := hsub.count_le (some false)
        omega
      obtain ⟨l₁, l₂, hl, -⟩ := List.lookup_eq_some_iff.mp hlook
      have hmem : (look'.counted, allowed) ∈ looks := hl ▸ List.mem_append_right _ List.mem_cons_self
      have hnext := find?_le (pairwise_of_ruleLooks hr) hfind hmem (by simp; omega)
      have hlength := hf.length_eq
      simp only at hnext
      omega

end Filling

/-- Under every rule a look has a state whatever the outcomes. A decision stands whatever comes behind the
commits it read; an undecided pool delivers on no filling of its pending commits; and a pending look waits
for exactly the pending ones among its first commits, without each of which no list decides there or later. -/
theorem lookState_final (h : rule ∈ rules.map Prod.fst) (outcomes : List (Option Bool)) (openPool : Bool) :
    ∃ look, lookState outcomes rule openPool = .ok look ∧
      (look.state = .deliver ∨ look.state = .insufficient →
        none ∉ outcomes.take look.counted ∧ ∀ outcomes' : List (Option Bool),
          outcomes'.take look.counted = outcomes.take look.counted →
            lookState outcomes' rule openPool = .ok look) ∧
      (look.state = .undecided → openPool = false ∧ ∀ outcomes' look', List.Forall₂ Fills outcomes outcomes' →
        lookState outcomes' rule openPool = .ok look' → look'.state ≠ .deliver) ∧
      (look.state = .lookPending → ∃ k, look.nextLook = some k ∧ look.needed = pendingAmong outcomes k ∧
        (openPool = false → k ≤ outcomes.length) ∧
        ∀ outcomes' look' d, lookState outcomes' rule openPool = .ok look' → look'.decidedAt = some d → k ≤ d →
          ∀ i < k, (outcomes'[i]?).join ≠ none) := by
  obtain ⟨looks, hr⟩ := exists_ruleLooks h
  obtain ⟨look, hlook⟩ := lookState_isOk outcomes openPool hr
  refine ⟨look, hlook, fun hs => ?_, fun hs => ⟨?_, fun outcomes' look' hf h' => ?_⟩, fun hs => ?_⟩
  · have hne : look.state ≠ .lookPending ∧ look.state ≠ .undecided := by
      obtain hs | hs := hs <;> rw [hs] <;> exact ⟨nofun, nofun⟩
    exact ⟨(lookState_of_take hlook hne rfl).2.1, fun _ htake => (lookState_of_take hlook hne htake).1⟩
  · cases hw : walk looks 0 0 0 outcomes with
    | decided state k c m =>
      obtain rfl := Except.ok.inj (hlook.symm.trans ((lookState_eq hr outcomes openPool).1 hw))
      obtain rfl | rfl := state_of_walk_decided hw <;> cases hs
    | open_ k c m =>
      obtain ⟨_, _, -, -, -, ⟨-, hpool, -⟩ | ⟨hp, -⟩⟩ := lookState_open hr hw hlook
      · exact hpool
      · rw [hs] at hp
        cases hp
  · exact not_deliver_of_undecided hlook hs hf h'
  · cases hw : walk looks 0 0 0 outcomes with
    | decided state k c m =>
      obtain rfl := Except.ok.inj (hlook.symm.trans ((lookState_eq hr outcomes openPool).1 hw))
      obtain rfl | rfl := state_of_walk_decided hw <;> cases hs
    | open_ k c m =>
      obtain ⟨next, _, -, hnext, -, ⟨hu, -⟩ | ⟨-, hpool, hneeded⟩⟩ := lookState_open hr hw hlook
      · rw [hs] at hu
        cases hu
      · refine ⟨next, hnext, hneeded.trans (pendingAmong_eq _ _).symm, hpool, ?_⟩
        exact fun outcomes' look' d h' hd hle i hi => observed_of_decided h' hd (by omega)

/-- Nineteen hits and a pending commit, on the first rule. -/
theorem lookState_final_nineteen :
    ∃ look, lookState (List.replicate 19 (some true) ++ [none]) "look.v1" false = .ok look ∧
      (look.state = .lookPending → ∃ k, look.nextLook = some k ∧
        look.needed = pendingAmong (List.replicate 19 (some true) ++ [none]) k) := by
  obtain ⟨look, hlook, -, -, hpending⟩ :=
    @lookState_final "look.v1" (by decide) (List.replicate 19 (some true) ++ [none]) false
  exact ⟨look, hlook, fun hs => (hpending hs).imp fun k hk => ⟨hk.1, hk.2.1⟩⟩

end CommitReplay.LookFinality
