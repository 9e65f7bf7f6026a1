import Mathlib.Algebra.BigOperators.Group.List.Basic
import Mathlib.Data.List.Dedup

/-! Lists grouped by a key, the keys in order of first appearance as a dictionary keeps them. -/
namespace CommitReplay.KeyedGroups

variable {α β κ : Type*} [DecidableEq κ]

/-- The distinct keys, each where it first appears. -/
def keysOf (key : α → κ) (xs : List α) : List κ := (xs.map key).reverse.dedup.reverse

/-- The items of one key. -/
def group (key : α → κ) (xs : List α) (k : κ) : List α := xs.filter (key · = k)

variable {key : α → κ} {xs : List α}

@[simp] lemma mem_keysOf {k : κ} : k ∈ keysOf key xs ↔ ∃ x ∈ xs, key x = k := by
  simp [keysOf]

lemma nodup_keysOf : (keysOf key xs).Nodup := List.nodup_reverse.mpr (List.nodup_dedup _)

lemma keysOf_concat (x : α) : keysOf key (xs ++ [x]) =
    if key x ∈ keysOf key xs then keysOf key xs else keysOf key xs ++ [key x] := by
  have hmem : key x ∈ keysOf key xs ↔ key x ∈ (xs.map key).reverse := by simp
  rw [if_congr hmem rfl rfl, keysOf, List.map_append, List.map_singleton, List.reverse_append,
    List.reverse_singleton, List.singleton_append, List.dedup_cons]
  split_ifs
  · rfl
  · rw [List.reverse_cons]
    rfl

lemma group_append (xs ys : List α) (k : κ) :
    group key (xs ++ ys) k = group key xs k ++ group key ys k := List.filter_append ..

lemma group_eq_nil {k : κ} (h : k ∉ keysOf key xs) : group key xs k = [] := by
  refine List.filter_eq_nil_iff.mpr fun x hx hk => h ?_
  exact mem_keysOf.mpr ⟨x, hx, of_decide_eq_true hk⟩

/-- The first item of each key. -/
def firsts (key : α → κ) (xs : List α) : List α :=
  (keysOf key xs).filterMap fun k => (group key xs k).head?

/-- An item of a new key comes last. -/
lemma firsts_concat {x : α} (h : key x ∉ keysOf key xs) :
    firsts key (xs ++ [x]) = firsts key xs ++ [x] := by
  have hself : group key [x] (key x) = [x] := by simp [group]
  have hlast : [key x].filterMap (fun k => (group key (xs ++ [x]) k).head?) = [x] := by
    simp [group_append, group_eq_nil h, hself]
  rw [firsts, keysOf_concat, if_neg h, List.filterMap_append, hlast]
  refine congrArg (· ++ [x]) (List.filterMap_congr fun k hk => ?_)
  have hne : key x ≠ k := fun he => h (he ▸ hk)
  have hother : group key [x] k = [] := by simp [group, hne]
  rw [group_append, hother, List.append_nil]

lemma mem_of_mem_firsts {x : α} (h : x ∈ firsts key xs) : x ∈ xs := by
  obtain ⟨k, -, hx⟩ := List.mem_filterMap.mp h
  exact List.mem_of_mem_filter (List.mem_of_mem_head? hx)

/-- An item added to one group leaves the others. -/
lemma flatMap_keysOf_concat {x : α} {f g : κ → List β} (hold : ∀ k, g k = f k)
    (hnew : key x ∉ keysOf key xs → f (key x) = []) :
    (keysOf key (xs ++ [x])).flatMap g = (keysOf key xs).flatMap f := by
  rw [keysOf_concat, funext hold]
  split_ifs with h
  · rfl
  · rw [List.flatMap_append, List.flatMap_singleton, hnew h, List.append_nil]

omit [DecidableEq κ] in
lemma flatMap_sublist {ks : List κ} {f g : κ → List β} (h : ∀ k, (f k).Sublist (g k)) :
    (ks.flatMap f).Sublist (ks.flatMap g) := by
  induction ks with
  | nil => exact .slnil
  | cons k ks ih =>
    rw [List.flatMap_cons, List.flatMap_cons]
    exact (h k).append ih

/-- What a list of groups holds of one key is that key's group. -/
lemma filter_flatMap (out : β → κ) {ks : List κ} {f : κ → List β} (hks : ks.Nodup)
    (hout : ∀ k, ∀ y ∈ f k, out y = k) {k : κ} (hk : k ∉ ks → f k = []) :
    (ks.flatMap f).filter (out · = k) = f k := by
  induction ks with
  | nil => rw [hk (List.not_mem_nil), List.flatMap_nil, List.filter_nil]
  | cons k' ks ih =>
    obtain ⟨hnot, hks⟩ := List.nodup_cons.mp hks
    rw [List.flatMap_cons, List.filter_append]
    by_cases h : k' = k
    · subst h
      have hself : (f k').filter (out · = k') = f k' :=
        List.filter_eq_self.mpr fun y hy => decide_eq_true (hout k' y hy)
      have hrest : (ks.flatMap f).filter (out · = k') = [] := by
        refine List.filter_eq_nil_iff.mpr fun y hy he => hnot ?_
        obtain ⟨j, hj, hy⟩ := List.mem_flatMap.mp hy
        rwa [← of_decide_eq_true he, hout j y hy]
      rw [hself, hrest, List.append_nil]
    · have hnil : (f k').filter (out · = k) = [] :=
        List.filter_eq_nil_iff.mpr fun y hy he => h ((hout k' y hy).symm.trans (of_decide_eq_true he))
      rw [hnil, List.nil_append]
      exact ih hks fun hn => hk (List.not_mem_cons_of_ne_of_not_mem (Ne.symm h) hn)

lemma sum_single {M : Type*} [AddCommMonoid M] (m : M) {ks : List κ} (hks : ks.Nodup) {k : κ}
    (hk : k ∈ ks) : (ks.map fun k' => if k = k' then m else 0).sum = m := by
  induction ks with
  | nil => cases hk
  | cons k' ks ih =>
    obtain ⟨hnot, hks⟩ := List.nodup_cons.mp hks
    rw [List.map_cons, List.sum_cons]
    by_cases h : k = k'
    · have hrest : ∀ j ∈ ks, (if k = j then m else 0) = 0 := by
        rintro j hj
        refine if_neg fun hkj => hnot ?_
        rwa [← h, hkj]
      rw [if_pos h, List.map_congr_left hrest, List.map_const', List.sum_replicate, nsmul_zero,
        add_zero]
    · rw [if_neg h, zero_add, ih hks ((List.mem_cons.mp hk).resolve_left h)]

/-- A sum is the sum over the groups. -/
lemma sum_groups {M : Type*} [AddCommMonoid M] (c : α → M) {ks : List κ} (hks : ks.Nodup)
    (h : ∀ x ∈ xs, key x ∈ ks) :
    (xs.map c).sum = (ks.map fun k => ((group key xs k).map c).sum).sum := by
  induction xs with
  | nil => simp [group]
  | cons x xs ih =>
    obtain ⟨hx, hxs⟩ := List.forall_mem_cons.mp h
    have hsplit : ∀ k, ((group key (x :: xs) k).map c).sum =
        (if key x = k then c x else 0) + ((group key xs k).map c).sum := by
      intro k
      rw [group, List.filter_cons]
      split_ifs <;> simp_all [group]
    rw [List.map_cons, List.sum_cons, ih hxs]
    simp only [hsplit, List.sum_map_add, sum_single (c x) hks hx]

end CommitReplay.KeyedGroups
