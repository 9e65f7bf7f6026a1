import Mathlib.Data.Finset.Card
import Mathlib.Data.List.Basic
import Mathlib.Logic.Relation
import Mathlib.Tactic.Common

/-! Chains of pointers: a dictionary whose values may be keys again, each key followed to the end of its
chain. A chain that runs in a circle has no end. -/
namespace CommitReplay.PointerChains

variable {κ : Type*} [DecidableEq κ]

section Dictionary

variable {β : Type*}

/-- `d[k] = v`: a key keeps its place. -/
def put (k : κ) (v : β) : List (κ × β) → List (κ × β)
  | [] => [(k, v)]
  | p :: ps => if p.1 = k then (k, v) :: ps else p :: put k v ps

def keys (m : List (κ × β)) : List κ := m.map Prod.fst

lemma mem_keys_put {k j : κ} {v : β} {m : List (κ × β)} : j ∈ keys (put k v m) ↔ j = k ∨ j ∈ keys m := by
  induction m with
  | nil => simp [put, keys]
  | cons p ps ih =>
    rw [put]
    split_ifs with hp
    · subst hp
      simp [keys]
    · simp only [keys, List.map_cons, List.mem_cons] at ih ⊢
      rw [ih]
      tauto

lemma nodup_keys_put {k : κ} {v : β} {m : List (κ × β)} (h : (keys m).Nodup) : (keys (put k v m)).Nodup := by
  induction m with
  | nil => simp [put, keys]
  | cons p ps ih =>
    obtain ⟨hp, hps⟩ := List.nodup_cons.mp h
    rw [put]
    split_ifs with hk
    · rw [keys, List.map_cons]
      exact List.nodup_cons.mpr ⟨hk ▸ hp, hps⟩
    · rw [keys, List.map_cons]
      refine List.nodup_cons.mpr ⟨fun hin => ?_, ih hps⟩
      obtain he | hin := mem_keys_put.mp hin
      · exact hk he
      · exact hp hin

variable [BEq κ] [LawfulBEq κ] {k j : κ} {v : β} {m : List (κ × β)}

lemma lookup_cons (p : κ × β) (ps : List (κ × β)) (j : κ) :
    (p :: ps).lookup j = if j = p.1 then some p.2 else ps.lookup j := by
  rw [List.lookup_cons]
  by_cases h : j = p.1
  · simp [h]
  · have hb : (j == p.1) = false := beq_eq_false_iff_ne.mpr h
    simp [h, hb]

lemma lookup_put (k : κ) (v : β) (j : κ) (m : List (κ × β)) :
    (put k v m).lookup j = if j = k then some v else m.lookup j := by
  induction m with
  | nil => rw [put, lookup_cons]
  | cons p ps ih =>
    rw [put]
    split_ifs with hp hj hj
    · rw [lookup_cons, if_pos hj]
    · rw [lookup_cons, if_neg hj, lookup_cons, if_neg (hp ▸ hj)]
    · rw [lookup_cons, if_neg (fun he => hp (he.symm.trans hj)), ih, if_pos hj]
    · rw [lookup_cons, lookup_cons, ih, if_neg hj]

lemma mem_keys_iff : j ∈ keys m ↔ ∃ v, m.lookup j = some v := by
  induction m with
  | nil => simp [keys]
  | cons p ps ih =>
    rw [lookup_cons]
    simp only [keys, List.map_cons, List.mem_cons] at ih ⊢
    by_cases h : j = p.1
    · simp [h]
    · rw [if_neg h, ← ih]
      simp [h]

lemma lookup_of_mem (h : (keys m).Nodup) (hm : (k, v) ∈ m) : m.lookup k = some v := by
  induction m with
  | nil => cases hm
  | cons p ps ih =>
    obtain ⟨hp, hps⟩ := List.nodup_cons.mp h
    rw [lookup_cons]
    obtain rfl | hm := List.mem_cons.mp hm
    · rw [if_pos rfl]
    · rw [if_neg, ih hps hm]
      rintro rfl
      exact hp (List.mem_map.mpr ⟨_, hm, rfl⟩)

lemma mem_of_lookup (h : m.lookup k = some v) : (k, v) ∈ m := by
  induction m with
  | nil => cases h
  | cons p ps ih =>
    rw [lookup_cons] at h
    split_ifs at h with hk
    · obtain rfl := Option.some.inj h
      exact hk ▸ List.mem_cons_self
    · exact List.mem_cons_of_mem p (ih h)

end Dictionary

section Following

/-- The end of the chain from a value: `while v in m: v = m[v]`; `none` when the fuel runs out. -/
def chase (m : List (κ × κ)) : ℕ → κ → Option κ
  | 0, _ => none
  | n + 1, v =>
    match m.lookup v with
    | none => some v
    | some v' => chase m n v'

/-- Each key in turn is given the end of its chain in the dictionary as it then is. -/
def compress (n : ℕ) : List κ → List (κ × κ) → Option (List (κ × κ))
  | [], m => some m
  | k :: ks, m =>
    match chase m n ((m.lookup k).getD k) with
    | none => none
    | some v => compress n ks (put k v m)

end Following

section Chains

/-- One key points to the next. -/
def Points (m : List (κ × κ)) (a b : κ) : Prop := m.lookup a = some b

/-- No chain runs in a circle. -/
def Ends (m : List (κ × κ)) : Prop := ∀ k, ¬ Relation.TransGen (Points m) k k

/-- The dictionary on its way: the same keys, and each value further along the chain of its key. -/
structure Shortcut (m₀ m : List (κ × κ)) : Prop where
  keys : ∀ k, k ∈ keys m ↔ k ∈ keys m₀
  along : ∀ k v, m.lookup k = some v → Relation.TransGen (Points m₀) k v

variable {m₀ m m' : List (κ × κ)} {n : ℕ} {k v t : κ} {ks : List κ}

lemma Shortcut.refl : Shortcut m₀ m₀ := ⟨fun _ => Iff.rfl, fun _ _ h => .single h⟩

lemma Shortcut.put (h : Shortcut m₀ m) (hk : k ∈ PointerChains.keys m₀)
    (hv : Relation.TransGen (Points m₀) k v) : Shortcut m₀ (put k v m) where
  keys j := by
    rw [mem_keys_put, h.keys]
    exact ⟨fun hj => hj.elim (fun he => he ▸ hk) id, .inr⟩
  along j w hw := by
    rw [lookup_put] at hw
    split_ifs at hw with hj
    · obtain rfl := Option.some.inj hw
      exact hj ▸ hv
    · exact h.along j w hw

/-- What following a chain finds is on the chain, and is no key. -/
lemma chase_some (h : Shortcut m₀ m) (hc : chase m n v = some t) :
    Relation.ReflTransGen (Points m₀) v t ∧ t ∉ PointerChains.keys m₀ := by
  induction n generalizing v with
  | zero => cases hc
  | succ n ih =>
    rw [chase] at hc
    split at hc
    · rename_i hv
      obtain rfl := Option.some.inj hc
      refine ⟨.refl, fun hin => ?_⟩
      obtain ⟨w, hw⟩ := mem_keys_iff.mp ((h.keys v).mpr hin)
      rw [hw] at hv
      cases hv
    · rename_i w hw
      obtain ⟨hwt, hno⟩ := ih hc
      exact ⟨(h.along v w hw).to_reflTransGen.trans hwt, hno⟩

/-- Every key that was treated has the end of its chain. -/
lemma compress_some (h : Shortcut m₀ m) (hks : ∀ k ∈ ks, k ∈ PointerChains.keys m₀)
    (hc : compress n ks m = some m') :
    Shortcut m₀ m' ∧ (∀ k t, m.lookup k = some t → t ∉ PointerChains.keys m₀ → k ∈ PointerChains.keys m₀ →
      ∃ t', m'.lookup k = some t' ∧ t' ∉ PointerChains.keys m₀) ∧
      ∀ k ∈ ks, ∃ t, m'.lookup k = some t ∧ t ∉ PointerChains.keys m₀ := by
  induction ks generalizing m with
  | nil =>
    obtain rfl := Option.some.inj hc
    exact ⟨h, fun k t ht hno _ => ⟨t, ht, hno⟩, fun k hk => absurd hk List.not_mem_nil⟩
  | cons k ks ih =>
    rw [compress] at hc
    split at hc
    · cases hc
    · rename_i v hv
      have hk := hks k List.mem_cons_self
      obtain ⟨w, hw⟩ := mem_keys_iff.mp ((h.keys k).mpr hk)
      rw [hw, Option.getD_some] at hv
      obtain ⟨hwv, hno⟩ := chase_some h hv
      obtain ⟨hm', hkeep, hall⟩ := ih (h.put hk ((h.along k w hw).trans_left hwv))
        (fun j hj => hks j (List.mem_cons_of_mem k hj)) hc
      refine ⟨hm', fun j t ht htno hj => ?_, fun j hj => ?_⟩
      · by_cases he : j = k
        · exact hkeep j v (by rw [lookup_put, if_pos he]) hno hj
        · exact hkeep j t (by rw [lookup_put, if_neg he, ht]) htno hj
      · obtain rfl | hj := List.mem_cons.mp hj
        · exact hkeep j v (by rw [lookup_put, if_pos rfl]) hno hk
        · exact hall j hj

/-- The whole dictionary, when it is done: every key has the end of its own chain. -/
theorem compress_keys (hc : compress n (keys m₀) m₀ = some m') :
    (∀ k, k ∈ keys m' ↔ k ∈ keys m₀) ∧
      ∀ k ∈ keys m₀, ∃ t, m'.lookup k = some t ∧ Relation.TransGen (Points m₀) k t ∧ t ∉ keys m₀ := by
  obtain ⟨hm', -, hall⟩ := compress_some Shortcut.refl (fun k hk => hk) hc
  refine ⟨hm'.keys, fun k hk => ?_⟩
  obtain ⟨t, ht, hno⟩ := hall k hk
  exact ⟨t, ht, hm'.along k t ht, hno⟩

end Chains

section Ending

variable {m₀ m m' : List (κ × κ)} {n : ℕ} {k v t : κ} {ks : List κ}

/-- A pointer of a key that leads back to itself leads back, too. -/
lemma back_of_points {a b : κ} (ha : Relation.TransGen (Points m₀) a k) (hb : Points m₀ a b) :
    Relation.ReflTransGen (Points m₀) b k := by
  obtain ⟨c, hc, hck⟩ := Relation.TransGen.head'_iff.mp ha
  obtain rfl : c = b := Option.some.inj (hc.symm.trans hb)
  exact hck

/-- From a circle no pointer leads out. -/
lemma mem_keys_of_circle (hk : Relation.TransGen (Points m₀) k k) (ht : Relation.TransGen (Points m₀) k t) :
    t ∈ keys m₀ := by
  have hback : Relation.TransGen (Points m₀) t k := by
    induction ht with
    | single h => exact Relation.TransGen.trans_right (back_of_points hk h) hk
    | tail _ h ih => exact Relation.TransGen.trans_right (back_of_points ih h) hk
  obtain ⟨c, hc, -⟩ := Relation.TransGen.head'_iff.mp hback
  exact mem_keys_iff.mpr ⟨c, hc⟩

/-- Where the dictionary is ever done, no chain runs in a circle. -/
theorem ends_of_compress (hc : compress n (keys m₀) m₀ = some m') : Ends m₀ := by
  intro k hk
  obtain ⟨c, hkc, -⟩ := Relation.TransGen.head'_iff.mp hk
  obtain ⟨t, -, ht, hno⟩ := (compress_keys hc).2 k (mem_keys_iff.mpr ⟨c, hkc⟩)
  exact hno (mem_keys_of_circle hk ht)

open Classical in
/-- How many keys can be met from a value on. -/
noncomputable def ahead (m : List (κ × κ)) (v : κ) : ℕ :=
  ((keys m).toFinset.filter fun k => Relation.ReflTransGen (Points m) v k).card

open Classical in
lemma ahead_le : ahead m₀ v ≤ (keys m₀).length :=
  (Finset.card_filter_le _ _).trans (List.toFinset_card_le _)

open Classical in
lemma ahead_lt (h : Ends m₀) (hkv : Relation.TransGen (Points m₀) k v) : ahead m₀ v < ahead m₀ k := by
  obtain ⟨c, hc, -⟩ := Relation.TransGen.head'_iff.mp hkv
  refine Finset.card_lt_card (Finset.ssubset_iff_of_subset (fun j hj => ?_) |>.mpr ⟨k, ?_, ?_⟩)
  · obtain ⟨hjk, hvj⟩ := Finset.mem_filter.mp hj
    exact Finset.mem_filter.mpr ⟨hjk, hkv.to_reflTransGen.trans hvj⟩
  · exact Finset.mem_filter.mpr ⟨List.mem_toFinset.mpr (mem_keys_iff.mpr ⟨c, hc⟩), .refl⟩
  · intro hk
    exact h k (hkv.trans_left (Finset.mem_filter.mp hk).2)

lemma chase_isSome (h : Ends m₀) (hm : Shortcut m₀ m) (hn : ahead m₀ v < n) : (chase m n v).isSome = true := by
  induction n generalizing v with
  | zero => omega
  | succ n ih =>
    rw [chase]
    split
    · rfl
    · rename_i w hw
      refine ih ?_
      have := ahead_lt h (hm.along v w hw)
      omega

lemma compress_isSome (h : Ends m₀) (hm : Shortcut m₀ m) (hks : ∀ k ∈ ks, k ∈ keys m₀)
    (hn : (keys m₀).length < n) : (compress n ks m).isSome = true := by
  induction ks generalizing m with
  | nil => rfl
  | cons k ks ih =>
    have hk := hks k List.mem_cons_self
    obtain ⟨w, hw⟩ := mem_keys_iff.mp ((hm.keys k).mpr hk)
    obtain ⟨v, hv⟩ := Option.isSome_iff_exists.mp
      (chase_isSome h hm (v := (m.lookup k).getD k) (ahead_le.trans_lt hn))
    rw [compress, hv]
    rw [hw, Option.getD_some] at hv
    exact ih (hm.put hk ((hm.along k w hw).trans_left (chase_some hm hv).1))
      fun j hj => hks j (List.mem_cons_of_mem k hj)

/-- The dictionary is done, with more fuel than keys, exactly when no chain runs in a circle. -/
theorem compress_iff : (∃ n m', compress n (keys m₀) m₀ = some m') ↔ Ends m₀ := by
  constructor
  · rintro ⟨n, m', h⟩
    exact ends_of_compress h
  · intro h
    obtain ⟨m', hm'⟩ := Option.isSome_iff_exists.mp
      (compress_isSome h Shortcut.refl (fun k hk => hk) (Nat.lt_succ_self _))
    exact ⟨_, m', hm'⟩

end Ending

end CommitReplay.PointerChains
