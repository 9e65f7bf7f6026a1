import Mathlib

/-! Hash chains over arbitrary records: each record names the hash of the one before it, and its
own recorded hash is the digest of its content. -/
namespace CommitReplay.HashChain

variable {R H : Type} (prev hash digest : R → H)

/-- `rs` continues a chain whose last hash is `g`. -/
def Linked : H → List R → Prop
  | _, [] => True
  | g, r :: rs => prev r = g ∧ hash r = digest r ∧ Linked (hash r) rs

/-- The last hash of a chain that started at `g`. -/
def head (g : H) (rs : List R) : H := (rs.getLast?.map hash).getD g

@[simp] lemma head_nil (g : H) : head hash g [] = g := rfl

@[simp] lemma head_concat (g : H) (rs : List R) (r : R) : head hash g (rs ++ [r]) = hash r := by
  simp [head]

lemma head_cons (g : H) (r : R) (rs : List R) : head hash g (r :: rs) = head hash (hash r) rs := by
  cases rs using List.reverseRecOn with
  | nil => rfl
  | append_singleton rs s => rw [← List.cons_append, head_concat, head_concat]

variable {prev hash digest}

lemma linked_append {g : H} {rs ss : List R} :
    Linked prev hash digest g (rs ++ ss) ↔
      Linked prev hash digest g rs ∧ Linked prev hash digest (head hash g rs) ss := by
  induction rs generalizing g with
  | nil => simp [Linked]
  | cons r rs ih => simp only [List.cons_append, Linked, ih, head_cons, and_assoc]

lemma linked_concat {g : H} {rs : List R} {r : R} :
    Linked prev hash digest g (rs ++ [r]) ↔
      Linked prev hash digest g rs ∧ prev r = head hash g rs ∧ hash r = digest r := by
  simp [linked_append, Linked]

lemma Linked.hash_eq {g : H} {rs : List R} (h : Linked prev hash digest g rs) {r : R}
    (hr : r ∈ rs) : hash r = digest r := by
  induction rs generalizing g with
  | nil => simp at hr
  | cons s rs ih =>
    rcases List.mem_cons.mp hr with rfl | hr
    · exact h.2.1
    · exact ih h.2.2 hr

/-- Two chains of one length and one last hash are the same chain, when no two of their records
share a digest. -/
theorem eq_of_head_eq {g : H} {rs ss : List R} (hr : Linked prev hash digest g rs)
    (hs : Linked prev hash digest g ss) (hlen : rs.length = ss.length)
    (hinj : ∀ r ∈ rs, ∀ s ∈ ss, hash r = hash s → r = s)
    (hhead : head hash g rs = head hash g ss) : rs = ss := by
  induction rs using List.reverseRecOn generalizing ss with
  | nil => exact (List.length_eq_zero_iff.mp hlen.symm).symm
  | append_singleton rs r ih =>
    cases ss using List.reverseRecOn with
    | nil => simp at hlen
    | append_singleton ss s =>
      obtain ⟨hr', hpr, -⟩ := linked_concat.mp hr
      obtain ⟨hs', hps, -⟩ := linked_concat.mp hs
      rw [head_concat, head_concat] at hhead
      obtain rfl : r = s := hinj r (by simp) s (by simp) hhead
      have hrest : rs = ss := ih hr' hs' (by simpa using hlen)
        (fun a ha b hb => hinj a (by simp [ha]) b (by simp [hb])) (hpr.symm.trans hps)
      rw [hrest]

/-- Without a bound on the lengths the chains agree as long as no record's hash is the start. -/
theorem eq_of_head_eq_of_fresh {g : H} {rs ss : List R} (hr : Linked prev hash digest g rs)
    (hs : Linked prev hash digest g ss) (hinj : ∀ r ∈ rs, ∀ s ∈ ss, hash r = hash s → r = s)
    (hfresh : ∀ r ∈ rs ++ ss, hash r ≠ g) (hhead : head hash g rs = head hash g ss) : rs = ss := by
  induction rs using List.reverseRecOn generalizing ss with
  | nil =>
    cases ss using List.reverseRecOn with
    | nil => rfl
    | append_singleton ss s =>
      rw [head_nil, head_concat] at hhead
      exact absurd hhead.symm (hfresh s (by simp))
  | append_singleton rs r ih =>
    cases ss using List.reverseRecOn with
    | nil =>
      rw [head_nil, head_concat] at hhead
      exact absurd hhead (hfresh r (by simp))
    | append_singleton ss s =>
      obtain ⟨hr', hpr, -⟩ := linked_concat.mp hr
      obtain ⟨hs', hps, -⟩ := linked_concat.mp hs
      rw [head_concat, head_concat] at hhead
      obtain rfl : r = s := hinj r (by simp) s (by simp) hhead
      have hrest : rs = ss := ih hr' hs' (fun a ha b hb => hinj a (by simp [ha]) b (by simp [hb]))
        (fun a ha => hfresh a (by rcases List.mem_append.mp ha with ha | ha <;> simp [ha]))
        (hpr.symm.trans hps)
      rw [hrest]

end CommitReplay.HashChain
