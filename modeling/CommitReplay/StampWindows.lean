import Mathlib.Algebra.Order.Group.Defs
import Mathlib.Data.List.Perm.Subperm
import Mathlib.Data.List.TakeWhile
import Mathlib.Tactic.Linarith

/-! Stamps counted over a sliding window. A bucket drops the stamps at its front that have left the
window; as long as stamps come in the order of time it holds, of all the stamps it has to count,
those still in the window, and a bound on its length is a bound on every window. -/
namespace CommitReplay.StampWindows

variable {T : Type*} [AddCommGroup T] [LinearOrder T]
variable {window now : T} {bucket tally seen : List T}

/-- The bucket without the stamps at its front that are a window old. -/
def prune (window now : T) (bucket : List T) : List T := bucket.dropWhile fun s => window ≤ now - s

/-- What pruning drops is a window old. -/
lemma prune_split (window now : T) (bucket : List T) :
    ∃ dropped, bucket = dropped ++ prune window now bucket ∧ ∀ s ∈ dropped, window ≤ now - s :=
  ⟨bucket.takeWhile fun s => window ≤ now - s, List.takeWhile_append_dropWhile.symm,
    fun s hs => by simpa using List.mem_takeWhile_imp hs⟩

/-- The bucket holds, in order, the stamps of the tally that no reading of the clock has seen leave
the window, each as often as the tally does. -/
structure Tracks (window : T) (seen bucket tally : List T) : Prop where
  sorted : bucket.Pairwise (· ≤ ·)
  seen_of_mem : ∀ x ∈ tally, x ∈ seen
  count_eq : ∀ x ∈ bucket, bucket.count x = tally.count x
  old : ∀ x ∈ tally, x ∉ bucket → ∃ y ∈ seen, window ≤ y - x

lemma tracks_nil : Tracks window seen ([] : List T) [] :=
  ⟨List.Pairwise.nil, by simp, by simp, by simp⟩

lemma Tracks.subset (h : Tracks window seen bucket tally) : bucket ⊆ tally := by
  intro x hx
  refine List.count_pos_iff.mp ?_
  rw [← h.count_eq x hx]
  exact List.count_pos_iff.mpr hx

lemma Tracks.see (h : Tracks window seen bucket tally) (now : T) :
    Tracks window (seen ++ [now]) bucket tally where
  sorted := h.sorted
  seen_of_mem x hx := List.mem_append_left _ (h.seen_of_mem x hx)
  count_eq := h.count_eq
  old x hx hn := by
    obtain ⟨y, hy, hold⟩ := h.old x hx hn
    exact ⟨y, List.mem_append_left _ hy, hold⟩

/-- A stamp is given back. -/
lemma Tracks.erase (h : Tracks window seen bucket tally) (x : T) :
    Tracks window seen (bucket.erase x) (tally.erase x) := by
  refine ⟨h.sorted.sublist List.erase_sublist, fun y hy => h.seen_of_mem y (List.mem_of_mem_erase hy),
    fun y hy => ?_, fun y hy hn => ?_⟩
  · rw [List.count_erase, List.count_erase, h.count_eq y (List.mem_of_mem_erase hy)]
  · by_cases hb : y ∈ bucket
    · exfalso
      have hcount : (bucket.erase x).count y = (tally.erase x).count y := by
        rw [List.count_erase, List.count_erase, h.count_eq y hb]
      rw [List.count_eq_zero_of_not_mem hn] at hcount
      exact absurd hy (List.count_eq_zero.mp hcount.symm)
    · exact h.old y (List.mem_of_mem_erase hy) hb

lemma Tracks.perm {tally' : List T} (h : Tracks window seen bucket tally) (hp : tally.Perm tally') :
    Tracks window seen bucket tally' where
  sorted := h.sorted
  seen_of_mem x hx := h.seen_of_mem x (hp.mem_iff.mpr hx)
  count_eq x hx := by rw [h.count_eq x hx, hp.count_eq]
  old x hx hn := h.old x (hp.mem_iff.mpr hx) hn

/-- No more than `limit` stamps in any window. -/
def Within (window : T) (limit : ℕ) (tally : List T) : Prop :=
  ∀ t, (tally.filter fun x => t ≤ x ∧ x < t + window).length ≤ limit

lemma within_nil (limit : ℕ) : Within window limit ([] : List T) := fun _ => Nat.zero_le _

lemma Within.sublist {limit : ℕ} {tally' : List T} (h : Within window limit tally)
    (hs : tally'.Sublist tally) : Within window limit tally' := fun t =>
  (hs.filter _).length_le.trans (h t)

lemma Within.perm {limit : ℕ} {tally' : List T} (h : Within window limit tally) (hp : tally.Perm tally') :
    Within window limit tally' := fun t => (hp.filter _).length_eq ▸ h t

variable [IsOrderedAddMonoid T]

/-- Of a bucket in order, pruning keeps what is in the window. -/
lemma prune_eq_filter (h : bucket.Pairwise (· ≤ ·)) :
    prune window now bucket = bucket.filter fun s => now - s < window := by
  induction bucket with
  | nil => rfl
  | cons s ss ih =>
    obtain ⟨hle, hss⟩ := List.pairwise_cons.mp h
    by_cases hold : window ≤ now - s
    · have hp : prune window now (s :: ss) = prune window now ss :=
        List.dropWhile_cons_of_pos (decide_eq_true hold)
      rw [hp, ih hss, List.filter_cons_of_neg (by simpa using hold)]
    · have hp : prune window now (s :: ss) = s :: ss :=
        List.dropWhile_cons_of_neg (by simpa using hold)
      rw [hp, eq_comm, List.filter_eq_self]
      intro t ht
      have hst : now - t ≤ now - s := by
        rcases List.mem_cons.mp ht with rfl | ht
        · exact le_rfl
        · exact sub_le_sub_left (hle t ht) now
      exact decide_eq_true (lt_of_le_of_lt hst (not_le.mp hold))

/-- Pruning at a reading that has been seen. -/
lemma Tracks.prune (h : Tracks window seen bucket tally) (hnow : now ∈ seen) :
    Tracks window seen (prune window now bucket) tally := by
  rw [prune_eq_filter h.sorted]
  refine ⟨h.sorted.filter _, h.seen_of_mem, fun x hx => ?_, fun x hx hn => ?_⟩
  · obtain ⟨hb, hp⟩ := List.mem_filter.mp hx
    have hcount : (bucket.filter fun s => now - s < window).count x = bucket.count x := List.count_filter hp
    rw [hcount, h.count_eq x hb]
  · by_cases hb : x ∈ bucket
    · refine ⟨now, hnow, not_lt.mp fun hlt => hn (List.mem_filter.mpr ⟨hb, decide_eq_true hlt⟩)⟩
    · exact h.old x hx hb

/-- A stamp no older than any seen is counted. -/
lemma Tracks.push (h : Tracks window seen bucket tally) (hw : 0 < window) (hnow : now ∈ seen)
    (hlast : ∀ x ∈ seen, x ≤ now) : Tracks window seen (bucket ++ [now]) (tally ++ [now]) := by
  refine ⟨?_, ?_, ?_, ?_⟩
  · refine List.pairwise_append.mpr ⟨h.sorted, List.pairwise_singleton _ _, fun x hx y hy => ?_⟩
    rw [List.mem_singleton.mp hy]
    exact hlast x (h.seen_of_mem x (h.subset hx))
  · intro x hx
    rcases List.mem_append.mp hx with hx | hx
    · exact h.seen_of_mem x hx
    · rwa [List.mem_singleton.mp hx]
  · intro x hx
    rw [List.count_append, List.count_append]
    by_cases hb : x ∈ bucket
    · rw [h.count_eq x hb]
    · obtain rfl : x = now := by
        rcases List.mem_append.mp hx with hx | hx
        · exact absurd hx hb
        · exact List.mem_singleton.mp hx
      -- an equal stamp that left the bucket would be a window old at this very reading
      have hnone : x ∉ tally := by
        intro ht
        obtain ⟨y, hy, hold⟩ := h.old x ht hb
        have hyx := hlast y hy
        have hzero : y - x ≤ 0 := sub_nonpos.mpr hyx
        exact absurd (hold.trans hzero) (not_le.mpr hw)
      rw [List.count_eq_zero_of_not_mem hb, List.count_eq_zero_of_not_mem hnone]
  · intro x hx hn
    rw [List.mem_append, not_or] at hn
    rcases List.mem_append.mp hx with hx | hx
    · exact h.old x hx hn.1
    · exact absurd hx hn.2

/-- A stamp added while the pruned bucket has room keeps every window within the limit. -/
lemma Within.push {limit : ℕ} (h : Within window limit tally) (ht : Tracks window seen bucket tally)
    (hlast : ∀ x ∈ seen, x ≤ now) (hroom : bucket.length < limit) :
    Within window limit (tally ++ [now]) := by
  intro t
  rw [List.filter_append, List.length_append]
  by_cases hin : t ≤ now ∧ now < t + window
  · have hsub : (tally.filter fun x => t ≤ x ∧ x < t + window).Subperm bucket := by
      rw [List.subperm_ext_iff]
      intro x hx
      obtain ⟨hx, hp⟩ := List.mem_filter.mp hx
      have hxin : t ≤ x ∧ x < t + window := by simpa using hp
      have hb : x ∈ bucket := by
        by_contra hb
        obtain ⟨y, hy, hold⟩ := ht.old x hx hb
        have hyx : y - x ≤ now - t := sub_le_sub (hlast y hy) hxin.1
        have hlt : now - t < window := sub_lt_iff_lt_add'.mpr hin.2
        exact absurd (hold.trans hyx) (not_le.mpr hlt)
      have hcount : (tally.filter fun x => t ≤ x ∧ x < t + window).count x = tally.count x :=
        List.count_filter hp
      rw [hcount, ht.count_eq x hb]
    have hlen := hsub.length_le
    have hone : ([now].filter fun x => t ≤ x ∧ x < t + window).length ≤ 1 := List.length_filter_le _ _
    omega
  · have hnone : [now].filter (fun x => t ≤ x ∧ x < t + window) = [] := by
      simpa using fun h => not_lt.mp fun hlt => hin ⟨h, hlt⟩
    rw [hnone, List.length_nil, Nat.add_zero]
    exact h t

/-- When the stamp that fills a bucket in order has left the window, pruning makes room. -/
lemma length_prune_lt {limit : ℕ} (h : bucket.Pairwise (· ≤ ·)) {x : T}
    (hx : bucket[bucket.length - limit]? = some x) (hold : window ≤ now - x) :
    (prune window now bucket).length < limit := by
  obtain ⟨hk, rfl⟩ := List.getElem?_eq_some_iff.mp hx
  generalize hn : bucket.length - limit = k at *
  have hfront : (bucket.take (k + 1)).filter (fun s => now - s < window) = [] := by
    refine List.filter_eq_nil_iff.mpr fun y hy => ?_
    obtain ⟨i, hi, rfl⟩ := List.mem_take_iff_getElem.mp hy
    have hle : bucket[i] ≤ bucket[k] := by
      rcases Nat.lt_or_ge i k with hlt | hge
      · exact List.pairwise_iff_getElem.mp h i k _ hk hlt
      · have hik : i = k := by omega
        subst hik
        exact le_rfl
    have hyold : window ≤ now - bucket[i] := hold.trans (sub_le_sub_left hle now)
    simpa using hyold
  have hsplit : prune window now bucket = (bucket.drop (k + 1)).filter fun s => now - s < window := by
    rw [prune_eq_filter h]
    conv_lhs => rw [← List.take_append_drop (k + 1) bucket]
    rw [List.filter_append, hfront, List.nil_append]
  have hlen := List.length_filter_le (fun s => decide (now - s < window)) (bucket.drop (k + 1))
  rw [← hsplit, List.length_drop] at hlen
  omega

end CommitReplay.StampWindows
