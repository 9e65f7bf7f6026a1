import Mathlib

/-! Columns of different lengths read in turn: turn after turn, each column that is not exhausted gives its
next place. Whatever is kept of the front of it takes a prefix of each column, and no column is two places
ahead of one that is not exhausted. -/
namespace CommitReplay.RoundRobin

variable {κ : Type} {columns : List (κ × ℕ)} {depth n : ℕ} {k : κ} {c d : κ × ℕ}

/-- One turn: the place at a depth of each column that has it. -/
def turn (columns : List (κ × ℕ)) (depth : ℕ) : List (κ × ℕ) :=
  (columns.filter fun c => depth < c.2).map fun c => (c.1, depth)

/-- Turns from a depth on. -/
def turnsFrom (columns : List (κ × ℕ)) (depth rounds : ℕ) : List (κ × ℕ) :=
  (List.range' depth rounds).flatMap (turn columns)

/-- Every place, turn after turn. -/
def turns (columns : List (κ × ℕ)) : List (κ × ℕ) :=
  turnsFrom columns 0 (columns.map Prod.snd).sum

lemma mem_turn : c ∈ turn columns depth ↔ c.2 = depth ∧ ∃ len, (c.1, len) ∈ columns ∧ depth < len := by
  simp only [turn, List.mem_map, List.mem_filter, decide_eq_true_eq]
  constructor
  · rintro ⟨x, ⟨hx, hlt⟩, rfl⟩
    exact ⟨rfl, x.2, hx, hlt⟩
  · rintro ⟨rfl, len, hlen, hlt⟩
    exact ⟨(c.1, len), ⟨hlen, hlt⟩, rfl⟩

lemma le_sum_of_mem {len : ℕ} (h : (k, len) ∈ columns) : len ≤ (columns.map Prod.snd).sum :=
  List.single_le_sum (fun _ _ => Nat.zero_le _) _ (List.mem_map.mpr ⟨_, h, rfl⟩)

lemma mem_turns : c ∈ turns columns ↔ ∃ len, (c.1, len) ∈ columns ∧ c.2 < len := by
  simp only [turns, turnsFrom, List.mem_flatMap, List.mem_range'_1, mem_turn]
  constructor
  · rintro ⟨depth, -, rfl, h⟩
    exact h
  · rintro ⟨len, hlen, hlt⟩
    have hle := le_sum_of_mem hlen
    exact ⟨c.2, ⟨Nat.zero_le _, by omega⟩, rfl, len, hlen, hlt⟩

lemma nodup_turn (h : (columns.map Prod.fst).Nodup) : (turn columns depth).Nodup := by
  have hsub : ((columns.filter fun c => depth < c.2).map Prod.fst).Nodup :=
    h.sublist (List.filter_sublist.map _)
  have heq : turn columns depth =
      ((columns.filter fun c => depth < c.2).map Prod.fst).map fun k => (k, depth) := by
    rw [turn, List.map_map]
    rfl
  rw [heq]
  exact hsub.map fun a b hab => (Prod.mk.inj hab).1

lemma pairwise_turns : (turns columns).Pairwise fun c d => c.2 ≤ d.2 := by
  refine List.pairwise_flatMap.mpr ⟨fun depth _ => ?_, ?_⟩
  · refine List.pairwise_of_forall_mem_list fun c hc d hd => ?_
    rw [(mem_turn.mp hc).1, (mem_turn.mp hd).1]
  · refine List.Pairwise.imp (fun hlt c hc d hd => ?_) List.pairwise_lt_range'
    rw [(mem_turn.mp hc).1, (mem_turn.mp hd).1]
    exact hlt.le

lemma nodup_turns (h : (columns.map Prod.fst).Nodup) : (turns columns).Nodup := by
  refine List.nodup_flatMap.mpr ⟨fun depth _ => nodup_turn h, ?_⟩
  refine List.Pairwise.imp (fun hlt c hc hd => ?_) List.pairwise_lt_range'
  exact hlt.ne ((mem_turn.mp hc).1.symm.trans (mem_turn.mp hd).1)

lemma turns_perm (h : (columns.map Prod.fst).Nodup) :
    (turns columns).Perm (columns.flatMap fun c => (List.range c.2).map fun i => (c.1, i)) := by
  refine (List.perm_ext_iff_of_nodup (nodup_turns h) ?_).mpr fun c => ?_
  · refine List.nodup_flatMap.mpr ⟨fun c _ => List.nodup_range.map fun i j hij => (Prod.mk.inj hij).2, ?_⟩
    refine (List.pairwise_map.mp h).imp fun hne x hx hy => ?_
    obtain ⟨i, -, rfl⟩ := List.mem_map.mp hx
    obtain ⟨j, -, hj⟩ := List.mem_map.mp hy
    exact hne (Prod.mk.inj hj).1.symm
  · rw [mem_turns, List.mem_flatMap]
    constructor
    · rintro ⟨len, hlen, hlt⟩
      exact ⟨_, hlen, List.mem_map.mpr ⟨c.2, List.mem_range.mpr hlt, rfl⟩⟩
    · rintro ⟨x, hx, hc⟩
      obtain ⟨i, hi, rfl⟩ := List.mem_map.mp hc
      exact ⟨x.2, hx, List.mem_range.mp hi⟩

lemma length_turns (h : (columns.map Prod.fst).Nodup) :
    (turns columns).length = (columns.map Prod.snd).sum := by
  rw [(turns_perm h).length_eq, List.length_flatMap]
  simp

/-- A place that is left is no shallower than any that is taken. -/
lemma depth_le_of_left (hc : c ∈ (turns columns).take n) (hd : d ∈ turns columns)
    (hleft : d ∉ (turns columns).take n) : c.2 ≤ d.2 := by
  have hsorted : (turns columns).Pairwise fun c d => c.2 ≤ d.2 := pairwise_turns
  rw [← List.take_append_drop n (turns columns)] at hsorted hd
  exact (List.pairwise_append.mp hsorted).2.2 c hc d ((List.mem_append.mp hd).resolve_left hleft)

variable [DecidableEq κ]

/-- How many places of a column are among the first `n`. -/
def taken (columns : List (κ × ℕ)) (n : ℕ) (k : κ) : ℕ :=
  (((turns columns).take n).filter fun c => c.1 = k).length

lemma filter_turns (h : (columns.map Prod.fst).Nodup) {len : ℕ} (hk : (k, len) ∈ columns) :
    (turns columns).filter (fun c => c.1 = k) = (List.range len).map fun i => (k, i) := by
  have hone : ∀ len', (k, len') ∈ columns → len' = len := fun len' hlen =>
    congrArg Prod.snd (List.inj_on_of_nodup_map h hlen hk rfl)
  have hperm : ((turns columns).filter fun c => c.1 = k).Perm ((List.range len).map fun i => (k, i)) := by
    refine (List.perm_ext_iff_of_nodup ((nodup_turns h).filter _)
      (List.nodup_range.map fun i j hij => (Prod.mk.inj hij).2)).mpr fun c => ?_
    simp only [List.mem_filter, mem_turns, decide_eq_true_eq, List.mem_map, List.mem_range]
    constructor
    · rintro ⟨⟨len', hlen, hlt⟩, rfl⟩
      exact ⟨c.2, hone _ hlen ▸ hlt, rfl⟩
    · rintro ⟨i, hi, rfl⟩
      exact ⟨⟨len, hk, hi⟩, rfl⟩
  refine @List.Perm.eq_of_pairwise _ (fun c d => c.2 ≤ d.2) _ _ (fun c d hc hd hcd hdc => ?_)
    (pairwise_turns.filter _) ?_ hperm
  · have hck := (List.mem_filter.mp hc).2
    have hdk := (List.mem_filter.mp (hperm.mem_iff.mpr hd)).2
    rw [decide_eq_true_eq] at hck hdk
    exact Prod.ext (hck.trans hdk.symm) (le_antisymm hcd hdc)
  · exact List.pairwise_map.mpr (List.pairwise_lt_range.imp le_of_lt)

/-- What is taken of a column is a prefix of it. -/
theorem filter_take (h : (columns.map Prod.fst).Nodup) {len : ℕ} (hk : (k, len) ∈ columns) :
    ((turns columns).take n).filter (fun c => c.1 = k) =
      (List.range (taken columns n k)).map fun i => (k, i) := by
  have hle := ((List.take_prefix n (turns columns)).filter fun c => c.1 = k)
  rw [filter_turns h hk] at hle
  have heq := List.prefix_iff_eq_take.mp hle
  have hlen := hle.length_le
  rw [List.length_map, List.length_range] at hlen
  rw [← List.map_take, List.take_range, Nat.min_eq_left hlen] at heq
  exact heq

lemma taken_le (h : (columns.map Prod.fst).Nodup) {len : ℕ} (hk : (k, len) ∈ columns) :
    taken columns n k ≤ len := by
  have hle := ((List.take_prefix n (turns columns)).filter fun c => c.1 = k).length_le
  rwa [filter_turns h hk, List.length_map, List.length_range] at hle

lemma mem_take_iff (h : (columns.map Prod.fst).Nodup) {len i : ℕ} (hk : (k, len) ∈ columns) :
    (k, i) ∈ (turns columns).take n ↔ i < taken columns n k := by
  have hmem : (k, i) ∈ ((turns columns).take n).filter (fun c => c.1 = k) ↔
      (k, i) ∈ (turns columns).take n := by
    simp [List.mem_filter]
  rw [← hmem, filter_take h hk]
  simp

/-- No column is two places ahead of one that is not exhausted. -/
theorem taken_le_succ (h : (columns.map Prod.fst).Nodup) {j : κ} {len len' : ℕ} (hk : (k, len) ∈ columns)
    (hj : (j, len') ∈ columns) (hopen : taken columns n j < len') :
    taken columns n k ≤ taken columns n j + 1 := by
  by_contra hlt
  have hahead : (k, taken columns n j + 1) ∈ (turns columns).take n := (mem_take_iff h hk).mpr (by omega)
  have hleft : (j, taken columns n j) ∉ (turns columns).take n :=
    fun hin => (lt_irrefl _) ((mem_take_iff h hj).mp hin)
  have hle := depth_le_of_left hahead (mem_turns.mpr ⟨len', hj, hopen⟩) hleft
  simp at hle

/-- With a place for every column that has one, each has its first taken. -/
theorem taken_pos (h : (columns.map Prod.fst).Nodup) {len : ℕ} (hk : (k, len) ∈ columns) (hpos : 0 < len)
    (hn : (columns.filter fun c => 0 < c.2).length ≤ n) : 0 < taken columns n k := by
  rw [← mem_take_iff h hk]
  by_contra hleft
  have hin : (k, 0) ∈ turns columns := mem_turns.mpr ⟨len, hk, hpos⟩
  have hfirst : ∀ c ∈ (k, 0) :: (turns columns).take n, c ∈ turn columns 0 := by
    intro c hc
    rcases List.mem_cons.mp hc with rfl | hc
    · exact mem_turn.mpr ⟨rfl, len, hk, hpos⟩
    · have hzero := Nat.le_zero.mp (depth_le_of_left hc hin hleft)
      obtain ⟨len', hlen, hlt⟩ := mem_turns.mp (List.mem_of_mem_take hc)
      exact mem_turn.mpr ⟨hzero, len', hlen, hzero ▸ hlt⟩
  have hnodup : ((k, 0) :: (turns columns).take n).Nodup :=
    List.nodup_cons.mpr ⟨hleft, (nodup_turns h).sublist (List.take_sublist _ _)⟩
  have hle := (hnodup.subperm hfirst).length_le
  have hshort : n < (turns columns).length := by
    by_contra hge
    exact hleft (by rwa [List.take_of_length_le (not_lt.mp hge)])
  rw [List.length_cons, List.length_take, Nat.min_eq_left hshort.le, turn, List.length_map] at hle
  omega

end CommitReplay.RoundRobin
