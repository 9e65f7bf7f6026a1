import CommitReplay.PairTest
import CommitReplay.ReadingArms

/-! The loop pair of a reading: the two descriptive arms paired on the commits both read, with a pending
commit read against the loop. -/
namespace CommitReplay.LoopPairs

open CommitReplay.PairTest CommitReplay.ReadingRecord CommitReplay.ReadingArms

section Pair

/-- The commits an arm reads for the pair: a descriptive arm's first `limit`, a hierarchy arm's counted
ones. -/
def pairWindow (a : ArmReading) : List CommitReading :=
  if a.limit ≠ 0 then pyTake a.limit a.kept else a.kept.take a.look.counted

/-- A commit with its outcome under either arm. -/
structure Paired where
  commit : String
  lo : Option Bool
  ro : Option Bool
deriving DecidableEq, Repr

structure LoopPair where
  pairs : List String
  b : ℕ
  c : ℕ
  pending : List String
deriving DecidableEq, Repr

def LoopPair.complete (x : LoopPair) : Bool := x.pending = []

def LoopPair.p (x : LoopPair) : ℚ := mcnemarP x.b x.c

/-- The outcome of a commit in a window: the last entry of it stands. -/
def outcomeIn (window : List CommitReading) (commit : String) : Option (Option Bool) :=
  (window.reverse.find? fun r => r.commit = commit).map (·.outcome)

/-- The commits both arms read, in the first arm's order. -/
def paired (a0 a0l : ArmReading) : List Paired :=
  (pairWindow a0).filterMap fun r => (outcomeIn (pairWindow a0l) r.commit).map (⟨r.commit, r.outcome, ·⟩)

/-- `loop_pair`: a pending commit is read as a hit without the loop and a miss with it. -/
def loopPair (a0 a0l : ArmReading) : LoopPair :=
  let read := paired a0 a0l
  { pairs := read.map (·.commit)
    b := read.countP fun x => x.ro = some true && x.lo = some false
    c := read.countP fun x => x.lo ≠ some false && x.ro ≠ some true
    pending := (read.filter fun x => x.lo = none || x.ro = none).map (·.commit) }

end Pair

section Refinement

/-- What an outcome may become while others are awaited: a pending one may be observed. -/
def Filled (o o' : Option Bool) : Prop := o = none ∨ o' = o

structure FilledCommit (r r' : CommitReading) : Prop where
  commit : r'.commit = r.commit
  left : r'.left = r.left
  outcome : Filled r.outcome r'.outcome

/-- The same arm with some of its pending outcomes observed; its look may have moved. -/
structure Refines (a a' : ArmReading) : Prop where
  limit : a'.limit = a.limit
  commits : List.Forall₂ FilledCommit a.commits a'.commits

structure FilledPair (x x' : Paired) : Prop where
  commit : x'.commit = x.commit
  lo : Filled x.lo x'.lo
  ro : Filled x.ro x'.ro

lemma forall₂_kept {xs ys : List CommitReading} (h : List.Forall₂ FilledCommit xs ys) :
    List.Forall₂ FilledCommit (xs.filter (·.left = none)) (ys.filter (·.left = none)) := by
  induction h with
  | nil => exact .nil
  | cons hr _ ih =>
    simp only [List.filter_cons, hr.left]
    split_ifs
    · exact .cons hr ih
    · exact ih

lemma forall₂_pyTake {xs ys : List CommitReading} (h : List.Forall₂ FilledCommit xs ys) (n : ℤ) :
    List.Forall₂ FilledCommit (pyTake n xs) (pyTake n ys) := by
  unfold pyTake
  rw [h.length_eq]
  split_ifs <;> exact List.forall₂_take _ h

/-- A descriptive arm reads the same commits whatever is observed of them. -/
lemma Refines.window {a a' : ArmReading} (h : Refines a a') (hd : a.limit ≠ 0) :
    List.Forall₂ FilledCommit (pairWindow a) (pairWindow a') := by
  unfold pairWindow
  rw [h.limit, if_pos hd, if_pos hd]
  exact forall₂_pyTake (forall₂_kept h.commits) _

/-- A commit stands in the filled window where it stands in the other. -/
lemma outcomeIn_filled {xs ys : List CommitReading} (h : List.Forall₂ FilledCommit xs ys) (commit : String) :
    (outcomeIn xs commit = none ∧ outcomeIn ys commit = none) ∨
      ∃ o o', outcomeIn xs commit = some o ∧ outcomeIn ys commit = some o' ∧ Filled o o' := by
  unfold outcomeIn
  have hrev : List.Forall₂ FilledCommit xs.reverse ys.reverse := List.forall₂_reverse_iff.mpr h
  generalize xs.reverse = xs', ys.reverse = ys' at hrev
  induction hrev with
  | nil => exact .inl ⟨rfl, rfl⟩
  | @cons r r' _ _ hr _ ih =>
    simp only [List.find?_cons, hr.commit]
    by_cases hc : r.commit = commit
    · simp only [hc, decide_true, Option.map_some]
      exact .inr ⟨_, _, rfl, rfl, hr.outcome⟩
    · simpa only [hc, decide_false] using ih

lemma paired_filled {a0 a0' a0l a0l' : ArmReading} (h : Refines a0 a0') (hl : Refines a0l a0l')
    (hd : a0.limit ≠ 0) (hdl : a0l.limit ≠ 0) :
    List.Forall₂ FilledPair (paired a0 a0l) (paired a0' a0l') := by
  have hwindow := hl.window hdl
  have hfirst := h.window hd
  unfold paired
  generalize pairWindow a0 = xs, pairWindow a0' = ys at hfirst ⊢
  induction hfirst with
  | nil => exact .nil
  | @cons r r' _ _ hr _ ih =>
    rw [List.filterMap_cons, List.filterMap_cons, hr.commit]
    obtain ⟨ho, ho'⟩ | ⟨o, o', ho, ho', hfill⟩ := outcomeIn_filled hwindow r.commit
    · rw [ho, ho']
      exact ih
    · rw [ho, ho']
      exact .cons ⟨rfl, hr.outcome, hfill⟩ ih

end Refinement

section Closed

variable {xs ys : List Paired}

lemma countP_le_of_filled {p q : Paired → Bool} (h : List.Forall₂ FilledPair xs ys)
    (hpq : ∀ x y, FilledPair x y → p x = true → q y = true) : xs.countP p ≤ ys.countP q := by
  induction h with
  | nil => exact le_rfl
  | @cons x y _ _ hx _ ih =>
    rw [List.countP_cons, List.countP_cons]
    have hone : (if p x then 1 else 0) ≤ if q y then 1 else 0 := by
      by_cases hp : p x = true
      · rw [if_pos hp, if_pos (hpq x y hx hp)]
      · rw [if_neg hp]
        exact Nat.zero_le _
    omega

lemma countP_ge_of_filled {p q : Paired → Bool} (h : List.Forall₂ FilledPair xs ys)
    (hpq : ∀ x y, FilledPair x y → q y = true → p x = true) : ys.countP q ≤ xs.countP p := by
  induction h with
  | nil => exact le_rfl
  | @cons x y _ _ hx _ ih =>
    rw [List.countP_cons, List.countP_cons]
    have hone : (if q y then 1 else 0) ≤ if p x then 1 else 0 := by
      by_cases hq : q y = true
      · rw [if_pos hq, if_pos (hpq x y hx hq)]
      · rw [if_neg hq]
        exact Nat.zero_le _
    omega

lemma pairs_of_filled (h : List.Forall₂ FilledPair xs ys) :
    ys.map (·.commit) = xs.map (·.commit) := by
  induction h with
  | nil => rfl
  | cons hx _ ih => rw [List.map_cons, List.map_cons, hx.commit, ih]

/-- What is pending of the filled pairs was pending before. -/
lemma pending_of_filled (h : List.Forall₂ FilledPair xs ys) :
    ((ys.filter fun x => x.lo = none || x.ro = none).map (·.commit)).Sublist
      ((xs.filter fun x => x.lo = none || x.ro = none).map (·.commit)) := by
  induction h with
  | nil => exact .slnil
  | @cons x y xs ys hx _ ih =>
    have hpending : (y.lo = none || y.ro = none) = true → (x.lo = none || x.ro = none) = true := by
      simp only [Bool.or_eq_true, decide_eq_true_eq]
      rintro (hy | hy)
      · exact .inl (hx.lo.elim id fun h => h ▸ hy)
      · exact .inr (hx.ro.elim id fun h => h ▸ hy)
    rw [List.filter_cons, List.filter_cons]
    by_cases hy : (y.lo = none || y.ro = none) = true
    · rw [if_pos hy, if_pos (hpending hy), List.map_cons, List.map_cons, hx.commit]
      exact ih.cons_cons _
    · rw [if_neg hy]
      split_ifs
      · exact ih.cons _
      · exact ih

/-- With nothing pending a pair that is not a miss is a hit. -/
lemma countP_of_settled {p q : Paired → Bool} (hs : xs.filter (fun x => x.lo = none || x.ro = none) = [])
    (hpq : ∀ x, x.lo ≠ none → x.ro ≠ none → p x = q x) : xs.countP p = xs.countP q := by
  refine List.countP_congr fun x hx => ?_
  have hx' := List.filter_eq_nil_iff.mp hs x hx
  simp only [Bool.or_eq_true, decide_eq_true_eq, not_or] at hx'
  rw [hpq x hx'.1 hx'.2]

/-- Whatever is observed of the pending commits, the loop pair keeps its pairs, its wins grow and its losses
shrink, and nothing new is pending; with nothing pending the two counts are the commits clean under one of
the arms alone. -/
theorem loopPair_refines {a0 a0' a0l a0l' : ArmReading} (h : Refines a0 a0') (hl : Refines a0l a0l')
    (hd : a0.limit ≠ 0) (hdl : a0l.limit ≠ 0) :
    (loopPair a0' a0l').pairs = (loopPair a0 a0l).pairs ∧
      (loopPair a0 a0l).b ≤ (loopPair a0' a0l').b ∧ (loopPair a0' a0l').c ≤ (loopPair a0 a0l).c ∧
      (loopPair a0' a0l').pending.Sublist (loopPair a0 a0l).pending ∧
      ((loopPair a0 a0l).pending = [] →
        (loopPair a0 a0l).b =
            (paired a0 a0l).countP (fun x => x.ro = some true && x.lo ≠ some true) ∧
          (loopPair a0 a0l).c =
            (paired a0 a0l).countP (fun x => x.lo = some true && x.ro ≠ some true)) := by
  have hfilled := paired_filled h hl hd hdl
  refine ⟨pairs_of_filled hfilled, countP_le_of_filled hfilled fun x y hx hp => ?_,
    countP_ge_of_filled hfilled fun x y hx hq => ?_, pending_of_filled hfilled, fun hs => ?_⟩
  · simp only [Bool.and_eq_true, decide_eq_true_eq] at hp ⊢
    have hlo : y.lo = x.lo := hx.lo.resolve_left (by rw [hp.2]; nofun)
    have hro : y.ro = x.ro := hx.ro.resolve_left (by rw [hp.1]; nofun)
    rw [hlo, hro]
    exact hp
  · simp only [Bool.and_eq_true, decide_eq_true_eq] at hq ⊢
    refine ⟨fun hlo => hq.1 ?_, fun hro => hq.2 ?_⟩
    · rw [hx.lo.resolve_left (by rw [hlo]; nofun), hlo]
    · rw [hx.ro.resolve_left (by rw [hro]; nofun), hro]
  · have hnone := List.map_eq_nil_iff.mp hs
    refine ⟨countP_of_settled hnone fun x hlo hro => ?_, countP_of_settled hnone fun x hlo hro => ?_⟩
    · obtain ⟨lo, hlo⟩ := Option.ne_none_iff_exists'.mp hlo
      cases lo <;> simp [hlo]
    · obtain ⟨lo, hlo⟩ := Option.ne_none_iff_exists'.mp hlo
      cases lo <;> simp [hlo]

/-- An arm of one commit with this outcome. -/
def oneCommit (arm : String) (outcome : Option Bool) : ArmReading where
  arm
  look := ⟨.descriptive, 0, 0, 0, some 1, 0, none⟩
  commits := [⟨"a", "a", outcome, none, "", none, none⟩]
  descriptive := true
  stoppedBy := ""
  waiting := false
  limit := 1
  scopeFaults := []
  unsealedDropped := 0
  duplicateCommits := 0

lemma refines_oneCommit (arm : String) (o : Bool) :
    Refines (oneCommit arm none) (oneCommit arm (some o)) :=
  ⟨rfl, .cons ⟨rfl, rfl, .inl rfl⟩ .nil⟩

/-- A commit that the loop turns clean, awaited on both arms at first. -/
theorem loopPair_refines_oneCommit :
    (loopPair (oneCommit "A0" none) (oneCommit "A0+L" none)).c = 1 ∧
      (loopPair (oneCommit "A0" (some false)) (oneCommit "A0+L" (some true))).b = 1 ∧
      (loopPair (oneCommit "A0" none) (oneCommit "A0+L" none)).b ≤
        (loopPair (oneCommit "A0" (some false)) (oneCommit "A0+L" (some true))).b :=
  ⟨by decide, by decide,
    (loopPair_refines (refines_oneCommit "A0" false) (refines_oneCommit "A0+L" true) (by decide)
      (by decide)).2.1⟩

end Closed

end CommitReplay.LoopPairs
