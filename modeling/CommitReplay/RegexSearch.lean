import CommitReplay.PriorityRegex

/-! Searching a text for a match of an expression. A character that no match holds, and that is of no
word, cuts the text in two that are searched apart. -/
namespace CommitReplay.RegexSearch

open CommitReplay.PythonText CommitReplay.PriorityRegex

section Search

variable (r : Rx)

/-- Whether the expression matches at a place. -/
def matchesAt (prev : Option Char) (s : Text) : Bool := !(run r ⟨prev, s, []⟩).isEmpty

def searchFrom : Option Char → Text → Bool
  | prev, [] => matchesAt r prev []
  | prev, c :: cs => matchesAt r prev (c :: cs) || searchFrom (some c) cs

/-- `search`. -/
def search (s : Text) : Bool := searchFrom r none s

end Search

section Apart

/-- A character is of no word where the expression asks for a boundary. -/
@[simp] def OfNoWord (x : Char) : Rx → Prop
  | .bound isWord => isWord x = false
  | .seq a b | .alt a b => OfNoWord x a ∧ OfNoWord x b
  | .group _ a => OfNoWord x a
  | _ => True

/-- A character that no match holds. -/
@[simp] def Foreign (x : Char) : Rx → Prop
  | .lit fold w => fold x ∉ w
  | .one p | .many _ _ p | .fewest p => p x = false
  | .bound _ => True
  | .seq a b | .alt a b => Foreign x a ∧ Foreign x b
  | .group _ a => Foreign x a

/-- The same place, with more of the text behind it, or with a character before the text. -/
structure Near (x : Char) (y : Text) (s t : At) : Prop where
  rest : t.rest = s.rest ++ y
  prev : t.prev = s.prev ∨ s.prev = none ∧ t.prev = some x

variable {x : Char} {y : Text}

lemma Near.advance {s t : At} (h : Near x y s t) {k : ℕ} (hk : k ≤ s.rest.length) :
    Near x y (s.advance k) (t.advance k) := by
  refine ⟨?_, ?_⟩
  · rw [At.advance, At.advance]
    dsimp only
    rw [h.rest, List.drop_append_of_le_length hk]
  · rw [At.advance, At.advance]
    dsimp only
    rw [h.rest, List.take_append_of_le_length hk]
    cases hlast : (s.rest.take k).getLast? with
    | none => simpa using h.prev
    | some c => simp

lemma takeWhile_near {p : Char → Bool} (hp : y = [] ∨ y.head? = some x ∧ p x = false) (l : Text) :
    (l ++ y).takeWhile p = l.takeWhile p := by
  induction l with
  | nil =>
    rcases hp with rfl | ⟨hy, hx⟩
    · rfl
    · cases y with
      | nil => rfl
      | cons c cs =>
        obtain rfl := Option.some.inj hy
        rw [List.nil_append, List.takeWhile_cons_of_neg (by simp [hx]), List.takeWhile_nil]
  | cons c cs ih => rw [List.cons_append, List.takeWhile_cons, List.takeWhile_cons, ih]

/-- What is behind a text does not change where a match in the text ends. -/
lemma lit_near {fold : Char → Char} {w : Text} (hw : y = [] ∨ y.head? = some x ∧ fold x ∉ w) (l : Text) :
    (((l ++ y).take w.length).map fold = w ↔ (l.take w.length).map fold = w) ∧
      ((l.take w.length).map fold = w → w.length ≤ l.length) := by
  have hlen : (l.take w.length).map fold = w → w.length ≤ l.length := by
    intro h
    have hl := congrArg List.length h
    rw [List.length_map, List.length_take] at hl
    omega
  refine ⟨?_, hlen⟩
  by_cases hle : w.length ≤ l.length
  · rw [List.take_append_of_le_length hle]
  · refine iff_of_false (fun h => ?_) (fun h => hle (hlen h))
    rcases hw with rfl | ⟨hy, hx⟩
    · rw [List.append_nil] at h
      exact hle (hlen h)
    · cases y with
      | nil => cases hy
      | cons c cs =>
        obtain rfl := Option.some.inj hy
        refine hx ?_
        rw [← h]
        refine List.mem_map_of_mem ?_
        rw [List.take_append]
        refine List.mem_append_right _ ?_
        obtain ⟨n, hn⟩ : ∃ n, w.length - l.length = n + 1 := ⟨w.length - l.length - 1, by omega⟩
        rw [hn]
        exact List.mem_cons_self

/-- The matches at a place do not change with what is before the text and behind it. -/
theorem run_near {r : Rx} (hword : OfNoWord x r) (hy : y = [] ∨ y.head? = some x ∧ Foreign x r) {s t : At}
    (h : Near x y s t) : List.Forall₂ (Near x y) (run r s) (run r t) := by
  induction r generalizing s t with
  | lit fold w =>
    obtain ⟨hiff, hlen⟩ := lit_near hy s.rest
    rw [run_lit, run_lit, h.rest, if_congr hiff rfl rfl]
    split_ifs with hw
    · exact .cons (h.advance (hlen hw)) .nil
    · exact .nil
  | one p =>
    rw [run_one, run_one, h.rest]
    cases hs : s.rest with
    | nil =>
      rcases hy with rfl | ⟨hx, hp⟩
      · exact .nil
      · rw [List.nil_append, hx, Option.any_some, show p x = false from hp]
        exact .nil
    | cons c cs =>
      rw [List.cons_append, List.head?_cons, List.head?_cons]
      split_ifs
      · exact .cons (h.advance (by simp [hs])) .nil
      · exact .nil
  | many min max p =>
    have htake := takeWhile_near hy s.rest
    simp only [run, h.rest, htake]
    refine List.forall₂_map_right_iff.mpr (List.forall₂_map_left_iff.mpr (List.forall₂_same.mpr ?_))
    intro k hk
    refine h.advance (le_trans ?_ (List.takeWhile_sublist p).length_le)
    rw [List.mem_reverse, List.mem_range'_1] at hk
    cases max with
    | none => simp only [Option.map_none, Option.getD_none] at hk; omega
    | some m =>
      simp only [Option.map_some, Option.getD_some] at hk
      have hle : (s.rest.takeWhile p).length.min m ≤ (s.rest.takeWhile p).length := Nat.min_le_left ..
      omega
  | fewest p =>
    have htake := takeWhile_near hy s.rest
    simp only [run, h.rest, htake]
    refine List.forall₂_map_right_iff.mpr (List.forall₂_map_left_iff.mpr (List.forall₂_same.mpr ?_))
    intro k hk
    refine h.advance (le_trans ?_ (List.takeWhile_sublist p).length_le)
    rw [List.mem_range] at hk
    omega
  | bound isWord =>
    have hprev : t.prev.any isWord = s.prev.any isWord := by
      rcases h.prev with he | ⟨hs, ht⟩
      · rw [he]
      · rw [hs, ht]
        exact hword
    have hnext : t.rest.head?.any isWord = s.rest.head?.any isWord := by
      rw [h.rest]
      cases s.rest with
      | nil =>
        rcases hy with rfl | ⟨hx, -⟩
        · rfl
        · rw [List.nil_append, hx]
          exact hword
      | cons c cs => rfl
    rw [run_bound, run_bound, hprev, hnext]
    split_ifs
    · exact .cons h .nil
    · exact .nil
  | seq a b iha ihb =>
    have ha := iha hword.1 (hy.imp_right fun h => ⟨h.1, h.2.1⟩) h
    rw [run_seq, run_seq]
    exact List.rel_flatMap ha fun _ _ hst => ihb hword.2 (hy.imp_right fun h => ⟨h.1, h.2.2⟩) hst
  | alt a b iha ihb =>
    exact List.rel_append (iha hword.1 (hy.imp_right fun h => ⟨h.1, h.2.1⟩) h)
      (ihb hword.2 (hy.imp_right fun h => ⟨h.1, h.2.2⟩) h)
  | group i a ih =>
    rw [run_group, run_group]
    refine List.forall₂_map_right_iff.mpr (List.forall₂_map_left_iff.mpr ?_)
    exact (ih hword hy h).imp fun _ _ hst => ⟨hst.rest, hst.prev⟩

variable {r : Rx}

lemma matchesAt_near (hword : OfNoWord x r) (hy : y = [] ∨ y.head? = some x ∧ Foreign x r)
    {prev prev' : Option Char} (hprev : prev' = prev ∨ prev = none ∧ prev' = some x) (s : Text) :
    matchesAt r prev' (s ++ y) = matchesAt r prev s := by
  have h := (run_near hword hy (s := ⟨prev, s, []⟩) (t := ⟨prev', s ++ y, []⟩) ⟨rfl, hprev⟩).length_eq
  have hempty : ∀ l : List At, l.isEmpty = (l.length == 0) := fun l => by cases l <;> rfl
  rw [matchesAt, matchesAt, hempty, hempty, h]

/-- A character of no word before a text is as good as none. -/
lemma searchFrom_some (hword : OfNoWord x r) (s : Text) : searchFrom r (some x) s = search r s := by
  have hat := matchesAt_near (y := []) hword (.inl rfl) (.inr ⟨rfl, rfl⟩) s
  rw [List.append_nil] at hat
  cases s with
  | nil => exact hat
  | cons c cs => rw [search, searchFrom, searchFrom, hat]

lemma searchFrom_append (hword : OfNoWord x r) (hx : Foreign x r) (prev : Option Char) (a b : Text) :
    searchFrom r prev (a ++ x :: b) = (searchFrom r prev a || search r b) := by
  induction a generalizing prev with
  | nil =>
    have hat := matchesAt_near (y := x :: b) hword (.inr ⟨rfl, hx⟩) (.inl (Eq.refl prev)) []
    rw [List.nil_append] at hat ⊢
    rw [searchFrom, searchFrom, hat, searchFrom_some hword]
  | cons c cs ih =>
    have hat := matchesAt_near (y := x :: b) hword (.inr ⟨rfl, hx⟩) (.inl (Eq.refl prev)) (c :: cs)
    rw [List.cons_append] at hat ⊢
    rw [searchFrom, searchFrom, hat, ih, Bool.or_assoc]

/-- A text is searched on both sides of a character that no match holds. -/
theorem search_append (hword : OfNoWord x r) (hx : Foreign x r) (a b : Text) :
    search r (a ++ x :: b) = (search r a || search r b) :=
  searchFrom_append hword hx none a b

/-- A character before a text at which no match begins. -/
lemma search_cons (hword : OfNoWord x r) {s : Text} (hx : matchesAt r none (x :: s) = false) :
    search r (x :: s) = search r s := by
  rw [search, searchFrom, hx, Bool.false_or, searchFrom_some hword]

end Apart

end CommitReplay.RegexSearch
