import CommitReplay.PythonText

/-! Regular expressions as a backtracking engine reads them: an expression's ways to match at a
place are listed in the order they are tried, and the first is taken. -/
namespace CommitReplay.PriorityRegex

open CommitReplay.PythonText

/-- A place in a text, with the groups matched so far, the latest first. -/
structure At where
  prev : Option Char
  rest : Text
  groups : List (ℕ × Text)

/-- The place some characters on. -/
def At.advance (s : At) (k : ℕ) : At :=
  { s with prev := (s.rest.take k).getLast?.or s.prev, rest := s.rest.drop k }

inductive Rx
  /-- A text that is `w` once each character is folded. -/
  | lit (fold : Char → Char) (w : Text)
  | one (p : Char → Bool)
  /-- As many characters as there are, from `min` up to `max`. -/
  | many (min : ℕ) (max : Option ℕ) (p : Char → Bool)
  /-- As few characters as will do. -/
  | fewest (p : Char → Bool)
  /-- The boundary of a word. -/
  | bound (isWord : Char → Bool)
  | seq (a b : Rx)
  | alt (a b : Rx)
  | group (i : ℕ) (a : Rx)

@[simp] def Rx.opt (a : Rx) : Rx := .alt a (.lit id [])

@[simp] def Rx.concat : List Rx → Rx
  | [] => .lit id []
  | [a] => a
  | a :: as => .seq a (.concat as)

/-- The places after the matches of an expression, in the order they are tried. -/
def run : Rx → At → List At
  | .lit fold w, s => if (s.rest.take w.length).map fold = w then [s.advance w.length] else []
  | .one p, s => if s.rest.head?.any p then [s.advance 1] else []
  | .many min max p, s =>
    let n := (max.map (Nat.min (s.rest.takeWhile p).length)).getD (s.rest.takeWhile p).length
    (List.range' min (n + 1 - min)).reverse.map s.advance
  | .fewest p, s => (List.range ((s.rest.takeWhile p).length + 1)).map s.advance
  | .bound isWord, s => if s.prev.any isWord != s.rest.head?.any isWord then [s] else []
  | .seq a b, s => (run a s).flatMap (run b)
  | .alt a b, s => run a s ++ run b s
  | .group i a, s => (run a s).map fun t =>
      { t with groups := (i, s.rest.take (s.rest.length - t.rest.length)) :: t.groups }

section Runs

variable (s : At)

lemma run_lit (fold : Char → Char) (w : Text) : run (.lit fold w) s =
    if (s.rest.take w.length).map fold = w then [s.advance w.length] else [] := rfl

lemma run_one (p : Char → Bool) : run (.one p) s = if s.rest.head?.any p then [s.advance 1] else [] := rfl

lemma run_bound (isWord : Char → Bool) : run (.bound isWord) s =
    if s.prev.any isWord != s.rest.head?.any isWord then [s] else [] := rfl

lemma run_seq (a b : Rx) : run (.seq a b) s = (run a s).flatMap (run b) := rfl

lemma run_group (i : ℕ) (a : Rx) : run (.group i a) s = (run a s).map fun t =>
    { t with groups := (i, s.rest.take (s.rest.length - t.rest.length)) :: t.groups } := rfl

end Runs

section Dead

/-- What is left after a match is of the text the match began in. -/
lemma rest_subset {r : Rx} {s t : At} (h : t ∈ run r s) : t.rest ⊆ s.rest := by
  have hadvance : ∀ k, (s.advance k).rest ⊆ s.rest := fun k => List.drop_subset k s.rest
  induction r generalizing s t with
  | lit fold w =>
    rw [run_lit] at h
    split_ifs at h
    · exact List.mem_singleton.mp h ▸ hadvance _
    · simp at h
  | one p =>
    rw [run_one] at h
    split_ifs at h
    · exact List.mem_singleton.mp h ▸ hadvance _
    · simp at h
  | many min max p =>
    obtain ⟨k, -, rfl⟩ := List.mem_map.mp h
    exact hadvance k
  | fewest p =>
    obtain ⟨k, -, rfl⟩ := List.mem_map.mp h
    exact hadvance k
  | bound isWord =>
    rw [run_bound] at h
    split_ifs at h
    · exact List.mem_singleton.mp h ▸ List.Subset.refl _
    · simp at h
  | seq a b iha ihb =>
    obtain ⟨u, hu, ht⟩ := List.mem_flatMap.mp h
    exact List.Subset.trans (ihb ht fun k => List.drop_subset k _) (iha hu hadvance)
  | alt a b iha ihb => exact (List.mem_append.mp h).elim (iha · hadvance) (ihb · hadvance)
  | group i a ih =>
    obtain ⟨u, hu, rfl⟩ := List.mem_map.mp h
    have hrest : u.rest ⊆ s.rest := ih hu hadvance
    exact hrest

/-- The expression matches nowhere in a text of these characters. -/
def Dead (q : Char → Prop) (r : Rx) : Prop := ∀ s : At, (∀ c ∈ s.rest, q c) → run r s = []

variable {q : Char → Prop}

lemma dead_lit {fold : Char → Char} {w : Text} {d : Char} (hd : d ∈ w) (h : ∀ c, q c → fold c ≠ d) :
    Dead q (.lit fold w) := by
  intro s hs
  rw [run_lit, if_neg]
  intro hw
  rw [← hw] at hd
  obtain ⟨c, hc, he⟩ := List.mem_map.mp hd
  exact h c (hs c (List.mem_of_mem_take hc)) he

lemma dead_one {p : Char → Bool} (h : ∀ c, q c → p c = false) : Dead q (.one p) := by
  intro s hs
  rw [run_one, if_neg]
  cases hrest : s.rest with
  | nil => simp
  | cons c cs => simp [h c (hs c (by simp [hrest]))]

lemma dead_seq_left {a b : Rx} (h : Dead q a) : Dead q (.seq a b) := by
  intro s hs
  rw [run_seq, h s hs]
  rfl

lemma dead_seq_right {a b : Rx} (h : Dead q b) : Dead q (.seq a b) := by
  intro s hs
  rw [run_seq, List.flatMap_eq_nil_iff]
  exact fun t ht => h t fun c hc => hs c (rest_subset ht hc)

lemma dead_group {i : ℕ} {a : Rx} (h : Dead q a) : Dead q (.group i a) := by
  intro s hs
  rw [run_group, h s hs]
  rfl

/-- One part that matches nowhere is enough. -/
lemma dead_concat {a : Rx} {as : List Rx} (ha : a ∈ as) (h : Dead q a) : Dead q (.concat as) := by
  induction as with
  | nil => simp at ha
  | cons b as ih =>
    cases as with
    | nil =>
      obtain rfl := List.mem_singleton.mp ha
      exact h
    | cons c as =>
      rcases List.mem_cons.mp ha with rfl | ha
      · exact dead_seq_left h
      · exact dead_seq_right (ih ha)

end Dead

section Language

/-- The texts an expression matches, with the groups each match adds, the latest first. -/
@[simp] def Matched : Rx → Text → List (ℕ × Text) → Prop
  | .lit fold w, m, g => m.map fold = w ∧ g = []
  | .one p, m, g => (∃ c, m = [c] ∧ p c = true) ∧ g = []
  | .many _ _ p, m, g => (∀ c ∈ m, p c = true) ∧ g = []
  | .fewest p, m, g => (∀ c ∈ m, p c = true) ∧ g = []
  | .bound _, m, g => m = [] ∧ g = []
  | .seq a b, m, g => ∃ m₁ m₂ g₁ g₂, m = m₁ ++ m₂ ∧ g = g₂ ++ g₁ ∧ Matched a m₁ g₁ ∧ Matched b m₂ g₂
  | .alt a b, m, g => Matched a m g ∨ Matched b m g
  | .group i a, m, g => ∃ g', g = (i, m) :: g' ∧ Matched a m g'

lemma mem_take_takeWhile {p : Char → Bool} {l : Text} {n : ℕ} (hn : n ≤ (l.takeWhile p).length) {c : Char}
    (hc : c ∈ l.take n) : p c = true := by
  rw [← List.takeWhile_append_dropWhile (p := p) (l := l), List.take_append_of_le_length hn] at hc
  exact List.mem_takeWhile_imp (List.mem_of_mem_take hc)

/-- What the engine finds is a match. -/
theorem matched_of_run {r : Rx} {s t : At} (h : t ∈ run r s) :
    ∃ m g, s.rest = m ++ t.rest ∧ t.groups = g ++ s.groups ∧ Matched r m g := by
  have hadvance : ∀ (s : At) k, s.rest = s.rest.take k ++ (s.advance k).rest := fun s k =>
    (List.take_append_drop k s.rest).symm
  induction r generalizing s t with
  | lit fold w =>
    rw [run_lit] at h
    split_ifs at h with hw
    · obtain rfl := List.mem_singleton.mp h
      exact ⟨_, [], hadvance s _, rfl, hw, rfl⟩
    · simp at h
  | one p =>
    rw [run_one] at h
    split_ifs at h with hp
    · obtain rfl := List.mem_singleton.mp h
      refine ⟨_, [], hadvance s 1, rfl, ?_, rfl⟩
      cases hrest : s.rest with
      | nil => simp [hrest] at hp
      | cons c cs => exact ⟨c, by simp, by simpa [hrest] using hp⟩
    · simp at h
  | many min max p =>
    obtain ⟨k, hk, rfl⟩ := List.mem_map.mp h
    refine ⟨_, [], hadvance s k, rfl, fun c hc => mem_take_takeWhile ?_ hc, rfl⟩
    rw [List.mem_reverse, List.mem_range'_1] at hk
    cases max with
    | none =>
      simp only [Option.map_none, Option.getD_none] at hk
      omega
    | some max =>
      simp only [Option.map_some, Option.getD_some] at hk
      have : Nat.min (s.rest.takeWhile p).length max ≤ (s.rest.takeWhile p).length := Nat.min_le_left _ _
      omega
  | fewest p =>
    obtain ⟨k, hk, rfl⟩ := List.mem_map.mp h
    rw [List.mem_range] at hk
    exact ⟨_, [], hadvance s k, rfl, fun c hc => mem_take_takeWhile (by omega) hc, rfl⟩
  | bound isWord =>
    rw [run_bound] at h
    split_ifs at h
    · obtain rfl := List.mem_singleton.mp h
      exact ⟨[], [], rfl, rfl, rfl, rfl⟩
    · simp at h
  | seq a b iha ihb =>
    obtain ⟨u, hu, ht⟩ := List.mem_flatMap.mp h
    obtain ⟨m₁, g₁, hm₁, hg₁, h₁⟩ := iha hu
    obtain ⟨m₂, g₂, hm₂, hg₂, h₂⟩ := ihb ht
    exact ⟨m₁ ++ m₂, g₂ ++ g₁, by rw [hm₁, hm₂, List.append_assoc],
      by rw [hg₂, hg₁, List.append_assoc], m₁, m₂, g₁, g₂, rfl, rfl, h₁, h₂⟩
  | alt a b iha ihb =>
    obtain h | h := List.mem_append.mp h
    · obtain ⟨m, g, hm, hg, hab⟩ := iha h
      exact ⟨m, g, hm, hg, .inl hab⟩
    · obtain ⟨m, g, hm, hg, hab⟩ := ihb h
      exact ⟨m, g, hm, hg, .inr hab⟩
  | group i a ih =>
    obtain ⟨u, hu, rfl⟩ := List.mem_map.mp h
    obtain ⟨m, g, hm, hg, ha⟩ := ih hu
    refine ⟨m, (i, m) :: g, hm, ?_, g, rfl, ha⟩
    simp only [List.cons_append, hg]
    rw [show s.rest.take (s.rest.length - u.rest.length) = m by simp [hm]]

end Language

section Greedy

variable {p : Char → Bool} {s : At}

lemma run_lit_id (w : Text) (s : At) :
    run (.lit id w) s = if w <+: s.rest then [s.advance w.length] else [] := by
  rw [run_lit, List.map_id]
  refine if_congr ?_ rfl rfl
  rw [List.prefix_iff_eq_take, eq_comm]

/-- As many characters as there are, and no fewer to begin with. -/
lemma run_many (p : Char → Bool) (s : At) :
    run (.many 1 none p) s = ((List.range' 1 (s.rest.takeWhile p).length).reverse).map s.advance := rfl

lemma run_many_eq_nil (h : s.rest.head?.any p = false) : run (.many 1 none p) s = [] := by
  rw [run_many]
  cases hs : s.rest with
  | nil => rfl
  | cons c cs =>
    rw [hs] at h
    rw [List.takeWhile_cons_of_neg (by simpa using h)]
    rfl

lemma head_run_many (h : s.rest.head?.any p = true) :
    (run (.many 1 none p) s).head? = some (s.advance (s.rest.takeWhile p).length) := by
  rw [run_many]
  cases hs : s.rest with
  | nil => simp [hs] at h
  | cons c cs =>
    rw [hs] at h
    rw [List.takeWhile_cons_of_pos (by simpa using h), List.length_cons, List.range'_concat]
    simp [Nat.add_comm]

lemma head_flatMap {α β : Type} {l : List α} {f : α → List β} {a : α} {b : β} (ha : l.head? = some a)
    (hb : (f a).head? = some b) : (l.flatMap f).head? = some b := by
  obtain ⟨l', rfl⟩ := List.head?_eq_some_iff.mp ha
  obtain ⟨m, hm⟩ := List.head?_eq_some_iff.mp hb
  rw [List.flatMap_cons, hm]
  rfl

lemma takeWhile_append_stop {l rest : Text} (hl : ∀ c ∈ l, p c = true) (hrest : rest.head?.any p = false) :
    (l ++ rest).takeWhile p = l := by
  rw [List.takeWhile_append_of_pos hl]
  cases rest with
  | nil => simp
  | cons c cs => rw [List.takeWhile_cons_of_neg (by simpa using hrest), List.append_nil]

end Greedy

/-- The text of a group of a match. -/
def groupText (groups : List (ℕ × Text)) (i : ℕ) : Text := (groups.lookup i).getD []

section Substitution

variable (r : Rx) (repl : List (ℕ × Text) → Text)

/-- Every match replaced, from the left; the text's length bounds the rounds. The expression
matches no empty text. -/
def subFrom : ℕ → Option Char → Text → Text
  | _, _, [] => []
  | 0, _, rest => rest
  | fuel + 1, prev, c :: cs =>
    match (run r ⟨prev, c :: cs, []⟩).head? with
    | some t => repl t.groups ++ subFrom fuel t.prev t.rest
    | none => c :: subFrom fuel (some c) cs

def sub (s : Text) : Text := subFrom r repl s.length none s

variable {r repl}

lemma subFrom_cons (fuel : ℕ) (prev : Option Char) (c : Char) (cs : Text) :
    subFrom r repl (fuel + 1) prev (c :: cs) =
      match (run r ⟨prev, c :: cs, []⟩).head? with
      | some t => repl t.groups ++ subFrom r repl fuel t.prev t.rest
      | none => c :: subFrom r repl fuel (some c) cs := rfl

/-- A text is left as it is, or holds what every replacement holds. -/
lemma subFrom_eq_or_mem {m : Char} (hm : ∀ groups, m ∈ repl groups) (fuel : ℕ)
    (prev : Option Char) (s : Text) : subFrom r repl fuel prev s = s ∨ m ∈ subFrom r repl fuel prev s := by
  induction fuel generalizing prev s with
  | zero => cases s <;> exact .inl rfl
  | succ fuel ih =>
    cases s with
    | nil => exact .inl rfl
    | cons c cs =>
      rw [subFrom_cons]
      split
      · exact .inr (List.mem_append_left _ (hm _))
      · exact (ih (some c) cs).imp (congrArg _) (List.mem_cons_of_mem _)

theorem sub_eq_or_mem {m : Char} (hm : ∀ groups, m ∈ repl groups) (s : Text) :
    sub r repl s = s ∨ m ∈ sub r repl s :=
  subFrom_eq_or_mem hm _ _ _

/-- A text the expression matches nowhere in is left as it is. -/
lemma subFrom_eq_self {q : Char → Prop} (h : Dead q r) {fuel : ℕ} {prev : Option Char} {s : Text}
    (hs : ∀ c ∈ s, q c) : subFrom r repl fuel prev s = s := by
  induction fuel generalizing prev s with
  | zero => cases s <;> rfl
  | succ fuel ih =>
    cases s with
    | nil => rfl
    | cons c cs =>
      rw [subFrom_cons, h _ hs]
      exact congrArg _ (ih fun d hd => hs d (List.mem_cons_of_mem c hd))

theorem sub_eq_self {q : Char → Prop} (h : Dead q r) {s : Text} (hs : ∀ c ∈ s, q c) :
    sub r repl s = s :=
  subFrom_eq_self h hs

/-- One text is the other's beginning. -/
def Agree (m q : Text) : Prop := m <+: q ∨ q <+: m

/-- No match begins as this text does, and no replacement of one. -/
def Avoids (r : Rx) (repl : List (ℕ × Text) → Text) (q : Text) : Prop :=
  ∀ m g, Matched r m g → ¬ Agree m q ∧ ¬ Agree (repl g) q

lemma agree_of_prefix {m n x y q : Text} (hm : m ++ x = n ++ y) (hq : q <+: n ++ y) : Agree m q :=
  List.prefix_or_prefix_of_prefix (hm ▸ List.prefix_append m x) hq

/-- A text begins as before where no match and no replacement begins as any end of that beginning. -/
lemma prefix_subFrom {q : Text} (h : ∀ q', q' ≠ [] → q' <:+ q → Avoids r repl q') (fuel : ℕ)
    (prev : Option Char) (s : Text) : q <+: subFrom r repl fuel prev s ↔ q <+: s := by
  induction fuel generalizing prev s q with
  | zero => cases s <;> exact Iff.rfl
  | succ fuel ih =>
    cases q with
    | nil => simp
    | cons d q =>
      cases s with
      | nil => exact Iff.rfl
      | cons c cs =>
        rw [subFrom_cons]
        split
        · rename_i t ht
          obtain ⟨m, g, hm, hg, hmatch⟩ := matched_of_run (List.mem_of_head? ht)
          obtain ⟨hno, hrepl⟩ := h (d :: q) (by simp) List.suffix_rfl m g hmatch
          simp only [List.append_nil] at hg
          refine iff_of_false (fun hq => hrepl ?_) fun hq => hno ?_
          · exact agree_of_prefix (congrArg (repl · ++ _) hg.symm) hq
          · exact agree_of_prefix (n := []) (x := t.rest) (y := c :: cs) hm.symm hq
        · rw [List.cons_prefix_cons, List.cons_prefix_cons,
            ih fun q' hne hq' => h q' hne (hq'.trans (List.suffix_cons d q))]

theorem prefix_sub {q : Text} (h : ∀ q', q' ≠ [] → q' <:+ q → Avoids r repl q') (s : Text) :
    q <+: sub r repl s ↔ q <+: s :=
  prefix_subFrom h _ _ _

end Substitution

section Beginnings

lemma Agree.of_prefix {m₁ m q : Text} (h : Agree m q) (hm : m₁ <+: m) : Agree m₁ q := by
  obtain h | h := h
  · exact .inl (hm.trans h)
  · exact List.prefix_or_prefix_of_prefix hm h

lemma Agree.map {m q : Text} (h : Agree m q) (f : Char → Char) : Agree (m.map f) (q.map f) :=
  h.imp (·.map f) (·.map f)

instance decidableAgree (m q : Text) : Decidable (Agree m q) := inferInstanceAs (Decidable (_ ∨ _))

/-- Every match of the expression begins, folded, with one of the words. -/
def Begins (fold : Char → Char) (r : Rx) (ws : List Text) : Prop :=
  ∀ m g, Matched r m g → ∃ m₁, m₁ <+: m ∧ m₁.map fold ∈ ws

variable {fold : Char → Char} {a b : Rx} {ws vs : List Text}

lemma begins_lit (fold : Char → Char) (w : Text) : Begins fold (.lit fold w) [w] :=
  fun m _ h => ⟨m, List.prefix_rfl, by simp [h.1]⟩

lemma begins_seq (h : Begins fold a ws) : Begins fold (.seq a b) ws := by
  rintro m g ⟨m₁, m₂, g₁, g₂, rfl, -, ha, -⟩
  obtain ⟨n, hn, hw⟩ := h m₁ g₁ ha
  exact ⟨n, hn.trans (List.prefix_append _ _), hw⟩

lemma begins_bound {isWord : Char → Bool} (h : Begins fold b ws) :
    Begins fold (.seq (.bound isWord) b) ws := by
  rintro m g ⟨m₁, m₂, g₁, g₂, rfl, -, ha, hb⟩
  rw [ha.1]
  exact h m₂ g₂ hb

lemma begins_group {i : ℕ} (h : Begins fold a ws) : Begins fold (.group i a) ws := by
  rintro m g ⟨g', -, ha⟩
  exact h m g' ha

lemma begins_alt (h : Begins fold a ws) (h' : Begins fold b vs) : Begins fold (.alt a b) (ws ++ vs) := by
  rintro m g (ha | hb)
  · obtain ⟨n, hn, hw⟩ := h m g ha
    exact ⟨n, hn, List.mem_append_left _ hw⟩
  · obtain ⟨n, hn, hw⟩ := h' m g hb
    exact ⟨n, hn, List.mem_append_right _ hw⟩

lemma not_agree {m₁ m q w : Text} (hm : m₁ <+: m) (hw : m₁.map fold = w) (hno : ¬ Agree w (q.map fold)) :
    ¬ Agree m q :=
  fun h => hno (hw ▸ (h.of_prefix hm).map fold)

/-- An expression whose matches begin otherwise, and a replacement that does. -/
lemma avoids_of_begins {r : Rx} {repl : List (ℕ × Text) → Text} {q : Text} (hr : Begins fold r ws)
    (hws : ∀ w ∈ ws, ¬ Agree w (q.map fold)) (hrepl : ∀ m g, Matched r m g → ¬ Agree (repl g) q) :
    Avoids r repl q := by
  intro m g h
  obtain ⟨m₁, hm, hw⟩ := hr m g h
  exact ⟨not_agree hm rfl (hws _ hw), hrepl m g h⟩

end Beginnings

end CommitReplay.PriorityRegex
