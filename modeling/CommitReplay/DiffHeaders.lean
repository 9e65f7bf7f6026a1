import CommitReplay.UnifiedDiff
import CommitReplay.JsonRoundTrip

/-! What a reader of lines meets in a diff: each line git prints is one line up to the first other boundary
of `str.splitlines` in it, and a hunk header is read back as its counts. -/
namespace CommitReplay.DiffHeaders

open CommitReplay.PythonText CommitReplay.PriorityRegex CommitReplay.LineRegex CommitReplay.UnifiedDiff

section Numbers

lemma decimalDigit_of_isDigit {c : Char} (h : c.isDigit = true) : decimalDigit c = some (c.toNat - 48) := by
  have hc : 48 ≤ c.toNat ∧ c.toNat ≤ 57 := Char.isDigit_iff_toNat.mp h
  have hfirst : digitBlocks = 48 :: digitBlocks.tail := rfl
  rw [decimalDigit, hfirst, List.find?_cons_of_pos (by simpa using ⟨hc.1, by omega⟩)]
  rfl

lemma isDecimal_of_isDigit {c : Char} (h : c.isDigit = true) : isDecimal c = true := by
  rw [isDecimal, decimalDigit_of_isDigit h]
  rfl

lemma isDecimal_toDigits (n : ℕ) : ∀ c ∈ Nat.toDigits 10 n, isDecimal c = true :=
  fun _ hc => isDecimal_of_isDigit (JsonRoundTrip.toDigits_isDigit hc)

lemma decimalValue_digits {ds : Text} (h : ∀ c ∈ ds, c.isDigit = true) :
    decimalValue ds = Nat.ofDigitChars 10 ds 0 := by
  suffices H : ∀ n : ℕ, ds.foldl (fun n c => n * 10 + (decimalDigit c).getD 0) n =
      ds.foldl (fun n c => 10 * n + (c.toNat - '0'.toNat)) n from H 0
  intro n
  induction ds generalizing n with
  | nil => rfl
  | cons d ds ih =>
    rw [List.foldl_cons, List.foldl_cons, decimalDigit_of_isDigit (h d List.mem_cons_self), Nat.mul_comm]
    exact ih (fun c hc => h c (List.mem_cons_of_mem d hc)) _

@[simp] lemma decimalValue_toDigits (n : ℕ) : decimalValue (Nat.toDigits 10 n) = n :=
  (decimalValue_digits fun _ hc => JsonRoundTrip.toDigits_isDigit hc).trans (JsonRoundTrip.natOf_toDigits n)

end Numbers

section Patterns

variable {s : At} {r : Text}

lemma head_run_seq {a b : Rx} {t u : At} (ha : (run a s).head? = some t) (hb : (run b t).head? = some u) :
    (run (.seq a b) s).head? = some u := by
  rw [run_seq]
  exact head_flatMap ha hb

/-- What the group of a pattern takes up. -/
def taken (i : Option ℕ) (m : Text) : Groups := i.toList.map fun i => (i, m)

lemma head_run_text {w : Text} (hs : s.rest = w ++ r) :
    ∃ prev, (run (.lit id w) s).head? = some ⟨prev, r, s.groups⟩ := by
  refine ⟨(s.advance w.length).prev, ?_⟩
  rw [run_lit_id, if_pos (hs ▸ List.prefix_append w r), List.head?_cons, At.advance, hs, List.drop_left]

lemma head_run_number (i : Option ℕ) {ds : Text} (hs : s.rest = ds ++ r) (hds : ds ≠ [])
    (hdigits : ∀ c ∈ ds, isDecimal c = true) (hrest : r.head?.any isDecimal = false) :
    ∃ prev, (run (number i) s).head? = some ⟨prev, r, taken i ds ++ s.groups⟩ := by
  have hhead : s.rest.head?.any isDecimal = true := by
    obtain ⟨d, ds, rfl⟩ := List.exists_cons_of_ne_nil hds
    simp [hs, hdigits d List.mem_cons_self]
  have hmany := head_run_many hhead
  rw [hs, takeWhile_append_stop hdigits hrest] at hmany
  have hleft : (s.advance ds.length).rest = r := by rw [At.advance, hs, List.drop_left]
  cases i with
  | none =>
    refine ⟨(s.advance ds.length).prev, ?_⟩
    rw [number, hmany, ← hleft]
    rfl
  | some i =>
    refine ⟨(s.advance ds.length).prev, ?_⟩
    rw [number, run_group, List.head?_map, hmany, Option.map_some, hleft, hs, List.length_append,
      Nat.add_sub_cancel, List.take_left]
    rfl

/-- The digits of a count that is not one, in the group. -/
def countGroups (i : Option ℕ) (k : ℕ) : Groups := if k = 1 then [] else taken i (Nat.toDigits 10 k)

lemma head_run_count (i : Option ℕ) {k : ℕ} (hrest : r.head? = some ' ') (hs : s.rest = countText k ++ r) :
    ∃ prev, (run (count i) s).head? = some ⟨prev, r, countGroups i k ++ s.groups⟩ := by
  obtain ⟨tail, rfl⟩ := List.head?_eq_some_iff.mp hrest
  have halt : run (count i) s = run (.seq (.lit id [',']) (number i)) s ++ run (.lit id []) s := rfl
  rw [halt, run_seq, countGroups]
  rw [countText] at hs
  split_ifs at hs ⊢ with hk
  · obtain ⟨prev, hprev⟩ := head_run_text (s := s) (w := []) (r := ' ' :: tail) hs
    refine ⟨prev, ?_⟩
    rw [run_lit_id [','], if_neg (by simp [hs])]
    exact hprev
  · obtain ⟨prev, hcomma⟩ := head_run_text (s := s) (w := [',']) hs
    obtain ⟨prev', hnumber⟩ := head_run_number (s := ⟨prev, Nat.toDigits 10 k ++ ' ' :: tail, s.groups⟩) i rfl
      Nat.toDigits_ne_nil (isDecimal_toDigits k) rfl
    refine ⟨prev', ?_⟩
    rw [List.head?_append, head_flatMap hcomma hnumber]
    rfl

/-- The digits of a number stop at the count behind it. -/
lemma head_countText (k : ℕ) (hrest : r.head? = some ' ') : (countText k ++ r).head?.any isDecimal = false := by
  rw [countText]
  split_ifs
  · rw [List.nil_append, hrest]
    rfl
  · rfl

lemma head_run_span (i j : Option ℕ) {b k : ℕ} (hrest : r.head? = some ' ')
    (hs : s.rest = spanText b k ++ r) : ∃ prev, (run (span i j) s).head? =
      some ⟨prev, r, countGroups j k ++ (taken i (Nat.toDigits 10 (startOf b k)) ++ s.groups)⟩ := by
  rw [spanText, List.append_assoc] at hs
  obtain ⟨p, hp⟩ := head_run_number i hs Nat.toDigits_ne_nil (isDecimal_toDigits _) (head_countText k hrest)
  obtain ⟨q, hq⟩ := head_run_count (s := ⟨p, countText k ++ r, _⟩) j hrest rfl
  exact ⟨q, head_run_seq hp hq⟩

end Patterns

section Headers

/-- A hunk header is matched, each group with its digits. -/
theorem readLine_header (oc ns nc : Option ℕ) (h : Hunk) (old new : ℕ) (tail : Text) :
    readLine (run (hunkRx oc ns nc)) (h.spans old new ++ tail) =
      some (countGroups nc (newCount h.lines) ++ (taken ns (Nat.toDigits 10 (startOf new (newCount h.lines))) ++
        countGroups oc (oldCount h.lines))) := by
  have hread : ∀ (o n : ℕ) (l : Text), readLine (run (hunkRx oc ns nc)) ("@@ -".toList ++
      (spanText old o ++ (" +".toList ++ (spanText new n ++ (" @@".toList ++ l))))) =
        some (countGroups nc n ++ (taken ns (Nat.toDigits 10 (startOf new n)) ++ countGroups oc o)) := by
    intro o n l
    obtain ⟨p, hp⟩ := head_run_text (s := ⟨none, _, []⟩) (w := "@@ -".toList)
      (r := spanText old o ++ (" +".toList ++ (spanText new n ++ (" @@".toList ++ l)))) rfl
    obtain ⟨q, hq⟩ := head_run_span none oc (s := ⟨p, _, []⟩) (b := old) (k := o)
      (r := " +".toList ++ (spanText new n ++ (" @@".toList ++ l))) rfl rfl
    obtain ⟨r, hr⟩ := head_run_text (s := ⟨q, _, countGroups oc o ++ []⟩) (w := " +".toList)
      (r := spanText new n ++ (" @@".toList ++ l)) rfl
    obtain ⟨t, ht⟩ := head_run_span ns nc (s := ⟨r, _, countGroups oc o ++ []⟩) (b := new) (k := n)
      (r := " @@".toList ++ l) rfl rfl
    obtain ⟨u, hu⟩ := head_run_text (s := ⟨t, _, countGroups nc n ++ (taken ns (Nat.toDigits 10 (startOf new n)) ++
      (countGroups oc o ++ []))⟩) (w := " @@".toList) (r := l) rfl
    rw [readLine, hunkRx, head_run_seq hp (head_run_seq hq (head_run_seq hr (head_run_seq ht hu)))]
    simp only [Option.map_some, List.append_nil]
  simp only [Hunk.spans, List.append_assoc]
  exact hread _ _ _

/-- The counts of both sides. -/
lemma hunkHeader_header (h : Hunk) (old new : ℕ) (tail : Text) :
    ∃ g, readLine (run hunkHeader) (h.spans old new ++ tail) = some g ∧
      countOf g 1 = oldCount h.lines ∧ countOf g 2 = newCount h.lines := by
  refine ⟨_, readLine_header (some 1) none (some 2) h old new tail, ?_, ?_⟩ <;>
    simp only [countOf, countGroups, taken] <;> split_ifs <;> simp_all [List.lookup]

/-- The lines of the new side. -/
lemma named_header (h : Hunk) (old new : ℕ) (tail : Text) : named (h.spans old new ++ tail) =
    if newCount h.lines = 0 then {max new 1} else Finset.Ico (new + 1) (new + 1 + newCount h.lines) := by
  have hlookup : ∀ k (m : Text), countOf (countGroups (some 2) k ++ (taken (some 1) m ++
      countGroups none (oldCount h.lines))) 2 = k := by
    intro k m
    rw [countOf, countGroups]
    split_ifs with h1
    · simp [taken, countGroups, List.lookup, h1]
    · simp [taken]
  have hgroup : ∀ k (m : Text), groupText (countGroups (some 2) k ++ (taken (some 1) m ++
      countGroups none (oldCount h.lines))) 1 = m := by
    intro k m
    rw [groupText, countGroups]
    split_ifs <;> simp [taken, List.lookup]
  rw [named, hunkRe, readLine_header]
  simp only [Option.elim_some]
  rw [hlookup, hgroup, decimalValue_toDigits, startOf]
  split_ifs <;> rfl

/-- A line that does not begin as a header is none. -/
lemma readLine_hunkRx_eq_none (oc ns nc : Option ℕ) {line : Text} (h : line.head? ≠ some '@') :
    readLine (run (hunkRx oc ns nc)) line = none := by
  rw [readLine, hunkRx, run_seq, run_lit_id, if_neg]
  · rfl
  · intro hw
    obtain ⟨t, rfl⟩ : "@@ -".toList <+: line := hw
    exact h rfl

lemma named_eq_empty {line : Text} (h : line.head? ≠ some '@') : named line = ∅ := by
  rw [named, hunkRe, readLine_hunkRx_eq_none _ _ _ h]
  rfl

end Headers

section Pieces

/-- The lines `str.splitlines` makes of one line of the diff. -/
def pieces (l : Text) : List Text := splitlines (l ++ ['\n'])

def first (l : Text) : Text := (pieces l).headD []

/-- What stands behind the boundaries in a line. -/
def later (l : Text) : List Text := (pieces l).tail

lemma pieces_eq (l : Text) : pieces l = first l :: later l := by
  cases h : pieces l with
  | nil => exact absurd h (splitlines_break_ne_nil l [] '\n')
  | cons p ps => rw [first, later, h]; rfl

/-- What stands before a line's text on its line is on its first piece. -/
lemma pieces_append {w : Text} (hw : ∀ c ∈ w, isLineBreak c = false) (l : Text) :
    pieces (w ++ l) = (w ++ first l) :: later l := by
  induction w with
  | nil => exact pieces_eq l
  | cons c w ih =>
    have hrest : splitlines (w ++ l ++ ['\n']) = (w ++ first l) :: later l :=
      ih fun d hd => hw d (List.mem_cons_of_mem c hd)
    have hcons : splitlines (c :: (w ++ l ++ ['\n'])) = _ := splitlines_cons_plain (hw c List.mem_cons_self)
    rw [hrest] at hcons
    exact hcons

lemma pieces_plain {l : Text} (hl : ∀ c ∈ l, isLineBreak c = false) : pieces l = [l] := by
  have h := pieces_append hl []
  rw [List.append_nil] at h
  exact h.trans (congrArg₂ List.cons (List.append_nil l) rfl)

theorem splitlines_unlines (ls : List Text) : splitlines (unlines ls) = ls.flatMap pieces := by
  induction ls with
  | nil => rfl
  | cons l ls ih =>
    rw [unlines, List.flatMap_cons, List.append_assoc, List.singleton_append,
      splitlines_append_break l _ (by decide) (by decide), List.flatMap_cons, ← ih]
    rfl

/-- A reader by the counts passes over all that stands behind a boundary in the line. -/
def Harmless (l : Text) : Prop := ∀ p ∈ later l, p.head? = some '\\'

instance decidableHarmless (l : Text) : Decidable (Harmless l) := inferInstanceAs (Decidable (∀ _ ∈ _, _))

/-- A line with no boundary in it is harmless, and so is one with a carriage return at its end. -/
lemma harmless_of_plain {l : Text} (hl : ∀ c ∈ l, isLineBreak c = false) : Harmless l := by
  intro p hp
  rw [later, pieces_plain hl] at hp
  cases hp

lemma harmless_of_return {l : Text} (hl : ∀ c ∈ l, isLineBreak c = false) : Harmless (l ++ ['\r']) := by
  intro p hp
  rw [later, pieces_append hl] at hp
  cases hp

end Pieces

end CommitReplay.DiffHeaders
