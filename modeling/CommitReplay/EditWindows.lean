import CommitReplay.EditBlocks

/-! What an applied block changes: the window its search lines stand in, and nothing else. An edit that puts back what
it searched for changes nothing, unless what it searched for ends in a blank line. -/
namespace CommitReplay.EditWindows

open CommitReplay.PythonText CommitReplay.EditBlocks

section Windows

variable {key : Text → Text} {lines search : List Text} {i : ℕ}

/-- The search lines stand at an index, up to what the key leaves out. -/
def StandsAt (key : Text → Text) (lines search : List Text) (i : ℕ) : Prop :=
  i + search.length ≤ lines.length ∧ ((lines.drop i).take search.length).map key = search.map key

lemma lt_range_iff : i < lines.length + 1 - search.length ↔ i + search.length ≤ lines.length := by omega

/-- What is found is the first place where the search lines stand. -/
lemma findWindow_eq_some : findWindow key lines search = some i ↔
    StandsAt key lines search i ∧ ∀ j < i, ¬ StandsAt key lines search j := by
  rw [findWindow, List.find?_range_eq_some]
  simp only [List.mem_range, lt_range_iff, decide_eq_true_eq, Bool.not_eq_true', decide_eq_false_iff_not]
  constructor
  · rintro ⟨hmap, hle, hfirst⟩
    exact ⟨⟨hle, hmap⟩, fun j hj hstands => hfirst j hj hstands.2⟩
  · rintro ⟨⟨hle, hmap⟩, hfirst⟩
    exact ⟨hmap, hle, fun j hj hj' => hfirst j hj ⟨by omega, hj'⟩⟩

lemma findWindow_isSome : (findWindow key lines search).isSome = true ↔ ∃ i, StandsAt key lines search i := by
  rw [findWindow, List.find?_isSome]
  simp only [List.mem_range, lt_range_iff, decide_eq_true_eq, StandsAt]

end Windows

section Texts

lemma not_mem_of_mem_splitOn {c : Char} {s l : Text} (h : l ∈ s.splitOn c) : c ∉ l := by
  induction s generalizing l with
  | nil =>
    rw [List.splitOn_nil, List.mem_singleton] at h
    rw [h]
    exact List.not_mem_nil
  | cons d s ih =>
    rw [List.splitOn_cons_eq_if_modifyHead] at h
    split_ifs at h with hd
    · obtain rfl | h := List.mem_cons.mp h
      · exact List.not_mem_nil
      · exact ih h
    · obtain ⟨m, ms, hms⟩ := List.exists_cons_of_ne_nil (List.splitOn_ne_nil c s)
      rw [hms, List.modifyHead_cons] at h
      obtain rfl | h := List.mem_cons.mp h
      · rw [List.mem_cons, not_or]
        exact ⟨fun he => hd (by simp [he]), ih (hms ▸ List.mem_cons_self)⟩
      · exact ih (hms ▸ List.mem_cons_of_mem _ h)

/-- Joined lines give the lines back. -/
lemma splitOn_joinLines {ls : List Text} (hne : ls ≠ []) (h : ∀ l ∈ ls, '\n' ∉ l) : (joinLines ls).splitOn '\n' = ls :=
  List.splitOn_intercalate '\n' h hne

lemma mem_splice {lines rl : List Text} {i n : ℕ} {l : Text} (h : l ∈ splice lines i n rl) : l ∈ lines ∨ l ∈ rl := by
  rw [splice, List.mem_append, List.mem_append] at h
  obtain (h | h) | h := h
  · exact .inl (List.mem_of_mem_take h)
  · exact .inr h
  · exact .inl (List.mem_of_mem_drop h)

lemma splice_ne_nil {lines rl : List Text} {i n : ℕ} (h : rl ≠ []) : splice lines i n rl ≠ [] := by
  simp [splice, h]

end Texts

section Blocks

variable {lines : List Text} {block : Text × Text}

/-- The window of a block is there, as it stands or up to its indentation. -/
def Found (lines : List Text) (block : Text × Text) : Prop :=
  searchLines block.1 ≠ [] ∧ ((∃ i, StandsAt rstrip lines (searchLines block.1) i) ∨
    ∃ i, StandsAt strip lines (searchLines block.1) i)

/-- A block is applied exactly where its window is there. -/
lemma applyBlock_snd : (applyBlock lines block).2 = true ↔ Found lines block := by
  rw [Found, ← findWindow_isSome, ← findWindow_isSome, applyBlock]
  split_ifs with hsl
  · simp [hsl]
  · cases hr : findWindow rstrip lines (searchLines block.1) with
    | some i => simp [hsl]
    | none =>
      cases hs : findWindow strip lines (searchLines block.1) with
      | some i => simp [hsl]
      | none => simp

lemma applyBlock_exact (block : Text × Text) {i : ℕ} (hne : searchLines block.1 ≠ [])
    (h : findWindow rstrip lines (searchLines block.1) = some i) :
    applyBlock lines block = (splice lines i (searchLines block.1).length (block.2.splitOn '\n'), true) := by
  simp only [applyBlock, if_neg hne, h]

open Classical in
/-- How many blocks find their window in what the blocks before them left. -/
noncomputable def foundCount (lines : List Text) (blocks : List (Text × Text)) : ℕ :=
  (Finset.univ.filter fun k : Fin blocks.length => Found (applyBlocks lines (blocks.take k)).1 (blocks.get k)).card

lemma applyBlocks_cons_fst (block : Text × Text) (blocks : List (Text × Text)) :
    (applyBlocks lines (block :: blocks)).1 = (applyBlocks (applyBlock lines block).1 blocks).1 := rfl

open Classical in
lemma foundCount_cons (block : Text × Text) (blocks : List (Text × Text)) : foundCount lines (block :: blocks) =
    if Found lines block then foundCount (applyBlock lines block).1 blocks + 1
    else foundCount (applyBlock lines block).1 blocks := by
  unfold foundCount
  exact Fin.card_filter_univ_succ _

lemma applyBlocks_snd (lines : List Text) (blocks : List (Text × Text)) :
    (applyBlocks lines blocks).2 = foundCount lines blocks := by
  induction blocks generalizing lines with
  | nil => simp [applyBlocks, foundCount]
  | cons block blocks ih =>
    have hstep : (applyBlocks lines (block :: blocks)).2 =
        if (applyBlock lines block).2 then (applyBlocks (applyBlock lines block).1 blocks).2 + 1
        else (applyBlocks (applyBlock lines block).1 blocks).2 := rfl
    rw [hstep, ih, foundCount_cons]
    by_cases hf : Found lines block
    · rw [if_pos (applyBlock_snd.mpr hf), if_pos hf]
    · rw [if_neg fun h => hf (applyBlock_snd.mp h), if_neg hf]

end Blocks

section NoOp

/-- The text ends in a blank line. -/
def EndsBlank (s : Text) : Prop := strip ((s.splitOn '\n').getLast (List.splitOn_ne_nil '\n' s)) = []

/-- Two texts have the same lines up to white space at their ends. -/
def SameLines (s t : Text) : Prop := (s.splitOn '\n').map rstrip = (t.splitOn '\n').map rstrip

lemma searchLines_eq_iff {s : Text} : searchLines s = s.splitOn '\n' ↔ ¬ EndsBlank s := by
  rw [searchLines, List.rdropWhile_eq_self_iff, EndsBlank]
  constructor
  · intro h
    simpa using h (List.splitOn_ne_nil '\n' s)
  · intro h hl
    simpa using h

lemma searchLines_length_le (s : Text) : (searchLines s).length ≤ (s.splitOn '\n').length :=
  (List.rdropWhile_prefix _ _).length_le

lemma splice_length {lines : List Text} (rl : List Text) {i n : ℕ} (h : i + n ≤ lines.length) :
    (splice lines i n rl).length + n = lines.length + rl.length := by
  simp only [splice, List.length_append, List.length_take, List.length_drop]
  omega

/-- What is put in place of the window is the window, up to white space at the ends of lines. -/
lemma splice_search {lines search : List Text} {i : ℕ} (h : StandsAt rstrip lines search i) :
    (splice lines i search.length search).map rstrip = lines.map rstrip := by
  have hlines : lines = lines.take i ++ ((lines.drop i).take search.length ++ lines.drop (i + search.length)) := by
    rw [← List.drop_drop, List.take_append_drop, List.take_append_drop]
  conv_rhs => rw [hlines]
  rw [splice, List.map_append, List.map_append, List.map_append, List.map_append, h.2, List.append_assoc]

end NoOp

section Result

/-- A block whose search lines stand first at an index changes that window and nothing else, so that an edit which puts
back what it searched for changes no line exactly where that does not end in a blank line; and blocks are counted by the
windows that are found. -/
theorem applies_window (src search repl : Text) (i : ℕ) (hne : searchLines search ≠ [])
    (hi : StandsAt rstrip (src.splitOn '\n') (searchLines search) i)
    (hfirst : ∀ j < i, ¬ StandsAt rstrip (src.splitOn '\n') (searchLines search) j) :
    (applyEditBlocks src [(search, repl)]).2 = 1 ∧
      ((applyEditBlocks src [(search, repl)]).1.splitOn '\n' =
        splice (src.splitOn '\n') i (searchLines search).length (repl.splitOn '\n')) ∧
      ((repl = search → SameLines (applyEditBlocks src [(search, repl)]).1 src) ↔
        (repl = search → ¬ EndsBlank search)) ∧
      ∀ blocks, (applyEditBlocks src blocks).2 = foundCount (src.splitOn '\n') blocks := by
  have hblock := applyBlock_exact (search, repl) hne (findWindow_eq_some.mpr ⟨hi, hfirst⟩)
  have hresult : applyEditBlocks src [(search, repl)] =
      (joinLines (splice (src.splitOn '\n') i (searchLines search).length (repl.splitOn '\n')), 1) := by
    simp only [applyEditBlocks, applyBlocks, hblock, if_true]
  have hlines : (applyEditBlocks src [(search, repl)]).1.splitOn '\n' =
      splice (src.splitOn '\n') i (searchLines search).length (repl.splitOn '\n') := by
    rw [hresult]
    refine splitOn_joinLines (splice_ne_nil (List.splitOn_ne_nil _ _)) fun l hl => ?_
    obtain hl | hl := mem_splice hl
    · exact not_mem_of_mem_splitOn hl
    · exact not_mem_of_mem_splitOn hl
  refine ⟨by rw [hresult], hlines, ?_, fun blocks => applyBlocks_snd _ _⟩
  refine forall_congr' fun hsame => ?_
  subst hsame
  rw [SameLines, hlines, ← searchLines_eq_iff]
  constructor
  · intro h
    have hlen := congrArg List.length h
    rw [List.length_map, List.length_map] at hlen
    have := splice_length (repl.splitOn '\n') hi.1
    exact (List.rdropWhile_prefix _ _).eq_of_length (by rw [← searchLines]; omega)
  · intro h
    rw [← h]
    exact splice_search hi

def twoLines : Text := "a\nb".toList

def blankEnd : Text := "a\n".toList

/-- An edit that puts back what it searched for, and adds a blank line. -/
theorem not_sameLines_blankEnd :
    searchLines blankEnd ≠ [] ∧ StandsAt rstrip (twoLines.splitOn '\n') (searchLines blankEnd) 0 ∧
      applyEditBlocks twoLines [(blankEnd, blankEnd)] = ("a\n\nb".toList, 1) ∧
      ¬ SameLines (applyEditBlocks twoLines [(blankEnd, blankEnd)]).1 twoLines := by
  have hsearch : searchLines blankEnd = ["a".toList] := by decide
  have happly : applyEditBlocks twoLines [(blankEnd, blankEnd)] = ("a\n\nb".toList, 1) := by decide
  refine ⟨by rw [hsearch]; exact List.cons_ne_nil _ _, ⟨by decide, by decide⟩, happly, fun h => ?_⟩
  rw [happly] at h
  have hlen : (("a\n\nb".toList.splitOn '\n').map rstrip).length = ((twoLines.splitOn '\n').map rstrip).length :=
    congrArg List.length h
  rw [List.length_map, List.length_map] at hlen
  have h3 : ("a\n\nb".toList.splitOn '\n').length = 3 := by decide
  have h2 : (twoLines.splitOn '\n').length = 2 := by decide
  rw [h3, h2] at hlen
  cases hlen

theorem applies_window_twoLines :
    (applyEditBlocks twoLines [("a".toList, "c".toList)]).1.splitOn '\n' = ["c".toList, "b".toList] :=
  (applies_window twoLines "a".toList "c".toList 0 (by decide) ⟨by decide, by decide⟩
    fun j hj => absurd hj (Nat.not_lt_zero j)).2.1

end Result

end CommitReplay.EditWindows
