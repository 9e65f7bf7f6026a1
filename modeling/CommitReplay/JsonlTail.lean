import CommitReplay.PythonText

/-! The last line of a JSONL file, read from its tail through a window that doubles until it
holds a line boundary before the last line. -/
namespace CommitReplay.JsonlTail

open CommitReplay.PythonText

def newline : UInt8 := 10

/-- `f.seek(size - step); f.read()`. -/
def tailBytes (file : Bytes) (step : ℕ) : Bytes := file.drop (file.length - step)

/-- `chunk.rstrip(b"\n")`. -/
def rstripNewlines (chunk : Bytes) : Bytes := chunk.rdropWhile (· = newline)

/-- The doubling loop. Each round at least doubles a positive step, so the file's length bounds
the rounds. -/
def tailWindow (file : Bytes) : ℕ → ℕ → Bytes
  | 0, step => tailBytes file step
  | fuel + 1, step =>
    if step < file.length ∧ newline ∉ rstripNewlines (tailBytes file step) then
      tailWindow file fuel (min file.length (step * 2))
    else tailBytes file step

def jsonlLastLine (file : Bytes) : Text :=
  if file = [] then []
  else
    lastNonblank (splitlines (utf8Replace (tailWindow file file.length (min file.length 65536))))

/-- The window is a tail of the file, and is the whole file or holds a boundary before its last
line. -/
lemma tailWindow_spec (file : Bytes) {fuel step : ℕ} (h0 : 0 < step)
    (hf : file.length ≤ fuel + step) :
    ∃ rest, rest ++ tailWindow file fuel step = file ∧
      (rest = [] ∨ newline ∈ rstripNewlines (tailWindow file fuel step)) := by
  induction fuel generalizing step with
  | zero =>
    refine ⟨[], ?_, .inl rfl⟩
    rw [tailWindow, tailBytes, show file.length - step = 0 by omega]
    rfl
  | succ fuel ih =>
    rw [tailWindow]
    split_ifs with hc
    · exact ih (by omega) (by omega)
    · refine ⟨file.take (file.length - step), List.take_append_drop _ _, ?_⟩
      by_cases hs : step < file.length
      · right
        simpa [hs] using hc
      · left
        rw [show file.length - step = 0 by omega]
        rfl

lemma newline_mem_utf8Char {c : Char} (h : newline ∈ utf8Char c) : c = '\n' := by
  have hc := Char.ofNat_toNat c
  have hv : c.toNat < 0x110000 := by
    have : c.toNat < 0xD800 ∨ 0xDFFF < c.toNat ∧ c.toNat < 0x110000 := c.valid
    omega
  have hb : ∀ m, m < 256 → newline = UInt8.ofNat m → m = 10 := by
    intro m hm he
    have := congrArg UInt8.toNat he
    simp only [newline, UInt8.toNat_ofNat', UInt8.reduceToNat] at this
    omega
  unfold utf8Char at h
  dsimp only at h
  split_ifs at h with h1 h2 h3
  · simp only [List.mem_singleton] at h
    rw [← hc, hb _ (by omega) h]
  all_goals
    simp only [List.mem_cons, List.not_mem_nil, or_false] at h
    exfalso
  · rcases h with h | h <;> exact absurd (hb _ (by omega) h) (by omega)
  · rcases h with h | h | h <;> exact absurd (hb _ (by omega) h) (by omega)
  · rcases h with h | h | h | h <;> exact absurd (hb _ (by omega) h) (by omega)

lemma newline_not_mem_encode {s : Text} (h : '\n' ∉ s) : newline ∉ utf8Encode s := by
  intro hm
  obtain ⟨c, hc, hn⟩ := List.mem_flatMap.mp hm
  exact h (newline_mem_utf8Char hn ▸ hc)

lemma utf8Char_ne_nil (c : Char) : utf8Char c ≠ [] := by
  unfold utf8Char
  dsimp only
  split_ifs <;> simp

@[simp] lemma utf8Encode_append (s t : Text) : utf8Encode (s ++ t) = utf8Encode s ++ utf8Encode t :=
  List.flatMap_append

lemma utf8Encode_ne_nil {s : Text} (h : s ≠ []) : utf8Encode s ≠ [] := by
  obtain ⟨c, cs, rfl⟩ := List.exists_cons_of_ne_nil h
  rw [utf8Encode, List.flatMap_cons]
  simp [utf8Char_ne_nil]

/-- The lines already written, each with its newline. -/
def fileText (lines : List Text) : Text := lines.flatMap fun l => l ++ ['\n']

@[simp] lemma fileText_append (ls : List Text) (l : Text) :
    fileText (ls ++ [l]) = fileText ls ++ (l ++ ['\n']) := by
  simp [fileText]

lemma rstripNewlines_concat (s : Bytes) :
    rstripNewlines (s ++ [newline]) = rstripNewlines s := by
  rw [rstripNewlines, List.rdropWhile_concat_pos _ _ _ (by simp), rstripNewlines]

lemma rstripNewlines_subset {s : Bytes} {x : UInt8} (h : x ∈ rstripNewlines s) : x ∈ s :=
  (List.rdropWhile_prefix _ _).subset h

/-- A window that shows a boundary before its last line shows that line from its start. -/
lemma window_splits {a l chunk rest : Bytes} (hl : l ≠ []) (hln : newline ∉ l)
    (ha : a = [] ∨ ∃ b, a = b ++ [newline]) (h : rest ++ chunk = a ++ (l ++ [newline]))
    (hw : rest = [] ∨ newline ∈ rstripNewlines chunk) :
    chunk = l ++ [newline] ∨ ∃ s, chunk = s ++ newline :: (l ++ [newline]) := by
  rcases List.append_eq_append_iff.mp h with ⟨m, rfl, hchunk⟩ | ⟨m, hrest, hlm⟩
  · -- the window starts among the earlier lines
    rcases List.eq_nil_or_concat m with rfl | ⟨s, x, rfl⟩
    · exact .inl (by simpa using hchunk)
    · obtain ⟨b, hb⟩ := ha.resolve_left (by simp)
      have hx : x = newline := by
        have := congrArg List.getLast? hb
        simpa using this
      exact .inr ⟨s, by simp [hchunk, hx]⟩
  · -- the window starts inside the last line, so it is the whole of it
    rcases hw with rfl | hw
    · obtain ⟨rfl, rfl⟩ := List.append_eq_nil_iff.mp hrest.symm
      exact .inl (by simpa using hlm.symm)
    · exfalso
      obtain rfl | ⟨s, x, rfl⟩ := List.eq_nil_or_concat chunk
      · simp [rstripNewlines] at hw
      · rw [List.concat_eq_append, ← List.append_assoc] at hlm
        obtain ⟨rfl, hx⟩ := List.append_inj' hlm rfl
        rw [List.concat_eq_append, ← hx, rstripNewlines_concat] at hw
        exact hln (List.mem_append_right _ (rstripNewlines_subset hw))

/-- The reader sees the last line written from its start, after a boundary or nothing. -/
lemma jsonlLastLine_eq (ls : List Text) {l : Text} (hne : l ≠ []) (hnl : '\n' ∉ l) :
    ∃ ps, jsonlLastLine (utf8Encode (fileText (ls ++ [l]))) =
      lastNonblank (ps ++ splitlines (l ++ ['\n'])) := by
  set file := utf8Encode (fileText (ls ++ [l])) with hfile
  have hsplit : file = utf8Encode (fileText ls) ++ (utf8Encode l ++ [newline]) := by
    rw [hfile, fileText_append, utf8Encode_append, utf8Encode_append]
    rfl
  have hpos : 0 < file.length := by
    rw [hsplit]
    simp
  obtain ⟨rest, hrest, hw⟩ := @tailWindow_spec file file.length (min file.length 65536)
    (by omega) (by omega)
  have ha : utf8Encode (fileText ls) = [] ∨ ∃ b, utf8Encode (fileText ls) = b ++ [newline] := by
    rcases List.eq_nil_or_concat ls with rfl | ⟨ls, l', rfl⟩
    · exact .inl rfl
    · refine .inr ⟨utf8Encode (fileText ls ++ l'), ?_⟩
      rw [List.concat_eq_append, fileText_append, ← List.append_assoc, utf8Encode_append]
      rfl
  have henc : utf8Replace (utf8Encode l ++ [newline]) = l ++ ['\n'] := by
    rw [newline, utf8Replace_append_newline, utf8Replace_encode]
    simp [utf8Replace, utf8Scan]
  rw [jsonlLastLine, if_neg (List.length_pos_iff.mp hpos)]
  rcases window_splits (utf8Encode_ne_nil hne) (newline_not_mem_encode hnl) ha
    (hrest.trans hsplit) hw with hc | ⟨s, hc⟩
  · exact ⟨[], by rw [hc, henc, List.nil_append]⟩
  · refine ⟨splitlines (utf8Replace s ++ ['\n']), ?_⟩
    rw [hc, newline, utf8Replace_append_newline]
    rw [newline] at henc
    rw [henc, splitlines_append_break _ _ (by decide) (by decide)]

/-- The last line written is the line read, when it has no line boundary of any kind inside. -/
theorem jsonlLastLine_fileText (ls : List Text) {l : Text} (hs : strip l ≠ [])
    (hl : ∀ c ∈ l, isLineBreak c = false) :
    jsonlLastLine (utf8Encode (fileText (ls ++ [l]))) = l := by
  have hne : l ≠ [] := by
    rintro rfl
    exact hs rfl
  obtain ⟨ps, hread⟩ := jsonlLastLine_eq ls hne fun h => by simpa [isLineBreak] using hl _ h
  rw [hread, splitlines_plain hl hne (by decide), lastNonblank_append hs]

/-- Of a line with boundaries inside, the line read is what comes after the last of them. -/
theorem jsonlLastLine_cut (ls : List Text) {a b : Text} {c : Char} (hc : isWideBreak c = true)
    (hnl : '\n' ∉ a ++ c :: b) (hs : strip b ≠ []) (hb : ∀ d ∈ b, isLineBreak d = false) :
    jsonlLastLine (utf8Encode (fileText (ls ++ [a ++ c :: b]))) = b := by
  have hr : c ≠ '\r' := by
    rintro rfl
    exact absurd hc (by decide)
  have hne : b ≠ [] := by
    rintro rfl
    exact hs rfl
  obtain ⟨ps, hread⟩ := jsonlLastLine_eq ls (l := a ++ c :: b) (by simp) hnl
  rw [hread, List.append_assoc, List.cons_append,
    splitlines_append_break _ _ (isLineBreak_of_isWideBreak hc) hr, splitlines_plain hb hne (by decide),
    ← List.append_assoc, lastNonblank_append hs]

/-- No line the reader returns has a boundary inside it. -/
theorem no_break_in_lastLine (file : Bytes) : ∀ c ∈ jsonlLastLine file, isLineBreak c = false := by
  intro c hc
  unfold jsonlLastLine at hc
  split_ifs at hc
  · simp at hc
  · exact no_break_lastNonblank (fun l hl => no_break_splitlines _ l hl) c hc

end CommitReplay.JsonlTail
