import CommitReplay.EditBlocks

/-! Which replies are read as complete blocks only: those where every search marker is followed, among the
marker lines, by a divider and an end marker. -/
namespace CommitReplay.EditBlockReads

open CommitReplay.PythonText CommitReplay.Redaction CommitReplay.EditBlocks

variable {isWide : Char → Bool}

section Marks

inductive Mark
  | file | search | divider | replace
deriving DecidableEq, Repr

variable (isWide) in
/-- What a line is to the scanner, outside a block. -/
def mark (l : Text) : Option Mark :=
  if (fileLine l).isSome = true then some .file
  else if isSearch isWide l = true then some .search
  else if isDivider l = true then some .divider
  else if isReplace isWide l = true then some .replace
  else none

lemma head_of_width {c : Char} {s : Text} (h : 5 ≤ (s.takeWhile (· = c)).length) : s.head? = some c := by
  cases s with
  | nil => simp at h
  | cons d s =>
    by_cases hd : d = c
    · simp [hd]
    · simp [hd] at h

lemma head_of_marker {c : Char} {word l : Text} (h : isMarker isWide c word l = true) :
    (l.dropWhile isSpace).head? = some c := by
  simp only [isMarker, Bool.and_eq_true, decide_eq_true_eq] at h
  exact head_of_width h.1.1

lemma head_of_divider {l : Text} (h : isDivider l = true) : (l.dropWhile isSpace).head? = some '=' := by
  simp only [isDivider, Bool.and_eq_true, decide_eq_true_eq] at h
  exact head_of_width h.1

lemma head_of_file {l : Text} (h : (fileLine l).isSome = true) :
    (l.dropWhile isSpace).head? = some '#' ∨ (l.dropWhile isSpace).head? = some 'F' := by
  unfold fileLine at h
  generalize l.dropWhile isSpace = s at h
  cases s with
  | nil => simp [startsWith] at h
  | cons c s =>
    by_cases hc : c = '#'
    · exact .inl (by simp [hc])
    · right
      have hw : ((c :: s).takeWhile (· = '#')).length = 0 := by simp [hc]
      simp only [hw, ↓reduceIte] at h
      have hf : startsWith (c :: s) "FILE:".toList = true := by
        by_contra hno
        rw [if_neg fun hb => hno hb.2] at h
        cases h
      obtain ⟨t, ht⟩ := List.isPrefixOf_iff_prefix.mp hf
      rw [← ht]
      rfl

lemma mark_eq_file {l : Text} : mark isWide l = some .file ↔ (fileLine l).isSome = true := by
  unfold mark
  split_ifs <;> simp_all

lemma mark_eq_search {l : Text} : mark isWide l = some .search ↔ isSearch isWide l = true := by
  unfold mark
  split_ifs with h1 h2 <;> simp only [reduceCtorEq, false_iff, true_iff, Option.some.injEq]
  · intro h
    have := head_of_file h1
    rw [head_of_marker h] at this
    simp at this
  all_goals assumption

lemma mark_eq_divider {l : Text} : mark isWide l = some .divider ↔ isDivider l = true := by
  unfold mark
  split_ifs with h1 h2 h3 <;> simp only [reduceCtorEq, false_iff, true_iff, Option.some.injEq]
  · intro h
    have := head_of_file h1
    rw [head_of_divider h] at this
    simp at this
  · intro h
    have := head_of_marker h2
    rw [head_of_divider h] at this
    simp at this
  all_goals assumption

lemma mark_eq_replace {l : Text} : mark isWide l = some .replace ↔ isReplace isWide l = true := by
  unfold mark
  split_ifs with h1 h2 h3 h4 <;> simp only [reduceCtorEq, false_iff, true_iff, Option.some.injEq]
  · intro h
    have := head_of_file h1
    rw [head_of_marker h] at this
    simp at this
  · intro h
    have := head_of_marker h2
    rw [head_of_marker h] at this
    simp at this
  · intro h
    have := head_of_divider h3
    rw [head_of_marker h] at this
    simp at this
  all_goals assumption

end Marks

section Reading

variable (isWide) in
/-- Blocks read off lines, each between a search marker, a divider and an end marker with nothing but plain lines
between, and under the path of the last file line before it. -/
inductive Reads : Text → List Text → List EditBlock → Prop
  | done {current : Text} : Reads current [] []
  | file {current l path : Text} {ls : List Text} {blocks : List EditBlock} : fileLine l = some path →
      Reads path ls blocks → Reads current (l :: ls) blocks
  | skip {current l : Text} {ls : List Text} {blocks : List EditBlock} : fileLine l = none →
      Reads current ls blocks → Reads current (l :: ls) blocks
  | block {current start divider stop : Text} {search replace ls : List Text} {blocks : List EditBlock} :
      isSearch isWide start = true → isDivider divider = true → isReplace isWide stop = true →
      (∀ l ∈ search, mark isWide l = none) → (∀ l ∈ replace, mark isWide l = none) → Reads current ls blocks →
      Reads current (start :: (search ++ divider :: (replace ++ stop :: ls)))
        (⟨current, joinLines search, joinLines replace⟩ :: blocks)

variable (isWide) in
/-- Blocks read off lines as the scanner does: what a block searches for ends at the first divider, what it puts there
at the first end marker, and what is not ended runs to the end. -/
inductive Scans : Text → List Text → List EditBlock → Prop
  | done {current : Text} : Scans current [] []
  | file {current l path : Text} {ls : List Text} {blocks : List EditBlock} : fileLine l = some path →
      Scans path ls blocks → Scans current (l :: ls) blocks
  | skip {current l : Text} {ls : List Text} {blocks : List EditBlock} : fileLine l = none →
      isSearch isWide l = false → Scans current ls blocks → Scans current (l :: ls) blocks
  | block {current start divider stop : Text} {search replace ls : List Text} {blocks : List EditBlock} :
      isSearch isWide start = true → isDivider divider = true → isReplace isWide stop = true →
      (∀ l ∈ search, isDivider l = false) → (∀ l ∈ replace, isReplace isWide l = false) → Scans current ls blocks →
      Scans current (start :: (search ++ divider :: (replace ++ stop :: ls)))
        (⟨current, joinLines search, joinLines replace⟩ :: blocks)
  | cutReplace {current start divider : Text} {search replace : List Text} :
      isSearch isWide start = true → isDivider divider = true → (∀ l ∈ search, isDivider l = false) →
      (∀ l ∈ replace, isReplace isWide l = false) →
      Scans current (start :: (search ++ divider :: replace)) [⟨current, joinLines search, joinLines replace⟩]
  | cutSearch {current start : Text} {search : List Text} : isSearch isWide start = true →
      (∀ l ∈ search, isDivider l = false) → Scans current (start :: search) [⟨current, joinLines search, []⟩]

variable (isWide) in
/-- Every search marker is followed, among the marker and file lines, by a divider and an end marker. -/
def EverySearchCloses (ls : List Text) : Prop :=
  ∀ pre post, ls.filterMap (mark isWide) = pre ++ .search :: post → ∃ rest, post = .divider :: .replace :: rest

variable {stop : Text → Bool} {l : Text} {ls us vs : List Text}

lemma upTo_append_behind (stop : Text → Bool) (ls : List Text) :
    (∀ l ∈ upTo stop ls, stop l = false) ∧
      (ls = upTo stop ls ∧ behind stop ls = [] ∨ ∃ m, stop m = true ∧ ls = upTo stop ls ++ m :: behind stop ls) := by
  refine ⟨fun l hl => by simpa using List.mem_takeWhile_imp hl, ?_⟩
  have hsplit := List.takeWhile_append_dropWhile (p := fun l => !stop l) (l := ls)
  cases hd : ls.dropWhile fun l => !stop l with
  | nil =>
    rw [hd, List.append_nil] at hsplit
    exact .inl ⟨hsplit.symm, by rw [behind, hd]; rfl⟩
  | cons m rest =>
    have hm : stop m = true := by
      have hne : (ls.dropWhile fun l => !stop l) ≠ [] := by
        rw [hd]
        exact List.cons_ne_nil m rest
      have := List.head_dropWhile_not (fun l => !stop l) hne
      simpa [hd] using this
    refine .inr ⟨m, hm, ?_⟩
    rw [behind, hd, List.drop_one, List.tail_cons]
    rw [hd] at hsplit
    exact hsplit.symm

/-- The first line with a mark splits a list in one way. -/
lemma upTo_eq (vs : List Text) (hus : ∀ l ∈ us, stop l = false) (hl : stop l = true) :
    upTo stop (us ++ l :: vs) = us ∧ behind stop (us ++ l :: vs) = vs := by
  have htake : ∀ u ∈ us, (!stop u) = true := fun u hu => by rw [hus u hu]; rfl
  refine ⟨?_, ?_⟩
  · rw [upTo, List.takeWhile_append_of_pos htake, List.takeWhile_cons_of_neg (by simp [hl]), List.append_nil]
  · rw [behind, List.dropWhile_append_of_pos htake, List.dropWhile_cons_of_neg (by simp [hl]), List.drop_one,
      List.tail_cons]

lemma upTo_eq_nil (hus : ∀ l ∈ us, stop l = false) : upTo stop us = us ∧ behind stop us = [] := by
  have htake : ∀ u ∈ us, (!stop u) = true := fun u hu => by rw [hus u hu]; rfl
  have hdrop : (us.dropWhile fun l => !stop l) = [] := List.dropWhile_eq_nil_iff.mpr htake
  refine ⟨?_, by rw [behind, hdrop]; rfl⟩
  have hsplit := List.takeWhile_append_dropWhile (p := fun l => !stop l) (l := us)
  rw [hdrop, List.append_nil] at hsplit
  exact hsplit

end Reading

section Lengths

lemma length_joinLines_cons (l : Text) (ls : List Text) :
    l.length + (joinLines ls).length ≤ (joinLines (l :: ls)).length := by
  cases ls with
  | nil => simp [joinLines]
  | cons m ls =>
    rw [joinLines, joinLines, List.intercalate_cons_cons, List.length_append, List.length_append]
    omega

lemma length_joinLines_le (us vs : List Text) : (joinLines vs).length ≤ (joinLines (us ++ vs)).length := by
  induction us with
  | nil => exact le_rfl
  | cons u us ih =>
    have := length_joinLines_cons u (us ++ vs)
    rw [List.cons_append]
    omega

/-- Lines behind a line that is not empty are less than all of them. -/
lemma joinLines_ne {us vs : List Text} {l : Text} (hl : l ≠ []) : joinLines (us ++ l :: vs) ≠ joinLines vs := by
  intro h
  have h1 := length_joinLines_le us (l :: vs)
  have h2 := length_joinLines_cons l vs
  have h3 := List.length_pos_iff.mpr hl
  rw [h] at h1
  omega

lemma ne_nil_of_mark {l : Text} {m : Mark} (h : mark isWide l = some m) : l ≠ [] := by
  rintro rfl
  cases h

end Lengths

section Inversion

variable {current l : Text} {ls us t : List Text} {blocks : List EditBlock}

/-- What the first line of lines that are read is. -/
lemma Reads.cases_cons (h : Reads isWide current (l :: ls) blocks) :
    Reads isWide ((fileLine l).getD current) ls blocks ∨
      ∃ search divider replace stop rest blocks', isSearch isWide l = true ∧ isDivider divider = true ∧
        isReplace isWide stop = true ∧ (∀ l ∈ search, mark isWide l = none) ∧ (∀ l ∈ replace, mark isWide l = none) ∧
        ls = search ++ divider :: (replace ++ stop :: rest) ∧
        blocks = ⟨current, joinLines search, joinLines replace⟩ :: blocks' ∧ Reads isWide current rest blocks' := by
  cases h with
  | file hf h =>
    left
    rwa [hf]
  | skip hf h =>
    left
    rwa [hf]
  | block h1 h2 h3 h4 h5 h6 => exact .inr ⟨_, _, _, _, _, _, h1, h2, h3, h4, h5, rfl, rfl, h6⟩

lemma isDivider_of_plain (h : mark isWide l = none) : isDivider l = false := by
  by_contra hd
  rw [Bool.not_eq_false, ← @mark_eq_divider isWide, h] at hd
  cases hd

lemma isReplace_of_plain (h : mark isWide l = none) : isReplace isWide l = false := by
  by_contra hd
  rw [Bool.not_eq_false, ← mark_eq_replace, h] at hd
  cases hd

lemma isReplace_of_divider (h : isDivider l = true) : isReplace isWide l = false := by
  by_contra hd
  rw [Bool.not_eq_false, ← mark_eq_replace, mark_eq_divider.mpr h] at hd
  cases hd

/-- Before the first divider no block ends, and one at most begins. -/
lemma Reads.pass_search (hus : ∀ l ∈ us, isDivider l = false)
    (ht : t = [] ∨ ∃ divider rest, isDivider divider = true ∧ t = divider :: rest)
    (h : Reads isWide current (us ++ t) blocks) :
    (∃ path, Reads isWide path t blocks) ∨
      ∃ path pre start search divider replace stop rest blocks', isSearch isWide start = true ∧
        us = pre ++ start :: search ∧ isReplace isWide stop = true ∧ (∀ l ∈ replace, mark isWide l = none) ∧
        t = divider :: (replace ++ stop :: rest) ∧
        blocks = ⟨path, joinLines search, joinLines replace⟩ :: blocks' ∧ Reads isWide path rest blocks' := by
  induction us generalizing current with
  | nil => exact .inl ⟨_, h⟩
  | cons u us ih =>
    have hus' : ∀ l ∈ us, isDivider l = false := fun l hl => hus l (List.mem_cons_of_mem u hl)
    obtain hr | ⟨search, divider, replace, stop, rest, blocks', hs, hd, he, hsp, hrp, heq, hb, hr⟩ :=
      Reads.cases_cons h
    · obtain hleft | ⟨path, pre, start, search, divider, replace, stop, rest, blocks', hs, rfl, hrest⟩ := ih hus' hr
      · exact .inl hleft
      · exact .inr ⟨path, u :: pre, start, search, divider, replace, stop, rest, blocks', hs, rfl, hrest⟩
    · have hsp' : ∀ l ∈ search, isDivider l = false := fun l hl => isDivider_of_plain (hsp l hl)
      have heq' : us ++ t = search ++ divider :: (replace ++ stop :: rest) := heq
      obtain ⟨hu1, hb1⟩ := upTo_eq (replace ++ stop :: rest) hsp' hd
      rw [← heq'] at hu1 hb1
      obtain rfl | ⟨divider', rest', hd', rfl⟩ := ht
      · rw [List.append_nil] at hu1 hb1
        obtain ⟨-, hnil⟩ := upTo_eq_nil hus'
        rw [hnil] at hb1
        exact absurd hb1 (by simp)
      · obtain ⟨hu2, hb2⟩ := upTo_eq rest' hus' hd'
        rw [hu2] at hu1
        rw [hb2] at hb1
        subst hu1 hb1
        exact .inr ⟨current, [], u, us, divider', replace, stop, rest, blocks', hs, rfl, he, hrp, rfl, hb, hr⟩

/-- Before the first end marker one block at most begins, and it ends there. -/
lemma Reads.pass_replace (hus : ∀ l ∈ us, isReplace isWide l = false)
    (ht : t = [] ∨ ∃ stop rest, isReplace isWide stop = true ∧ t = stop :: rest)
    (h : Reads isWide current (us ++ t) blocks) :
    (∃ path, Reads isWide path (t.drop 1) blocks) ∨
      ∃ path pre search divider replace blocks', isDivider divider = true ∧ us = pre ++ divider :: replace ∧
        blocks = ⟨path, joinLines search, joinLines replace⟩ :: blocks' ∧ Reads isWide path (t.drop 1) blocks' := by
  induction us generalizing current with
  | nil =>
    obtain rfl | ⟨stop, rest, he, rfl⟩ := ht
    · exact .inl ⟨_, h⟩
    · obtain hleft | ⟨_, _, _, _, _, _, hs, -⟩ := Reads.cases_cons h
      · exact .inl ⟨_, hleft⟩
      · rw [← mark_eq_search, mark_eq_replace.mpr he] at hs
        cases hs
  | cons u us ih =>
    have hus' : ∀ l ∈ us, isReplace isWide l = false := fun l hl => hus l (List.mem_cons_of_mem u hl)
    obtain hr | ⟨search, divider, replace, stop, rest, blocks', hs, hd, he, hsp, hrp, heq, hb, hr⟩ :=
      Reads.cases_cons h
    · obtain hleft | ⟨path, pre, search, divider, replace, blocks', hd, rfl, hrest⟩ := ih hus' hr
      · exact .inl hleft
      · exact .inr ⟨path, u :: pre, search, divider, replace, blocks', hd, rfl, hrest⟩
    · have hsp' : ∀ l ∈ search ++ divider :: replace, isReplace isWide l = false := by
        intro l hl
        obtain hl | hl := List.mem_append.mp hl
        · exact isReplace_of_plain (hsp l hl)
        · obtain rfl | hl := List.mem_cons.mp hl
          · exact isReplace_of_divider hd
          · exact isReplace_of_plain (hrp l hl)
      have heq' : us ++ t = (search ++ divider :: replace) ++ stop :: rest := by
        rw [List.append_assoc, List.cons_append]
        exact heq
      obtain ⟨hu1, hb1⟩ := upTo_eq rest hsp' he
      rw [← heq'] at hu1 hb1
      obtain rfl | ⟨stop', rest', he', rfl⟩ := ht
      · rw [List.append_nil] at heq'
        have hin : stop ∈ us := by simp [heq']
        rw [hus' stop hin] at he
        cases he
      · obtain ⟨hu2, hb2⟩ := upTo_eq rest' hus' he'
        rw [hu2] at hu1
        rw [hb2] at hb1
        subst hu1 hb1
        exact .inr ⟨current, u :: search, search, divider, replace, blocks', hd, rfl, hb, hr⟩

end Inversion

section Counting

variable {current : Text} {ls : List Text} {blocks : List EditBlock}

/-- Where the scanner opens a block, lines that are read hold at most one before its end, with less in it. -/
lemma Reads.pass_block (h : Reads isWide current ls blocks) :
    (∃ path, Reads isWide path (behind (isReplace isWide) (behind isDivider ls)) blocks) ∨
      ∃ path block blocks', blocks = block :: blocks' ∧
        Reads isWide path (behind (isReplace isWide) (behind isDivider ls)) blocks' ∧
        (block.search ≠ joinLines (upTo isDivider ls) ∨
          block.replace ≠ joinLines (upTo (isReplace isWide) (behind isDivider ls))) := by
  obtain ⟨hsearch, hsplit⟩ := upTo_append_behind isDivider ls
  obtain ⟨hreplace, hsplit'⟩ := upTo_append_behind (isReplace isWide) (behind isDivider ls)
  -- what comes behind the divider, whether there is one or not
  have htail : ∃ t, ls = upTo isDivider ls ++ t ∧ t.drop 1 = behind isDivider ls ∧
      (t = [] ∨ ∃ divider rest, isDivider divider = true ∧ t = divider :: rest) := by
    obtain ⟨hall, hnil⟩ | ⟨divider, hd, hall⟩ := hsplit
    · exact ⟨[], by rw [List.append_nil]; exact hall, hnil.symm, .inl rfl⟩
    · exact ⟨_, hall, rfl, .inr ⟨divider, _, hd, rfl⟩⟩
  have htail' : ∃ t, behind isDivider ls = upTo (isReplace isWide) (behind isDivider ls) ++ t ∧
      t.drop 1 = behind (isReplace isWide) (behind isDivider ls) ∧
      (t = [] ∨ ∃ stop rest, isReplace isWide stop = true ∧ t = stop :: rest) := by
    obtain ⟨hall, hnil⟩ | ⟨stop, he, hall⟩ := hsplit'
    · exact ⟨[], by rw [List.append_nil]; exact hall, hnil.symm, .inl rfl⟩
    · exact ⟨_, hall, rfl, .inr ⟨stop, _, he, rfl⟩⟩
  obtain ⟨t, hls, htdrop, ht⟩ := htail
  obtain ⟨t', hls', htdrop', ht'⟩ := htail'
  rw [hls] at h
  obtain ⟨path, hr⟩ | ⟨path, pre, start, search, divider, replace, stop, rest, blocks', hs, hus, he, hrp, rfl, rfl,
    hr⟩ := Reads.pass_search hsearch ht h
  · -- no block began before the divider
    have hr' : ∃ path, Reads isWide path (behind isDivider ls) blocks := by
      obtain rfl | ⟨divider, rest, hd, rfl⟩ := ht
      · exact ⟨path, htdrop ▸ hr⟩
      · obtain hr' | ⟨_, _, _, _, _, _, hs, -⟩ := Reads.cases_cons hr
        · rw [List.drop_one, List.tail_cons] at htdrop
          exact ⟨_, htdrop ▸ hr'⟩
        · rw [← mark_eq_search, mark_eq_divider.mpr hd] at hs
          cases hs
    obtain ⟨path', hr'⟩ := hr'
    rw [hls'] at hr'
    obtain ⟨path'', hr''⟩ | ⟨path'', pre, search, divider, replace, blocks', hd, hus, rfl, hr''⟩ :=
      Reads.pass_replace hreplace ht' hr'
    · exact .inl ⟨path'', htdrop' ▸ hr''⟩
    · refine .inr ⟨path'', _, blocks', rfl, htdrop' ▸ hr'', .inr ?_⟩
      rw [hus]
      exact (joinLines_ne (ne_nil_of_mark (mark_eq_divider.mpr hd : mark isWide _ = some .divider))).symm
  · -- one began there, and it ends at the first end marker
    have hrest : behind (isReplace isWide) (behind isDivider ls) = rest := by
      rw [← htdrop, List.drop_one, List.tail_cons]
      exact (upTo_eq _ (fun l hl => isReplace_of_plain (hrp l hl)) he).2
    refine .inr ⟨path, _, blocks', rfl, hrest.symm ▸ hr, .inl ?_⟩
    rw [hus]
    exact (joinLines_ne (ne_nil_of_mark (mark_eq_search.mpr hs))).symm

/-- The scanner finds as many blocks as can be read. -/
lemma Reads.length_le (h : Reads isWide current ls blocks) (path : Text) :
    blocks.length ≤ (parseLines isWide path ls).length := by
  induction path, ls using parseLines.induct isWide generalizing current blocks with
  | case1 path =>
    cases h
    exact Nat.zero_le _
  | case2 path l ls path' hf ih =>
    rw [parseLines, hf]
    obtain hr | ⟨_, _, _, _, _, _, hs, -⟩ := Reads.cases_cons h
    · exact ih hr
    · rw [← mark_eq_search, mark_eq_file.mpr (by rw [hf]; rfl)] at hs
      cases hs
  | case3 path l ls hf hs ih =>
    rw [parseLines, hf]
    simp only [hs, if_true, List.length_cons]
    obtain hr | ⟨search, divider, replace, stop, rest, blocks', -, hd, he, hsp, hrp, rfl, rfl, hr⟩ :=
      Reads.cases_cons h
    · obtain ⟨path'', hr'⟩ | ⟨path'', block, blocks', rfl, hr', -⟩ := Reads.pass_block hr
      · exact (ih hr').trans (Nat.le_succ _)
      · exact Nat.succ_le_succ (ih hr')
    · rw [(upTo_eq _ (fun l hl => isDivider_of_plain (hsp l hl)) hd).2,
        (upTo_eq _ (fun l hl => isReplace_of_plain (hrp l hl)) he).2] at ih ⊢
      exact Nat.succ_le_succ (ih hr)
  | case4 path l ls hf hs ih =>
    rw [parseLines, hf]
    simp only [hs]
    obtain hr | ⟨_, _, _, _, _, _, hs', -⟩ := Reads.cases_cons h
    · exact ih hr
    · exact absurd hs' hs

end Counting

section Closing

variable {m : Mark} {ms : List Mark}

/-- Every search marker among the marks is followed by a divider and an end marker. -/
def Closes (ms : List Mark) : Prop :=
  ∀ pre post, ms = pre ++ .search :: post → ∃ rest, post = .divider :: .replace :: rest

lemma closes_cons (hm : m ≠ .search) : Closes (m :: ms) ↔ Closes ms := by
  constructor
  · intro h pre post he
    exact h (m :: pre) post (by rw [he]; rfl)
  · intro h pre post he
    cases pre with
    | nil => exact absurd (List.cons.inj he).1 hm
    | cons p pre => exact h pre post (List.cons.inj he).2

lemma closes_search : Closes (.search :: ms) ↔ ∃ rest, ms = .divider :: .replace :: rest ∧ Closes rest := by
  constructor
  · intro h
    obtain ⟨rest, rfl⟩ := h [] ms rfl
    refine ⟨rest, rfl, fun pre post he => ?_⟩
    exact h (.search :: .divider :: .replace :: pre) post (by rw [he]; rfl)
  · rintro ⟨rest, rfl, h⟩ pre post he
    cases pre with
    | nil => exact ⟨rest, (List.cons.inj he).2.symm⟩
    | cons p pre =>
      refine (closes_cons ?_).mpr ((closes_cons ?_).mpr h) pre post (List.cons.inj he).2 <;> simp

lemma everySearchCloses_iff {ls : List Text} :
    EverySearchCloses isWide ls ↔ Closes (ls.filterMap (mark isWide)) := Iff.rfl

/-- A line that is no search marker says nothing of those behind it. -/
lemma everySearchCloses_cons {l : Text} {ls : List Text} (hl : isSearch isWide l = false) :
    EverySearchCloses isWide (l :: ls) ↔ EverySearchCloses isWide ls := by
  rw [everySearchCloses_iff, everySearchCloses_iff]
  cases hm : mark isWide l with
  | none => rw [List.filterMap_cons_none hm]
  | some m =>
    rw [List.filterMap_cons_some hm, closes_cons]
    rintro rfl
    rw [mark_eq_search.mp hm] at hl
    cases hl

lemma everySearchCloses_block {start divider stop : Text} {search replace ls : List Text}
    (hs : isSearch isWide start = true) (hd : isDivider divider = true) (he : isReplace isWide stop = true)
    (hsp : ∀ l ∈ search, mark isWide l = none) (hrp : ∀ l ∈ replace, mark isWide l = none) :
    EverySearchCloses isWide (start :: (search ++ divider :: (replace ++ stop :: ls))) ↔ EverySearchCloses isWide ls := by
  rw [everySearchCloses_iff, everySearchCloses_iff, List.filterMap_cons_some (mark_eq_search.mpr hs),
    List.filterMap_append, List.filterMap_eq_nil_iff.mpr hsp, List.nil_append,
    List.filterMap_cons_some (mark_eq_divider.mpr hd), List.filterMap_append, List.filterMap_eq_nil_iff.mpr hrp,
    List.nil_append, List.filterMap_cons_some (mark_eq_replace.mpr he), closes_search]
  constructor
  · rintro ⟨rest, heq, h⟩
    obtain rfl := (List.cons.inj (List.cons.inj heq).2).2
    exact h
  · exact fun h => ⟨_, rfl, h⟩

/-- Lines whose first search marker closes hold a complete block there. -/
lemma block_of_closes {start : Text} {ls : List Text} (hs : isSearch isWide start = true)
    (h : EverySearchCloses isWide (start :: ls)) : ∃ search divider replace stop rest, isDivider divider = true ∧
      isReplace isWide stop = true ∧ (∀ l ∈ search, mark isWide l = none) ∧
      (∀ l ∈ replace, mark isWide l = none) ∧ ls = search ++ divider :: (replace ++ stop :: rest) := by
  rw [everySearchCloses_iff, List.filterMap_cons_some (mark_eq_search.mpr hs), closes_search] at h
  obtain ⟨ms, hms, -⟩ := h
  obtain ⟨search, divider, tail, rfl, hsp, hd, htail⟩ := List.filterMap_eq_cons_iff.mp hms
  obtain ⟨replace, stop, rest, rfl, hrp, he, -⟩ := List.filterMap_eq_cons_iff.mp htail
  exact ⟨search, divider, replace, stop, rest, mark_eq_divider.mp hd, mark_eq_replace.mp he, hsp, hrp, rfl⟩

end Closing

section Result

variable {current : Text} {ls : List Text}

lemma reads_of_closes (h : EverySearchCloses isWide ls) (current : Text) :
    Reads isWide current ls (parseLines isWide current ls) := by
  induction current, ls using parseLines.induct isWide with
  | case1 current =>
    rw [parseLines]
    exact .done
  | case2 current l ls path hf ih =>
    rw [parseLines, hf]
    have hl : isSearch isWide l = false := by
      by_contra hs
      rw [Bool.not_eq_false, ← mark_eq_search, mark_eq_file.mpr (by rw [hf]; rfl)] at hs
      cases hs
    exact .file hf (ih ((everySearchCloses_cons hl).mp h))
  | case3 current l ls hf hs ih =>
    rw [parseLines, hf]
    simp only [hs, if_true]
    obtain ⟨search, divider, replace, stop, rest, hd, he, hsp, hrp, rfl⟩ := block_of_closes hs h
    obtain ⟨hu1, hb1⟩ := upTo_eq (replace ++ stop :: rest) (fun l hl => isDivider_of_plain (hsp l hl)) hd
    obtain ⟨hu2, hb2⟩ := upTo_eq rest (fun l hl => isReplace_of_plain (hrp l hl)) he
    rw [hb1, hb2] at ih
    rw [hu1, hb1, hu2, hb2]
    exact .block hs hd he hsp hrp (ih ((everySearchCloses_block hs hd he hsp hrp).mp h))
  | case4 current l ls hf hs ih =>
    rw [parseLines, hf]
    simp only [hs]
    exact .skip hf (ih ((everySearchCloses_cons (by simpa using hs)).mp h))

lemma closes_of_reads (h : Reads isWide current ls (parseLines isWide current ls)) : EverySearchCloses isWide ls := by
  induction current, ls using parseLines.induct isWide with
  | case1 current =>
    intro pre post he
    simp at he
  | case2 current l ls path hf ih =>
    rw [parseLines, hf] at h
    have hl : isSearch isWide l = false := by
      by_contra hs
      rw [Bool.not_eq_false, ← mark_eq_search, mark_eq_file.mpr (by rw [hf]; rfl)] at hs
      cases hs
    refine (everySearchCloses_cons hl).mpr (ih ?_)
    obtain hr | ⟨_, _, _, _, _, _, hs, -⟩ := Reads.cases_cons h
    · rwa [hf] at hr
    · rw [hl] at hs
      cases hs
  | case3 current l ls hf hs ih =>
    rw [parseLines, hf] at h
    simp only [hs, if_true] at h
    obtain hr | ⟨search, divider, replace, stop, rest, blocks, -, hd, he, hsp, hrp, rfl, hb, hr⟩ := Reads.cases_cons h
    · -- the marker was passed over, so that what was read is less than the scanner found
      obtain ⟨path, hr'⟩ | ⟨path, block, blocks, hb, -, hless⟩ := hr.pass_block
      · have := hr'.length_le current
        rw [List.length_cons] at this
        omega
      · obtain ⟨rfl, -⟩ := List.cons.inj hb
        exact absurd rfl (hless.elim id fun hl => absurd rfl hl)
    · obtain ⟨-, rfl⟩ := List.cons.inj hb
      rw [(upTo_eq _ (fun l hl => isDivider_of_plain (hsp l hl)) hd).2,
        (upTo_eq _ (fun l hl => isReplace_of_plain (hrp l hl)) he).2] at hr ih
      exact (everySearchCloses_block hs hd he hsp hrp).mpr (ih hr)
  | case4 current l ls hf hs ih =>
    rw [parseLines, hf] at h
    simp only [hs] at h
    refine (everySearchCloses_cons (by simpa using hs)).mpr (ih ?_)
    obtain hr | ⟨_, _, _, _, _, _, hs', -⟩ := Reads.cases_cons h
    · rwa [hf] at hr
    · exact absurd hs' hs

lemma scans_parseLines (current : Text) (ls : List Text) : Scans isWide current ls (parseLines isWide current ls) := by
  induction current, ls using parseLines.induct isWide with
  | case1 current =>
    rw [parseLines]
    exact .done
  | case2 current l ls path hf ih =>
    rw [parseLines, hf]
    exact .file hf ih
  | case3 current l ls hf hs ih =>
    rw [parseLines, hf]
    simp only [hs, if_true]
    obtain ⟨hsearch, hsplit⟩ := upTo_append_behind isDivider ls
    obtain ⟨hall, hnil⟩ | ⟨divider, hd, hall⟩ := hsplit
    · -- no divider is left
      rw [hnil, show behind (isReplace isWide) [] = [] from rfl, parseLines,
        show upTo (isReplace isWide) [] = [] from rfl]
      rw [← hall] at hsearch ⊢
      exact .cutSearch hs hsearch
    obtain ⟨hreplace, hsplit'⟩ := upTo_append_behind (isReplace isWide) (behind isDivider ls)
    obtain ⟨hall', hnil'⟩ | ⟨stop, he, hall'⟩ := hsplit'
    · -- no end marker is left
      rw [hnil', parseLines]
      rw [← hall'] at hreplace ⊢
      have hscan := @Scans.cutReplace isWide current _ _ _ _ hs hd hsearch hreplace
      rwa [← hall] at hscan
    · have hscan := @Scans.block isWide current _ _ _ _ _ _ _ hs hd he hsearch hreplace ih
      rwa [← hall', ← hall] at hscan
  | case4 current l ls hf hs ih =>
    rw [parseLines, hf]
    simp only [hs]
    exact .skip hf (by simpa using hs) ih

/-- A reply is read as the scanner does, and it is read as complete blocks only exactly where every search marker of it
is followed, among its marker and file lines, by a divider and an end marker. -/
theorem scans_and_reads_iff (defaultPath text : Text) :
    Scans isWide defaultPath (linesOf text) (parseFileEditBlocks isWide defaultPath text) ∧
      (Reads isWide defaultPath (linesOf text) (parseFileEditBlocks isWide defaultPath text) ↔
        EverySearchCloses isWide (linesOf text)) :=
  ⟨scans_parseLines _ _, closes_of_reads, fun h => reads_of_closes h defaultPath⟩

def cutReply : Text := "FILE: a.py\n<<<<<<< SEARCH\nx = 1\n=======".toList

def cutBlock : EditBlock := ⟨"a.py".toList, "x = 1".toList, []⟩

/-- A reply cut off behind its divider is captured, as an edit that deletes what it searched for. -/
theorem not_reads_cutReply : parseFileEditBlocks (fun _ => false) [] cutReply = [cutBlock] ∧
    ¬ Reads (fun _ => false) [] (linesOf cutReply) (parseFileEditBlocks (fun _ => false) [] cutReply) := by
  have hlines : linesOf cutReply =
      ["FILE: a.py".toList, "<<<<<<< SEARCH".toList, "x = 1".toList, "=======".toList] := by decide
  constructor
  · have hfile : fileLine "FILE: a.py".toList = some "a.py".toList := by decide
    have hnone : fileLine "<<<<<<< SEARCH".toList = none := by decide
    have hsearch : isSearch (fun _ => false) "<<<<<<< SEARCH".toList = true := by decide
    rw [parseFileEditBlocks, hlines, parseLines, hfile]
    simp only [parseLines, hnone, hsearch, if_true]
    have hbehind : behind (isReplace fun _ => false) (behind isDivider ["x = 1".toList, "=======".toList]) = [] := by
      decide
    rw [hbehind, parseLines]
    decide
  · intro h
    have hmarks : (linesOf cutReply).filterMap (mark fun _ => false) = [.file, .search, .divider] := by
      rw [hlines]
      decide
    obtain ⟨rest, hrest⟩ := closes_of_reads h [.file] [.divider] hmarks
    cases hrest

end Result

end CommitReplay.EditBlockReads
