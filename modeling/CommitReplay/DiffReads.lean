import CommitReplay.DiffHeaders

/-! The two readers over a whole diff: the counts are those of its files where no line holds a boundary of
`str.splitlines` that git leaves in the line, and the line numbers are those of the new side. -/
namespace CommitReplay.DiffReads

open CommitReplay.PythonText CommitReplay.PriorityRegex CommitReplay.LineRegex
open CommitReplay.UnifiedDiff CommitReplay.DiffHeaders

section Plain

/-- No line ends in the text for either of the two. -/
def Plain (l : Text) : Prop := ∀ c ∈ l, isLineBreak c = false

lemma plain_of_all {l : Text} (h : (l.all fun c => !isLineBreak c) = true) : Plain l := by
  simpa [Plain, List.all_eq_true] using h

lemma Plain.append {a b : Text} (ha : Plain a) (hb : Plain b) : Plain (a ++ b) :=
  fun c hc => (List.mem_append.mp hc).elim (ha c) (hb c)

lemma plain_of_ascii {l : Text} (h : ∀ c ∈ l, 32 ≤ c.toNat ∧ c.toNat < 127) : Plain l := by
  intro c hc
  have := h c hc
  simp only [isLineBreak, Bool.or_eq_false_iff, Bool.and_eq_false_iff, decide_eq_false_iff_not, beq_eq_false_iff_ne]
  omega

lemma plain_path (p : FilePath) : Plain p.1 := plain_of_ascii fun c hc => ⟨(p.2.2 c hc).1, (p.2.2 c hc).2.1⟩

lemma plain_toDigits (n : ℕ) : Plain (Nat.toDigits 10 n) := plain_of_ascii fun c hc => by
  have hdigit : 48 ≤ c.toNat ∧ c.toNat ≤ 57 := Char.isDigit_iff_toNat.mp (JsonRoundTrip.toDigits_isDigit hc)
  omega

lemma plain_spanText (before k : ℕ) : Plain (spanText before k) := by
  have hcount : Plain (countText k) := by
    rw [countText]
    split_ifs
    · simp [Plain]
    · exact Plain.append (a := [',']) (plain_of_all rfl) (plain_toDigits k)
  exact (plain_toDigits _).append hcount

lemma plain_spans (h : Hunk) (old new : ℕ) : Plain (h.spans old new) :=
  Plain.append (plain_of_all rfl) ((plain_spanText _ _).append (Plain.append (plain_of_all rfl)
    ((plain_spanText _ _).append (plain_of_all rfl))))

lemma plain_sidePath {side : Char} (hside : isLineBreak side = false) (p : FilePath) : Plain (sidePath side p) := by
  have htab : Plain (if ' ' ∈ p.1 then ['\t'] else []) := by split_ifs <;> exact plain_of_all rfl
  have hslash : Plain [side, '/'] := List.forall_mem_cons.mpr ⟨hside, plain_of_all rfl⟩
  exact hslash.append ((plain_path p).append htab)

lemma plain_gitLine (n : Names) : Plain n.gitLine := by
  have hline : ∀ p q : FilePath, Plain ("diff --git a/".toList ++ (p.1 ++ (" b/".toList ++ q.1))) := fun p q =>
    Plain.append (plain_of_all rfl) ((plain_path p).append (Plain.append (plain_of_all rfl) (plain_path q)))
  cases n with
  | created p => exact hline p p
  | removed p => exact hline p p
  | changed old new => exact hline old new

lemma plain_oldName (n : Names) : Plain n.oldName := by
  cases n with
  | created p => exact plain_of_all rfl
  | removed p => exact plain_sidePath rfl p
  | changed old new => exact plain_sidePath rfl old

lemma plain_newName (n : Names) : Plain n.newName := by
  cases n with
  | created p => exact plain_sidePath rfl p
  | removed p => exact plain_of_all rfl
  | changed old new => exact plain_sidePath rfl new

lemma plain_extended (x : Label × FilePath) : Plain (x.1.text ++ x.2.1) := by
  refine Plain.append ?_ (plain_path x.2)
  cases x.1 <;> exact plain_of_all rfl

end Plain

section Steps

variable {s : Reader} {line : Text}

lemma step_inside (h : 0 < s.oldLeft ∨ 0 < s.newLeft) : s.step line = s.content line := if_pos h

lemma step_outside (ho : s.oldLeft ≤ 0) (hn : s.newLeft ≤ 0) : s.step line = s.heading line :=
  if_neg (by omega)

lemma startsWith_eq_false {w : Text} {c : Char} (hc : w.head? = some c) (h : line.head? ≠ some c) :
    startsWith line w = false := by
  refine Bool.eq_false_iff.mpr fun hw => h ?_
  obtain ⟨t, rfl⟩ := List.isPrefixOf_iff_prefix.mp hw
  obtain ⟨w, rfl⟩ := List.head?_eq_some_iff.mp hc
  rfl

/-- A line that begins none of the headings leaves the reader where it stands. -/
lemma heading_eq_self (hd : startsWith line "diff --git ".toList = false) (hm : line.head? ≠ some '-')
    (hp : line.head? ≠ some '+') (ha : line.head? ≠ some '@') : s.heading line = s := by
  have hold : startsWith line "--- ".toList = false := startsWith_eq_false rfl hm
  have hnew : startsWith line "+++ ".toList = false := startsWith_eq_false rfl hp
  rw [Reader.heading, hd, hold, hnew, hunkHeader, readLine_hunkRx_eq_none _ _ _ ha]
  rfl

lemma step_backslash (h : line.head? = some '\\') : s.step line = s := by
  rw [Reader.step]
  split_ifs
  · exact if_pos h
  · exact heading_eq_self (startsWith_eq_false (w := "diff --git ".toList) (c := 'd') rfl (by simp [h])) (by simp [h]) (by simp [h]) (by simp [h])

lemma foldl_harmless {ps : List Text} (h : ∀ p ∈ ps, p.head? = some '\\') : ps.foldl Reader.step s = s := by
  induction ps with
  | nil => rfl
  | cons p ps ih =>
    rw [List.foldl_cons, step_backslash (h p List.mem_cons_self)]
    exact ih fun q hq => h q (List.mem_cons_of_mem p hq)

end Steps

section Bodies

lemma pieces_body (l : BodyLine) : l.render.flatMap pieces = (l.side.tag :: first l.text.1) :: later l.text.1 ++
    if l.ended then [] else ["\\ No newline at end of file".toList] := by
  have hline : pieces (l.side.tag :: l.text.1) = (l.side.tag :: first l.text.1) :: later l.text.1 :=
    pieces_append (w := [l.side.tag]) (plain_of_all (by cases l.side <;> rfl)) _
  rw [BodyLine.render, List.flatMap_cons, hline]
  split_ifs
  · rfl
  · rw [List.flatMap_singleton, pieces_plain (plain_of_all rfl)]

/-- Within the counts of its hunk a line is read as its side says. -/
lemma step_body (l : BodyLine) (ls : List BodyLine) (out : List Entry) (path : Option Text) (a d : ℕ) (t : Text) :
    Reader.step ⟨out, path, a, d, oldCount (l :: ls), newCount (l :: ls)⟩ (l.side.tag :: t) =
      ⟨out, path, a + addedCount [l], d + deletedCount [l], oldCount ls, newCount ls⟩ := by
  rw [step_inside]
  · cases h : l.side <;> simp [Reader.content, oldCount, newCount, addedCount, deletedCount, h, Side.tag]
  · cases h : l.side <;> simp [oldCount, newCount, h]

lemma foldl_body {ls : List BodyLine} (h : ∀ l ∈ ls, Harmless l.text.1) (out : List Entry) (path : Option Text)
    (a d : ℕ) : ((ls.flatMap BodyLine.render).flatMap pieces).foldl Reader.step
      ⟨out, path, a, d, oldCount ls, newCount ls⟩ = ⟨out, path, a + addedCount ls, d + deletedCount ls, 0, 0⟩ := by
  induction ls generalizing a d with
  | nil => rfl
  | cons l ls ih =>
    obtain ⟨hl, hls⟩ := List.forall_mem_cons.mp h
    have hmark : ∀ p ∈ later l.text.1 ++ (if l.ended then [] else ["\\ No newline at end of file".toList]),
        p.head? = some '\\' := by
      refine fun p hp => (List.mem_append.mp hp).elim (hl p) fun hp => ?_
      split_ifs at hp
      · cases hp
      · rw [List.mem_singleton.mp hp]
        rfl
    rw [List.flatMap_cons, List.flatMap_append, List.foldl_append, pieces_body, List.cons_append, List.foldl_cons,
      step_body, foldl_harmless hmark, ih hls]
    simp [addedCount, deletedCount, List.countP_cons, Nat.add_assoc, Nat.add_comm]

end Bodies


section Hunks

lemma pieces_header (h : Hunk) (old new : ℕ) :
    pieces (h.header old new) = (h.spans old new ++ first h.section_.1) :: later h.section_.1 :=
  pieces_append (plain_spans h old new) _

lemma step_header (h : Hunk) (old new : ℕ) (tail : Text) (out : List Entry) (path : Option Text) (a d : ℕ) :
    Reader.step ⟨out, path, a, d, 0, 0⟩ (h.spans old new ++ tail) =
      ⟨out, path, a, d, oldCount h.lines, newCount h.lines⟩ := by
  obtain ⟨g, hg, ho, hn⟩ := hunkHeader_header h old new tail
  have hhead : (h.spans old new ++ tail).head? = some '@' := rfl
  have hgit : startsWith (h.spans old new ++ tail) "diff --git ".toList = false :=
    startsWith_eq_false (c := 'd') rfl (by simp [hhead])
  have hold : startsWith (h.spans old new ++ tail) "--- ".toList = false :=
    startsWith_eq_false (c := '-') rfl (by simp [hhead])
  have hnew : startsWith (h.spans old new ++ tail) "+++ ".toList = false :=
    startsWith_eq_false (c := '+') rfl (by simp [hhead])
  rw [step_outside le_rfl le_rfl, Reader.heading, hgit, hold, hnew, hg, ← ho, ← hn]
  rfl

/-- What is read of a file's hunks. -/
lemma foldl_hunks {hs : List Hunk} (h : ∀ k ∈ hs, ∀ l ∈ k.contents, Harmless l) (old new : ℕ) (out : List Entry)
    (path : Option Text) (a d : ℕ) :
    ((renderHunks old new hs).flatMap pieces).foldl Reader.step ⟨out, path, a, d, 0, 0⟩ =
      ⟨out, path, a + (hs.map fun k => addedCount k.lines).sum,
        d + (hs.map fun k => deletedCount k.lines).sum, 0, 0⟩ := by
  induction hs generalizing old new a d with
  | nil => rfl
  | cons k hs ih =>
    obtain ⟨hk, hhs⟩ := List.forall_mem_cons.mp h
    have hlines : ∀ l ∈ k.lines, Harmless l.text.1 := fun l hl =>
      hk _ (List.mem_cons_of_mem _ (List.mem_map_of_mem hl))
    rw [renderHunks, List.cons_append, List.flatMap_cons, List.flatMap_append, List.foldl_append, List.foldl_append,
      pieces_header, List.foldl_cons, step_header, foldl_harmless (hk _ List.mem_cons_self), foldl_body hlines,
      ih hhs, List.map_cons, List.map_cons, List.sum_cons, List.sum_cons, Nat.add_assoc, Nat.add_assoc]

end Hunks

section Changes

lemma diffPath_sidePath {side : Char} (hside : side = 'a' ∨ side = 'b') (p : FilePath) :
    diffPath (sidePath side p) = p.1 := by
  have hp : ∀ c ∈ side :: '/' :: p.1, c ≠ '\t' := by
    have hpath : ∀ c ∈ p.1, c ≠ '\t' := by
      rintro c hc rfl
      exact absurd (p.2.2 _ hc).1 (by decide)
    refine List.forall_mem_cons.mpr ⟨?_, List.forall_mem_cons.mpr ⟨by decide, hpath⟩⟩
    rcases hside with rfl | rfl <;> decide
  have hhead : splitHead '\t' (sidePath side p) = side :: '/' :: p.1 := by
    rw [splitHead, sidePath]
    refine takeWhile_append_stop (fun c hc => by simpa using hp c hc) ?_
    split_ifs <;> rfl
  rw [diffPath, hhead]
  rcases hside with rfl | rfl <;> rfl

variable {out : List Entry} {path : Option Text} {a d : ℕ}

lemma step_gitLine (n : Names) : Reader.step ⟨out, path, a, d, 0, 0⟩ n.gitLine =
    ⟨Reader.flush ⟨out, path, a, d, 0, 0⟩, some [], 0, 0, 0, 0⟩ := by
  have hgit : startsWith n.gitLine "diff --git ".toList = true := by cases n <;> rfl
  rw [step_outside le_rfl le_rfl, Reader.heading, if_pos hgit]

lemma head_label (l : Label) (t : Text) {c : Char} (hc : c ∈ ['-', '+', '@']) : (l.text ++ t).head? ≠ some c := by
  have hother : (l.text ++ t).head?.all (fun d => !(['-', '+', '@'] : Text).contains d) = true := by cases l <;> rfl
  intro he
  rw [he, Option.all_some, Bool.not_eq_true', ← Bool.not_eq_true, List.contains_iff_mem] at hother
  exact hother hc

lemma startsWith_label (l : Label) (t : Text) : startsWith (l.text ++ t) "diff --git ".toList = false := by
  cases l <;> rfl

lemma foldl_extended (xs : List (Label × FilePath)) (s : Reader) (ho : s.oldLeft = 0) (hn : s.newLeft = 0) :
    ((xs.map fun x => x.1.text ++ x.2.1).flatMap pieces).foldl Reader.step s = s := by
  induction xs with
  | nil => rfl
  | cons x xs ih =>
    have hstep : s.step (x.1.text ++ x.2.1) = s := by
      rw [step_outside ho.le hn.le]
      exact heading_eq_self (startsWith_label x.1 _) (head_label _ _ (by simp)) (head_label _ _ (by simp))
        (head_label _ _ (by simp))
    rw [List.map_cons, List.flatMap_cons, pieces_plain (plain_extended x), List.foldl_append, List.foldl_cons,
      List.foldl_nil, hstep, ih]

lemma step_oldName (name : Text) : Reader.step ⟨out, some [], a, d, 0, 0⟩ ("--- ".toList ++ name) =
    ⟨out, some (diffPath name), a, d, 0, 0⟩ := by
  have hgit : startsWith ("--- ".toList ++ name) "diff --git ".toList = false := rfl
  have hold : startsWith ("--- ".toList ++ name) "--- ".toList = true := rfl
  rw [step_outside le_rfl le_rfl, Reader.heading, hgit, hold, if_neg Bool.false_ne_true, if_pos ⟨rfl, rfl⟩]
  rfl

lemma step_newName (q name : Text) : Reader.step ⟨out, some q, a, d, 0, 0⟩ ("+++ ".toList ++ name) =
    ⟨out, some (if diffPath name ≠ [] then diffPath name else q), a, d, 0, 0⟩ := by
  have hgit : startsWith ("+++ ".toList ++ name) "diff --git ".toList = false := rfl
  have hold : startsWith ("+++ ".toList ++ name) "--- ".toList = false := rfl
  have hnew : startsWith ("+++ ".toList ++ name) "+++ ".toList = true := rfl
  rw [step_outside le_rfl le_rfl, Reader.heading, hgit, hold, hnew, if_neg Bool.false_ne_true,
    if_neg (fun h => Bool.false_ne_true h.1), if_pos rfl]
  rfl

/-- The two lines that name the file. -/
lemma step_names (n : Names) : (Reader.step ⟨out, some [], a, d, 0, 0⟩ ("--- ".toList ++ n.oldName)).step
    ("+++ ".toList ++ n.newName) = ⟨out, some n.path.1, a, d, 0, 0⟩ := by
  have hnull : diffPath "/dev/null".toList = [] := rfl
  rw [step_oldName, step_newName]
  cases n with
  | created p =>
    rw [show (Names.created p).newName = sidePath 'b' p from rfl, diffPath_sidePath (.inr rfl), if_pos p.2.1]
    rfl
  | removed p =>
    rw [show (Names.removed p).newName = "/dev/null".toList from rfl, hnull, if_neg (not_not_intro rfl),
      show (Names.removed p).oldName = sidePath 'a' p from rfl, diffPath_sidePath (.inl rfl)]
    rfl
  | changed old new =>
    rw [show (Names.changed old new).newName = sidePath 'b' new from rfl, diffPath_sidePath (.inr rfl), if_pos new.2.1]
    rfl

/-- A file as it is read: without a hunk nothing names it. -/
def readEntry (c : FileChange) : Entry := if c.hunks = [] then ([], 0, 0) else c.entry

lemma contents_of_hunk {c : FileChange} {h : Hunk} (hh : h ∈ c.hunks) : h.contents ⊆ c.contents :=
  fun _ hl => List.mem_flatMap.mpr ⟨h, hh, hl⟩

/-- The headings of a file with hunks name it, and end the file before. -/
lemma foldl_headings {c : FileChange} (hne : c.hunks ≠ []) :
    (c.render.flatMap pieces).foldl Reader.step ⟨out, path, a, d, 0, 0⟩ =
      ((renderHunks 0 0 c.hunks).flatMap pieces).foldl Reader.step
        ⟨Reader.flush ⟨out, path, a, d, 0, 0⟩, some c.names.path.1, 0, 0, 0, 0⟩ := by
  rw [FileChange.render, List.cons_append, List.flatMap_cons, List.flatMap_append, List.foldl_append,
    List.foldl_append, pieces_plain (plain_gitLine _), List.foldl_cons, List.foldl_nil, step_gitLine,
    foldl_extended _ _ rfl rfl, if_neg hne, List.flatMap_cons, List.flatMap_cons, List.foldl_append,
    List.foldl_append, pieces_plain (Plain.append (plain_of_all rfl) (plain_oldName _)),
    pieces_plain (Plain.append (plain_of_all rfl) (plain_newName _)), List.foldl_cons, List.foldl_nil,
    List.foldl_cons, List.foldl_nil, step_names]

lemma foldl_change {c : FileChange} (hc : ∀ l ∈ c.contents, Harmless l) :
    (c.render.flatMap pieces).foldl Reader.step ⟨out, path, a, d, 0, 0⟩ =
      ⟨Reader.flush ⟨out, path, a, d, 0, 0⟩, some (readEntry c).1, (readEntry c).2.1, (readEntry c).2.2, 0, 0⟩ := by
  have hhunks : ∀ k ∈ c.hunks, ∀ l ∈ k.contents, Harmless l := fun k hk l hl =>
    hc l (contents_of_hunk hk hl)
  rw [readEntry]
  split_ifs with hnil
  · rw [FileChange.render, if_pos hnil, List.append_nil, List.flatMap_cons, List.foldl_append,
      pieces_plain (plain_gitLine _), List.foldl_cons, List.foldl_nil, step_gitLine, foldl_extended _ _ rfl rfl]
  · rw [foldl_headings hnil, foldl_hunks hhunks, Nat.zero_add, Nat.zero_add]
    rfl

lemma flush_foldl_changes {cs : List FileChange} (hcs : ∀ c ∈ cs, ∀ l ∈ c.contents, Harmless l) :
    (((cs.flatMap FileChange.render).flatMap pieces).foldl Reader.step ⟨out, path, a, d, 0, 0⟩).flush =
      Reader.flush ⟨out, path, a, d, 0, 0⟩ ++ cs.map readEntry := by
  induction cs generalizing out path a d with
  | nil => simp
  | cons c cs ih =>
    obtain ⟨hc, hcs⟩ := List.forall_mem_cons.mp hcs
    rw [List.flatMap_cons, List.flatMap_append, List.foldl_append, foldl_change hc, ih hcs, Reader.flush,
      List.map_cons, List.append_assoc]
    rfl

/-- The files of a diff in order with their numbers of lines, where no line hides one from the reader. -/
theorem diffFileCounts_gitDiff {cs : List FileChange} (hcs : ∀ c ∈ cs, ∀ l ∈ c.contents, Harmless l) :
    diffFileCounts (gitDiff cs) = cs.map readEntry := by
  rw [diffFileCounts, gitDiff, splitlines_unlines]
  exact flush_foldl_changes hcs

theorem readEntry_eq_iff (c : FileChange) : readEntry c = c.entry ↔ c.hunks ≠ [] := by
  rw [readEntry]
  split_ifs with h
  · refine iff_of_false (fun he => ?_) (fun hne => hne h)
    exact c.names.path.2.1 (congrArg Prod.fst he).symm
  · exact iff_of_true rfl h

end Changes

section Numbers

/-- One of the lines names the number. -/
def NamedIn (ps : List Text) (n : ℕ) : Prop := ∃ p ∈ ps, n ∈ named p

lemma namedIn_nil (n : ℕ) : ¬ NamedIn [] n := by simp [NamedIn]

lemma namedIn_cons (p : Text) (ps : List Text) (n : ℕ) : NamedIn (p :: ps) n ↔ n ∈ named p ∨ NamedIn ps n := by
  simp [NamedIn]

lemma namedIn_append (ps qs : List Text) (n : ℕ) : NamedIn (ps ++ qs) n ↔ NamedIn ps n ∨ NamedIn qs n := by
  simp [NamedIn, or_and_right, exists_or]

lemma mem_foldl_named (ps : List Text) (acc : Finset ℕ) (n : ℕ) :
    n ∈ ps.foldl (fun lines raw => lines ∪ named raw) acc ↔ n ∈ acc ∨ NamedIn ps n := by
  induction ps generalizing acc with
  | nil => simp [NamedIn]
  | cons p ps ih => rw [List.foldl_cons, ih, Finset.mem_union, namedIn_cons, or_assoc]

lemma newCount_eq_addedCount {ls : List BodyLine} (h : ∀ l ∈ ls, l.side ≠ .kept) : newCount ls = addedCount ls := by
  refine List.countP_congr fun l hl => ?_
  have := h l hl
  cases hs : l.side <;> simp_all

lemma addedNumbers_eq {ls : List BodyLine} (h : ∀ l ∈ ls, l.side ≠ .kept) (n : ℕ) :
    addedNumbers n ls = Finset.Ico (n + 1) (n + 1 + addedCount ls) := by
  induction ls generalizing n with
  | nil => simp [addedNumbers, addedCount]
  | cons l ls ih =>
    obtain ⟨hl, hls⟩ := List.forall_mem_cons.mp h
    cases hs : l.side with
    | kept => exact absurd hs hl
    | deleted => simp [addedNumbers, hs, ih hls, addedCount]
    | added =>
      have hcount : addedCount (l :: ls) = addedCount ls + 1 := by simp [addedCount, hs]
      simp only [addedNumbers, hs, ih hls, hcount]
      rw [← Finset.insert_Ico_add_one_left_eq_Ico (by omega : n + 1 < n + 1 + (addedCount ls + 1))]
      congr 2
      omega

/-- A header without a line that is kept names what its hunk changes. -/
lemma named_spans {h : Hunk} (hz : ∀ l ∈ h.lines, l.side ≠ .kept) (old new : ℕ) (tail : Text) :
    named (h.spans old new ++ tail) = h.changed new := by
  rw [named_header, Hunk.changed, newCount_eq_addedCount hz, addedNumbers_eq hz]

lemma namedIn_body (ls : List BodyLine) (n : ℕ) :
    NamedIn ((ls.flatMap BodyLine.render).flatMap pieces) n ↔ NamedIn ((ls.map (·.text.1)).flatMap later) n := by
  induction ls with
  | nil => exact Iff.rfl
  | cons l ls ih =>
    have htag : named (l.side.tag :: first l.text.1) = ∅ := named_eq_empty (by cases l.side <;> simp [Side.tag])
    have hmark : ¬ NamedIn (if l.ended then [] else ["\\ No newline at end of file".toList]) n := by
      split_ifs
      · exact namedIn_nil n
      · rw [namedIn_cons, named_eq_empty (by simp), or_iff_right (Finset.notMem_empty n)]
        exact namedIn_nil n
    rw [List.flatMap_cons, List.flatMap_append, namedIn_append, ih, pieces_body, List.cons_append, namedIn_cons, htag,
      or_iff_right (Finset.notMem_empty n), namedIn_append, or_iff_left hmark, List.map_cons, List.flatMap_cons,
      namedIn_append]

lemma namedIn_hunks {hs : List Hunk} (hz : ∀ h ∈ hs, ∀ l ∈ h.lines, l.side ≠ .kept) (old new n : ℕ) :
    NamedIn ((renderHunks old new hs).flatMap pieces) n ↔
      n ∈ changedFrom new hs ∨ NamedIn ((hs.flatMap Hunk.contents).flatMap later) n := by
  induction hs generalizing old new with
  | nil => simp [renderHunks, changedFrom]
  | cons h hs ih =>
    obtain ⟨hh, hhs⟩ := List.forall_mem_cons.mp hz
    rw [renderHunks, List.cons_append, List.flatMap_cons, List.flatMap_append, pieces_header, List.cons_append,
      namedIn_cons, namedIn_append, namedIn_append, namedIn_body, ih hhs, named_spans hh, changedFrom,
      Finset.mem_union, List.flatMap_cons, List.flatMap_append, namedIn_append, Hunk.contents, List.flatMap_cons,
      namedIn_append]
    tauto

/-- The numbers of the new side, and what is named behind a boundary in one of the texts. -/
theorem mem_changedLines {c : FileChange} (hz : c.ZeroContext) (n : ℕ) :
    n ∈ changedLinesFromDiff (gitDiff [c]) ↔ n ∈ c.changed ∨ NamedIn (c.contents.flatMap later) n := by
  have hplain : ∀ l : Text, Plain l → l.head? ≠ some '@' → ¬ NamedIn (pieces l) n := by
    intro l hl hhead
    rw [pieces_plain hl, namedIn_cons, named_eq_empty hhead, or_iff_right (Finset.notMem_empty n)]
    exact namedIn_nil n
  have hgit := hplain _ (plain_gitLine c.names) (by cases c.names <;> exact (by decide : some 'd' ≠ some '@'))
  have hold : ¬ NamedIn (pieces ("--- ".toList ++ c.names.oldName)) n :=
    hplain _ (Plain.append (plain_of_all rfl) (plain_oldName c.names)) (by simp)
  have hnew : ¬ NamedIn (pieces ("+++ ".toList ++ c.names.newName)) n :=
    hplain _ (Plain.append (plain_of_all rfl) (plain_newName c.names)) (by simp)
  have hext : ¬ NamedIn ((c.extended.map fun x => x.1.text ++ x.2.1).flatMap pieces) n := by
    rintro ⟨p, hp, hn⟩
    obtain ⟨l, hl, hp⟩ := List.mem_flatMap.mp hp
    obtain ⟨x, -, rfl⟩ := List.mem_map.mp hl
    exact hplain _ (plain_extended x) (head_label _ _ (by simp)) ⟨p, hp, hn⟩
  rw [changedLinesFromDiff, gitDiff, splitlines_unlines, mem_foldl_named, or_iff_right (Finset.notMem_empty n),
    List.flatMap_singleton, FileChange.render, List.cons_append, List.flatMap_cons, List.flatMap_append,
    namedIn_append, namedIn_append, or_iff_right hgit, or_iff_right hext]
  split_ifs with hnil
  · rw [FileChange.changed, FileChange.contents, hnil]
    exact iff_of_false (namedIn_nil n) (by simp [changedFrom, NamedIn])
  · rw [List.flatMap_cons, List.flatMap_cons, namedIn_append, namedIn_append, or_iff_right hold, or_iff_right hnew,
      namedIn_hunks hz]
    rfl

end Numbers

section Misread

/-- The lines that begin as an added or as a deleted line. -/
def tagged (c : Char) (ps : List Text) : ℕ := ps.countP (·.head? = some c)

lemma tagged_cons (c : Char) (p : Text) (ps : List Text) : tagged c (p :: ps) = tagged c [p] + tagged c ps := by
  rw [tagged, ← List.singleton_append, List.countP_append]
  rfl

/-- A line ends the file it is read in, or counts once at most, and only when it begins as an added line. -/
lemma step_cases (s : Reader) (line : Text) {p : Text} (hp : s.path = some p) : (∃ q, (s.step line).path = some q) ∧
    ((s.step line).out = s.out ∧ s.adds ≤ (s.step line).adds ∧ (s.step line).adds ≤ s.adds + tagged '+' [line] ∧
      s.dels ≤ (s.step line).dels ∨ (s.step line).out = s.out ++ [(p, s.adds, s.dels)]) := by
  have htag : line.head? = some '+' → tagged '+' [line] = 1 := fun h => by simp [tagged, h]
  rw [Reader.step]
  split_ifs
  · refine ⟨⟨p, ?_⟩, .inl ?_⟩
    · rw [Reader.content]
      split_ifs <;> exact hp
    · rw [Reader.content]
      split_ifs with h₁ h₂
      · exact ⟨rfl, le_rfl, Nat.le_add_right _ _, le_rfl⟩
      · exact ⟨rfl, Nat.le_succ _, (htag h₂).symm ▸ le_rfl, le_rfl⟩
      · exact ⟨rfl, le_rfl, Nat.le_add_right _ _, Nat.le_succ _⟩
      · exact ⟨rfl, le_rfl, Nat.le_add_right _ _, le_rfl⟩
  · rw [Reader.heading]
    dsimp only
    split_ifs
    · exact ⟨⟨[], rfl⟩, .inr (by simp [Reader.flush, hp])⟩
    · exact ⟨⟨_, rfl⟩, .inl ⟨rfl, le_rfl, Nat.le_add_right _ _, le_rfl⟩⟩
    · exact ⟨⟨_, rfl⟩, .inl ⟨rfl, le_rfl, Nat.le_add_right _ _, le_rfl⟩⟩
    · exact ⟨⟨_, rfl⟩, .inl ⟨rfl, le_rfl, Nat.le_add_right _ _, le_rfl⟩⟩
    · cases readLine (run hunkHeader) line with
      | none => exact ⟨⟨p, hp⟩, .inl ⟨rfl, le_rfl, Nat.le_add_right _ _, le_rfl⟩⟩
      | some g => exact ⟨⟨p, hp⟩, .inl ⟨rfl, le_rfl, Nat.le_add_right _ _, le_rfl⟩⟩

/-- A file that is behind the reader stays the first. -/
lemma head_flush (ls : List Text) {s : Reader} {p : Text} (hp : s.path = some p) {e : Entry} {es : List Entry}
    (hs : s.out = e :: es) : ∃ rest, (ls.foldl Reader.step s).flush = e :: rest := by
  induction ls generalizing s p es with
  | nil => exact ⟨_, by rw [List.foldl_nil, Reader.flush, hs, List.cons_append]⟩
  | cons l ls ih =>
    obtain ⟨⟨q, hq⟩, ⟨hout, -⟩ | hout⟩ := step_cases s l hp
    · exact ih hq (hout.trans hs)
    · exact ih hq (hout.trans (by rw [hs, List.cons_append]))

/-- The first file that is read: at least what is counted already, and at most what begins as an added line. -/
lemma first_entry (ls : List Text) {s : Reader} {p : Text} (hp : s.path = some p) (hs : s.out = []) :
    ∃ q a d rest, (ls.foldl Reader.step s).flush = (q, a, d) :: rest ∧ s.adds ≤ a ∧
      a ≤ s.adds + tagged '+' ls ∧ s.dels ≤ d := by
  induction ls generalizing s p with
  | nil => exact ⟨p, s.adds, s.dels, [], by simp [Reader.flush, hs, hp], le_rfl, le_rfl, le_rfl⟩
  | cons l ls ih =>
    have hcount := tagged_cons '+' l ls
    obtain ⟨⟨q, hq⟩, ⟨hout, hle, hup, hdels⟩ | hout⟩ := step_cases s l hp
    · obtain ⟨r, a, d, rest, he, h₁, h₂, h₃⟩ := ih hq (hout.trans hs)
      exact ⟨r, a, d, rest, he, by omega, by omega, by omega⟩
    · rw [hs, List.nil_append] at hout
      obtain ⟨rest, he⟩ := head_flush ls hq hout
      exact ⟨p, s.adds, s.dels, rest, he, le_rfl, Nat.le_add_right _ _, le_rfl⟩

/-- A line inside a hunk counts by how it begins, and takes one from each side at most. -/
lemma content_spec (s : Reader) (p : Text) : (s.content p).out = s.out ∧ (s.content p).path = s.path ∧
    (s.content p).adds = s.adds + tagged '+' [p] ∧ (s.content p).dels = s.dels + tagged '-' [p] ∧
      max s.oldLeft s.newLeft - 1 ≤ max (s.content p).oldLeft (s.content p).newLeft := by
  rw [Reader.content]
  split_ifs with h₁ h₂ h₃
  · exact ⟨rfl, rfl, by simp [tagged, h₁], by simp [tagged, h₁], by omega⟩
  · exact ⟨rfl, rfl, by simp [tagged, h₂], by simp [tagged, h₂], by dsimp only; omega⟩
  · exact ⟨rfl, rfl, by simp [tagged, h₃], by simp [tagged, h₃], by dsimp only; omega⟩
  · exact ⟨rfl, rfl, by simp [tagged, h₂], by simp [tagged, h₃], by dsimp only; omega⟩

/-- Lines that fit into the hunk count by how they begin. -/
lemma foldl_inside (ps : List Text) (s : Reader) (h : (ps.length : ℤ) ≤ max s.oldLeft s.newLeft) :
    (ps.foldl Reader.step s).out = s.out ∧ (ps.foldl Reader.step s).path = s.path ∧
      (ps.foldl Reader.step s).adds = s.adds + tagged '+' ps ∧
      (ps.foldl Reader.step s).dels = s.dels + tagged '-' ps := by
  induction ps generalizing s with
  | nil => exact ⟨rfl, rfl, rfl, rfl⟩
  | cons p ps ih =>
    rw [List.length_cons, Nat.cast_succ] at h
    obtain ⟨hout, hpath, hadds, hdels, hleft⟩ := content_spec s p
    obtain ⟨ho, hp, ha, hd⟩ := ih (s.content p) (by omega)
    rw [List.foldl_cons, step_inside (by omega), tagged_cons '+', tagged_cons '-', ← Nat.add_assoc, ← Nat.add_assoc,
      ← hadds, ← hdels]
    exact ⟨ho.trans hout, hp.trans hpath, ha, hd⟩

/-- Lines that begin neither way take the hunk up as kept lines. -/
lemma foldl_kept (ps : List Text) (hplus : tagged '+' ps = 0) (hminus : tagged '-' ps = 0) (s : Reader)
    (hold : s.oldLeft ≤ 0) (hnew : s.newLeft = ps.countP (·.head? ≠ some '\\')) :
    ∃ old ≤ 0, ps.foldl Reader.step s = { s with oldLeft := old, newLeft := 0 } := by
  induction ps generalizing s with
  | nil =>
    have hzero : s.newLeft = 0 := hnew
    exact ⟨s.oldLeft, hold, by rw [← hzero]; rfl⟩
  | cons p ps ih =>
    rw [tagged_cons, Nat.add_eq_zero_iff] at hplus hminus
    have hp : p.head? ≠ some '+' := fun h => by simp [tagged, h] at hplus
    have hm : p.head? ≠ some '-' := fun h => by simp [tagged, h] at hminus
    rw [List.countP_cons] at hnew
    rw [List.foldl_cons]
    by_cases hb : p.head? = some '\\'
    · rw [step_backslash hb]
      exact ih hplus.2 hminus.2 s hold (by simpa [hb] using hnew)
    · rw [if_pos (by simpa using hb), Nat.cast_succ] at hnew
      have hstep : s.step p = { s with oldLeft := s.oldLeft - 1, newLeft := s.newLeft - 1 } := by
        rw [step_inside (by omega), Reader.content, if_neg hb, if_neg hp, if_neg hm]
      rw [hstep]
      obtain ⟨old, ho, he⟩ := ih hplus.2 hminus.2 { s with oldLeft := s.oldLeft - 1, newLeft := s.newLeft - 1 }
        (by dsimp only; omega) (by dsimp only; omega)
      exact ⟨old, ho, he⟩

section Sample

variable (side : Side) (n : ℕ) (l : Line)

/-- A file of the name `x`. -/
def plainName : FilePath := ⟨['x'], List.cons_ne_nil _ _, fun c hc => by
  obtain rfl := List.mem_singleton.mp hc
  decide⟩

/-- One file whose lines all are of one side and have one text. -/
def repeated : FileChange where
  names := .changed plainName plainName
  extended := []
  hunks := [⟨0, ⟨[], List.not_mem_nil⟩, List.replicate (n + 1) ⟨side, l, true⟩, List.cons_ne_nil _ _⟩]

lemma contents_repeated : ∀ k ∈ (repeated side n l).contents, k = l.1 ∨ k = [] := by
  intro k hk
  simp only [repeated, FileChange.contents, Hunk.contents, List.flatMap_cons, List.flatMap_nil, List.append_nil,
    List.map_replicate, List.mem_cons, List.mem_replicate] at hk
  exact hk.elim .inr fun h => .inl h.2

/-- The lines of so many copies as the reader meets them. -/
def blocks (n : ℕ) : List Text := (List.replicate n ((side.tag :: first l.1) :: later l.1)).flatten

lemma pieces_repeated (n : ℕ) : ((List.replicate n (⟨side, l, true⟩ : BodyLine)).flatMap BodyLine.render).flatMap
    pieces = blocks side l n := by
  induction n with
  | zero => rfl
  | succ n ih =>
    rw [List.replicate_succ, List.flatMap_cons, List.flatMap_append, ih, pieces_body, blocks, blocks,
      List.replicate_succ, List.flatten_cons]
    simp

/-- The reader when it comes to the lines. -/
def atLines : Reader := ⟨[], some plainName.1, 0, 0, oldCount (List.replicate (n + 1) ⟨side, l, true⟩),
  newCount (List.replicate (n + 1) ⟨side, l, true⟩)⟩

lemma counts_repeated : diffFileCounts (gitDiff [repeated side n l]) =
    ((blocks side l (n + 1)).foldl Reader.step (atLines side n l)).flush := by
  have hsection : ∀ h : Hunk, h.section_.1 = [] → ∀ s : Reader, (pieces (h.header 0 0)).foldl Reader.step s =
      s.step (h.spans 0 0 ++ []) := by
    intro h hh s
    rw [pieces_header, hh]
    rfl
  rw [diffFileCounts, gitDiff, splitlines_unlines, List.flatMap_singleton, Reader.start,
    foldl_headings (List.cons_ne_nil _ _)]
  simp only [repeated, renderHunks, List.append_nil, Nat.zero_add]
  rw [List.flatMap_cons, List.foldl_append, hsection _ rfl, step_header, pieces_repeated]
  rfl

lemma tagged_append (c : Char) (ps qs : List Text) : tagged c (ps ++ qs) = tagged c ps + tagged c qs :=
  List.countP_append

lemma blocks_succ (n : ℕ) : blocks side l (n + 1) = (side.tag :: first l.1) :: later l.1 ++ blocks side l n := by
  rw [blocks, List.replicate_succ, List.flatten_cons]
  rfl

lemma counts_replicate : oldCount (List.replicate (n + 1) (⟨side, l, true⟩ : BodyLine)) =
      (if side = .added then 0 else n + 1) ∧
    newCount (List.replicate (n + 1) (⟨side, l, true⟩ : BodyLine)) = (if side = .deleted then 0 else n + 1) := by
  simp only [oldCount, newCount, List.countP_replicate]
  cases side <;> exact ⟨rfl, rfl⟩

lemma entry_repeated : (repeated side n l).entry =
    (plainName.1, (if side = .added then n + 1 else 0), if side = .deleted then n + 1 else 0) := by
  simp only [FileChange.entry, repeated, List.map_cons, List.map_nil, List.sum_cons, List.sum_nil, Nat.add_zero,
    addedCount, deletedCount, List.countP_replicate]
  cases side <;> rfl

/-- With room for them in the hunk, what stands behind the first line's boundaries counts. -/
lemma first_block (hn : (later l.1).length ≤ n) : ∃ q a d rest, diffFileCounts (gitDiff [repeated side n l]) =
    (q, a, d) :: rest ∧ tagged '+' (later l.1) ≤ a ∧ tagged '-' (later l.1) ≤ d := by
  have hroom : (((side.tag :: first l.1) :: later l.1).length : ℤ) ≤
      max (atLines side n l).oldLeft (atLines side n l).newLeft := by
    rw [atLines, (counts_replicate side n l).1, (counts_replicate side n l).2, List.length_cons]
    cases side <;> simp <;> omega
  obtain ⟨hout, hpath, hadds, hdels⟩ := foldl_inside _ _ hroom
  obtain ⟨q, a, d, rest, he, h₁, -, h₂⟩ := first_entry (blocks side l n) hpath hout
  rw [tagged_cons] at hadds hdels
  refine ⟨q, a, d, rest, ?_, by omega, by omega⟩
  rw [counts_repeated, blocks_succ, List.foldl_append]
  exact he

/-- Where no later piece begins as an added or as a deleted line, the hunk ends before its lines do. -/
lemma kept_block (hplus : tagged '+' (later l.1) = 0) (hminus : tagged '-' (later l.1) = 0)
    (hn : n = (later l.1).countP (·.head? ≠ some '\\')) (hpos : 0 < n) :
    ∃ q a d rest, diffFileCounts (gitDiff [repeated .added n l]) = (q, a, d) :: rest ∧ a ≤ n := by
  obtain ⟨m, rfl⟩ := Nat.exists_eq_succ_of_ne_zero hpos.ne'
  have hstart : atLines .added (m + 1) l = ⟨[], some plainName.1, 0, 0, 0, (m + 1 : ℕ) + 1⟩ := by
    rw [atLines, (counts_replicate .added (m + 1) l).1, (counts_replicate .added (m + 1) l).2]
    rfl
  -- the first copy takes up the whole hunk
  have hfirst : (atLines .added (m + 1) l).step ('+' :: first l.1) =
      ⟨[], some plainName.1, 1, 0, 0, (m + 1 : ℕ)⟩ := by
    have hleft : (0 : ℤ) < (m + 1 : ℕ) + 1 := by omega
    rw [hstart, step_inside (.inr hleft)]
    simp [Reader.content]
  obtain ⟨old, hold, hkept⟩ := foldl_kept (later l.1) hplus hminus ⟨[], some plainName.1, 1, 0, 0, (m + 1 : ℕ)⟩ le_rfl
    (by rw [← hn])
  -- the second copy is read outside of it
  set s : Reader := ⟨[], some plainName.1, 1, 0, old, 0⟩ with hs
  have houtside : ∃ q, (s.step ('+' :: first l.1)).path = some q ∧ (s.step ('+' :: first l.1)).out = [] ∧
      (s.step ('+' :: first l.1)).adds = 1 := by
    rw [step_outside hold le_rfl, Reader.heading, startsWith_eq_false (c := 'd') rfl (by simp),
      startsWith_eq_false (c := '-') rfl (by simp), hunkHeader, readLine_hunkRx_eq_none _ _ _ (by simp)]
    simp only [Bool.false_eq_true, false_and, if_false]
    split_ifs <;> exact ⟨_, rfl, rfl, rfl⟩
  obtain ⟨p, hpath, hout, hadds⟩ := houtside
  obtain ⟨q, a, d, rest, he, -, hle, -⟩ := first_entry (later l.1 ++ blocks .added l m) hpath hout
  have hblocks : ∀ k, tagged '+' (blocks .added l k) = k := by
    intro k
    induction k with
    | zero => rfl
    | succ k ih =>
      rw [blocks_succ, List.cons_append, tagged_cons, tagged_append, ih, hplus]
      simp [tagged, Side.tag, Nat.add_comm]
  rw [tagged_append, hplus, hblocks, hadds] at hle
  refine ⟨q, a, d, rest, ?_, by omega⟩
  rw [counts_repeated, blocks_succ, blocks_succ, List.cons_append, List.foldl_cons,
    show Side.tag .added = '+' from rfl, hfirst, List.foldl_append, hkept, List.cons_append, List.foldl_cons]
  exact he

end Sample

/-- A line with anything but marks behind a boundary is misread in some diff that holds no other text. -/
theorem misread_of_not_harmless {l : Line} (hl : ¬ Harmless l.1) : ∃ c : FileChange, c.hunks ≠ [] ∧
    c.ZeroContext ∧ (∀ k ∈ c.contents, k = l.1 ∨ k = []) ∧ diffFileCounts (gitDiff [c]) ≠ [c.entry] := by
  have hzero : ∀ side n, side ≠ .kept → (repeated side n l).ZeroContext := by
    intro side n hside h hh k hk
    rw [repeated, List.mem_singleton] at hh
    subst hh
    exact (List.eq_of_mem_replicate hk) ▸ hside
  by_cases hplus : tagged '+' (later l.1) = 0
  · by_cases hminus : tagged '-' (later l.1) = 0
    · have hpos : 0 < (later l.1).countP (·.head? ≠ some '\\') := by
        rw [Harmless] at hl
        obtain ⟨p, hne⟩ := not_forall.mp hl
        obtain ⟨hp, hne⟩ := Classical.not_imp.mp hne
        exact List.countP_pos_iff.mpr ⟨p, hp, by simpa using hne⟩
      obtain ⟨q, a, d, rest, he, ha⟩ := kept_block _ l hplus hminus rfl hpos
      refine ⟨repeated .added ((later l.1).countP (·.head? ≠ some '\\')) l, List.cons_ne_nil _ _, hzero .added _ (by decide),
        contents_repeated .added _ l, fun hread => ?_⟩
      rw [he, entry_repeated] at hread
      have hadds : a = _ := congrArg (fun e : List Entry => (e.headD ([], 0, 0)).2.1) hread
      simp only [List.headD_cons, if_true] at hadds
      omega
    · obtain ⟨q, a, d, rest, he, -, hd⟩ := first_block .added _ l le_rfl
      refine ⟨repeated .added (later l.1).length l, List.cons_ne_nil _ _, hzero .added _ (by decide),
        contents_repeated .added _ l, fun hread => ?_⟩
      rw [he, entry_repeated] at hread
      have hdels : d = 0 := congrArg (fun e : List Entry => (e.headD ([], 0, 0)).2.2) hread
      omega
  · obtain ⟨q, a, d, rest, he, ha, -⟩ := first_block .deleted _ l le_rfl
    refine ⟨repeated .deleted (later l.1).length l, List.cons_ne_nil _ _, hzero .deleted _ (by decide),
      contents_repeated .deleted _ l, fun hread => ?_⟩
    rw [he, entry_repeated] at hread
    have hadds : a = 0 := congrArg (fun e : List Entry => (e.headD ([], 0, 0)).2.1) hread
    omega

end Misread

section Exactness

/-- The counts are the files' own if and only if each has a hunk, where every line is harmless; a line that is
not is misread in some diff; and the numbers are those of the new side if and only if nothing behind a boundary
names another. -/
theorem diffs_read_iff (cs : List FileChange) (l : Line) (c : FileChange) :
    ((∀ c ∈ cs, ∀ l ∈ c.contents, Harmless l) →
      (diffFileCounts (gitDiff cs) = cs.map FileChange.entry ↔ ∀ c ∈ cs, c.hunks ≠ [])) ∧
    (¬ Harmless l.1 → ∃ c : FileChange, c.hunks ≠ [] ∧ c.ZeroContext ∧
      (∀ k ∈ c.contents, k = l.1 ∨ k = []) ∧ diffFileCounts (gitDiff [c]) ≠ [c.entry]) ∧
    (c.ZeroContext → (changedLinesFromDiff (gitDiff [c]) = c.changed ↔
      ∀ n, NamedIn (c.contents.flatMap later) n → n ∈ c.changed)) := by
  refine ⟨fun hcs => ?_, fun hl => misread_of_not_harmless hl, fun hc => ?_⟩
  · rw [diffFileCounts_gitDiff hcs, List.map_inj_left]
    exact forall₂_congr fun c _ => readEntry_eq_iff c
  · rw [Finset.ext_iff]
    refine forall_congr' fun n => ?_
    rw [mem_changedLines hc]
    exact ⟨fun h hn => h.mp (.inr hn), fun h => ⟨fun hn => hn.elim id h, .inl⟩⟩

/-- Two added lines, the first with a form feed in it. -/
def formFeed : FileChange where
  names := .changed plainName plainName
  extended := []
  hunks := [⟨0, ⟨[], List.not_mem_nil⟩, [⟨.added, ⟨['a', '\x0c', 'b'], by decide⟩, true⟩,
    ⟨.added, ⟨['c'], by decide⟩, true⟩], List.cons_ne_nil _ _⟩]

/-- One added line that holds a hunk header behind a form feed. -/
def hiddenHeader : FileChange where
  names := .changed plainName plainName
  extended := []
  hunks := [⟨0, ⟨[], List.not_mem_nil⟩, [⟨.added, ⟨'\x0c' :: "@@ -1 +100 @@".toList, by decide⟩, true⟩],
    List.cons_ne_nil _ _⟩]

theorem diffs_read_iff_sample :
    ¬ ∀ n, NamedIn (hiddenHeader.contents.flatMap later) n → n ∈ hiddenHeader.changed := by
  have hzero : hiddenHeader.ZeroContext := by simp [FileChange.ZeroContext, hiddenHeader]
  have hread := (diffs_read_iff [] ⟨[], List.not_mem_nil⟩ hiddenHeader).2.2 hzero
  exact fun h => absurd (hread.mpr h) (by decide)

theorem not_forall_read : ¬ ((∀ cs : List FileChange, diffFileCounts (gitDiff cs) = cs.map FileChange.entry) ∧
    ∀ c : FileChange, c.ZeroContext → changedLinesFromDiff (gitDiff [c]) = c.changed) := by
  rintro ⟨hcounts, -⟩
  exact absurd (hcounts [formFeed]) (by decide)

example : diffFileCounts (gitDiff [formFeed]) = [("x".toList, 1, 0)] ∧
    changedLinesFromDiff (gitDiff [hiddenHeader]) = {1, 100} := by decide

end Exactness

end CommitReplay.DiffReads
