import CommitReplay.PytestRuns

/-! The short summary of a pytest session as its ids are read back: each up to its first white space, and no
other, where no other line begins with an outcome. -/
namespace CommitReplay.PytestSummaries

open CommitReplay.PythonText CommitReplay.PriorityRegex CommitReplay.LineRegex CommitReplay.RelocatedIds
open CommitReplay.PytestRuns
open CommitReplay.TestRuns hiding run

section Sessions

inductive Outcome
  | failed
  | error
  | passed
deriving DecidableEq, Repr

def Outcome.word : Outcome → Text
  | .failed => failedWord
  | .error => errorWord
  | .passed => passedWord

/-- A test of the summary. Its id is on one line and is not blank. -/
structure Entry where
  outcome : Outcome
  id : Text
  message : Text
  one_line : '\n' ∉ id ∧ '\n' ∉ message
  visible : ∃ c ∈ id, isSpace c = false

def Entry.behind (e : Entry) : Text := if e.outcome = .passed then [] else " - ".toList ++ e.message

/-- `FAILED <id> - <message>`, `ERROR <id> - <message>` or `PASSED <id>`. -/
def Entry.line (e : Entry) : Text := e.outcome.word ++ ' ' :: e.id ++ e.behind

def banner : Text := "=========================== short test summary info ============================".toList

/-- What pytest printed: the program's lines, the summary and the result line. -/
structure Session where
  program : List Text
  entries : List Entry
  result : Text

def Session.lines (s : Session) : List Text :=
  s.program ++ banner :: s.entries.map Entry.line ++ [s.result]

def Session.stdout (s : Session) : Text := s.lines.flatMap (· ++ ['\n'])

/-- The id up to its first white space. -/
def cutId (id : Text) : Text := (id.dropWhile isSpace).takeWhile fun c => !isSpace c

/-- The ids of the tests of an outcome, as they are read. -/
def Session.cutIds (s : Session) (p : Outcome → Bool) : Finset Text :=
  ((s.entries.filter fun e => p e.outcome).map fun e => cutId e.id).toFinset

/-- The ids of the tests of an outcome, as they are. -/
def Session.ids (s : Session) (p : Outcome → Bool) : Finset Text :=
  ((s.entries.filter fun e => p e.outcome).map Entry.id).toFinset

/-- A line that has no outcome as its first word. -/
def Quiet (line : Text) : Prop :=
  '\n' ∉ line ∧ ∀ o : Outcome, ∀ rest, line = o.word ++ rest → rest.head?.any (!isSpace ·) = true

end Sessions

section Reading

variable {s : At}

/-- No id is read off a place that no white space follows. -/
lemma run_idRx_eq_nil (h : s.rest.head?.any isSpace = false) : run idRx s = [] := by
  rw [idRx, run_seq, run_many_eq_nil h]
  rfl

/-- An id is read off the white space before it, up to the next. -/
lemma head_run_idRx {blanks word rest : Text} (hs : s.rest = blanks ++ (word ++ rest)) (hb : blanks ≠ [])
    (hblank : ∀ c ∈ blanks, isSpace c = true) (hw : word ≠ []) (hword : ∀ c ∈ word, isSpace c = false)
    (hrest : rest.head?.all isSpace = true) :
    ∃ t, (run idRx s).head? = some t ∧ t.groups = (1, word) :: s.groups ∧ t.rest = rest := by
  obtain ⟨b, bs, rfl⟩ := List.exists_cons_of_ne_nil hb
  obtain ⟨w, ws, rfl⟩ := List.exists_cons_of_ne_nil hw
  have hfirst : (s.rest.takeWhile isSpace) = b :: bs := by
    rw [hs]
    exact takeWhile_append_stop hblank (by simp [hword w List.mem_cons_self])
  have hblanks := head_run_many (s := s) (p := isSpace) (by simp [hs, hblank b List.mem_cons_self])
  rw [hfirst] at hblanks
  have hu : (s.advance (b :: bs).length).rest = w :: ws ++ rest := by
    simp only [At.advance, hs, List.drop_left]
  have hsecond : ((s.advance (b :: bs).length).rest.takeWhile fun c => !isSpace c) = w :: ws := by
    rw [hu]
    refine takeWhile_append_stop (fun c hc => by rw [hword c hc]; rfl) ?_
    cases rest with
    | nil => rfl
    | cons c cs => simpa using hrest
  have hids := head_run_many (s := s.advance (b :: bs).length) (p := fun c => !isSpace c)
    (by rw [hu]; simp [hword w List.mem_cons_self])
  rw [hsecond] at hids
  have hleft : ((s.advance (b :: bs).length).advance (w :: ws).length).rest = rest := by
    rw [At.advance, hu]
    exact List.drop_left
  have hgroup : (run (.group 1 (.many 1 none fun c => !isSpace c)) (s.advance (b :: bs).length)).head? =
      some ⟨((s.advance (b :: bs).length).advance (w :: ws).length).prev, rest,
        (1, w :: ws) :: s.groups⟩ := by
    rw [run_group, List.head?_map, hids, Option.map_some, hleft, hu, List.length_append, Nat.add_sub_cancel,
      List.take_left]
    rfl
  exact ⟨_, head_flatMap hblanks hgroup, rfl, rfl⟩

end Reading

section Words

lemma newline_notMem_word (o : Outcome) : '\n' ∉ o.word := by cases o <;> decide

def Outcome.initial : Outcome → Char
  | .failed => 'F'
  | .error => 'E'
  | .passed => 'P'

lemma head_word (o : Outcome) (rest : Text) : (o.word ++ rest).head? = some o.initial := by
  cases o <;> rfl

/-- A line begins with the word of one outcome only. -/
lemma eq_of_word_begins {o o' : Outcome} {rest : Text} (h : o.word <+: o'.word ++ rest) : o = o' := by
  obtain ⟨t, ht⟩ := h
  have hinitial : o.initial = o'.initial := by
    rw [← Option.some_inj, ← head_word o t, ht, head_word]
  cases o <;> cases o' <;> first | rfl | exact absurd hinitial (by decide)

/-- A text that begins a line and what follows it begins the line. -/
lemma prefix_of_newline {w l rest : Text} (hw : '\n' ∉ w) (hrest : rest.head?.all (· = '\n') = true)
    (h : w <+: l ++ rest) : w <+: l := by
  rcases List.prefix_or_prefix_of_prefix h (List.prefix_append l rest) with hl | ⟨x, rfl⟩
  · exact hl
  · cases x with
    | nil => simp
    | cons c cs =>
      obtain ⟨y, rfl⟩ := (List.prefix_append_right_inj l).mp h
      simp only [List.cons_append, List.head?_cons, Option.all_some, decide_eq_true_eq] at hrest
      exact absurd (hrest ▸ List.mem_append_right l List.mem_cons_self) hw

end Words

section Lines

/-- An expression that reads the words of some outcomes. -/
def Heads (head : Rx) (p : Outcome → Bool) : Prop :=
  ∀ s : At, (∀ t ∈ run head s, ∃ o : Outcome, o.word <+: s.rest ∧ t = s.advance o.word.length) ∧
    ∀ o : Outcome, o.word <+: s.rest → run head s = if p o then [s.advance o.word.length] else []

lemma heads_pass : Heads (.lit id passedWord) (· = .passed) := by
  intro s
  rw [run_lit_id]
  refine ⟨fun t ht => ?_, fun o ho => ?_⟩
  · split_ifs at ht with hw
    · exact ⟨.passed, hw, List.mem_singleton.mp ht⟩
    · cases ht
  · obtain ⟨rest, hrest⟩ := ho
    rw [← hrest]
    split_ifs with hw ho ho
    · rw [of_decide_eq_true ho]
      rfl
    · exact absurd (decide_eq_true (eq_of_word_begins (o := .passed) hw).symm) ho
    · exact absurd (of_decide_eq_true ho ▸ List.prefix_append _ rest) hw
    · rfl

lemma heads_fail : Heads (.alt (.lit id failedWord) (.lit id errorWord)) (· ≠ .passed) := by
  intro s
  have halt : run (.alt (.lit id failedWord) (.lit id errorWord)) s =
      run (.lit id failedWord) s ++ run (.lit id errorWord) s := rfl
  rw [halt, run_lit_id, run_lit_id]
  refine ⟨fun t ht => ?_, fun o ho => ?_⟩
  · rcases List.mem_append.mp ht with ht | ht <;> split_ifs at ht with hw
    · exact ⟨.failed, hw, List.mem_singleton.mp ht⟩
    · cases ht
    · exact ⟨.error, hw, List.mem_singleton.mp ht⟩
    · cases ht
  · obtain ⟨rest, hrest⟩ := ho
    rw [← hrest]
    have hfailed : failedWord <+: o.word ++ rest ↔ o = .failed :=
      ⟨fun h => (eq_of_word_begins (o := .failed) h).symm, fun h => h ▸ List.prefix_append _ rest⟩
    have herror : errorWord <+: o.word ++ rest ↔ o = .error :=
      ⟨fun h => (eq_of_word_begins (o := .error) h).symm, fun h => h ▸ List.prefix_append _ rest⟩
    simp only [hfailed, herror]
    cases o <;> rfl

variable {head : Rx} {p : Outcome → Bool}

lemma reads_quiet (hhead : Heads head p) {l : Text} (hl : Quiet l) :
    Reads (lineRun (.seq head idRx)) l none := by
  intro prev rest hprev hrest
  have hnone : lineRun (.seq head idRx) ⟨prev, l ++ rest, []⟩ = [] := by
    rw [lineRun, if_pos hprev, run_seq, List.flatMap_eq_nil_iff]
    intro t ht
    obtain ⟨o, ho, rfl⟩ := (hhead _).1 t ht
    obtain ⟨l', rfl⟩ := prefix_of_newline (newline_notMem_word o) hrest ho
    refine run_idRx_eq_nil ?_
    have hnext := hl.2 o l' rfl
    simp only [At.advance, List.append_assoc, List.drop_left]
    cases l' with
    | nil => cases hnext
    | cons c cs => simpa using hnext
  rw [hnone]
  exact ⟨rfl, fun t ht => absurd ht (by simp)⟩

/-- An id is its first white space, what is read of it, and what is left. -/
lemma exists_cutId {id : Text} (h : ∃ c ∈ id, isSpace c = false) : ∃ blanks rest,
    id = blanks ++ (cutId id ++ rest) ∧ (∀ c ∈ blanks, isSpace c = true) ∧
      rest.head?.all isSpace = true ∧ cutId id ≠ [] := by
  refine ⟨id.takeWhile isSpace, (id.dropWhile isSpace).dropWhile fun c => !isSpace c, ?_, ?_, ?_, ?_⟩
  · rw [cutId, List.takeWhile_append_dropWhile, List.takeWhile_append_dropWhile]
  · exact fun c hc => List.mem_takeWhile_imp hc
  · have hhead := List.head?_dropWhile_not (fun c => !isSpace c) (id.dropWhile isSpace)
    cases hd : ((id.dropWhile isSpace).dropWhile fun c => !isSpace c).head? with
    | none => rfl
    | some c =>
      rw [hd] at hhead
      simpa using hhead
  · intro hnil
    have hall : id.dropWhile isSpace = [] := by
      cases hd : id.dropWhile isSpace with
      | nil => rfl
      | cons c cs =>
        have hhead := List.head?_dropWhile_not isSpace id
        rw [hd] at hhead
        rw [cutId, hd, List.takeWhile_cons_of_pos (by simpa using hhead)] at hnil
        cases hnil
    obtain ⟨c, hc, hs⟩ := h
    exact Bool.false_ne_true (hs ▸ List.dropWhile_eq_nil_iff.mp hall c hc)

lemma cutId_visible (id : Text) : ∀ c ∈ cutId id, isSpace c = false :=
  fun c hc => by simpa using List.mem_takeWhile_imp hc

/-- What stands behind an id and its line begins with white space. -/
lemma head_behind (e : Entry) {left rest : Text} (hleft : left.head?.all isSpace = true)
    (hrest : rest.head?.all (· = '\n') = true) :
    (left ++ (e.behind ++ rest)).head?.all isSpace = true := by
  cases left with
  | cons c cs => simpa using hleft
  | nil =>
    rw [List.nil_append, Entry.behind]
    split_ifs
    · cases rest with
      | nil => rfl
      | cons c cs =>
        obtain rfl : c = '\n' := by simpa using hrest
        rfl
    · rfl

lemma reads_entry (hhead : Heads head p) (e : Entry) :
    Reads (lineRun (.seq head idRx)) e.line (if p e.outcome then some [(1, cutId e.id)] else none) := by
  intro prev rest hprev hrest
  obtain ⟨blanks, left, hid, hblanks, hleft, hne⟩ := exists_cutId e.visible
  have hline : e.line ++ rest =
      e.outcome.word ++ (' ' :: blanks ++ (cutId e.id ++ (left ++ (e.behind ++ rest)))) := by
    conv_lhs => rw [Entry.line, hid]
    simp only [List.append_assoc, List.cons_append]
  have hrun := (hhead ⟨prev, e.line ++ rest, []⟩).2 e.outcome (hline ▸ List.prefix_append _ _)
  rw [lineRun, if_pos hprev, run_seq, hrun]
  split_ifs with hp
  · obtain ⟨t, ht, hgroups, hleftover⟩ := head_run_idRx
      (s := At.advance ⟨prev, e.line ++ rest, []⟩ e.outcome.word.length)
      (by rw [At.advance, hline, List.drop_left]) (List.cons_ne_nil _ _)
      (List.forall_mem_cons.mpr ⟨rfl, hblanks⟩) hne (cutId_visible e.id) (head_behind e hleft hrest)
    rw [List.flatMap_singleton, ht]
    refine ⟨congrArg some hgroups, fun u hu => ?_⟩
    obtain rfl : t = u := by simpa using hu
    rw [hleftover, hline]
    simp only [List.length_append, List.length_cons]
    omega
  · exact ⟨rfl, fun t ht => absurd ht (by simp)⟩

end Lines

section Texts

lemma flatMap_append_intercalate (ls : List Text) (x : Text) (xs : List Text) :
    ls.flatMap (· ++ ['\n']) ++ ['\n'].intercalate (x :: xs) = ['\n'].intercalate (ls ++ x :: xs) := by
  induction ls with
  | nil => rfl
  | cons l ls ih =>
    obtain ⟨y, ys, hy⟩ : ∃ y ys, ls ++ x :: xs = y :: ys := by cases ls <;> exact ⟨_, _, rfl⟩
    rw [List.flatMap_cons, List.append_assoc, ih, List.cons_append, hy, List.intercalate_cons_cons]

/-- The lines of the session, and those of stderr behind the last line break. -/
def Session.allLines (s : Session) (stderr : Text) : List Text :=
  s.lines ++ [] :: if stderr = [] then [] else stderr.splitOn '\n'

lemma combined_eq {s : Session} {result : ExecResult} (hout : result.stdout = s.stdout) :
    result.combined = ['\n'].intercalate (s.allLines result.stderr) := by
  rw [Session.allLines, ← flatMap_append_intercalate, ExecResult.combined, hout, Session.stdout]
  congr 1
  split_ifs with herr
  · rfl
  · cases hsplit : result.stderr.splitOn '\n' with
    | nil => exact absurd hsplit (List.splitOn_ne_nil _ _)
    | cons l ls =>
      rw [List.intercalate_cons_cons, ← hsplit, List.intercalate_splitOn]
      rfl

end Texts

section Parsed

variable {s : Session} {stderr : Text}

/-- The program under test prints no line that begins with an outcome, on either stream. -/
structure Session.Undisturbed (s : Session) (stderr : Text) : Prop where
  program : ∀ l ∈ s.program, Quiet l
  result : Quiet s.result
  stderr : ∀ l ∈ stderr.splitOn '\n', Quiet l

lemma quiet_of_head {l : Text} (hl : '\n' ∉ l)
    (hhead : l.head?.all (fun c => c ≠ 'F' && c ≠ 'E' && c ≠ 'P') = true) : Quiet l := by
  refine ⟨hl, fun o rest h => ?_⟩
  rw [h, head_word] at hhead
  cases o <;> cases hhead

lemma quiet_nil : Quiet [] := quiet_of_head (by simp) rfl

lemma quiet_banner : Quiet banner := quiet_of_head (by decide) rfl

lemma Entry.line_one (e : Entry) : '\n' ∉ e.line := by
  have hword := newline_notMem_word e.outcome
  have hid := e.one_line
  rw [Entry.line, Entry.behind]
  split_ifs <;> simp [hword, hid.1, hid.2]

lemma allLines_reads (h : s.Undisturbed stderr) {head : Rx} {p : Outcome → Bool} (hhead : Heads head p) :
    ∀ x ∈ s.allLines stderr, '\n' ∉ x ∧ ∃ g, Reads (lineRun (.seq head idRx)) x g := by
  have hquiet : ∀ x, Quiet x → '\n' ∉ x ∧ ∃ g, Reads (lineRun (.seq head idRx)) x g :=
    fun x hx => ⟨hx.1, _, reads_quiet hhead hx⟩
  intro x hx
  simp only [Session.allLines, Session.lines, List.mem_append, List.mem_cons, List.mem_map,
    List.not_mem_nil, or_false] at hx
  rcases hx with ((hx | rfl | ⟨e, -, rfl⟩) | rfl) | rfl | hx
  · exact hquiet x (h.program x hx)
  · exact hquiet banner quiet_banner
  · exact ⟨e.line_one, _, reads_entry hhead e⟩
  · exact hquiet _ h.result
  · exact hquiet [] quiet_nil
  · split_ifs at hx
    · cases hx
    · exact hquiet x (h.stderr x hx)

/-- The matches over the text of a session are the tests of its outcomes. -/
lemma findall_session (h : s.Undisturbed stderr) {head : Rx} {p : Outcome → Bool} (hhead : Heads head p) :
    findall (lineRun (.seq head idRx)) (['\n'].intercalate (s.allLines stderr)) =
      (s.entries.filter fun e => p e.outcome).map fun e => [(1, cutId e.id)] := by
  have hquiet : ∀ ls : List Text, (∀ x ∈ ls, Quiet x) →
      ls.filterMap (readLine (lineRun (.seq head idRx))) = [] := fun ls hls =>
    List.filterMap_eq_nil_iff.mpr fun x hx => readLine_eq (reads_quiet hhead (hls x hx))
  obtain ⟨l, ls, hlines⟩ : ∃ l ls, s.allLines stderr = l :: ls := by
    rw [Session.allLines, Session.lines]
    cases s.program <;> exact ⟨_, _, rfl⟩
  rw [hlines, findall_lines (anchored_lineRun _) (hlines ▸ allLines_reads h hhead), ← hlines,
    Session.allLines, Session.lines]
  have hentries : (s.entries.map Entry.line).filterMap (readLine (lineRun (.seq head idRx))) =
      (s.entries.filter fun e => p e.outcome).map fun e => [(1, cutId e.id)] := by
    induction s.entries with
    | nil => rfl
    | cons e es ih =>
      rw [List.map_cons, List.filterMap_cons, readLine_eq (reads_entry hhead e), ih]
      split_ifs with hp <;> simp [hp]
  have hafter : ∀ x ∈ [] :: (if stderr = [] then [] else stderr.splitOn '\n'), Quiet x := by
    refine List.forall_mem_cons.mpr ⟨quiet_nil, fun x hx => ?_⟩
    split_ifs at hx
    · cases hx
    · exact h.stderr x hx
  rw [List.filterMap_append, List.filterMap_append, List.filterMap_append, hquiet _ h.program,
    List.filterMap_cons, readLine_eq (reads_quiet hhead quiet_banner), hentries,
    hquiet [s.result] (by simpa using h.result), hquiet _ hafter]
  simp only [List.nil_append, List.append_nil]

lemma splitHead_cutId (id : Text) : splitHead ' ' (cutId id) = cutId id := by
  refine List.takeWhile_eq_self_iff.mpr fun c hc => ?_
  have hvisible := cutId_visible id c hc
  refine decide_eq_true fun he => ?_
  rw [he] at hvisible
  cases hvisible

lemma parsePytestFailures_session (h : s.Undisturbed stderr) :
    parsePytestFailures (['\n'].intercalate (s.allLines stderr)) = s.cutIds (· ≠ .passed) := by
  rw [parsePytestFailures, failLine, findall_session h heads_fail, List.map_map, Session.cutIds]
  exact congrArg _ (List.map_congr_left fun e _ => splitHead_cutId e.id)

lemma parsePytestPasses_session (h : s.Undisturbed stderr) :
    parsePytestPasses (['\n'].intercalate (s.allLines stderr)) = s.cutIds (· = .passed) := by
  rw [parsePytestPasses, passLine, findall_session h heads_pass, List.map_map, Session.cutIds]
  rfl

variable {isWide : Char → Bool} {result : ExecResult}

lemma failing_session (hout : result.stdout = s.stdout) (h : s.Undisturbed result.stderr) (root : Root) :
    (parse isWide result root).failing = relocateIds isWide root (s.cutIds (· ≠ .passed)) := by
  rw [← parsePytestFailures_session h, ← combined_eq hout]
  rfl

lemma passed_session (hout : result.stdout = s.stdout) (h : s.Undisturbed result.stderr) (root : Root) :
    (parse isWide result root).passed =
      some ((relocateIds isWide root (s.cutIds (· = .passed))).filter
        (· ∉ relocateIds isWide root (s.cutIds (· ≠ .passed)))) := by
  rw [← parsePytestFailures_session h, ← parsePytestPasses_session h, ← combined_eq hout]
  rfl

/-- What is read of a session is what its summary says, each id up to its first white space. -/
theorem parse_session (hout : result.stdout = s.stdout) (h : s.Undisturbed result.stderr) (root : Root) :
    (parse isWide result root).failing = relocateIds isWide root (s.cutIds (· ≠ .passed)) ∧
      (parse isWide result root).passed =
        some ((relocateIds isWide root (s.cutIds (· = .passed))).filter
          (· ∉ relocateIds isWide root (s.cutIds (· ≠ .passed)))) :=
  ⟨failing_session hout h root, passed_session hout h root⟩

end Parsed

section Samples

def anyChar (_ : Char) : Bool := true

def sampleRoot : Root := ⟨"/work".toList, "/work".toList⟩

/-- Two cases of one parametrized test, told apart behind a space. -/
def spacedEntry (outcome : Outcome) (last : Char) (h : last ≠ '\n') : Entry where
  outcome := outcome
  id := "t.py::t[a ".toList ++ [last]
  message := "boom".toList
  one_line := ⟨by simp [Ne.symm h], by decide⟩
  visible := ⟨'t', by simp, rfl⟩

def sampleSession : Session where
  program := ["collected 2 items".toList]
  entries := [spacedEntry .failed 'x' (by decide), spacedEntry .passed 'y' (by decide)]
  result := "=== 1 failed, 1 passed in 0.10s ===".toList

def sampleResult : ExecResult := ⟨1, sampleSession.stdout, [], false, ""⟩

lemma sample_undisturbed : sampleSession.Undisturbed [] where
  program := List.forall_mem_singleton.mpr (quiet_of_head (by decide) rfl)
  result := quiet_of_head (by decide) rfl
  stderr := List.forall_mem_singleton.mpr quiet_nil

theorem parse_session_sample :
    (parse anyChar sampleResult sampleRoot).failing =
      relocateIds anyChar sampleRoot (sampleSession.cutIds (· ≠ .passed)) :=
  (parse_session rfl sample_undisturbed sampleRoot).1

/-- Two tests whose ids part behind a space share the id that is read, so the one that passed is lost. -/
theorem passed_ne_ids :
    ¬∀ (s : Session) (result : ExecResult) (root : Root), result.stdout = s.stdout → result.stderr = [] →
      (parse anyChar result root).passed =
        some ((relocateIds anyChar root (s.ids (· = .passed))).filter
          (· ∉ relocateIds anyChar root (s.ids (· ≠ .passed)))) := by
  intro h
  have hids := h sampleSession sampleResult sampleRoot rfl rfl
  have hshared : sampleSession.cutIds (· = .passed) = sampleSession.cutIds (· ≠ .passed) := by
    rfl
  rw [passed_session rfl sample_undisturbed, hshared, Finset.filter_notMem_eq_sdiff,
    Finset.sdiff_self] at hids
  refine Finset.ne_empty_of_mem (a := "t.py::t[a y".toList) ?_ (Option.some.inj hids).symm
  decide

end Samples

end CommitReplay.PytestSummaries
