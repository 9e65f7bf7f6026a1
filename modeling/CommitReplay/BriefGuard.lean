import CommitReplay.CodeTokens

/-! The composed brief and the guard on its context lines: what the commit introduced is no line's to
name. Identifiers are guarded as words and other literals as parts of a line; a literal that reads as
an identifier is guarded as a word of ASCII letters only. -/
namespace CommitReplay.BriefGuard

open CommitReplay.PythonText CommitReplay.PriorityRegex CommitReplay.CodeTokens

/-- The repository as the guard reads it: the files of the parent tree, the commit's post-images, and
what `git grep` prints of some patterns over the parent tree, if it can be run. -/
structure Repo where
  parentFiles : List (Text × Text)
  commitFile : Text → Option Text
  grep : List Text → Option Text

section NovelTokens

variable (repo : Repo)

/-- `_show` at the parent. -/
def showParent (path : Text) : Text := (repo.parentFiles.lookup path).getD []

/-- `_show` at the commit. -/
def showCommit (path : Text) : Text := (repo.commitFile path).getD []

def maxCandidates : ℕ := 2000

/-- The tokens of the post-images that the same file did not hold before. -/
def candidates (paths : List Text) : List Text :=
  (paths.flatMap fun path =>
    let after := codeTokens (showCommit repo path)
    let before := codeTokens (showParent repo path)
    after.1.filter (· ∉ before.1) ++ after.2.filter (· ∉ before.2)).dedup

/-- `novel_tokens`. -/
def novelTokens (paths : List Text) : List Text :=
  let cs := candidates repo paths
  if cs = [] then []
  else if maxCandidates < cs.length then cs
  else
    match repo.grep (cs.mergeSort fun a b => decide (String.ofList a ≤ String.ofList b)) with
    | none => cs
    | some found =>
      let seen := ((splitlines found).filter fun l => strip l ≠ []).map strip
      cs.filter (· ∉ seen)

end NovelTokens

section Compose

/-- `str.isidentifier`, and the digests of what a brief carries. -/
structure Env where
  isIdentifier : Text → Bool
  sha : Text → Text
  partsJson : List (List Text) → Text
  entriesJson : List (Text × Text) → Text

variable (env : Env)

/-- `names_novel`. -/
def namesNovel (line : Text) (novel : List Text) : Bool :=
  novel ≠ [] ∧ ∃ tok ∈ novel,
    tok ∈ identifiers line ∨ env.isIdentifier tok = false ∧ contains line tok = true

/-- `refuse_novel`. -/
def refuseNovel (lines novel : List Text) : List Text × List Text :=
  (lines.filter fun l => !namesNovel env l novel, lines.filter fun l => namesNovel env l novel)

inductive Mode
  | sighted
  | blind
deriving DecidableEq, Repr

structure Ticket where
  subject : Text
  message : Text
  source : Text

structure ContextEntry where
  entryId : Text
  text : Text
  version : Text
  producedAt : Text
  mechanical : Bool
deriving DecidableEq

/-- What `compose` is given. -/
structure Request (C : Type*) where
  arm : Text
  ticket : Ticket
  repo : Text
  language : Text
  mode : Mode
  config : Option C
  testFiles : List Text
  targetTests : List Text
  testCommand : Text
  harnessCommand : Text
  finishChecks : List Text
  facts : List Text
  learned : List Text
  library : List ContextEntry
  novel : List Text
  author : Text
  rules : Text
  retrospective : Bool
  poolBegan : Text
  root : Text

/-- `BuildBrief`, as far as a composed one is filled. -/
structure Brief (C : Type*) where
  subject : Text
  message : Text
  repo : Text
  language : Text
  mode : Mode
  testFiles : List Text
  targetTests : List Text
  testCommand : Text
  harnessCommand : Text
  specFacts : List Text
  rules : Text
  config : Option C
  finishChecks : List Text
  playbook : List Text

structure Composed (C : Type*) where
  brief : Brief C
  labels : List (String × Text)
  refused : List Text
  library : List ContextEntry

/-- `admit_retrospective`. -/
def admitRetrospective (entries : List ContextEntry) (poolBegan : Text) :
    List ContextEntry × List Text :=
  let ok := fun e : ContextEntry => e.mechanical && decide (e.producedAt ≠ []) &&
    decide (poolBegan ≠ []) && decide (String.ofList e.producedAt ≤ String.ofList poolBegan)
  (entries.filter ok, (entries.filter fun e => !ok e).map (·.entryId))

/-- `str.replace`, of a text that is not empty; the text's length bounds the rounds. -/
def replaceAll (old new : Text) : ℕ → Text → Text
  | _, [] => []
  | 0, s => s
  | n + 1, c :: cs =>
    if startsWith (c :: cs) old then new ++ replaceAll old new n ((c :: cs).drop old.length)
    else c :: replaceAll old new n cs

def modeText : Mode → Text
  | .sighted => "sighted".toList
  | .blind => "blind".toList

/-- What `ctx_brief` is the digest of, in the order of its keys. -/
def briefParts {C : Type*} (b : Brief C) : List (List Text) :=
  [b.finishChecks, [b.message], [modeText b.mode], b.playbook, b.specFacts, [b.subject],
    b.targetTests, b.testFiles]

variable {C : Type*} (q : Request C)

/-- The library entries that may be carried, and the ids of those refused. -/
def admitted : List ContextEntry × List Text :=
  if q.retrospective then admitRetrospective q.library q.poolBegan else (q.library, [])

/-- The bare facts offered to the guard: a retrospective brief takes none. -/
def offeredFacts : List Text := if q.retrospective then [] else q.facts

/-- `compose`. A brief whose subject is blank is refused. -/
def compose : Except String (Composed C) :=
  let bareRefused := if q.retrospective then q.facts else []
  let facts := refuseNovel env (offeredFacts q) q.novel
  let learned := refuseNovel env q.learned q.novel
  let lib := refuseNovel env ((admitted q).1.map (·.text)) q.novel
  let keptEntries := (admitted q).1.filter fun e => e.text ∈ lib.1
  let blind := q.mode = .blind
  let message := if q.ticket.message ≠ [] then q.ticket.message else q.ticket.subject
  let brief : Brief C :=
    { subject := q.ticket.subject
      message := message
      repo := q.repo
      language := q.language
      mode := q.mode
      testFiles := if blind then [] else q.testFiles
      targetTests := if blind then [] else q.targetTests
      testCommand := if blind then [] else q.testCommand
      harnessCommand := q.harnessCommand
      specFacts := facts.1 ++ lib.1
      rules := q.rules
      config := q.config
      finishChecks := q.finishChecks
      playbook := learned.1 }
  let refused := bareRefused ++ facts.2 ++ learned.2 ++ lib.2
  let harness :=
    if q.root ≠ [] then
      replaceAll q.root "<worktree>".toList q.harnessCommand.length q.harnessCommand
    else q.harnessCommand
  if strip q.ticket.subject = [] then .error "a brief needs a non-empty subject"
  else .ok
    { brief := brief
      labels :=
        [("context_arm", q.arm), ("ctx_ticket", q.ticket.source),
          ("ctx_brief", env.sha (env.partsJson (briefParts brief))),
          ("ctx_rules", env.sha q.rules),
          ("ctx_refused", Nat.toDigits 10 (refused.length + (admitted q).2.length))] ++
        (if q.harnessCommand ≠ [] then [("ctx_harness", env.sha harness)] else []) ++
        (if q.author ≠ [] then [("ctx_author", q.author)] else []) ++
        if keptEntries ≠ [] then
          [("ctx_library", (env.sha (env.entriesJson (keptEntries.map fun e =>
            (e.entryId, e.version)))).take 16)]
        else []
      refused := refused
      library := keptEntries }

end Compose

section Leaks

variable (env : Env) (repo : Repo) (paths : List Text)

/-- It occurs in a file of the parent tree. -/
def Occurs (w : Text) : Prop := ∃ f ∈ repo.parentFiles, w <:+: f.2

/-- An identifier of a post-image that occurs nowhere in the parent tree. -/
def NewIdent (w : Text) : Prop :=
  (∃ path ∈ paths, w ∈ (codeTokens (showCommit repo path)).1) ∧ ¬ Occurs repo w

/-- A literal of a post-image that occurs nowhere in the parent tree. -/
def NewLiteral (w : Text) : Prop :=
  (∃ path ∈ paths, w ∈ (codeTokens (showCommit repo path)).2) ∧ ¬ Occurs repo w

/-- A line names nothing that the commit introduced. -/
def NamesNothing (line : Text) : Prop :=
  (∀ w, NewIdent repo paths w → ¬ StandsIn w line) ∧ ∀ w, NewLiteral repo paths w → ¬ w <:+: line

/-- What `git grep` prints are lines of patterns that it found. -/
def HonestGrep : Prop := ∀ patterns found, repo.grep patterns = some found →
  ∃ printed : List Text, found = printed.flatMap (· ++ ['\n']) ∧
    ∀ l ∈ printed, l ∈ patterns ∧ Occurs repo l

variable {C : Type*} (q : Request C)

/-- The lines that the guard is given. -/
def offered : List Text := offeredFacts q ++ (admitted q).1.map (·.text) ++ q.learned

/-- No line names what the commit introduced, and every line kept off is counted. -/
def Guarded (composed : Composed C) : Prop :=
  (∀ line ∈ composed.brief.specFacts ++ composed.brief.playbook,
    NamesNothing repo paths line) ∧
  ∃ n, ("ctx_refused", Nat.toDigits 10 n) ∈ composed.labels ∧
    q.facts.length + q.learned.length + q.library.length =
      composed.brief.specFacts.length + composed.brief.playbook.length + n

variable {env repo paths q}

lemma Occurs.of_part {v w : Text} (h : Occurs repo w) (hv : v <:+: w) : Occurs repo v := by
  obtain ⟨f, hf, hw⟩ := h
  exact ⟨f, hf, hv.trans hw⟩

/-- A token that the file held at the parent occurs in the parent tree. -/
lemma occurs_of_showParent {path w : Text}
    (h : w ∈ (codeTokens (showParent repo path)).1 ∨ w ∈ (codeTokens (showParent repo path)).2) :
    Occurs repo w := by
  have hin : w <:+: showParent repo path :=
    h.elim (fun h => infix_of_mem_idents h) fun h => infix_of_mem_literals h
  cases hl : repo.parentFiles.lookup path with
  | none =>
    have hnil : showParent repo path = [] := by rw [showParent, hl]; rfl
    rw [hnil] at h
    exact h.elim (fun h => by cases h) fun h => by cases h
  | some text =>
    obtain ⟨l₁, l₂, hfiles, -⟩ := List.lookup_eq_some_iff.mp hl
    have htext : showParent repo path = text := by rw [showParent, hl]; rfl
    exact ⟨(path, text), by simp [hfiles], htext ▸ hin⟩

lemma strip_part (s : Text) : strip s <:+: s :=
  (List.rdropWhile_prefix _ _).isInfix.trans (List.dropWhile_suffix _).isInfix

lemma infix_of_mem_splitlines (s : Text) :
    (∀ l ∈ (splitlines s).head?, l <+: s) ∧ ∀ l ∈ splitlines s, l <:+: s := by
  fun_induction splitlines s with
  | case1 => simp
  | case2 cs ih =>
    have hcs : cs <:+: '\r' :: '\n' :: cs :=
      ((List.suffix_cons '\n' cs).trans (List.suffix_cons _ _)).isInfix
    refine ⟨by simp, List.forall_mem_cons.mpr ⟨List.nil_infix, fun l hl => ?_⟩⟩
    exact (ih.2 l hl).trans hcs
  | case3 c cs _ _ ih =>
    refine ⟨by simp, List.forall_mem_cons.mpr ⟨List.nil_infix, fun l hl => ?_⟩⟩
    exact (ih.2 l hl).trans (List.suffix_cons c cs).isInfix
  | case4 c cs _ _ _ ih =>
    have hc : [c] <+: c :: cs := (List.prefix_cons_inj c).mpr List.nil_prefix
    exact ⟨fun l hl => Option.some.inj hl ▸ hc, List.forall_mem_singleton.mpr hc.isInfix⟩
  | case5 c cs _ _ l ls hn ih =>
    rw [hn] at ih
    have hhead : c :: l <+: c :: cs := (List.prefix_cons_inj c).mpr (ih.1 l rfl)
    refine ⟨fun m hm => ?_, List.forall_mem_cons.mpr ⟨hhead.isInfix, fun m hm => ?_⟩⟩
    · rwa [← Option.some.inj hm]
    · exact (ih.2 m (List.mem_cons_of_mem l hm)).trans (List.suffix_cons c cs).isInfix

/-- A part of a line and its newline that has no newline is a part of the line. -/
lemma infix_of_concat {l w : Text} (h : w <:+: l ++ ['\n']) (hw : '\n' ∉ w) : w <:+: l := by
  obtain ⟨a, b, hab⟩ := h
  rcases List.eq_nil_or_concat b with rfl | ⟨b, c, rfl⟩
  · rw [List.append_nil] at hab
    rcases List.eq_nil_or_concat w with rfl | ⟨v, c, rfl⟩
    · exact List.nil_infix
    · rw [List.concat_eq_append, ← List.append_assoc] at hab
      obtain ⟨-, hc⟩ := List.append_inj' hab rfl
      exact absurd (by simp [hc]) hw
  · rw [List.concat_eq_append, ← List.append_assoc] at hab
    exact ⟨a, b, (List.append_inj' hab rfl).1⟩

/-- A line of what is printed is a part of a pattern printed. -/
lemma infix_of_mem_printed {printed : List Text} {l : Text}
    (h : l ∈ splitlines (printed.flatMap (· ++ ['\n']))) : ∃ p ∈ printed, l <:+: p := by
  induction printed with
  | nil => simp [splitlines] at h
  | cons p printed ih =>
    rw [List.flatMap_cons, List.append_assoc, List.singleton_append,
      splitlines_append_break _ _ (by decide) (by decide)] at h
    rcases List.mem_append.mp h with h | h
    · have hbreak : '\n' ∉ l := by
        intro hn
        have hplain := no_break_splitlines _ l h '\n' hn
        revert hplain
        decide
      exact ⟨p, List.mem_cons_self, infix_of_concat ((infix_of_mem_splitlines _).2 l h) hbreak⟩
    · obtain ⟨p', hp', hl⟩ := ih h
      exact ⟨p', List.mem_cons_of_mem p hp', hl⟩

/-- What the commit introduced is among the novel tokens. -/
lemma mem_novelTokens (hgrep : HonestGrep repo) {w : Text}
    (hw : w ∈ candidates repo paths) (hnew : ¬ Occurs repo w) : w ∈ novelTokens repo paths := by
  rw [novelTokens]
  have hne : candidates repo paths ≠ [] := List.ne_nil_of_mem hw
  simp only [if_neg hne]
  split_ifs
  · exact hw
  · split
    · exact hw
    · rename_i found hfound
      obtain ⟨printed, rfl, hprinted⟩ := hgrep _ _ hfound
      refine List.mem_filter.mpr ⟨hw, decide_eq_true fun hseen => hnew ?_⟩
      obtain ⟨l, hl, rfl⟩ := List.mem_map.mp hseen
      obtain ⟨p, hp, hlp⟩ := infix_of_mem_printed (List.mem_of_mem_filter hl)
      exact (hprinted p hp).2.of_part ((strip_part l).trans hlp)

lemma NewIdent.mem_novelTokens (hgrep : HonestGrep repo) {w : Text}
    (h : NewIdent repo paths w) : w ∈ novelTokens repo paths ∧ IsIdent w := by
  obtain ⟨⟨path, hpath, hw⟩, hnew⟩ := h
  have hident := (isIdent_of_mem (List.mem_of_mem_filter hw)).1
  refine ⟨BriefGuard.mem_novelTokens hgrep (List.mem_dedup.mpr (List.mem_flatMap.mpr
    ⟨path, hpath, List.mem_append_left _ (List.mem_filter.mpr ⟨hw, decide_eq_true ?_⟩)⟩)) hnew,
    hident⟩
  exact fun hbefore => hnew (occurs_of_showParent (.inl hbefore))

lemma NewLiteral.mem_novelTokens (hgrep : HonestGrep repo) {w : Text}
    (h : NewLiteral repo paths w) : w ∈ novelTokens repo paths := by
  obtain ⟨⟨path, hpath, hw⟩, hnew⟩ := h
  refine BriefGuard.mem_novelTokens hgrep (List.mem_dedup.mpr (List.mem_flatMap.mpr
    ⟨path, hpath, List.mem_append_right _ (List.mem_filter.mpr ⟨hw, decide_eq_true ?_⟩)⟩)) hnew
  exact fun hbefore => hnew (occurs_of_showParent (.inr hbefore))

lemma namesNovel_iff {line : Text} {novel : List Text} : namesNovel env line novel = true ↔
    ∃ tok ∈ novel, tok ∈ identifiers line ∨ env.isIdentifier tok = false ∧ tok <:+: line := by
  simp only [namesNovel, decide_eq_true_eq, contains_iff]
  constructor
  · exact fun h => h.2
  · rintro ⟨tok, htok, h⟩
    exact ⟨List.ne_nil_of_mem htok, tok, htok, h⟩

/-- A line that the guard lets through names nothing where no new literal that reads as an identifier
is a part of it. -/
lemma namesNothing_iff (hgrep : HonestGrep repo) {line : Text}
    (hkept : namesNovel env line (novelTokens repo paths) = false) :
    NamesNothing repo paths line ↔
      ∀ w, NewLiteral repo paths w → env.isIdentifier w = true → ¬ w <:+: line := by
  have hnone : ∀ tok ∈ novelTokens repo paths, tok ∉ identifiers line ∧
      (env.isIdentifier tok = false → ¬ tok <:+: line) := by
    intro tok htok
    constructor
    · intro hmem
      rw [namesNovel_iff.mpr ⟨tok, htok, .inl hmem⟩] at hkept
      cases hkept
    · intro hident hin
      rw [namesNovel_iff.mpr ⟨tok, htok, .inr ⟨hident, hin⟩⟩] at hkept
      cases hkept
  constructor
  · exact fun h w hw _ => h.2 w hw
  · refine fun h => ⟨fun w hw hin => ?_, fun w hw => ?_⟩
    · obtain ⟨hmem, hident⟩ := hw.mem_novelTokens hgrep
      exact (hnone w hmem).1 (mem_identifiers hident hin)
    · by_cases hident : env.isIdentifier w = true
      · exact h w hw hident
      · exact (hnone w (hw.mem_novelTokens hgrep)).2 (Bool.eq_false_iff.mpr hident)

variable (env) in
lemma refuseNovel_length (lines novel : List Text) :
    (refuseNovel env lines novel).1.length + (refuseNovel env lines novel).2.length =
      lines.length := by
  have hsplit := List.length_eq_length_filter_add (fun l => namesNovel env l novel) (l := lines)
  simp only [refuseNovel]
  omega

/-- The entries carried and those refused are the entries given. -/
lemma admitted_length : (admitted q).1.length + (admitted q).2.length = q.library.length := by
  rw [admitted]
  split_ifs
  · rw [admitRetrospective, List.length_map]
    exact (List.length_eq_length_filter_add _).symm
  · rfl

/-- What a composed brief carries is what the guard keeps, and it counts the rest. -/
lemma compose_spec {composed : Composed C} (h : compose env q = .ok composed) :
    (∀ line, line ∈ composed.brief.specFacts ++ composed.brief.playbook ↔
      line ∈ offered q ∧ namesNovel env line q.novel = false) ∧
    ∃ n, ("ctx_refused", Nat.toDigits 10 n) ∈ composed.labels ∧
      q.facts.length + q.learned.length + q.library.length =
        composed.brief.specFacts.length + composed.brief.playbook.length + n := by
  unfold compose at h
  by_cases hsubject : strip q.ticket.subject = []
  · rw [if_pos hsubject] at h
    cases h
  rw [if_neg hsubject] at h
  obtain rfl := Except.ok.inj h
  refine ⟨fun line => ?_, _, List.mem_append_left _ (List.mem_append_left _
    (List.mem_append_left _ (List.mem_cons_of_mem _ (List.mem_cons_of_mem _ (List.mem_cons_of_mem _
      (List.mem_cons_of_mem _ List.mem_cons_self)))))), ?_⟩
  · simp only [offered, refuseNovel, List.mem_append, List.mem_filter, Bool.not_eq_true']
    tauto
  · have hfacts := refuseNovel_length env (offeredFacts q) q.novel
    have hlearned := refuseNovel_length env q.learned q.novel
    have hlib := refuseNovel_length env ((admitted q).1.map (·.text)) q.novel
    have hadmitted := admitted_length (q := q)
    rw [List.length_map] at hlib
    have hbare : (if q.retrospective then q.facts else []).length + (offeredFacts q).length =
        q.facts.length := by
      rw [offeredFacts]
      split_ifs <;> simp
    simp only [List.length_append]
    omega

/-- A brief composed with the commit's novel tokens names nothing the commit introduced exactly where
every line offered in which a new literal stands that reads as an identifier is refused. -/
theorem guarded_iff (hgrep : HonestGrep repo) (hnovel : q.novel = novelTokens repo paths)
    {composed : Composed C} (h : compose env q = .ok composed) :
    Guarded repo paths q composed ↔ ∀ line ∈ offered q, ∀ w, NewLiteral repo paths w →
      env.isIdentifier w = true → w <:+: line → namesNovel env line q.novel = true := by
  obtain ⟨hlines, hcount⟩ := compose_spec h
  rw [Guarded, and_iff_left hcount]
  constructor
  · intro hall line hline w hw hident hin
    by_contra hkept
    have hkept := Bool.eq_false_iff.mpr hkept
    have hnothing := hall line ((hlines line).mpr ⟨hline, hkept⟩)
    exact (namesNothing_iff hgrep (hnovel ▸ hkept)).mp hnothing w hw hident hin
  · intro hall line hline
    obtain ⟨hoffered, hkept⟩ := (hlines line).mp hline
    refine (namesNothing_iff hgrep (hnovel ▸ hkept)).mpr fun w hw hident hin => ?_
    rw [hall line hoffered w hw hident hin] at hkept
    cases hkept

end Leaks

section Accented

/-- `été`. -/
def accented : Text := [Char.ofNat 233, 't', Char.ofNat 233]

/-- The commit makes a file hold the string `été`, which no file of the parent holds. -/
def accentedRepo : Repo where
  parentFiles := [("a.py".toList, "x = 1".toList)]
  commitFile path := if path = "a.py".toList then
    some ("x = ".toList ++ doubleQuote :: accented ++ [doubleQuote]) else none
  grep _ := some []

/-- An identifier is of letters, `é` among them, and digits, the first no digit. -/
def latinEnv : Env where
  isIdentifier w := !w.isEmpty && !w.head?.any Char.isDigit &&
    w.all fun c => isIdentPart c || c = Char.ofNat 233
  sha := id
  partsJson := fun parts => parts.flatten.flatten
  entriesJson := fun entries => (entries.map Prod.fst).flatten

def accentedPaths : List Text := ["a.py".toList]

def accentedRequest : Request Unit where
  arm := "A0".toList
  ticket := ⟨"subject".toList, [], "message".toList⟩
  repo := "repo".toList
  language := "py".toList
  mode := .sighted
  config := none
  testFiles := []
  targetTests := []
  testCommand := []
  harnessCommand := []
  finishChecks := []
  facts := []
  learned := [accented]
  library := []
  novel := novelTokens accentedRepo accentedPaths
  author := []
  rules := []
  retrospective := true
  poolBegan := []
  root := []

lemma accentedRepo_honest : HonestGrep accentedRepo := by
  rintro patterns found h
  obtain rfl := Option.some.inj h
  exact ⟨[], rfl, by simp⟩

lemma accented_candidates : candidates accentedRepo accentedPaths = [accented] := by
  rfl

/-- The new string is novel, and nothing else is. -/
lemma accented_novel : novelTokens accentedRepo accentedPaths = [accented] := by
  rw [novelTokens, accented_candidates]
  rfl

lemma accented_new : NewLiteral accentedRepo accentedPaths accented := by
  refine ⟨⟨"a.py".toList, by decide, by decide⟩, ?_⟩
  rintro ⟨f, hf, hin⟩
  obtain rfl := List.mem_singleton.mp hf
  exact absurd (contains_iff.mpr hin) (by decide)

lemma accentedRequest_composed :
    ∃ composed, compose latinEnv accentedRequest = .ok composed := ⟨_, rfl⟩

theorem guarded_iff_accented : ∃ composed, compose latinEnv accentedRequest = .ok composed ∧
    (Guarded accentedRepo accentedPaths accentedRequest composed ↔
      ∀ line ∈ offered accentedRequest, ∀ w, NewLiteral accentedRepo accentedPaths w →
        latinEnv.isIdentifier w = true → w <:+: line →
          namesNovel latinEnv line accentedRequest.novel = true) := by
  obtain ⟨composed, h⟩ := accentedRequest_composed
  exact ⟨composed, h, guarded_iff accentedRepo_honest rfl h⟩

/-- The line that is the new string itself is kept. -/
theorem accented_kept : ∃ composed, compose latinEnv accentedRequest = .ok composed ∧
    ¬ Guarded accentedRepo accentedPaths accentedRequest composed := by
  obtain ⟨composed, h⟩ := accentedRequest_composed
  refine ⟨composed, h, fun hguarded => ?_⟩
  have hkept : namesNovel latinEnv accented accentedRequest.novel = false := by
    change namesNovel latinEnv accented (novelTokens accentedRepo accentedPaths) = false
    rw [accented_novel, Bool.eq_false_iff, ne_eq, namesNovel_iff]
    rintro ⟨tok, htok, h⟩
    obtain rfl := List.mem_singleton.mp htok
    have hword : accented ∉ identifiers accented := by decide
    have hident : latinEnv.isIdentifier accented = true := by decide
    rw [hident] at h
    exact h.elim hword fun h => absurd h.1 (by decide)
  have hline : accented ∈ composed.brief.specFacts ++ composed.brief.playbook :=
    ((compose_spec h).1 accented).mpr ⟨by decide, hkept⟩
  exact (hguarded.1 accented hline).2 accented accented_new List.infix_rfl

end Accented

end CommitReplay.BriefGuard
