import CommitReplay.PythonText

/-! The change identity of a commit: its original's for a revert, else its patch's. A walk reads the messages
of its window in one log, and every other message on its own. -/
namespace CommitReplay.ChangeIndex

open CommitReplay.PythonText

section Repositories

def isHexDigit (c : Char) : Bool :=
  let n := c.toNat
  (48 ≤ n && n ≤ 57) || (97 ≤ n && n ≤ 102)

/-- What git says of a commit. The patch id is empty where the commit has none. -/
structure Commit where
  patchId : Text
  message : Text
  hasParent : Bool
  files : List Text

/-- A repository. `log` lists the commits of a ref that are no merges, the newest first, and `resolve` is
`git rev-parse` of a commit's name. -/
structure Repository where
  commit : Text → Option Commit
  resolve : Text → Option Text
  log : Text → List Text
  listed : ∀ ref, ∀ sha ∈ log ref, (commit sha).isSome = true
  hex : ∀ ref, ∀ sha ∈ log ref, sha ≠ [] ∧ ∀ c ∈ sha, isHexDigit c = true
  once : ∀ ref, (log ref).Nodup

/-- The word characters of a regular expression, none of which is white space. -/
structure WordChars where
  isWord : Char → Bool
  space : ∀ c, isSpace c = true → isWord c = false

end Repositories

section Reverts

variable (words : WordChars)

/-- `git revert`'s own words. -/
def revertWords : Text := "This reverts commit ".toList

/-- The name after the words, where a line begins with them and a word of 7 to 40 digits follows. -/
def nameOf (line : Text) : Option Text :=
  if revertWords.isPrefixOf line then
    let rest := line.drop revertWords.length
    let name := rest.takeWhile isHexDigit
    if 7 ≤ name.length ∧ name.length ≤ 40 ∧ !(rest.drop name.length).head?.any words.isWord then some name
    else none
  else none

/-- The commit a message names, in the first line that names one. -/
def revertName (message : Text) : Option Text := (message.splitOn '\n').findSome? (nameOf words)

/-- `reverted_commit`. -/
def revertedCommit (repo : Repository) (message : Text) : Option Text :=
  (revertName words message).bind repo.resolve

end Reverts

section Index

variable (words : WordChars) (repo : Repository)

/-- `_MAX_REVERT_DEPTH`. -/
def maxRevertDepth : ℕ := 8

/-- `git log --format=%H%x1f%B%x1e` of a window. -/
def logText (shas : List Text) : Text :=
  shas.flatMap fun sha =>
    sha ++ '\x1f' :: ((repo.commit sha).elim [] (·.message) ++ ['\x1e', '\n'])

/-- A record's sha and message, where it has both. -/
def parseRecord (record : Text) : Option (Text × Text) :=
  let r := strip record
  if '\x1f' ∈ r then some (r.takeWhile (· ≠ '\x1f'), (r.dropWhile (· ≠ '\x1f')).tail) else none

/-- `_messages`, the last record of a sha first. -/
def messages (out : Text) : List (Text × Text) := ((out.splitOn '\x1e').filterMap parseRecord).reverse

/-- `git log -1 --format=%B` of a commit, and nothing of one the repository does not hold. -/
def messageOf (sha : Text) : Text := (repo.commit sha).elim [] fun c => c.message ++ ['\n']

/-- What a walk reads before it begins. -/
structure Index where
  ids : List (Text × Text)
  msgs : List (Text × Text)
  reverts : List (Text × Text)

def changeIndex (shas : List Text) : Index :=
  let msgs := messages (logText repo shas)
  { ids := shas.filterMap fun sha =>
      ((repo.commit sha).map (·.patchId)).bind fun pid => if pid = [] then none else some (sha, pid)
    msgs := msgs
    reverts := shas.filterMap fun sha =>
      (revertedCommit words repo ((msgs.lookup sha).getD [])).map fun orig => (sha, orig) }

/-- The original a walk follows from a commit. -/
def Index.original (ix : Index) (sha : Text) : Option Text :=
  match ix.reverts.lookup sha with
  | some orig => some orig
  | none => if (ix.msgs.lookup sha).isSome then none else revertedCommit words repo (messageOf repo sha)

/-- The patch's identity, and the commit's own where there is no patch. -/
def Index.patch (ix : Index) (sha : Text) : Text :=
  let pid := (ix.ids.lookup sha).getD ((repo.commit sha).elim [] (·.patchId))
  if pid = [] then "commit:".toList ++ sha else pid

/-- `identity`, with as many reverts to follow as the depth leaves. -/
def Index.identity (ix : Index) : ℕ → Text → Text
  | 0, sha => ix.patch repo sha
  | depth + 1, sha =>
    match ix.original words repo sha with
    | some orig => Index.identity ix depth orig
    | none => ix.patch repo sha

end Index

section Identity

variable (words : WordChars) (repo : Repository)

/-- The commit a commit's own message says it reverts. -/
def original (sha : Text) : Option Text := revertedCommit words repo (messageOf repo sha)

def patch (sha : Text) : Text :=
  let pid := (repo.commit sha).elim [] (·.patchId)
  if pid = [] then "commit:".toList ++ sha else pid

/-- The identity with every message read on its own. -/
def identity : ℕ → Text → Text
  | 0, sha => patch repo sha
  | depth + 1, sha =>
    match original words repo sha with
    | some orig => identity depth orig
    | none => patch repo sha

/-- No message of a window holds the mark its log ends a record with. -/
def Clean (shas : List Text) : Prop :=
  ∀ sha ∈ shas, ∀ c, repo.commit sha = some c → '\x1e' ∉ c.message

end Identity

section Messages

variable {words : WordChars} {repo : Repository} {message : Text}

lemma not_isHexDigit_of_isSpace {c : Char} (h : isSpace c = true) : isHexDigit c = false := by
  simp only [isSpace, Bool.or_eq_true, Bool.and_eq_true, beq_iff_eq, decide_eq_true_eq] at h
  simp only [isHexDigit, Bool.or_eq_false_iff, Bool.and_eq_false_iff, decide_eq_false_iff_not]
  omega

lemma nameOf_append_space {line : Text} {c : Char} (hc : isSpace c = true) :
    nameOf words (line ++ [c]) = nameOf words line := by
  by_cases hp : revertWords.isPrefixOf line = true
  · obtain ⟨rest, rfl⟩ := List.isPrefixOf_iff_prefix.mp hp
    have hp' : revertWords.isPrefixOf (revertWords ++ rest ++ [c]) = true :=
      List.isPrefixOf_iff_prefix.mpr ⟨rest ++ [c], by rw [List.append_assoc]⟩
    have htake : (rest ++ [c]).takeWhile isHexDigit = rest.takeWhile isHexDigit := by
      rw [List.takeWhile_append, List.takeWhile_cons_of_neg (by simp [not_isHexDigit_of_isSpace hc])]
      split_ifs with hall
      · rw [List.append_nil, (List.takeWhile_prefix _).eq_of_length hall]
      · rfl
    have hnext : ((rest ++ [c]).drop (rest.takeWhile isHexDigit).length).head?.any words.isWord =
        (rest.drop (rest.takeWhile isHexDigit).length).head?.any words.isWord := by
      rw [List.drop_append_of_le_length (List.takeWhile_prefix _).length_le]
      cases rest.drop (rest.takeWhile isHexDigit).length with
      | nil => simp [words.space c hc]
      | cons d ds => rfl
    rw [List.append_assoc] at hp' ⊢
    simp only [nameOf, hp, hp', if_true, List.drop_left, htake, hnext]
  · rw [nameOf, nameOf, if_neg hp]
    split_ifs with hp'
    · obtain ⟨t, ht⟩ := List.isPrefixOf_iff_prefix.mp hp'
      have hnil : t = [] := by
        rcases List.eq_nil_or_concat t with h | ⟨t', d, rfl⟩
        · exact h
        · rw [List.concat_eq_append, ← List.append_assoc] at ht
          exact absurd (List.isPrefixOf_iff_prefix.mpr ⟨t', (List.append_inj' ht rfl).1⟩) hp
      rw [← ht, hnil, List.append_nil, List.drop_length]
      rfl
    · rfl

/-- The last line of a text takes what is written behind it. -/
lemma last_line (s : Text) : ∃ ls l, ∀ rest : Text, '\n' ∉ rest → (s ++ rest).splitOn '\n' = ls ++ [l ++ rest] := by
  induction s with
  | nil => exact ⟨[], [], fun rest hrest => List.splitOn_eq_singleton hrest⟩
  | cons d s ih =>
    obtain ⟨ls, l, h⟩ := ih
    by_cases hd : d = '\n'
    · refine ⟨[] :: ls, l, fun rest hrest => ?_⟩
      rw [List.cons_append, List.splitOn_cons_eq_if_modifyHead, if_pos (by simp [hd]), h rest hrest]
      rfl
    · cases ls with
      | nil =>
        refine ⟨[], d :: l, fun rest hrest => ?_⟩
        rw [List.cons_append, List.splitOn_cons_eq_if_modifyHead, if_neg (by simp [hd]), h rest hrest]
        rfl
      | cons m ls =>
        refine ⟨(d :: m) :: ls, l, fun rest hrest => ?_⟩
        rw [List.cons_append, List.splitOn_cons_eq_if_modifyHead, if_neg (by simp [hd]), h rest hrest]
        rfl

lemma revertName_concat {c : Char} (hc : isSpace c = true) :
    revertName words (message ++ [c]) = revertName words message := by
  by_cases hn : c = '\n'
  · subst hn
    rw [revertName, List.splitOn_append_cons_self, List.findSome?_append, List.splitOn_nil]
    have hnil : [([] : Text)].findSome? (nameOf words) = none := rfl
    rw [hnil, Option.or_none, revertName]
  · obtain ⟨ls, l, h⟩ := last_line message
    have hc' := h [c] (by simpa using Ne.symm hn)
    have h0 := h [] List.not_mem_nil
    rw [List.append_nil, List.append_nil] at h0
    rw [revertName, revertName, hc', h0, List.findSome?_append, List.findSome?_append, List.findSome?_cons,
      List.findSome?_cons, nameOf_append_space hc]

/-- White space at its end does not change what a message names. -/
theorem revertName_append_space {rest : Text} (h : ∀ c ∈ rest, isSpace c = true) :
    revertName words (message ++ rest) = revertName words message := by
  induction rest generalizing message with
  | nil => rw [List.append_nil]
  | cons c rest ih =>
    rw [← List.singleton_append, ← List.append_assoc, ih fun d hd => h d (List.mem_cons_of_mem _ hd),
      revertName_concat (h c List.mem_cons_self)]

end Messages

section Log

variable {words : WordChars} {repo : Repository} {shas : List Text} {sha : Text}

/-- The message of a commit, as its log has it. -/
def body (repo : Repository) (sha : Text) : Text := (repo.commit sha).elim [] (·.message)

lemma rdropWhile_append_eq (p : Char → Bool) (s t : Text) :
    (s ++ t).rdropWhile p = if t.rdropWhile p = [] then s.rdropWhile p else s ++ t.rdropWhile p := by
  simp only [List.rdropWhile, List.reverse_append, List.dropWhile_append, List.isEmpty_iff,
    List.reverse_eq_nil_iff]
  split_ifs
  · rfl
  · rw [List.reverse_append, List.reverse_reverse]

lemma eq_rdropWhile_append (s : Text) : ∃ rest, s = s.rdropWhile isSpace ++ rest ∧ ∀ c ∈ rest, isSpace c = true :=
  ⟨s.rtakeWhile isSpace, List.rdropWhile_append_rtakeWhile.symm, fun _ hc => List.mem_rtakeWhile_imp hc⟩

lemma not_isSpace_of_isHexDigit {c : Char} (h : isHexDigit c = true) : isSpace c = false := by
  by_contra hs
  rw [not_isHexDigit_of_isSpace (by simpa using hs)] at h
  cases h

lemma not_mem_hex {c : Char} (hsha : ∀ d ∈ sha, isHexDigit d = true) (hc : isSpace c = true) : c ∉ sha := by
  intro hin
  have hhex := hsha c hin
  rw [not_isHexDigit_of_isSpace hc] at hhex
  cases hhex

lemma strip_record (hsha : sha ≠ [] ∧ ∀ c ∈ sha, isHexDigit c = true) {lead : Text}
    (hlead : lead = [] ∨ lead = ['\n']) : strip (lead ++ sha ++ '\x1f' :: body repo sha) =
      if (body repo sha).rdropWhile isSpace = [] then sha
      else sha ++ '\x1f' :: (body repo sha).rdropWhile isSpace := by
  obtain ⟨d, ds, rfl⟩ := List.exists_cons_of_ne_nil hsha.1
  have hd := not_isSpace_of_isHexDigit (hsha.2 d List.mem_cons_self)
  have hdrop : (lead ++ d :: ds ++ '\x1f' :: body repo (d :: ds)).dropWhile isSpace =
      d :: ds ++ '\x1f' :: body repo (d :: ds) := by
    rcases hlead with rfl | rfl
    · rw [List.nil_append, List.cons_append, List.dropWhile_cons_of_neg (by simp [hd])]
    · rw [List.append_assoc, List.singleton_append, List.dropWhile_cons_of_pos rfl, List.cons_append,
        List.dropWhile_cons_of_neg (by simp [hd])]
  have hself : (d :: ds).rdropWhile isSpace = d :: ds :=
    List.rdropWhile_eq_self_iff.mpr fun hl => by
      simp [not_isSpace_of_isHexDigit (hsha.2 _ (List.getLast_mem hl))]
  have hmark : ('\x1f' :: body repo (d :: ds)).rdropWhile isSpace =
      if (body repo (d :: ds)).rdropWhile isSpace = [] then []
      else '\x1f' :: (body repo (d :: ds)).rdropWhile isSpace :=
    rdropWhile_append_eq isSpace ['\x1f'] _
  rw [strip, hdrop, rdropWhile_append_eq, hmark, hself]
  split_ifs <;> first | rfl | contradiction

/-- A record of a window's log, behind what is left of the record before. -/
lemma parseRecord_log (hsha : sha ≠ [] ∧ ∀ c ∈ sha, isHexDigit c = true) {lead : Text}
    (hlead : lead = [] ∨ lead = ['\n']) : parseRecord (lead ++ sha ++ '\x1f' :: body repo sha) =
      if (body repo sha).rdropWhile isSpace = [] then none
      else some (sha, (body repo sha).rdropWhile isSpace) := by
  have hno := not_mem_hex hsha.2 (rfl : isSpace '\x1f' = true)
  have hall : ∀ c ∈ sha, decide (c ≠ '\x1f') = true := fun c hc => decide_eq_true fun he => hno (he ▸ hc)
  simp only [parseRecord, strip_record hsha hlead]
  by_cases hblank : (body repo sha).rdropWhile isSpace = []
  · rw [if_pos hblank, if_pos hblank, if_neg hno]
  · rw [if_neg hblank, if_neg hblank, if_pos (by simp), List.takeWhile_append_of_pos hall,
      List.dropWhile_append_of_pos hall]
    simp

/-- The log of a window gives back each message that is not blank. -/
theorem messages_logText (hsha : ∀ sha ∈ shas, sha ≠ [] ∧ ∀ c ∈ sha, isHexDigit c = true)
    (hclean : Clean repo shas) : messages (logText repo shas) = (shas.filterMap fun sha =>
      if (body repo sha).rdropWhile isSpace = [] then none
      else some (sha, (body repo sha).rdropWhile isSpace)).reverse := by
  have hlead : ∀ lead : Text, lead = [] ∨ lead = ['\n'] →
      ((lead ++ logText repo shas).splitOn '\x1e').filterMap parseRecord = shas.filterMap fun sha =>
        if (body repo sha).rdropWhile isSpace = [] then none
        else some (sha, (body repo sha).rdropWhile isSpace) := by
    induction shas with
    | nil => rintro lead (rfl | rfl) <;> rfl
    | cons sha shas ih =>
      intro lead hlead
      have hhead := hsha sha List.mem_cons_self
      have hmark : '\x1e' ∉ lead ++ sha ++ '\x1f' :: body repo sha := by
        have hbody : '\x1e' ∉ body repo sha := by
          rw [body]
          cases hc : repo.commit sha with
          | none => exact List.not_mem_nil
          | some c => exact hclean sha List.mem_cons_self c hc
        have hno := not_mem_hex hhead.2 (rfl : isSpace '\x1e' = true)
        rcases hlead with rfl | rfl <;> simp [hbody, hno]
      have hsplit : lead ++ logText repo (sha :: shas) =
          (lead ++ sha ++ '\x1f' :: body repo sha) ++ '\x1e' :: (['\n'] ++ logText repo shas) := by
        simp [logText, body]
      rw [hsplit, List.splitOn_append_cons_self_of_not_mem hmark, List.filterMap_cons, List.filterMap_cons,
        parseRecord_log hhead hlead, ih (fun x hx => hsha x (List.mem_cons_of_mem _ hx))
          (fun x hx => hclean x (List.mem_cons_of_mem _ hx)) ['\n'] (.inr rfl)]
  rw [messages, ← List.nil_append (logText repo shas), hlead [] (.inl rfl)]

/-- Whatever is found for a key is found again, for the keys listed. -/
lemma lookup_keyed {β : Type} {f : Text → Option (Text × β)} {g : Text → Option β}
    (h : ∀ x, f x = (g x).map fun b => (x, b)) :
    (shas.filterMap f).lookup sha = if sha ∈ shas then g sha else none := by
  induction shas with
  | nil => rfl
  | cons x shas ih =>
    rw [List.filterMap_cons, h x]
    by_cases hx : sha = x
    · subst hx
      cases hg : g sha with
      | none => simp [ih, hg]
      | some b => simp
    · have hmem : sha ∈ x :: shas ↔ sha ∈ shas := by simp [hx]
      cases g x with
      | none => simpa [hmem] using ih
      | some b => simpa [List.lookup_cons, beq_false_of_ne hx, hmem] using ih

lemma lookup_msgs (hsha : ∀ sha ∈ shas, sha ≠ [] ∧ ∀ c ∈ sha, isHexDigit c = true) (hclean : Clean repo shas) :
    (messages (logText repo shas)).lookup sha = if sha ∈ shas then
      if (body repo sha).rdropWhile isSpace = [] then none else some ((body repo sha).rdropWhile isSpace)
    else none := by
  rw [messages_logText hsha hclean, ← List.filterMap_reverse]
  have hkey : ∀ x, (if (body repo x).rdropWhile isSpace = [] then none
      else some (x, (body repo x).rdropWhile isSpace)) = (if (body repo x).rdropWhile isSpace = [] then none
      else some ((body repo x).rdropWhile isSpace)).map fun b => (x, b) := by
    intro x
    split_ifs <;> rfl
  simp only [lookup_keyed hkey, List.mem_reverse]

end Log

section Window

variable {words : WordChars} {repo : Repository} {shas : List Text} {sha : Text} {depth : ℕ}

/-- What a message names is what its log has it name. -/
lemma revertedCommit_body : revertedCommit words repo ((body repo sha).rdropWhile isSpace) =
    original words repo sha := by
  have hbody : revertName words ((body repo sha).rdropWhile isSpace) = revertName words (body repo sha) := by
    obtain ⟨rest, hrest, hspace⟩ := eq_rdropWhile_append (body repo sha)
    conv_rhs => rw [hrest, revertName_append_space hspace]
  have hown : revertName words (messageOf repo sha) = revertName words (body repo sha) := by
    rw [messageOf, body]
    cases repo.commit sha with
    | none => rfl
    | some c => exact revertName_concat rfl
  rw [original, revertedCommit, revertedCommit, hbody, hown]

/-- The reverts a walk finds in its window are those their own messages name. -/
theorem lookup_reverts (hsha : ∀ sha ∈ shas, sha ≠ [] ∧ ∀ c ∈ sha, isHexDigit c = true)
    (hclean : Clean repo shas) : (changeIndex words repo shas).reverts.lookup sha =
      if sha ∈ shas then original words repo sha else none := by
  have hreverts : (changeIndex words repo shas).reverts.lookup sha = if sha ∈ shas then
      revertedCommit words repo (((messages (logText repo shas)).lookup sha).getD []) else none :=
    lookup_keyed fun x => rfl
  have hmsgs := @lookup_msgs _ _ sha hsha hclean
  rw [hreverts]
  by_cases hin : sha ∈ shas
  · rw [if_pos hin] at hmsgs
    rw [if_pos hin, if_pos hin, ← revertedCommit_body, hmsgs]
    split_ifs with hblank
    · rw [Option.getD_none, hblank]
    · rfl
  · rw [if_neg hin, if_neg hin]

/-- The original a walk follows is the one the commit's own message names. -/
theorem original_eq (hsha : ∀ sha ∈ shas, sha ≠ [] ∧ ∀ c ∈ sha, isHexDigit c = true) (hclean : Clean repo shas) :
    (changeIndex words repo shas).original words repo sha = original words repo sha := by
  have hread : (changeIndex words repo shas).msgs = messages (logText repo shas) := rfl
  rw [Index.original, lookup_reverts hsha hclean, hread, lookup_msgs hsha hclean]
  cases horig : original words repo sha with
  | none =>
    have hown : revertedCommit words repo (messageOf repo sha) = none := horig
    simp [hown]
  | some orig =>
    have hown : revertedCommit words repo (messageOf repo sha) = some orig := horig
    by_cases hin : sha ∈ shas
    · simp [hin]
    · simp [hin, hown]

lemma patch_eq : (changeIndex words repo shas).patch repo sha = patch repo sha := by
  have hids : (changeIndex words repo shas).ids.lookup sha = if sha ∈ shas then
      ((repo.commit sha).map (·.patchId)).bind fun pid => if pid = [] then none else some pid else none := by
    refine lookup_keyed (g := fun x => ((repo.commit x).map (·.patchId)).bind fun pid =>
      if pid = [] then none else some pid) fun x => ?_
    cases (repo.commit x).map (·.patchId) with
    | none => rfl
    | some pid =>
      rw [Option.bind_some, Option.bind_some]
      split_ifs <;> rfl
  have hpid : ((changeIndex words repo shas).ids.lookup sha).getD ((repo.commit sha).elim [] (·.patchId)) =
      (repo.commit sha).elim [] (·.patchId) := by
    rw [hids]
    split_ifs
    · cases repo.commit sha with
      | none => rfl
      | some c =>
        rw [Option.map_some, Option.bind_some]
        split_ifs <;> rfl
    · rfl
  simp only [Index.patch, patch, hpid]

/-- A walk over a clean window gives every commit the identity it has on its own. -/
theorem identity_eq (hsha : ∀ sha ∈ shas, sha ≠ [] ∧ ∀ c ∈ sha, isHexDigit c = true) (hclean : Clean repo shas) :
    (changeIndex words repo shas).identity words repo depth sha = identity words repo depth sha := by
  induction depth generalizing sha with
  | zero => exact patch_eq
  | succ depth ih =>
    rw [Index.identity, identity, original_eq hsha hclean]
    cases original words repo sha with
    | none => exact patch_eq
    | some orig => exact ih

end Window

end CommitReplay.ChangeIndex
