import CommitReplay.ChangeIndex

/-! The walks that extend a store of tasks: each yields commits that fit a pool, one for each change it does
not hold, and what is added of them keeps one task a change. -/
namespace CommitReplay.ChangeStores

open CommitReplay.PythonText CommitReplay.ChangeIndex

section Walks

variable (words : WordChars) (repo : Repository)

/-- What a pool asks of a commit's files. -/
structure Shape where
  isSrc : Text → Bool
  isTest : Text → Bool
  inLanguage : Text → Bool
  srcMin : ℕ
  srcMax : ℕ
  filesMax : ℕ

structure Walk where
  ref : Text
  logN : ℕ
  shape : Shape
  only : Option (List Text)

structure Candidate where
  sha : Text
  files : List Text
  srcFiles : List Text
  testFiles : List Text
  changeId : Text
deriving DecidableEq

/-- The newest commits of a ref. -/
def Walk.window (w : Walk) : List Text := (repo.log w.ref).take w.logN

/-- A commit's identity in a walk. -/
def changeId (ix : Index) (sha : Text) : Text := ix.identity words repo maxRevertDepth sha

/-- The commit a walk keeps for a change: the oldest that is no revert. -/
def kept (ix : Index) (shas : List Text) (change : Text) : Option Text :=
  shas.reverse.find? fun sha => (ix.reverts.lookup sha).isNone && changeId words repo ix sha = change

/-- Why a walk does not keep a commit: what it reverts, or the older commit of its change. -/
def skipReason (ix : Index) (shas : List Text) (sha : Text) : Option Text :=
  match ix.reverts.lookup sha with
  | some orig => some orig
  | none =>
    let older := (kept words repo ix shas (changeId words repo ix sha)).getD sha
    if older ≠ sha then some older else none

/-- A commit of a change the store holds. -/
def held (ix : Index) (skip : List Text) (sha : Text) : Bool :=
  skip.any fun known => changeId words repo ix known = changeId words repo ix sha

/-- A candidate, where the commit fits the pool and is the one to keep. -/
def candidate (w : Walk) (skip shas : List Text) (ix : Index) (sha : Text) : Option Candidate :=
  if sha ∈ skip ∨ w.only.any (sha ∉ ·) = true then none
  else (repo.commit sha).bind fun c =>
    let src := c.files.filter w.shape.isSrc
    let tests := c.files.filter w.shape.isTest
    let lang := c.files.filter w.shape.inLanguage
    if c.hasParent = false ∨ src = [] ∨ tests = [] then none
    else if ¬(w.shape.srcMin ≤ src.length ∧ src.length ≤ w.shape.srcMax ∧ lang.length ≤ w.shape.filesMax) then
      none
    else if held words repo ix skip sha = true ∨ (skipReason words repo ix shas sha).isSome = true then none
    else some ⟨sha, c.files, src, tests, changeId words repo ix sha⟩

/-- `iter_candidates`, the newest first. -/
def iterCandidates (w : Walk) (skip : List Text) : List Candidate :=
  let shas := w.window repo
  let ix := changeIndex words repo shas
  shas.filterMap (candidate words repo w skip shas ix)

/-- A store that walks have extended, each by some of what it yielded. -/
inductive Extended (ok : Walk → Prop) : List Text → Prop
  | empty : Extended ok []
  | walk {store : List Text} {w : Walk} {added : List Candidate} (before : Extended ok store) (hw : ok w)
      (hadded : added.Sublist (iterCandidates words repo w store)) :
      Extended ok (store ++ added.map (·.sha))

end Walks

section Yields

variable {words : WordChars} {repo : Repository} {w : Walk} {skip : List Text} {c : Candidate}

/-- The change a commit is a commit of. -/
def change (words : WordChars) (repo : Repository) (sha : Text) : Text :=
  identity words repo maxRevertDepth sha

lemma hex_window : ∀ sha ∈ w.window repo, sha ≠ [] ∧ ∀ c ∈ sha, isHexDigit c = true :=
  fun sha hsha => repo.hex w.ref sha (List.mem_of_mem_take hsha)

lemma nodup_window : (w.window repo).Nodup := (repo.once w.ref).sublist (List.take_sublist _ _)

/-- A walk over a clean window knows every commit by its change. -/
theorem changeId_eq (hclean : Clean repo (w.window repo)) (sha : Text) :
    changeId words repo (changeIndex words repo (w.window repo)) sha = change words repo sha :=
  identity_eq hex_window hclean

lemma lookup_reverts_window (hclean : Clean repo (w.window repo)) {sha : Text} (hsha : sha ∈ w.window repo) :
    (changeIndex words repo (w.window repo)).reverts.lookup sha = original words repo sha := by
  rw [lookup_reverts hex_window hclean, if_pos hsha]

lemma candidate_eq_some {shas : List Text} {ix : Index} {sha : Text}
    (h : candidate words repo w skip shas ix sha = some c) : c.sha = sha ∧
      c.changeId = changeId words repo ix sha ∧ held words repo ix skip sha = false ∧
      skipReason words repo ix shas sha = none := by
  unfold candidate at h
  split_ifs at h with hskip hkeep
  · obtain ⟨commit, -, h⟩ := Option.bind_eq_some_iff.mp h
    dsimp only at h
    split_ifs at h
  obtain ⟨commit, -, h⟩ := Option.bind_eq_some_iff.mp h
  dsimp only at h
  split_ifs at h
  obtain rfl := Option.some.inj h
  rw [not_or, Bool.not_eq_true, Option.not_isSome_iff_eq_none] at hkeep
  exact ⟨rfl, rfl, hkeep⟩

/-- What a walk yields is the commit it keeps for its change. -/
lemma kept_of_yielded (hclean : Clean repo (w.window repo)) (hc : c ∈ iterCandidates words repo w skip) :
    c.sha ∈ w.window repo ∧ original words repo c.sha = none ∧
      kept words repo (changeIndex words repo (w.window repo)) (w.window repo) (change words repo c.sha) =
        some c.sha := by
  obtain ⟨sha, hsha, hcand⟩ := List.mem_filterMap.mp hc
  obtain ⟨rfl, -, -, hreason⟩ := candidate_eq_some hcand
  rw [skipReason, lookup_reverts_window hclean hsha, changeId_eq hclean] at hreason
  cases horig : original words repo c.sha with
  | some orig => simp [horig] at hreason
  | none =>
    refine ⟨hsha, rfl, ?_⟩
    simp only [horig, ne_eq, ite_eq_right_iff, reduceCtorEq, imp_false, not_not] at hreason
    cases hkept : kept words repo (changeIndex words repo (w.window repo)) (w.window repo)
        (change words repo c.sha) with
    | some older => rw [hkept] at hreason; exact congrArg some hreason
    | none =>
      have hno := List.find?_eq_none.mp hkept c.sha (List.mem_reverse.mpr hsha)
      simp [lookup_reverts_window hclean hsha, horig, changeId_eq hclean] at hno

/-- What a walk over a clean window yields: a commit of a change that the store does not hold, which reverts
none, and than which no commit of the window of the same change that reverts none is older. -/
structure Yielded (words : WordChars) (repo : Repository) (w : Walk) (skip : List Text) (c : Candidate) : Prop where
  changeId : c.changeId = change words repo c.sha
  new : ∀ known ∈ skip, change words repo known ≠ change words repo c.sha
  no_revert : original words repo c.sha = none
  oldest : ∃ newer older, w.window repo = newer ++ c.sha :: older ∧
    ∀ sha ∈ older, original words repo sha = none → change words repo sha ≠ change words repo c.sha

theorem yielded (hclean : Clean repo (w.window repo)) (hc : c ∈ iterCandidates words repo w skip) :
    Yielded words repo w skip c := by
  obtain ⟨-, hnone, hkept⟩ := kept_of_yielded hclean hc
  obtain ⟨sha, -, hcand⟩ := List.mem_filterMap.mp hc
  obtain ⟨rfl, hid, hheld, -⟩ := candidate_eq_some hcand
  refine ⟨hid.trans (changeId_eq hclean _), fun known hknown hsame => ?_, hnone, ?_⟩
  · have hno := List.any_eq_false.mp hheld known hknown
    rw [changeId_eq hclean, changeId_eq hclean] at hno
    exact hno (decide_eq_true hsame)
  · obtain ⟨-, older, newer, hsplit, hno⟩ := List.find?_eq_some_iff_append.mp hkept
    refine ⟨newer.reverse, older.reverse, ?_, fun sha hsha horig hsame => ?_⟩
    · rw [← List.reverse_reverse (w.window repo), hsplit]
      simp
    · have hin : sha ∈ w.window repo := by
        rw [← List.mem_reverse, hsplit]
        exact List.mem_append_left _ (List.mem_reverse.mp hsha)
      have hno := hno sha (List.mem_reverse.mp hsha)
      rw [lookup_reverts_window hclean hin, horig, changeId_eq hclean] at hno
      simp [hsame] at hno

/-- A walk yields a change once. -/
theorem pairwise_yielded (hclean : Clean repo (w.window repo)) : (iterCandidates words repo w skip).Pairwise
    fun c d => change words repo c.sha ≠ change words repo d.sha := by
  have hnodup : ((iterCandidates words repo w skip).map (·.sha)).Nodup := by
    have hsub : ∀ shas : List Text, ((shas.filterMap (candidate words repo w skip (w.window repo)
        (changeIndex words repo (w.window repo)))).map (·.sha)).Sublist shas := by
      intro shas
      induction shas with
      | nil => exact List.Sublist.refl _
      | cons sha shas ih =>
        rw [List.filterMap_cons]
        cases hcand : candidate words repo w skip (w.window repo) (changeIndex words repo (w.window repo)) sha with
        | none => exact ih.cons _
        | some c =>
          rw [List.map_cons, (candidate_eq_some hcand).1]
          exact ih.cons_cons _
    exact nodup_window.sublist (hsub _)
  refine (List.pairwise_map.mp hnodup).imp_of_mem fun hc hd hne hsame => hne ?_
  have hkept := (kept_of_yielded hclean hc).2.2
  rw [hsame, (kept_of_yielded hclean hd).2.2] at hkept
  exact (Option.some.inj hkept).symm

end Yields

section Stores

variable {words : WordChars} {repo : Repository} {store : List Text}

/-- One task for each change, none of which is a revert. -/
structure OneEach (words : WordChars) (repo : Repository) (store : List Text) : Prop where
  distinct : store.Pairwise fun sha sha' => change words repo sha ≠ change words repo sha'
  no_revert : ∀ sha ∈ store, original words repo sha = none

/-- A walk over a clean window keeps one task for each change. -/
lemma OneEach.walk {w : Walk} {added : List Candidate} (h : OneEach words repo store)
    (hclean : Clean repo (w.window repo)) (hadded : added.Sublist (iterCandidates words repo w store)) :
    OneEach words repo (store ++ added.map (·.sha)) := by
  have hy : ∀ c ∈ added, Yielded words repo w store c := fun c hc => yielded hclean (hadded.subset hc)
  refine ⟨List.pairwise_append.mpr ⟨h.distinct, List.pairwise_map.mpr ((pairwise_yielded hclean).sublist hadded),
    fun known hknown sha hsha => ?_⟩, fun sha hsha => ?_⟩
  · obtain ⟨c, hc, rfl⟩ := List.mem_map.mp hsha
    exact (hy c hc).new known hknown
  · rcases List.mem_append.mp hsha with hsha | hsha
    · exact h.no_revert sha hsha
    · obtain ⟨c, hc, rfl⟩ := List.mem_map.mp hsha
      exact (hy c hc).no_revert

/-- Where no walk lists a message with the log's own mark, a store holds one task for each change and no
revert, and the next such walk yields for a change the oldest of its window that is no revert, if any, under
the identity that the commit has in every walk. -/
theorem oneEach_of_extended (h : Extended words repo (fun w => Clean repo (w.window repo)) store) :
    OneEach words repo store ∧ ∀ w : Walk, Clean repo (w.window repo) →
      (∀ sha, changeId words repo (changeIndex words repo (w.window repo)) sha = change words repo sha) ∧
      (∀ c ∈ iterCandidates words repo w store, Yielded words repo w store c) ∧
      (iterCandidates words repo w store).Pairwise fun c d =>
        change words repo c.sha ≠ change words repo d.sha := by
  refine ⟨?_, fun w hclean => ⟨changeId_eq hclean, fun c hc => yielded hclean hc, pairwise_yielded hclean⟩⟩
  induction h with
  | empty => exact ⟨List.Pairwise.nil, fun sha hsha => absurd hsha List.not_mem_nil⟩
  | walk before hw hadded ih => exact ih.walk hw hadded

end Stores

section Samples

def asciiWords : WordChars where
  isWord c := let n := c.toNat; (48 ≤ n && n ≤ 57) || (65 ≤ n && n ≤ 90) || n == 95 || (97 ≤ n && n ≤ 122)
  space c h := by
    simp only [isSpace, Bool.or_eq_true, Bool.and_eq_true, beq_iff_eq, decide_eq_true_eq] at h
    simp only [Bool.or_eq_false_iff, Bool.and_eq_false_iff, decide_eq_false_iff_not, beq_eq_false_iff_ne]
    omega

def shaA : Text := List.replicate 7 'a'

def shaB : Text := List.replicate 7 'b'

lemma hex_sample {sha : Text} (h : sha ∈ [shaB, shaA]) : sha ≠ [] ∧ ∀ c ∈ sha, isHexDigit c = true := by
  simp only [List.mem_cons, List.not_mem_nil, or_false] at h
  rcases h with rfl | rfl <;>
    exact ⟨List.cons_ne_nil _ _, fun c hc => (List.eq_of_mem_replicate hc).symm ▸ rfl⟩

lemma listed_sample {a b : Commit} {sha : Text} (h : sha ∈ [shaB, shaA]) :
    (if sha = shaA then some a else if sha = shaB then some b else none).isSome = true := by
  simp only [List.mem_cons, List.not_mem_nil, or_false] at h
  split_ifs with ha hb
  · rfl
  · rfl
  · exact absurd h (not_or.mpr ⟨hb, ha⟩)

/-- Two commits, of which the later has a given message. -/
def sampleRepo (message : Text) : Repository where
  commit sha :=
    if sha = shaA then some ⟨['p'], ['a'], true, [['a'], ['t']]⟩
    else if sha = shaB then some ⟨['q'], message, true, [['a'], ['t']]⟩
    else none
  resolve name := [shaA, shaB].find? name.isPrefixOf
  log _ := [shaB, shaA]
  listed _ _ h := listed_sample h
  hex _ _ h := hex_sample h
  once _ := by decide

def sampleWalk : Walk := ⟨[], 2, ⟨(· = ['a']), (· = ['t']), fun _ => true, 1, 3, 6⟩, none⟩

def cleanMessage : Text := "undo\n\nThis reverts commit aaaaaaa.".toList

/-- The log's own mark stands before the line that names the original. -/
def markedMessage : Text := "undo\x1e\nThis reverts commit aaaaaaa.".toList

lemma yields_clean : (iterCandidates asciiWords (sampleRepo cleanMessage) sampleWalk []).map (·.sha) = [shaA] := by
  decide

lemma yields_marked :
    (iterCandidates asciiWords (sampleRepo markedMessage) sampleWalk []).map (·.sha) = [shaB, shaA] := by
  decide

/-- The first walk's yield, all of it added. -/
lemma extended_sample (message : Text) (ok : Walk → Prop) (hok : ok sampleWalk) : Extended asciiWords
    (sampleRepo message) ok ((iterCandidates asciiWords (sampleRepo message) sampleWalk []).map (·.sha)) :=
  .walk .empty hok (List.Sublist.refl _)

theorem oneEach_of_extended_sample : OneEach asciiWords (sampleRepo cleanMessage) [shaA] := by
  have hclean : Clean (sampleRepo cleanMessage) (sampleWalk.window (sampleRepo cleanMessage)) := by
    intro sha hsha c hc
    change (if sha = shaA then _ else if sha = shaB then _ else none) = some c at hc
    split_ifs at hc <;> obtain rfl := Option.some.inj hc <;> decide
  have hrun := extended_sample cleanMessage
    (fun w => Clean (sampleRepo cleanMessage) (w.window (sampleRepo cleanMessage))) hclean
  rw [yields_clean] at hrun
  exact (oneEach_of_extended hrun).1

/-- A store can hold a revert beside the commit it reverts. -/
theorem not_forall_no_revert : ¬ ∀ (repo : Repository) (store : List Text),
    Extended asciiWords repo (fun _ => True) store → ∀ sha ∈ store, original asciiWords repo sha = none := by
  intro h
  have hrun := extended_sample markedMessage (fun _ => True) trivial
  rw [yields_marked] at hrun
  have hnone := h _ _ hrun shaB List.mem_cons_self
  have hsome : original asciiWords (sampleRepo markedMessage) shaB = some shaA := by decide
  rw [hsome] at hnone
  cases hnone

end Samples

end CommitReplay.ChangeStores
