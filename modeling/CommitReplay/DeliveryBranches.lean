import CommitReplay.BacklogRecord
import CommitReplay.RowChecks
import CommitReplay.Slugs

/-! The branch a delivery writes: how its name is made of a backlog item, what is checked of it, and what is pushed. -/
namespace CommitReplay.DeliveryBranches

open CommitReplay.PythonText CommitReplay.RowChecks CommitReplay.BacklogRecord CommitReplay.Slugs

/-- What Python's library is asked: `str.lower`, and the path of `urllib.parse.urlparse`. -/
structure Library where
  lower : Text → Text
  urlPath : Text → Text

section Names

def refsHeads : Text := "refs/heads/".toList

/-- The loop that strips `refs/heads/`; each turn makes the name shorter. -/
def dropRefs : ℕ → Text → Text
  | 0, n => n
  | fuel + 1, n => if startsWith n refsHeads then dropRefs fuel (n.drop refsHeads.length) else n

def stripSlashes (s : Text) : Text := (s.dropWhile (· = '/')).rdropWhile (· = '/')

/-- `_norm_branch`. -/
def normBranch (name : Text) : Text := stripSlashes (dropRefs (strip name).length (strip name))

def alwaysProtected : List Text := ["main".toList, "master".toList]

def protectedBranches (py : Library) (targetDefaultBranch : Text) : List Text :=
  alwaysProtected.map py.lower ++
    if normBranch targetDefaultBranch ≠ [] then [py.lower (normBranch targetDefaultBranch)] else []

/-- The characters a slug keeps: `[a-z0-9]`. -/
def isSlugChar (c : Char) : Bool := ('a' ≤ c && c ≤ 'z') || ('0' ≤ c && c ≤ '9')

def change : Text := "change".toList

/-- `slugify`. -/
def slugify (py : Library) (text : Text) (maxLen : ℕ) : Text :=
  let s := slug isSlugChar '-' maxLen (py.lower text)
  if s = [] then change else s

def branchPrefix : Text := "crb/".toList

/-- `DELIVERY_BRANCH_RE.fullmatch`. -/
def branchMatches (branch : Text) : Bool :=
  startsWith branch branchPrefix &&
    ((branch.drop branchPrefix.length).splitOn '-').all fun w => w ≠ [] && w.all isSlugChar

end Names

section Repositories

variable (py : Library)

def gitAt : Text := "git@".toList

def dotGit : Text := ".git".toList

def withoutGit (path : Text) : Text := if dotGit.isSuffixOf path then path.take (path.length - dotGit.length) else path

/-- `owner_repo_from_remote`. -/
def ownerRepo (remote : Text) : Option (Text × Text) :=
  let r := strip remote
  let path := if startsWith r gitAt && r.contains ':' then (r.dropWhile (· ≠ ':')).drop 1 else py.urlPath r
  match ((withoutGit (stripSlashes path)).splitOn '/').filter (· ≠ []) with
  | owner :: name :: _ => some (owner, name)
  | _ => none

/-- `repository_of`: nothing where the remote cannot be parsed. -/
def repositoryOf (remote : Text) : Text :=
  match ownerRepo py remote with
  | some (owner, name) => py.lower (owner ++ '/' :: name)
  | none => []

def segment (s : Text) : Bool := s ≠ [] && !s.any isSpace

def number (s : Text) : Bool := s ≠ [] && s.all fun c => (decimalDigit c).isSome

/-- `_PR_URL_RE.match`: the owner and the name in the address of a pull request. -/
def prUrl (url : Text) : Option (Text × Text) :=
  if startsWith url "https://".toList then
    match (url.drop "https://".length).splitOn '/' with
    | host :: owner :: name :: pull :: n :: rest =>
      if (segment host && segment owner && segment name && pull = "pull".toList && number n) && (rest = [] || rest = [[]])
      then some (owner, name) else none
    | _ => none
  else none

end Repositories

section Delivery

variable (py : Library)

/-- An earlier delivery of an item, as a re-delivery reads it. -/
structure Previous where
  itemId : Text
  branch : Text
  base : Text
  commitSha : Text
  prUrl : Text
  prNumber : ℤ
  repository : Text

/-- `recorded_repository`, of an earlier delivery. -/
def recordedRepository (previous : Previous) : Text :=
  if strip previous.repository ≠ [] then py.lower (strip previous.repository)
  else
    match prUrl (strip previous.prUrl) with
    | some (owner, name) => py.lower (owner ++ '/' :: name)
    | none => []

/-- Why a delivery is not made. -/
inductive Refusal
  | unsafeName (item : Text)
  | emptyBranch
  | protectedBranch (branch : Text) (protectedNames : List Text)
  | noDefaultBranch
  | notAccepted (item verdict : Text)
  | otherItem (previous item : Text)
  | otherBranch (previousBranch previousBase branch base : Text)
  | noCommit
  | noCredentials (why : Text)
  | unknownRepository (was now : Text)
  | otherRepository (was now : Text)
  | notClean (item : Text)
  | disqualified (item : Text)
  | git (why : Text)
  | github (why : Text)
deriving DecidableEq

/-- What a push is asked for. -/
structure Push where
  branch : Text
  refspec : Text
  remote : Text
  expected : Option Text
deriving DecidableEq

structure DeliveryResult where
  itemId : Text
  branch : Text
  base : Text
  commitSha : Text
  prUrl : Text
  prNumber : ℤ
  previousCommitSha : Text
  updated : Bool
  repository : Text
deriving DecidableEq

/-- What `deliver` is given, and what git, the credentials provider and the remote answer. -/
structure Request where
  item : BacklogItem
  clean : Bool
  disqualified : Bool
  targetDefaultBranch : Text
  verdict : Text
  previous : Option Previous
  resolve : Except Text Text
  commitOnBranch : Text → Except Text Text
  push : Push → Except Text Unit
  openPr : Text → Except Text (Text × ℤ)

def accept : Text := "accept".toList

/-- `assert_not_default_branch`. -/
def assertNotDefaultBranch (name targetDefaultBranch : Text) : Except Refusal Text :=
  if normBranch name = [] then .error .emptyBranch
  else if py.lower (normBranch name) ∈ protectedBranches py targetDefaultBranch then
    .error (.protectedBranch (normBranch name) (protectedBranches py targetDefaultBranch))
  else .ok (normBranch name)

def branchOf (item : BacklogItem) : Text :=
  branchPrefix ++ slugify py item.id.toList 64 ++ '-' :: slugify py item.title.toList 40

/-- `delivery_branch_name`. -/
def deliveryBranchName (item : BacklogItem) : Except Refusal Text :=
  if branchMatches (branchOf py item) then .ok (branchOf py item) else .error (.unsafeName item.id.toList)

/-- `legacy_delivery_branch_name`. -/
def legacyDeliveryBranchName (item : BacklogItem) : Text :=
  branchPrefix ++ item.id.toList ++ '-' :: slugify py item.title.toList 40

/-- `force_with_lease_arg`. -/
def forceWithLeaseArg (p : Push) : Except Refusal Text :=
  match p.expected with
  | none => .ok "--force-with-lease".toList
  | some expected =>
    if strip expected = [] then .error .noCommit
    else .ok ("--force-with-lease=".toList ++ p.branch ++ ':' :: strip expected)

variable (d : Request)

/-- The name that is asked for: a pull request opened under the old name keeps it. -/
def wanted (name : Text) : Text :=
  match d.previous with
  | some previous => if previous.branch = legacyDeliveryBranchName py d.item then previous.branch else name
  | none => name

def checkBase : Except Refusal Text :=
  if normBranch d.targetDefaultBranch = [] then .error .noDefaultBranch else .ok (normBranch d.targetDefaultBranch)

def checkVerdict : Except Refusal Unit :=
  if d.verdict ≠ accept then .error (.notAccepted d.item.id.toList d.verdict) else .ok ()

def checkPrevious (branch base : Text) : Except Refusal Unit :=
  match d.previous with
  | none => .ok ()
  | some previous =>
    if previous.itemId ≠ d.item.id.toList then .error (.otherItem previous.itemId d.item.id.toList)
    else if previous.branch ≠ branch ∨ previous.base ≠ base then
      .error (.otherBranch previous.branch previous.base branch base)
    else if strip previous.commitSha = [] then .error .noCommit
    else .ok ()

def credentials : Except Refusal Text := d.resolve.mapError .noCredentials

/-- `assert_same_repository`. -/
def assertSameRepository (remote : Text) : Except Refusal Unit :=
  match d.previous with
  | none => .ok ()
  | some previous =>
    let was := recordedRepository py previous
    let now := repositoryOf py remote
    if was = [] ∨ now = [] then .error (.unknownRepository was now)
    else if was ≠ now then .error (.otherRepository was now)
    else .ok ()

def checkBuild : Except Refusal Unit :=
  if d.clean = false then .error (.notClean d.item.id.toList)
  else if d.disqualified then .error (.disqualified d.item.id.toList)
  else .ok ()

/-- `deliver`, up to its push: the base, the commit and what is pushed. -/
def prepare : Except Refusal (Text × Text × Push) := do
  let name ← deliveryBranchName py d.item
  let branch ← assertNotDefaultBranch py (wanted py d name) d.targetDefaultBranch
  let base ← checkBase d
  checkVerdict d
  checkPrevious d branch base
  let remote ← credentials d
  assertSameRepository py d remote
  checkBuild d
  let sha ← (d.commitOnBranch branch).mapError .git
  let _ ← assertNotDefaultBranch py branch base
  .ok (base, sha, ⟨branch, branch ++ ':' :: branch, remote, d.previous.map Previous.commitSha⟩)

/-- `deliver`, after its push. A comment that cannot be posted is no failure. -/
def afterPush (base sha : Text) (p : Push) : Except Refusal DeliveryResult :=
  match d.previous with
  | some previous =>
    .ok ⟨d.item.id.toList, p.branch, base, sha, previous.prUrl, previous.prNumber, previous.commitSha, true,
      repositoryOf py p.remote⟩
  | none => do
    let (url, number) ← (d.openPr p.branch).mapError .github
    .ok ⟨d.item.id.toList, p.branch, base, sha, url, number, [], false, repositoryOf py p.remote⟩

/-- `deliver`: the pushes it makes, and what it returns. -/
def deliver : List Push × Except Refusal DeliveryResult :=
  match prepare py d with
  | .error why => ([], .error why)
  | .ok (base, sha, p) =>
    match d.push p with
    | .error why => ([p], .error (.git why))
    | .ok () => ([p], afterPush py d base sha p)

end Delivery

section Branches

variable (py : Library)

/-- The words of a slug: those of the text that fit, and a word for a text without any. -/
def slugWords (text : Text) (maxLen : ℕ) : List Text :=
  let ws := capWords maxLen (words isSlugChar (py.lower text))
  if ws = [] then [change] else ws

/-- All that the branch of an item is made of: the words of its id, then those of its title. -/
def branchWords (item : BacklogItem) : List Text :=
  slugWords py item.id.toList 64 ++ slugWords py item.title.toList 40

variable {py} {item : BacklogItem}

lemma slugWords_ne_nil (text : Text) (maxLen : ℕ) : slugWords py text maxLen ≠ [] := by
  unfold slugWords
  dsimp only
  split_ifs with h
  · exact List.cons_ne_nil _ _
  · exact h

lemma worded_slugWords (text : Text) (maxLen : ℕ) : Worded isSlugChar (slugWords py text maxLen) := by
  unfold slugWords
  dsimp only
  split_ifs with h
  · intro w hw
    obtain rfl := List.mem_singleton.mp hw
    have hall : change.all isSlugChar = true := rfl
    exact ⟨List.cons_ne_nil _ _, List.all_eq_true.mp hall⟩
  · exact worded_capWords maxLen (worded_words _ _)

lemma slugify_eq (text : Text) (maxLen : ℕ) : slugify py text maxLen = ['-'].intercalate (slugWords py text maxLen) := by
  have hslug := slug_eq (rfl : isSlugChar '-' = false) maxLen (py.lower text)
  unfold slugify slugWords
  dsimp only
  rw [hslug]
  by_cases h : capWords maxLen (words isSlugChar (py.lower text)) = []
  · rw [if_pos h, if_pos (by rw [h]; rfl)]
    rfl
  · obtain ⟨c, s, hs, -⟩ := head_intercalate '-' (worded_capWords maxLen (worded_words _ _)) h
    rw [if_neg h, if_neg (by rw [hs]; exact List.cons_ne_nil c s)]

lemma branchOf_eq (item : BacklogItem) : branchOf py item = branchPrefix ++ ['-'].intercalate (branchWords py item) := by
  rw [branchOf, branchWords, intercalate_append (slugWords_ne_nil _ _) (slugWords_ne_nil _ _), slugify_eq, slugify_eq,
    List.append_assoc]

lemma worded_branchWords (py : Library) (item : BacklogItem) : Worded isSlugChar (branchWords py item) :=
  List.forall_mem_append.mpr ⟨worded_slugWords _ _, worded_slugWords _ _⟩

lemma branchWords_ne_nil (item : BacklogItem) : branchWords py item ≠ [] :=
  List.append_ne_nil_of_left_ne_nil (slugWords_ne_nil _ _) _

/-- A safe branch can always be built. -/
lemma deliveryBranchName_eq (item : BacklogItem) : deliveryBranchName py item = .ok (branchOf py item) := by
  refine if_pos ?_
  rw [branchOf_eq, branchMatches, List.drop_left, splitOn_words rfl (worded_branchWords py item) (branchWords_ne_nil item)]
  refine Bool.and_eq_true_iff.mpr ⟨List.isPrefixOf_iff_prefix.mpr (List.prefix_append _ _), ?_⟩
  refine List.all_eq_true.mpr fun w hw => ?_
  obtain ⟨hne, hchars⟩ := worded_branchWords py item w hw
  simpa [hne] using hchars

/-- Two items are given one branch exactly when they have the same words. -/
lemma branchOf_inj {i j : BacklogItem} : branchOf py i = branchOf py j ↔ branchWords py i = branchWords py j := by
  rw [branchOf_eq, branchOf_eq, List.append_cancel_left_eq]
  refine ⟨fun h => ?_, fun h => by rw [h]⟩
  have hi := splitOn_words (rfl : isSlugChar '-' = false) (worded_branchWords py i) (branchWords_ne_nil i)
  have hj := splitOn_words (rfl : isSlugChar '-' = false) (worded_branchWords py j) (branchWords_ne_nil j)
  rw [← hi, h, hj]

lemma isSlugChar_plain {c : Char} (h : isSlugChar c = true) : isSpace c = false ∧ c ≠ '/' := by
  have hrange : (97 ≤ c.toNat ∧ c.toNat ≤ 122) ∨ (48 ≤ c.toNat ∧ c.toNat ≤ 57) := by
    simpa [isSlugChar, Char.le_def, UInt32.le_iff_toNat_le] using h
  refine ⟨?_, ?_⟩
  · simp only [isSpace, Bool.or_eq_false_iff, Bool.and_eq_false_iff, decide_eq_false_iff_not, beq_eq_false_iff_ne]
    omega
  · rintro rfl
    simp at hrange

/-- A name that begins as a delivery's and ends with a letter or a digit is as git's rules have it. -/
lemma normBranch_eq (s : Text) {c : Char} (hc : isSlugChar c = true) :
    normBranch (branchPrefix ++ s ++ [c]) = branchPrefix ++ s ++ [c] := by
  obtain ⟨hspace, hslash⟩ := isSlugChar_plain hc
  have hstrip : strip (branchPrefix ++ s ++ [c]) = branchPrefix ++ s ++ [c] := by
    have hhead : (branchPrefix ++ s ++ [c]).dropWhile isSpace = branchPrefix ++ s ++ [c] :=
      List.dropWhile_cons_of_neg (by decide)
    rw [strip, hhead, List.rdropWhile_concat_neg _ _ _ (by simp [hspace])]
  have hrefs : ∀ fuel, dropRefs fuel (branchPrefix ++ s ++ [c]) = branchPrefix ++ s ++ [c] := by
    intro fuel
    cases fuel with
    | zero => rfl
    | succ fuel => exact if_neg Bool.false_ne_true
  have hhead : (branchPrefix ++ s ++ [c]).dropWhile (· = '/') = branchPrefix ++ s ++ [c] :=
    List.dropWhile_cons_of_neg (by decide)
  rw [normBranch, hstrip, hrefs, stripSlashes, hhead, List.rdropWhile_concat_neg _ _ _ (by simpa using hslash)]

lemma slugify_last (py : Library) (text : Text) (maxLen : ℕ) : ∃ s c, slugify py text maxLen = s ++ [c] ∧ isSlugChar c = true := by
  rw [slugify_eq]
  exact last_intercalate '-' (worded_slugWords text maxLen) (slugWords_ne_nil text maxLen)

/-- Both names of an item's branch are as git's rules have them. -/
lemma normBranch_named {name id : Text} (h : name = branchPrefix ++ id ++ '-' :: slugify py item.title.toList 40) :
    normBranch name = name := by
  obtain ⟨s, c, hs, hc⟩ := slugify_last py item.title.toList 40
  have hname : name = branchPrefix ++ (id ++ '-' :: s) ++ [c] := by
    rw [h, hs]
    simp
  rw [hname]
  exact normBranch_eq _ hc

end Branches

section Result

variable {py : Library} {d : Request} {p : Push}

/-- What a push of a delivery writes: its own branch, and on a re-delivery the branch of the previous one, leased at its
commit, in its repository. -/
structure OwnBranch (py : Library) (d : Request) (p : Push) : Prop where
  refspec : p.refspec = p.branch ++ ':' :: p.branch
  named : startsWith p.branch branchPrefix = true
  notProtected : py.lower (normBranch p.branch) ∉ protectedBranches py d.targetDefaultBranch
  first : d.previous = none → p.branch = branchOf py d.item ∧ p.expected = none
  again : ∀ previous, d.previous = some previous → p.branch = previous.branch ∧
    forceWithLeaseArg p = .ok ("--force-with-lease=".toList ++ previous.branch ++ ':' :: strip previous.commitSha) ∧
    recordedRepository py previous = repositoryOf py p.remote ∧ repositoryOf py p.remote ≠ []

lemma assertNotDefaultBranch_ok {name default branch : Text} (h : assertNotDefaultBranch py name default = .ok branch) :
    branch = normBranch name ∧ py.lower (normBranch name) ∉ protectedBranches py default := by
  unfold assertNotDefaultBranch at h
  split_ifs at h with hempty hprotected
  exact ⟨(Except.ok.inj h).symm, hprotected⟩

/-- The name that is asked for is one of the two names of the item. -/
lemma wanted_cases (py : Library) (d : Request) : wanted py d (branchOf py d.item) = branchOf py d.item ∨
    wanted py d (branchOf py d.item) = legacyDeliveryBranchName py d.item := by
  unfold wanted
  split
  · split_ifs with h
    · exact .inr h
    · exact .inl rfl
  · exact .inl rfl

lemma wanted_first (h : d.previous = none) (name : Text) : wanted py d name = name := by rw [wanted, h]

lemma wanted_named (py : Library) (d : Request) : ∃ id, wanted py d (branchOf py d.item) =
    branchPrefix ++ id ++ '-' :: slugify py d.item.title.toList 40 := by
  obtain h | h := wanted_cases py d
  · exact ⟨_, h⟩
  · exact ⟨_, h⟩

lemma checkPrevious_ok {branch base : Text} (h : checkPrevious d branch base = .ok ()) {previous : Previous}
    (hprevious : d.previous = some previous) : previous.branch = branch ∧ strip previous.commitSha ≠ [] := by
  rw [checkPrevious, hprevious] at h
  dsimp only at h
  split_ifs at h with hitem hbranch hcommit
  exact ⟨not_not.mp (not_or.mp hbranch).1, hcommit⟩

lemma assertSameRepository_ok {remote : Text} (h : assertSameRepository py d remote = .ok ()) {previous : Previous}
    (hprevious : d.previous = some previous) :
    recordedRepository py previous = repositoryOf py remote ∧ repositoryOf py remote ≠ [] := by
  rw [assertSameRepository, hprevious] at h
  dsimp only at h
  split_ifs at h with hunknown hother
  exact ⟨not_not.mp hother, (not_or.mp hunknown).2⟩

lemma prepare_ok {base sha : Text} (h : prepare py d = .ok (base, sha, p)) : OwnBranch py d p := by
  obtain ⟨name, hname, h⟩ := bind_eq_ok.mp h
  obtain ⟨branch, hbranch, h⟩ := bind_eq_ok.mp h
  obtain ⟨base', -, h⟩ := bind_eq_ok.mp h
  obtain ⟨-, -, h⟩ := bind_eq_ok.mp h
  obtain ⟨u, hprevious, h⟩ := bind_eq_ok.mp h
  obtain ⟨remote, -, h⟩ := bind_eq_ok.mp h
  obtain ⟨v, hrepository, h⟩ := bind_eq_ok.mp h
  obtain ⟨-, -, h⟩ := bind_eq_ok.mp h
  obtain ⟨sha', -, h⟩ := bind_eq_ok.mp h
  obtain ⟨-, -, h⟩ := bind_eq_ok.mp h
  obtain ⟨-, hp⟩ := Prod.mk.inj (Except.ok.inj h)
  obtain ⟨-, rfl⟩ := Prod.mk.inj hp
  obtain rfl := Except.ok.inj ((deliveryBranchName_eq d.item).symm.trans hname)
  obtain ⟨hnorm, hprotected⟩ := assertNotDefaultBranch_ok hbranch
  obtain ⟨id, hwanted⟩ := wanted_named py d
  have hself : branch = wanted py d (branchOf py d.item) := hnorm.trans (normBranch_named hwanted)
  refine ⟨rfl, ?_, ?_, fun hnone => ?_, fun previous hsome => ?_⟩
  · rw [hself, hwanted, List.append_assoc]
    exact List.isPrefixOf_iff_prefix.mpr (List.prefix_append _ _)
  · rwa [← hself] at hprotected
  · exact ⟨hself.trans (wanted_first hnone _), by rw [hnone]; rfl⟩
  · obtain ⟨hsame, hcommit⟩ := checkPrevious_ok hprevious hsome
    refine ⟨hsame.symm, ?_, assertSameRepository_ok hrepository hsome⟩
    rw [hsome, hsame]
    exact if_neg hcommit

/-- The items of a backlog are given branches of their own. -/
def Apart (py : Library) (b : Backlog) : Prop :=
  ∀ i ∈ b.allItems, ∀ j ∈ b.allItems, i ≠ j → branchOf py i ≠ branchOf py j

/-- Every push of a delivery writes its own branch; and the items of a backlog are given branches of their own exactly
when no two have the same words in their ids and titles. -/
theorem delivers_own_branch (py : Library) : (∀ d, ∀ p ∈ (deliver py d).1, OwnBranch py d p) ∧
    ∀ b : Backlog, Apart py b ↔ ∀ i ∈ b.allItems, ∀ j ∈ b.allItems, i ≠ j → branchWords py i ≠ branchWords py j := by
  refine ⟨fun d p hp => ?_, fun b => ?_⟩
  · cases hprepare : prepare py d with
    | error why =>
      rw [deliver, hprepare] at hp
      cases hp
    | ok prepared =>
      obtain ⟨base, sha, push⟩ := prepared
      have hpush : p = push := by
        rw [deliver, hprepare] at hp
        dsimp only at hp
        split at hp
        · exact List.mem_singleton.mp hp
        · exact List.mem_singleton.mp hp
      exact hpush ▸ prepare_ok hprepare
  · simp only [Apart, ne_eq, branchOf_inj]

def fixTitle (id : String) : ItemFields where
  id := id
  title := "Fix"
  kind := .code
  dependsOn := []
  supersedes := ""
  registered := ""

def dotted : BacklogItem := ⟨fixTitle "A.1", rfl⟩

def hyphened : BacklogItem := ⟨fixTitle "a-1", rfl⟩

lemma pair_checked : Checked [dotted, hyphened] [] := checked_of_checkItems rfl

lemma none_checked : Checked [] ([dotted, hyphened].map (·.id)) := checked_of_checkItems rfl

lemma no_evolutions (h : ([] : List BacklogItem) ≠ []) : "" ≠ "" := absurd rfl h

def pairBacklog : Backlog :=
  ⟨[dotted, hyphened], "", "", "", [], "", "crb.backlog.v1", pair_checked, none_checked, no_evolutions⟩

def pythonLibrary : Library := ⟨lower, id⟩

/-- Two items whose ids differ in case and punctuation only are given one branch. -/
theorem not_apart_pair : Backlog.make [dotted, hyphened] "" "" "" [] "" "crb.backlog.v1" = .ok pairBacklog ∧
    branchOf pythonLibrary dotted = "crb/a-1-fix".toList ∧ branchOf pythonLibrary hyphened = "crb/a-1-fix".toList ∧
    ¬ Apart pythonLibrary pairBacklog := by
  have hdotted : branchOf pythonLibrary dotted = "crb/a-1-fix".toList := rfl
  have hhyphened : branchOf pythonLibrary hyphened = "crb/a-1-fix".toList := rfl
  refine ⟨rfl, hdotted, hhyphened, fun h => ?_⟩
  have hne : dotted ≠ hyphened := fun he => absurd (congrArg (fun i => i.id) he) (by decide)
  exact h dotted (by decide) hyphened (by decide) hne (hdotted.trans hhyphened.symm)

end Result

end CommitReplay.DeliveryBranches
