import CommitReplay.TouchedFiles

/-! Which changes of a builder no belt sees. A change of what the parent has is always touched; a new
path that the parent's rules show is, unless a line of the parent's own ignore files is what the rules
in force name it by. -/
namespace CommitReplay.HiddenFiles

open CommitReplay.PathTrees CommitReplay.PythonText CommitReplay.WorktreeFiles
open CommitReplay.WorktreeFiles.Workspace CommitReplay.TouchedFiles

/-- What an entry holds, as an object of a commit holds it. -/
def SameEntry : Object → Option Entry → Prop
  | .blob bytes _, some (.file bytes' _) => bytes' = bytes
  | .link target, some (.link target') => target' = target
  | .commit _, some .dir => True
  | _, _ => False

/-- The ids of one algorithm are of one length, and no two contents compared share an id. -/
structure Ids (ws : Workspace) : Prop where
  length : ∀ a b, (ws.git.blobOid a b).length = if a = .sha256 then 64 else 40
  commits : ∀ x ∈ ws.parent.objects, ∀ oid, x.2 = .commit oid →
    oid.length = if ws.git.algorithm = .sha256 then 64 else 40
  distinct : ∀ p, ∀ o ∈ ws.parent.get? p, ∀ e ∈ ws.tree.get? p, ∀ b b',
    (o = .link b ∨ ∃ x, o = .blob b x) → (e = .link b' ∨ ∃ x, e = .file b' x) →
      ws.git.blobOid ws.git.algorithm b' = ws.git.blobOid ws.git.algorithm b → b' = b

/-- The text of an ignore file as the parent has it. -/
def parentIgnoreText (ws : Workspace) (p : Path) : Option Text :=
  match ws.parent.get? p with
  | some (.blob bytes _) => some (utf8Replace bytes)
  | _ => none

/-- The parent's own `.gitignore` files, at their places and in their order, ignore the path. -/
def parentIgnores (ws : Workspace) (p : Path) : Bool :=
  ignored ws.git (gitignores ws.git (parentIgnoreText ws)) p false

/-- A file or a link that is new to the tree, in no submodule and under no `.git`, and not as the
harness wrote it, which the parent's rules show. -/
structure NewPath (ws : Workspace) (p : Path) : Prop where
  new : ws.parent.get? p = none
  there : ∃ e, ws.tree.get? p = some e ∧ e ≠ .dir
  plain : ".git" ∉ p
  outside : ∀ d ∈ above p, ∀ oid, ws.parent.get? d ≠ some (.commit oid)
  harness : ws.harnessUnchanged p = false
  shown : parentIgnores ws p = false

/-- Every change is among the touched files. -/
def NothingHidden (ws : Workspace) : Prop :=
  (∀ p o, ws.parent.get? p = some o → ws.harnessUnchanged p = false →
    ¬ SameEntry o (ws.tree.get? p) → p ∈ ws.touchedFiles) ∧
  ∀ p, NewPath ws p → p ∈ ws.touchedFiles

variable {ws : Workspace} {p : Path}

/-- The algorithm read off the first entry is the repository's. -/
lemma Ids.algorithm_eq (h : Ids ws) {o : Object} (ho : ws.parent.get? p = some o) :
    ws.algorithm = ws.git.algorithm := by
  have hmem := get?_eq_some.mp ho
  obtain ⟨x, xs, hxs⟩ := List.exists_cons_of_ne_nil (List.ne_nil_of_mem hmem)
  have hlen : (ws.treeEntry x.2).oid.length = if ws.git.algorithm = .sha256 then 64 else 40 := by
    cases hx : x.2 with
    | blob bytes exec => exact h.length _ _
    | link target => exact h.length _ _
    | commit oid => exact h.commits x (hxs ▸ List.mem_cons_self) oid hx
  rw [Workspace.algorithm, hxs]
  change (if (ws.treeEntry x.2).oid.length = 64 then Algorithm.sha256 else .sha1) = _
  rw [hlen]
  cases ws.git.algorithm <;> rfl

/-- A path whose entry is not the parent's has changed. -/
lemma changed_of_not_same (h : Ids ws) {o : Object} (ho : ws.parent.get? p = some o)
    (hsame : ¬ SameEntry o (ws.tree.get? p)) :
    changed ws (ws.treeEntry o) (ws.tree.get? p) = true := by
  have halg := h.algorithm_eq ho
  cases he : ws.tree.get? p with
  | none => rfl
  | some e =>
    rw [he] at hsame
    have hdistinct := h.distinct p o ho e he
    cases e with
    | dir =>
      cases o with
      | blob bytes exec => cases exec <;> rfl
      | link target => rfl
      | commit oid => exact absurd trivial hsame
    | file bytes exec =>
      cases o with
      | blob bytes' exec' =>
        have hne : ws.git.blobOid ws.git.algorithm bytes ≠ ws.git.blobOid ws.git.algorithm bytes' :=
          fun hid => hsame (hdistinct bytes' bytes (.inr ⟨exec', rfl⟩) (.inr ⟨exec, rfl⟩) hid)
        simp [changed, entryUnchanged, treeEntry, halg, hne]
      | link target => simp [changed, entryUnchanged, treeEntry, Mode.isFile]
      | commit oid => simp [changed, entryUnchanged, treeEntry, Mode.isFile]
    | link target =>
      cases o with
      | blob bytes exec => cases exec <;> simp [changed, entryUnchanged, treeEntry]
      | link target' =>
        have hne : ws.git.blobOid ws.git.algorithm target ≠
            ws.git.blobOid ws.git.algorithm target' :=
          fun hid => hsame (hdistinct target' target (.inl rfl) (.inl rfl) hid)
        simp [changed, entryUnchanged, treeEntry, halg, hne]
      | commit oid => simp [changed, entryUnchanged, treeEntry]

/-- A new path that the parent's rules show is touched where no line of the parent's ignore files
names it, or a directory above it that the parent tracks nothing under. -/
lemma mem_touchedFiles_of_new (h : NewPath ws p) : p ∈ ws.touchedFiles ↔
    ws.notIgnoredByParent p = true ∧
      ∀ d ∈ above p, ws.isTrackedDir d = true ∨ ws.notIgnoredByParent d = true := by
  rw [mem_touchedFiles_of_untracked h.new, and_iff_right h.harness]
  obtain ⟨e, he, hdir⟩ := h.there
  constructor
  · rintro ⟨-, -, -, -, hwalked, hshown⟩
    exact ⟨hshown, fun d hd => (hwalked d hd).2.2⟩
  · rintro ⟨hshown, hgo⟩
    refine ⟨e, he, hdir, fun hgit => h.plain (List.mem_of_getLast? hgit), fun d hd => ?_, hshown⟩
    have hpre := (mem_above.mp hd).2.1
    refine ⟨fun hgit => h.plain (hpre.subset (List.mem_of_getLast? hgit)), fun entry hentry => ?_,
      hgo d hd⟩
    obtain ⟨o, ho, rfl⟩ := Option.map_eq_some_iff.mp hentry
    cases o with
    | blob bytes exec => cases exec <;> simp [treeEntry]
    | link target => simp [treeEntry]
    | commit oid => exact absurd ho (h.outside d hd oid)

section Reincluded

/-- Patterns one a line, a comment and an empty line apart; a pattern of one name, its leading `*`
standing for any characters. -/
def nameGit (ids : List (Bytes × Text × Text)) : Git where
  algorithm := .sha1
  blobOid a b :=
    match ids.find? (·.1 = b), a with
    | some id, .sha1 => id.2.1
    | some id, .sha256 => id.2.2
    | none, .sha1 => List.replicate 40 '0'
    | none, .sha256 => List.replicate 64 '0'
  patternsOf text := (text.splitOn '\n').filter fun l => l ≠ [] ∧ startsWith l ['#'] = false
  fits pat p _ :=
    match pat with
    | '*' :: rest => rest.isSuffixOf ((p.getLast?.map String.toList).getD [])
    | _ => p.getLast? = some (String.ofList pat)

/-- `*.log` is ignored, and `keep.log` is not. -/
def reincluding : Bytes := utf8Encode "*.log\n!keep.log\n".toList

def reincludingObjects : List (Path × Object) := [([".gitignore"], .blob reincluding false)]

def reincludingEntries : List (Path × Entry) :=
  [([".gitignore"], .file reincluding false), (["keep.log"], .file [] false)]

lemma reincludingObjects_nodup : (reincludingObjects.map Prod.fst).Nodup := by decide
lemma reincludingObjects_rooted : ∀ x ∈ reincludingObjects, x.1 ≠ [] := by
  simp [reincludingObjects]
lemma reincludingObjects_plain : ∀ x ∈ reincludingObjects, ".git" ∉ x.1 := by
  simp [reincludingObjects]
lemma reincludingObjects_leaves :
    ∀ x ∈ reincludingObjects, ∀ y ∈ reincludingObjects, x.1 ∉ above y.1 := by
  simp [reincludingObjects, above]

lemma reincludingEntries_nodup : (reincludingEntries.map Prod.fst).Nodup := by decide
lemma reincludingEntries_rooted : ∀ x ∈ reincludingEntries, x.1 ≠ [] := by
  simp [reincludingEntries]
lemma reincludingEntries_closed : ∀ x ∈ reincludingEntries, ∀ d ∈ above x.1,
    ∃ e, (d, e) ∈ reincludingEntries ∧ e.isDir = true := by
  simp [reincludingEntries, above]

/-- The parent's rules show `keep.log`, and the builder adds it. -/
def keepAdded : Workspace where
  git := nameGit [(reincluding, "574e17bdc2d6c1f5cc0dad483786f13e6b9a3e5d".toList,
    "3f43869880ae888a3e972e48a251f595dd7a662addb5def93c8434c657fd58cd".toList)]
  parent := ⟨reincludingObjects, reincludingObjects_nodup, reincludingObjects_rooted,
    reincludingObjects_plain, reincludingObjects_leaves⟩
  tree := ⟨reincludingEntries, reincludingEntries_nodup, reincludingEntries_rooted,
    reincludingEntries_closed⟩
  excludesFile := none
  infoExclude := none
  harnessFiles := []
  sha256 := fun _ => []
  follow := fun _ => none
  isSealedNodeSet := fun _ => false

lemma keepAdded_ids : Ids keepAdded where
  length a b := by
    simp only [keepAdded, nameGit, List.find?_singleton]
    by_cases h : reincluding = b <;> cases a <;> simp [h]
  commits x hx oid ho := by
    obtain rfl : x = ([".gitignore"], .blob reincluding false) := List.mem_singleton.mp hx
    cases ho
  distinct p o ho e he b b' hb hb' _ := by
    obtain ⟨-, rfl⟩ := Prod.mk.inj (List.mem_singleton.mp (get?_eq_some.mp ho))
    have hmem := Tree.get?_eq_some.mp he
    obtain ⟨rfl, -⟩ := Prod.mk.inj (List.mem_singleton.mp (get?_eq_some.mp ho))
    simp_all [keepAdded, reincludingEntries]

lemma keepAdded_new : NewPath keepAdded ["keep.log"] where
  new := by decide
  there := ⟨.file [] false, by decide, by decide⟩
  plain := by decide
  outside := by simp [above]
  harness := by decide
  shown := by decide +kernel

end Reincluded

end CommitReplay.HiddenFiles
