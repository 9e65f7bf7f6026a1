import CommitReplay.PathTrees
import CommitReplay.PythonText
import Mathlib.Data.List.SplitOn

/-! The worktree a builder leaves beside the parent commit's tree, as `touched_files` reads them: from
the file system and the parent's objects, with `git check-ignore` asked which rule names a path. What
git matches a pattern with, and what it hashes a blob with, are parameters. -/
namespace CommitReplay.WorktreeFiles

open CommitReplay.PathTrees CommitReplay.PythonText

/-- What stands at a path of the worktree. -/
inductive Entry
  | file (bytes : Bytes) (exec : Bool)
  | link (target : Bytes)
  | dir
deriving DecidableEq, Repr

def Entry.isDir : Entry → Bool
  | .dir => true
  | _ => false

abbrev Worktree := Tree Entry.isDir

inductive Mode
  | file
  | executable
  | symlink
  | gitlink
deriving DecidableEq, Repr

/-- `_FILE_MODES`. -/
def Mode.isFile (m : Mode) : Bool := m = .file ∨ m = .executable

/-- An object of the parent's tree: a blob, a link or a submodule's commit. -/
inductive Object
  | blob (bytes : Bytes) (exec : Bool)
  | link (target : Bytes)
  | commit (oid : Text)
deriving DecidableEq, Repr

/-- A commit's tree. Nothing stands below an object, and no path of it names `.git`. -/
structure CommitTree where
  objects : List (Path × Object)
  nodup : (objects.map Prod.fst).Nodup
  rooted : ∀ x ∈ objects, x.1 ≠ []
  plain : ∀ x ∈ objects, ".git" ∉ x.1
  leaves : ∀ x ∈ objects, ∀ y ∈ objects, x.1 ∉ above y.1

def CommitTree.get? (t : CommitTree) (p : Path) : Option Object :=
  (t.objects.find? (·.1 = p)).map Prod.snd

inductive Algorithm
  | sha1
  | sha256
deriving DecidableEq, Repr

/-- What git does: the id of a blob, the patterns of an ignore file's text in their order, and
whether a pattern, its `!` apart, fits a path below the file that holds it. -/
structure Git where
  algorithm : Algorithm
  blobOid : Algorithm → Bytes → Text
  patternsOf : Text → List Text
  fits : Text → Path → Bool → Bool

/-- What the harness recorded of a file it wrote. -/
inductive Recorded
  | symlink
  | hash (sha256 : Text)
deriving DecidableEq, Repr

/-- `Workspace`: the worktree and the parent's tree, the ignore files outside the tree, by the names
that `check-ignore` gives them, and the files the harness wrote. `follow` is what is read through a
link. -/
structure Workspace where
  git : Git
  parent : CommitTree
  tree : Worktree
  excludesFile : Option (Text × Text)
  infoExclude : Option (Text × Text)
  harnessFiles : List (Path × Recorded)
  sha256 : Bytes → Text
  follow : Path → Option Bytes
  isSealedNodeSet : Path → Bool

/-- `"/".join` of a path's names. -/
def relOf (p : Path) : Text := List.intercalate ['/'] (p.map String.toList)

/-- The path that a text names. -/
def pathOf (s : Text) : Path := (s.splitOn '/').map String.ofList

/-- `\r\n` and `\r` read as `\n`. -/
def newlines : Text → Text
  | [] => []
  | '\r' :: '\n' :: cs => '\n' :: newlines cs
  | c :: cs => (if c = '\r' then '\n' else c) :: newlines cs

section CheckIgnore

/-- An ignore file: how it is named, the directory its patterns are of, and the patterns. -/
structure IgnoreFile where
  source : Text
  base : Path
  patterns : List Text

def negated (pattern : Text) : Bool := startsWith pattern ['!']

/-- The rule of a match: its file and its pattern. -/
abbrev Rule := Text × Text

variable (g : Git)

/-- The pattern without its `!`. -/
def body (pattern : Text) : Text := if negated pattern then pattern.drop 1 else pattern

/-- Of the files in the order of their precedence, the last rule that matches a path. -/
def lastMatch (files : List IgnoreFile) (p : Path) (isDir : Bool) : Option Rule :=
  files.reverse.findSome? fun f =>
    (f.patterns.reverse.find? fun pat => g.fits (body pat) (p.drop f.base.length) isDir).map
      (f.source, ·)

/-- The `.gitignore` files above a path, the outermost first. -/
def gitignores (read : Path → Option Text) (p : Path) : List IgnoreFile :=
  p.dropLast.inits.filterMap fun d =>
    (read (d ++ [".gitignore"])).map fun text =>
      ⟨relOf (d ++ [".gitignore"]), d, g.patternsOf text⟩

/-- The rule that names a path: that of the outermost ignored directory above it, else its own. -/
def attribution (files : Path → List IgnoreFile) (p : Path) (isDir : Bool) : Option Rule :=
  ((above p).findSome? fun d => (lastMatch g (files d) d true).filter fun r => !negated r.2) <|>
    lastMatch g (files p) p isDir

/-- A path whose rule does not re-include it is ignored. -/
def ignored (files : Path → List IgnoreFile) (p : Path) (isDir : Bool) : Bool :=
  (attribution g files p isDir).any fun r => !negated r.2

end CheckIgnore

namespace Workspace

variable (ws : Workspace)

/-- The text of an ignore file as it is in the worktree; one that is a link is not read. -/
def worktreeText (p : Path) : Option Text :=
  match ws.tree.get? p with
  | some (.file bytes _) => some (utf8Replace bytes)
  | _ => none

/-- The ignore files in force in the worktree. -/
def ignoreFiles (p : Path) : List IgnoreFile :=
  (ws.excludesFile.map fun f => ⟨f.1, [], ws.git.patternsOf f.2⟩).toList ++
    (ws.infoExclude.map fun f => ⟨f.1, [], ws.git.patternsOf f.2⟩).toList ++
      gitignores ws.git ws.worktreeText p

def isDir (p : Path) : Bool := (ws.tree.get? p).any Entry.isDir

/-- `_check_ignore`, of one path. -/
def checkIgnore (p : Path) : Option Rule := attribution ws.git ws.ignoreFiles p (ws.isDir p)

/-- `TreeEntry`. -/
structure TreeEntry where
  mode : Mode
  oid : Text
  size : Option ℕ

def treeEntry : Object → TreeEntry
  | .blob bytes exec =>
    ⟨if exec then .executable else .file, ws.git.blobOid ws.git.algorithm bytes, some bytes.length⟩
  | .link target => ⟨.symlink, ws.git.blobOid ws.git.algorithm target, some target.length⟩
  | .commit oid => ⟨.gitlink, oid, none⟩

/-- `parent_tree`. -/
def tracked (p : Path) : Option TreeEntry := (ws.parent.get? p).map ws.treeEntry

/-- `parent_text`. -/
def parentText (p : Path) : Option Text :=
  match ws.parent.get? p with
  | some (.blob bytes _) => some (newlines (utf8Replace bytes))
  | some (.link target) => some (newlines (utf8Replace target))
  | _ => none

/-- `_OID_ALGORITHMS`, of the first entry's id. -/
def algorithm : Algorithm :=
  match ws.parent.objects.head? with
  | some x => if (ws.treeEntry x.2).oid.length = 64 then .sha256 else .sha1
  | none => .sha1

/-- The directories that the parent tracks something under. -/
def isTrackedDir (d : Path) : Bool := ws.parent.objects.any fun x => d ∈ above x.1

/-- `_entry_unchanged`. -/
def entryUnchanged (entry : TreeEntry) : Entry → Bool
  | .link target => entry.mode = .symlink ∧ ws.git.blobOid ws.algorithm target = entry.oid
  | .file bytes _ => entry.mode.isFile ∧ (∀ n ∈ entry.size, bytes.length = n) ∧
      ws.git.blobOid ws.algorithm bytes = entry.oid
  | .dir => false

/-- The leading `./` of a source. -/
def dropDots : Text → Text
  | '.' :: '/' :: cs => dropDots cs
  | cs => cs

/-- `_is_parent_gitignore`. -/
def isParentGitignore (source : Text) : Bool :=
  let s := dropDots (source.map fun c => if c = '\\' then '/' else c)
  if startsWith s "/".toList ∨ startsWith s "../".toList ∨ contains s "/../".toList ∨
      contains s ".git/".toList then false
  else if (pathOf s).getLast? ≠ some ".gitignore" then false
  else (ws.tracked (pathOf s)).any fun entry => entry.mode.isFile

/-- A rule that the parent's own ignore file holds, line for line. -/
def isParentRule (rule : Rule) : Bool :=
  ws.isParentGitignore rule.1 &&
    match ws.parentText (pathOf rule.1) with
    | none => false
    | some before => decide (strip rule.2 ∈ (splitlines before).map strip)

/-- `_not_ignored_by_parent`, of one path. -/
def notIgnoredByParent (p : Path) : Bool :=
  match ws.checkIgnore p with
  | none => true
  | some rule => !ws.isParentRule rule

/-- What the walk notes of a path. -/
inductive Mark
  | touched
  | seen
  | candidate
  | subdir
deriving DecidableEq, Repr

/-- One entry of a directory that the walk reads. -/
def visit (x : Path × Entry) : List (Mark × Path) :=
  if x.1.getLast? = some ".git" then [] else
    match x.2, ws.tracked x.1 with
    | .dir, none => [(.subdir, x.1)]
    | .dir, some entry =>
      if entry.mode = .gitlink then [(.seen, x.1)]
      else [(.touched, x.1), (.seen, x.1), (.subdir, x.1)]
    | _, none => [(.candidate, x.1)]
    | e, some entry =>
      (.seen, x.1) :: if ws.entryUnchanged entry e then [] else [(.touched, x.1)]

/-- The paths with a mark. -/
def marked (m : Mark) (marks : List (Mark × Path)) : List Path :=
  (marks.filter (·.1 = m)).map Prod.snd

/-- `_next_level`. -/
def nextLevel (dirs : List Path) : List Path :=
  dirs.filter fun d => ws.isTrackedDir d || ws.notIgnoredByParent d

def scan (d : Path) : List (Mark × Path) := (ws.tree.children d).flatMap ws.visit

/-- The walk, one level of directories after another. -/
def walk : ℕ → List Path → List (Mark × Path)
  | 0, _ => []
  | n + 1, level =>
    let marks := level.flatMap ws.scan
    marks ++ walk n (ws.nextLevel (marked .subdir marks))

/-- `file_hash`. -/
def fileHash (p : Path) : Option Text :=
  match ws.tree.get? p with
  | some (.file bytes _) => some (ws.sha256 bytes)
  | some (.link _) => (ws.follow p).map ws.sha256
  | _ => none

def isLink (p : Path) : Bool :=
  match ws.tree.get? p with
  | some (.link _) => true
  | _ => false

/-- `harness_unchanged`. -/
def harnessUnchanged (p : Path) : Bool :=
  match ws.harnessFiles.find? (·.1 = p) with
  | none => p = ["node_modules"] ∧ ws.isLink p ∧ ws.isSealedNodeSet p
  | some (_, .symlink) => ws.isLink p
  | some (_, .hash recorded) => ws.fileHash p = some recorded

/-- The touched paths: what the walk marked, what it did not see, and what no rule hides. -/
def touchedSet : List Path :=
  let marks := ws.walk (ws.tree.height + 1) [[]]
  let deleted := (ws.parent.objects.map Prod.fst).filter (· ∉ marked .seen marks)
  marked .touched marks ++ deleted ++ (marked .candidate marks).filter ws.notIgnoredByParent

/-- `touched_files`. -/
def touchedFiles : List Path :=
  (ws.touchedSet.dedup.filter fun p => !ws.harnessUnchanged p).mergeSort fun p q =>
    decide (String.ofList (relOf p) ≤ String.ofList (relOf q))

end Workspace

end CommitReplay.WorktreeFiles
