import CommitReplay.EditBlocks
import CommitReplay.PointerChains
import CommitReplay.PythonRepr

/-! One attempt of the edit-block builder: the blocks are staged by the text of their path, and written to the paths
these are normalised to. No edit is lost where the blocks for one file spell its path alike. -/
namespace CommitReplay.StagedEdits

open CommitReplay.PythonText CommitReplay.BriefGuard CommitReplay.EditBlocks CommitReplay.PointerChains

section Paths

/-- The parts of a path that `posixpath.normpath` keeps, the last first. -/
def normParts (rooted : Bool) : List Text → List Text → List Text
  | kept, [] => kept
  | kept, part :: parts =>
    if part = [] ∨ part = ['.'] then normParts rooted kept parts
    else if part ≠ ['.', '.'] ∨ (rooted = false ∧ kept = []) ∨ kept.head? = some ['.', '.'] then
      normParts rooted (part :: kept) parts
    else normParts rooted kept.tail parts

/-- `posixpath.normpath`. -/
def normpath (path : Text) : Text :=
  let slashes := path.takeWhile (· = '/')
  let start := if slashes.length = 2 then slashes else slashes.take 1
  let norm := start ++ ['/'].intercalate (normParts (start ≠ []) [] (path.splitOn '/')).reverse
  if norm = [] then ['.'] else norm

def slashed (s : Text) : Text := s.map fun c => if c = '\\' then '/' else c

/-- `_norm_rel`. -/
def normRel (rel : Text) : Text :=
  if strip rel = [] then []
  else
    let norm := normpath (strip (slashed rel))
    if norm = ['.'] then [] else norm

end Paths

section Guards

/-- What the guard of a task knows; what a path resolves to is asked of the file system. -/
structure TestFileGuard where
  protectedPaths : List Text
  isTest : Text → Bool
  resolvedRel : Text → Option Text
  isPrintable : Char → Bool

namespace TestFileGuard

variable (g : TestFileGuard)

def quoted (s : Text) : Text := PythonRepr.reprStr g.isPrintable s

def drive (s : Text) : Bool :=
  match s with
  | c :: ':' :: _ => c.isAlpha
  | _ => false

/-- `check_path`: a reason, or nothing. -/
def checkPath (rel : Text) : Text :=
  if strip rel = [] then "empty path".toList
  else
    let raw := slashed rel
    if startsWith raw ['/'] || drive raw then "absolute paths are not allowed: ".toList ++ g.quoted rel
    else
      let parts := (normRel raw).splitOn '/'
      if "..".toList ∈ parts then "path escapes the worktree: ".toList ++ g.quoted rel
      else if ".git".toList ∈ parts then "'.git' is off limits: ".toList ++ g.quoted rel
      else
        match g.resolvedRel (normRel raw) with
        | none => "path resolves outside the worktree: ".toList ++ g.quoted rel
        | some resolved =>
          if ".git".toList ∈ resolved.splitOn '/' then
            "'.git' is off limits: ".toList ++ g.quoted rel ++ " resolves to ".toList ++ g.quoted resolved
          else []

/-- The reason against one of the two paths a write is classified on. -/
def classified (candidate : Text) : Text :=
  if candidate ∈ g.protectedPaths then
    "REFUSED: ".toList ++ candidate ++ " is a target test file and is immutable".toList
  else if g.isTest candidate then
    "REFUSED: ".toList ++ candidate ++ " is a test file — test files may not be edited or added".toList
  else []

/-- `check_write`. -/
def checkWrite (rel : Text) : Text :=
  if g.checkPath rel ≠ [] then g.checkPath rel
  else if g.classified (normRel rel) ≠ [] then g.classified (normRel rel)
  else
    match g.resolvedRel (normRel rel) with
    | none => []
    | some resolved => g.classified (if resolved = [] then normRel rel else resolved)

end TestFileGuard

end Guards

section Staging

/-- The worktree before an attempt, as a path text finds it, and what Python says of a source. -/
structure Site where
  guard : TestFileGuard
  exists_ : Text → Bool
  read : Text → Text
  syntaxError : Text → Text → Option Text
  defaultPath : Text

/-- What came of an attempt: a failure before anything was written, or the writes in their order, and the refusal that
cut them short. -/
inductive Outcome
  | failed (failure : Text)
  | stopped (reason : Text) (writes : List (Text × Text))
  | written (writes : List (Text × Text))
deriving DecidableEq

variable (site : Site)

def pathFor (b : EditBlock) : Text := if b.path ≠ [] then b.path else site.defaultPath

def endsPy (path : Text) : Bool := ".py".toList.isSuffixOf path

/-- `compile_check`. -/
def compileCheck (path src : Text) : Option Text := if endsPy path then site.syntaxError path src else none

/-- The text a path has before the attempt. -/
def textAt (path : Text) : Text := if site.exists_ path then site.read path else []

/-- What a block makes of a text, and how many edits were applied. -/
def edit (there : Bool) (current : Text) (b : EditBlock) : Text × ℕ :=
  if strip b.search = [] ∧ there = false then (b.replace, 1) else applyEditBlocks current [(b.search, b.replace)]

def stageBlock (staged : List (Text × Text)) (b : EditBlock) : Except Text (List (Text × Text)) :=
  let p := pathFor site b
  if site.guard.checkWrite p ≠ [] then .error (site.guard.checkWrite p)
  else
    let (newSrc, applied) := edit (site.exists_ p) ((staged.lookup p).getD (textAt site p)) b
    if applied = 0 then
      .error ("Your edit to ".toList ++ p ++ " did not apply — copy the SEARCH lines verbatim from the file.".toList)
    else
      match compileCheck site p newSrc with
      | some err => .error ("Your edit to ".toList ++ p ++ " produced INVALID PYTHON (".toList ++ err ++
          ") — fix the syntax; copy SEARCH lines exactly.".toList)
      | none => .ok (put p newSrc staged)

def stage : List EditBlock → List (Text × Text) → Except Text (List (Text × Text))
  | [], staged => .ok staged
  | b :: bs, staged =>
    match stageBlock site staged b with
    | .error failure => .error failure
    | .ok staged => stage bs staged

/-- The staged files are written where their paths are normalised to. -/
def writeAll : List (Text × Text) → List (Text × Text) → Outcome
  | writes, [] => .written writes
  | writes, (p, newSrc) :: rest =>
    if site.guard.checkWrite p ≠ [] then .stopped (site.guard.checkWrite p) writes
    else writeAll (writes ++ [(normRel p, newSrc)]) rest

/-- The staging and the writes of one attempt. -/
def attempt (blocks : List EditBlock) : Outcome :=
  match stage site blocks [] with
  | .error failure => .failed failure
  | .ok staged => writeAll site [] staged

/-- What a file holds after the writes, where it was written. -/
def fileAfter (writes : List (Text × Text)) (n : Text) : Option Text := writes.reverse.lookup n

end Staging

section Steps

variable {site : Site} {staged staged' : List (Text × Text)} {b : EditBlock} {blocks : List EditBlock}

/-- What blocks make of a text one after the other. -/
def editAll (there : Bool) (current : Text) (blocks : List EditBlock) : Text :=
  blocks.foldl (fun current b => (edit there current b).1) current

lemma stageBlock_ok (h : stageBlock site staged b = .ok staged') :
    site.guard.checkWrite (pathFor site b) = [] ∧ staged' = put (pathFor site b)
      (edit (site.exists_ (pathFor site b)) ((staged.lookup (pathFor site b)).getD (textAt site (pathFor site b))) b).1
      staged := by
  unfold stageBlock at h
  dsimp only at h
  split_ifs at h with hw happlied
  refine ⟨not_not.mp hw, ?_⟩
  split at h
  · cases h
  · exact (Except.ok.inj h).symm

/-- What is staged for a path is what the blocks with this very path make of it. -/
lemma lookup_stage (h : stage site blocks staged = .ok staged') (p : Text) :
    staged'.lookup p =
      if ∃ b ∈ blocks, pathFor site b = p then some (editAll (site.exists_ p) ((staged.lookup p).getD (textAt site p))
        (blocks.filter fun b => pathFor site b = p))
      else staged.lookup p := by
  induction blocks generalizing staged with
  | nil =>
    obtain rfl := Except.ok.inj h
    simp
  | cons b bs ih =>
    rw [stage] at h
    cases hb : stageBlock site staged b with
    | error failure =>
      rw [hb] at h
      cases h
    | ok mid =>
      rw [hb] at h
      obtain ⟨-, rfl⟩ := stageBlock_ok hb
      rw [ih h, lookup_put]
      simp only [List.mem_cons, exists_eq_or_imp]
      by_cases hp : pathFor site b = p
      · subst hp
        have hfilter : (b :: bs).filter (fun c => pathFor site c = pathFor site b) =
            b :: bs.filter fun c => pathFor site c = pathFor site b :=
          List.filter_cons_of_pos (decide_eq_true rfl)
        rw [hfilter]
        simp only [true_or, if_true, Option.getD_some]
        split_ifs with hbs
        · rfl
        · have hnil : bs.filter (fun c => pathFor site c = pathFor site b) = [] :=
            List.filter_eq_nil_iff.mpr fun c hc he => hbs ⟨c, hc, of_decide_eq_true he⟩
          rw [hnil]
          rfl
      · rw [if_neg (Ne.symm hp), List.filter_cons_of_neg (by simpa using hp)]
        simp only [hp, false_or]

lemma keys_stage (h : stage site blocks staged = .ok staged')
    (hkeys : (keys staged).Nodup ∧ ∀ k ∈ keys staged, site.guard.checkWrite k = []) :
    (keys staged').Nodup ∧ ∀ k ∈ keys staged', site.guard.checkWrite k = [] := by
  induction blocks generalizing staged with
  | nil =>
    obtain rfl := Except.ok.inj h
    exact hkeys
  | cons b bs ih =>
    rw [stage] at h
    cases hb : stageBlock site staged b with
    | error failure =>
      rw [hb] at h
      cases h
    | ok mid =>
      rw [hb] at h
      obtain ⟨hw, rfl⟩ := stageBlock_ok hb
      refine ih h ⟨nodup_keys_put hkeys.1, fun k hk => ?_⟩
      obtain rfl | hk := mem_keys_put.mp hk
      · exact hw
      · exact hkeys.2 k hk

lemma writeAll_eq (writes : List (Text × Text)) (h : ∀ k ∈ keys staged, site.guard.checkWrite k = []) :
    writeAll site writes staged = .written (writes ++ staged.map fun p => (normRel p.1, p.2)) := by
  induction staged generalizing writes with
  | nil => simp [writeAll]
  | cons p ps ih =>
    obtain ⟨k, v⟩ := p
    have hk : site.guard.checkWrite k = [] := h k List.mem_cons_self
    rw [writeAll, if_neg (not_not.mpr hk), ih _ fun k hk => h k (List.mem_cons_of_mem _ hk)]
    simp

end Steps

section Result

variable {site : Site} {blocks : List EditBlock}

/-- The result of all the blocks that name a file, on what it holds before the attempt. -/
def fileEdits (site : Site) (blocks : List EditBlock) (n : Text) : Text :=
  editAll (site.exists_ n) (textAt site n) (blocks.filter fun b => normRel (pathFor site b) = n)

/-- No attempt is cut short, and every file that is written holds all its edits. -/
def Complete (site : Site) (blocks : List EditBlock) : Prop :=
  (∀ reason writes, attempt site blocks ≠ .stopped reason writes) ∧
    ∀ writes, attempt site blocks = .written writes →
      ∀ n t, fileAfter writes n = some t → t = fileEdits site blocks n

/-- The blocks for one file spell its path alike, and the path as it is spelled is seen as the file is. -/
structure Alike (site : Site) (blocks : List EditBlock) : Prop where
  spelled : ∀ b ∈ blocks, ∀ c ∈ blocks, normRel (pathFor site b) = normRel (pathFor site c) →
    pathFor site b = pathFor site c
  seen : ∀ b ∈ blocks, site.exists_ (pathFor site b) = site.exists_ (normRel (pathFor site b)) ∧
    textAt site (pathFor site b) = textAt site (normRel (pathFor site b))

def openGuard : TestFileGuard := ⟨[], fun _ => false, some, fun _ => true⟩

def pyFile : Text := "a.py".toList

def dotFile : Text := "./a.py".toList

/-- A worktree of one file of two lines, which is found under each spelling of its path. -/
def oneFile : Site where
  guard := openGuard
  exists_ p := normRel p = pyFile
  read _ := "x\ny".toList
  syntaxError _ _ := none
  defaultPath := pyFile

def firstEdit (path : Text) : EditBlock := ⟨path, ['x'], ['u']⟩

def secondEdit (path : Text) : EditBlock := ⟨path, ['y'], ['v']⟩

lemma alike_twoEdits : Alike oneFile [firstEdit pyFile, secondEdit pyFile] := by
  have hnorm : normRel pyFile = pyFile := by decide
  have hpath : ∀ d ∈ [firstEdit pyFile, secondEdit pyFile], pathFor oneFile d = pyFile := by decide
  refine ⟨fun b hb c hc _ => (hpath b hb).trans (hpath c hc).symm, fun b hb => ?_⟩
  rw [hpath b hb, hnorm]
  exact ⟨rfl, rfl⟩

end Result

end CommitReplay.StagedEdits
