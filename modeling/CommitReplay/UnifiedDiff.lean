import CommitReplay.LineRegex

/-! A unified diff as git prints it, and the two readers of it: the lines each file gains and loses, read by
the counts of the hunk headers, and the line numbers the hunk headers name. -/
namespace CommitReplay.UnifiedDiff

open CommitReplay.PythonText CommitReplay.PriorityRegex CommitReplay.LineRegex

section Headers

/-- `\d` -/
def isDecimal (c : Char) : Bool := (decimalDigit c).isSome

/-- `\d+`, in the group when it has one. -/
def number : Option ℕ → Rx
  | none => .many 1 none isDecimal
  | some i => .group i (.many 1 none isDecimal)

/-- `(?:,\d+)?` -/
def count (i : Option ℕ) : Rx := .opt (.seq (.lit id [',']) (number i))

/-- `\d+(?:,\d+)?` -/
def span (start length : Option ℕ) : Rx := .seq (number start) (count length)

def hunkRx (oldCount newStart newCount : Option ℕ) : Rx :=
  .seq (.lit id "@@ -".toList) (.seq (span none oldCount)
    (.seq (.lit id " +".toList) (.seq (span newStart newCount) (.lit id " @@".toList))))

/-- `^@@ -\d+(?:,(\d+))? \+\d+(?:,(\d+))? @@` -/
def hunkHeader : Rx := hunkRx (some 1) none (some 2)

/-- `^@@ -\d+(?:,\d+)? \+(\d+)(?:,(\d+))? @@` -/
def hunkRe : Rx := hunkRx none (some 1) (some 2)

/-- `int(m.group(i)) if m.group(i) is not None else 1`. No number is too long for `int`. -/
def countOf (g : Groups) (i : ℕ) : ℕ := ((g.lookup i).map decimalValue).getD 1

end Headers

section Counts

/-- `a/x` and `b/x` are `x`, and `/dev/null` is no path. -/
def diffPath (name : Text) : Text :=
  let name := splitHead '\t' name
  if name = "/dev/null".toList then []
  else if name.take 2 = "a/".toList ∨ name.take 2 = "b/".toList then name.drop 2 else name

/-- A file's path with its added and deleted lines. -/
abbrev Entry := Text × ℕ × ℕ

/-- Where the reader stands: the files behind it, the file it reads, and what is left of the hunk. -/
structure Reader where
  out : List Entry
  path : Option Text
  adds : ℕ
  dels : ℕ
  oldLeft : ℤ
  newLeft : ℤ

def Reader.start : Reader := ⟨[], none, 0, 0, 0, 0⟩

/-- The files behind the reader, with the one it reads. -/
def Reader.flush (s : Reader) : List Entry := s.out ++ s.path.toList.map fun p => (p, s.adds, s.dels)

/-- A line inside a hunk. -/
def Reader.content (s : Reader) (line : Text) : Reader :=
  if line.head? = some '\\' then s
  else if line.head? = some '+' then { s with adds := s.adds + 1, newLeft := s.newLeft - 1 }
  else if line.head? = some '-' then { s with dels := s.dels + 1, oldLeft := s.oldLeft - 1 }
  else { s with oldLeft := s.oldLeft - 1, newLeft := s.newLeft - 1 }

/-- A line outside the hunks. -/
def Reader.heading (s : Reader) (line : Text) : Reader :=
  if startsWith line "diff --git ".toList then
    { s with out := s.flush, path := some [], adds := 0, dels := 0 }
  else if startsWith line "--- ".toList ∧ s.path = some [] then
    { s with path := some (diffPath (line.drop 4)) }
  else if startsWith line "+++ ".toList then
    let path := diffPath (line.drop 4)
    { s with path := some (if path ≠ [] then path else s.path.getD []) }
  else
    (readLine (run hunkHeader) line).elim s fun m =>
      { s with oldLeft := countOf m 1, newLeft := countOf m 2 }

def Reader.step (s : Reader) (line : Text) : Reader :=
  if 0 < s.oldLeft ∨ 0 < s.newLeft then s.content line else s.heading line

def diffFileCounts (text : Text) : List Entry :=
  ((splitlines text).foldl Reader.step Reader.start).flush

end Counts

section Lines

/-- The new-side lines a hunk header names, and none of another line. -/
def named (raw : Text) : Finset ℕ :=
  (readLine (run hunkRe) raw).elim ∅ fun m =>
    let start := decimalValue (groupText m 1)
    let count := countOf m 2
    if count = 0 then {max start 1} else Finset.Ico start (start + count)

def changedLinesFromDiff (diffText : Text) : Finset ℕ :=
  (splitlines diffText).foldl (fun lines raw => lines ∪ named raw) ∅

end Lines

section Format

/-- A line of a file, which may hold any character but the one that ends it. -/
abbrev Line := {l : Text // '\n' ∉ l}

inductive Side
  | kept
  | deleted
  | added
deriving DecidableEq, Repr

def Side.tag : Side → Char
  | .kept => ' '
  | .deleted => '-'
  | .added => '+'

structure BodyLine where
  side : Side
  text : Line
  /-- The line is not the last of its file, or the file ends with a line break. -/
  ended : Bool

def BodyLine.render (l : BodyLine) : List Text :=
  (l.side.tag :: l.text.1) :: if l.ended then [] else ["\\ No newline at end of file".toList]

/-- The lines of the old side. -/
def oldCount (ls : List BodyLine) : ℕ := ls.countP (·.side ≠ .added)

/-- The lines of the new side. -/
def newCount (ls : List BodyLine) : ℕ := ls.countP (·.side ≠ .deleted)

structure Hunk where
  /-- The lines between the hunk before and this one. -/
  gap : ℕ
  /-- What stands behind the second `@@`: the line git takes for the head of the section. -/
  section_ : Line
  lines : List BodyLine
  lines_ne_nil : lines ≠ []

/-- A count that is one is not written. -/
def countText (count : ℕ) : Text := if count = 1 then [] else ',' :: Nat.toDigits 10 count

/-- The first line of a side of a hunk, and the line before it when it has none. -/
def startOf (before count : ℕ) : ℕ := if count = 0 then before else before + 1

def spanText (before count : ℕ) : Text := Nat.toDigits 10 (startOf before count) ++ countText count

/-- The counts of a hunk with so many lines of each side before it. -/
def Hunk.spans (h : Hunk) (old new : ℕ) : Text :=
  "@@ -".toList ++ (spanText old (oldCount h.lines) ++
    (" +".toList ++ (spanText new (newCount h.lines) ++ " @@".toList)))

def Hunk.header (h : Hunk) (old new : ℕ) : Text := h.spans old new ++ h.section_.1

def renderHunks : ℕ → ℕ → List Hunk → List Text
  | _, _, [] => []
  | old, new, h :: hs => h.header (old + h.gap) (new + h.gap) :: h.lines.flatMap BodyLine.render ++
      renderHunks (old + h.gap + oldCount h.lines) (new + h.gap + newCount h.lines) hs

/-- A path git does not quote. -/
def Unquoted (p : Text) : Prop := p ≠ [] ∧ ∀ c ∈ p, 32 ≤ c.toNat ∧ c.toNat < 127 ∧ c ≠ '"' ∧ c ≠ '\\'

instance decidableUnquoted (p : Text) : Decidable (Unquoted p) := inferInstanceAs (Decidable (_ ∧ _))

abbrev FilePath := {p : Text // Unquoted p}

/-- The path of a side in a `---` or `+++` line: a tab ends a path that holds a blank. -/
def sidePath (side : Char) (p : FilePath) : Text :=
  side :: '/' :: p.1 ++ if ' ' ∈ p.1 then ['\t'] else []

inductive Names
  | created (path : FilePath)
  | removed (path : FilePath)
  | changed (old new : FilePath)

/-- The path of the file, the old one when it is deleted. -/
def Names.path : Names → FilePath
  | .created path => path
  | .removed path => path
  | .changed _ new => new

def Names.gitLine : Names → Text
  | .created p | .removed p => "diff --git a/".toList ++ (p.1 ++ (" b/".toList ++ p.1))
  | .changed old new => "diff --git a/".toList ++ (old.1 ++ (" b/".toList ++ new.1))

def Names.oldName : Names → Text
  | .created _ => "/dev/null".toList
  | .removed p => sidePath 'a' p
  | .changed old _ => sidePath 'a' old

def Names.newName : Names → Text
  | .created p => sidePath 'b' p
  | .removed _ => "/dev/null".toList
  | .changed _ new => sidePath 'b' new

/-- The extended header lines. -/
inductive Label
  | oldMode
  | newMode
  | deletedFileMode
  | newFileMode
  | copyFrom
  | copyTo
  | renameFrom
  | renameTo
  | similarityIndex
  | dissimilarityIndex
  | index

def Label.text : Label → Text
  | .oldMode => "old mode ".toList
  | .newMode => "new mode ".toList
  | .deletedFileMode => "deleted file mode ".toList
  | .newFileMode => "new file mode ".toList
  | .copyFrom => "copy from ".toList
  | .copyTo => "copy to ".toList
  | .renameFrom => "rename from ".toList
  | .renameTo => "rename to ".toList
  | .similarityIndex => "similarity index ".toList
  | .dissimilarityIndex => "dissimilarity index ".toList
  | .index => "index ".toList

structure FileChange where
  names : Names
  /-- Each extended header line with its value: a path, a mode, a percentage or two object names. -/
  extended : List (Label × FilePath)
  hunks : List Hunk

def FileChange.render (c : FileChange) : List Text :=
  c.names.gitLine :: c.extended.map (fun x => x.1.text ++ x.2.1) ++
    if c.hunks = [] then [] else ("--- ".toList ++ c.names.oldName) ::
      ("+++ ".toList ++ c.names.newName) :: renderHunks 0 0 c.hunks

def unlines (ls : List Text) : Text := ls.flatMap (· ++ ['\n'])

/-- The diff of a list of file changes. -/
def gitDiff (cs : List FileChange) : Text := unlines (cs.flatMap FileChange.render)

end Format

section Meaning

def addedCount (ls : List BodyLine) : ℕ := ls.countP (·.side = .added)

def deletedCount (ls : List BodyLine) : ℕ := ls.countP (·.side = .deleted)

/-- The file with the numbers of lines it gains and loses. -/
def FileChange.entry (c : FileChange) : Entry :=
  (c.names.path.1, (c.hunks.map fun h => addedCount h.lines).sum, (c.hunks.map fun h => deletedCount h.lines).sum)

/-- The new-side numbers of the added lines, with so many lines before them. -/
def addedNumbers : ℕ → List BodyLine → Finset ℕ
  | _, [] => ∅
  | n, l :: ls =>
    match l.side with
    | .added => insert (n + 1) (addedNumbers (n + 1) ls)
    | .kept => addedNumbers (n + 1) ls
    | .deleted => addedNumbers n ls

/-- The numbers of a hunk's added lines. A pure deletion has its anchor: the line before it, or the first. -/
def Hunk.changed (h : Hunk) (n : ℕ) : Finset ℕ :=
  if addedCount h.lines = 0 then {max n 1} else addedNumbers n h.lines

def changedFrom : ℕ → List Hunk → Finset ℕ
  | _, [] => ∅
  | n, h :: hs => h.changed (n + h.gap) ∪ changedFrom (n + h.gap + newCount h.lines) hs

def FileChange.changed (c : FileChange) : Finset ℕ := changedFrom 0 c.hunks

/-- No hunk shows a line that is kept. -/
def FileChange.ZeroContext (c : FileChange) : Prop := ∀ h ∈ c.hunks, ∀ l ∈ h.lines, l.side ≠ .kept

/-- The texts of the file's lines that stand in a hunk, and the text behind its header. -/
def Hunk.contents (h : Hunk) : List Text := h.section_.1 :: h.lines.map (·.text.1)

def FileChange.contents (c : FileChange) : List Text := c.hunks.flatMap Hunk.contents

end Meaning

end CommitReplay.UnifiedDiff
