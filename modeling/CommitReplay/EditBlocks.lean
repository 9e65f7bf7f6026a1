import CommitReplay.BriefGuard
import CommitReplay.Redaction

/-! Edit blocks of a reply: the marker lines, the scanner that reads blocks, and how a block is put in place
of the lines it names. -/
namespace CommitReplay.EditBlocks

open CommitReplay.PythonText CommitReplay.BriefGuard CommitReplay.Redaction

variable (isWide : Char → Bool)

section Lines

def newline : Text := ['\n']

def crlf : Text := ['\r', '\n']

def joinLines (ls : List Text) : Text := newline.intercalate ls

/-- `_SEARCH_RE` and `_REPLACE_RE`: five or more of a character, and a word. -/
def isMarker (c : Char) (word l : Text) : Bool :=
  let s := l.dropWhile isSpace
  let width := (s.takeWhile (· = c)).length
  let s := (s.drop width).dropWhile isSpace
  decide (5 ≤ width) && startsWith s word && !((s.drop word.length).head?.any (isWord isWide))

def isSearch (l : Text) : Bool := isMarker isWide '<' "SEARCH".toList l

def isReplace (l : Text) : Bool := isMarker isWide '>' "REPLACE".toList l

/-- `_DIVIDER_RE`. -/
def isDivider (l : Text) : Bool :=
  let s := l.dropWhile isSpace
  let width := (s.takeWhile (· = '=')).length
  decide (5 ≤ width) && (s.drop width).all isSpace

def dropTick (s : Text) : Text := if s.head? = some '`' then s.drop 1 else s

/-- `_FILE_RE`: the path that a line sets. -/
def fileLine (l : Text) : Option Text :=
  let s := l.dropWhile isSpace
  let hashes := (s.takeWhile (· = '#')).length
  let s := if hashes = 0 then s else (s.drop hashes).dropWhile isSpace
  if hashes ≤ 6 ∧ startsWith s "FILE:".toList = true then
    let s := dropTick ((s.drop 5).dropWhile isSpace)
    let path := s.takeWhile fun c => decide (c ≠ '`') && !isSpace c
    if path ≠ [] ∧ (dropTick (s.drop path.length)).all isSpace = true then some (strip path) else none
  else none

end Lines

section Parsing

/-- One edit, and the path it is for. -/
structure EditBlock where
  path : Text
  search : Text
  replace : Text
deriving DecidableEq

lemma length_behind {α : Type} (p : α → Bool) (ls : List α) : ((ls.dropWhile p).drop 1).length ≤ ls.length := by
  rw [List.length_drop]
  exact (Nat.sub_le _ _).trans (List.dropWhile_sublist p).length_le

/-- The lines up to the first with a mark, which are what a block holds. -/
def upTo (stop : Text → Bool) (ls : List Text) : List Text := ls.takeWhile fun l => !stop l

/-- The lines behind the first with a mark. -/
def behind (stop : Text → Bool) (ls : List Text) : List Text := (ls.dropWhile fun l => !stop l).drop 1

lemma length_behind_le (stop : Text → Bool) (ls : List Text) : (behind stop ls).length ≤ ls.length :=
  length_behind _ ls

lemma behind_lt (stop stop' : Text → Bool) (l : Text) (ls : List Text) :
    (behind stop' (behind stop ls)).length < (l :: ls).length :=
  Nat.lt_succ_of_le ((length_behind_le stop' _).trans (length_behind_le stop ls))

/-- The scanner, over the lines of a reply. -/
def parseLines (current : Text) : List Text → List EditBlock
  | [] => []
  | l :: ls =>
    match fileLine l with
    | some path => parseLines path ls
    | none =>
      if isSearch isWide l then
        ⟨current, joinLines (upTo isDivider ls), joinLines (upTo (isReplace isWide) (behind isDivider ls))⟩ ::
          parseLines current (behind (isReplace isWide) (behind isDivider ls))
      else parseLines current ls
termination_by ls => ls.length
decreasing_by
  · exact Nat.lt_succ_self _
  · exact behind_lt _ _ _ _
  · exact Nat.lt_succ_self _

def linesOf (text : Text) : List Text := (replaceAll crlf newline text.length text).splitOn '\n'

/-- `parse_file_edit_blocks`. -/
def parseFileEditBlocks (defaultPath text : Text) : List EditBlock := parseLines isWide defaultPath (linesOf text)

end Parsing

section Applying

def rstrip (s : Text) : Text := s.rdropWhile isSpace

/-- `_find_window`: the first index where the lines searched for stand. -/
def findWindow (key : Text → Text) (lines search : List Text) : Option ℕ :=
  (List.range (lines.length + 1 - search.length)).find? fun i =>
    ((lines.drop i).take search.length).map key = search.map key

/-- `_leading_ws`. -/
def leadingWs (l : Text) : Text := l.take (l.length - (l.dropWhile isSpace).length)

/-- The lines a block searches for, without the blank ones at its end. -/
def searchLines (search : Text) : List Text := (search.splitOn '\n').rdropWhile fun l => strip l = []

/-- The lines put in place, moved by as much as the lines searched for were off. -/
def reindent (want got : Text) (rl : List Text) : List Text :=
  if want ≠ got then rl.map fun ln => if startsWith ln got then want ++ ln.drop got.length else ln else rl

def splice (lines : List Text) (i n : ℕ) (rl : List Text) : List Text := lines.take i ++ rl ++ lines.drop (i + n)

/-- One block, on the lines the blocks before it left; and whether it was applied. -/
def applyBlock (lines : List Text) (block : Text × Text) : List Text × Bool :=
  let sl := searchLines block.1
  if sl = [] then (lines, false)
  else
    let rl := block.2.splitOn '\n'
    match findWindow rstrip lines sl with
    | some i => (splice lines i sl.length rl, true)
    | none =>
      match findWindow strip lines sl with
      | some i => (splice lines i sl.length (reindent (leadingWs (lines.getD i [])) (leadingWs (sl.headD [])) rl), true)
      | none => (lines, false)

def applyBlocks : List Text → List (Text × Text) → List Text × ℕ
  | lines, [] => (lines, 0)
  | lines, block :: blocks =>
    let (lines, applied) := applyBlock lines block
    let (lines, n) := applyBlocks lines blocks
    (lines, if applied then n + 1 else n)

/-- `apply_edit_blocks`. -/
def applyEditBlocks (src : Text) (blocks : List (Text × Text)) : Text × ℕ :=
  let (lines, applied) := applyBlocks (src.splitOn '\n') blocks
  (joinLines lines, applied)

end Applying

end CommitReplay.EditBlocks
