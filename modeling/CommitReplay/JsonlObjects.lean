import CommitReplay.JsonlLedger
import CommitReplay.JsonQuotes

/-! Files of JSON objects, one a line, read by the line boundaries of `str.splitlines`. A wide
separator inside an object cuts its line, and neither side of the cut is a JSON text. -/
namespace CommitReplay.JsonlObjects

open CommitReplay.PythonText CommitReplay.JsonValue CommitReplay.JsonText CommitReplay.JsonRoundTrip
open CommitReplay.JsonlTail CommitReplay.JsonQuotes
open CommitReplay.JsonlLedger (NoWideBreak unbroken_iff)

variable {F : Type} [PyFloat F]

/-- A JSON object in the order its keys are written in. -/
abbrev Object (F : Type) := { ps : List (String × Json F) // Canonical (.obj ps) }

namespace Object

def line (o : Object F) : Text := dumps [' '] (.obj o.1)

/-- A separator that JSON leaves as it is stands in the object's line. -/
def hasSeparator (o : Object F) : Bool := (chars (.obj o.1)).any isWideBreak

variable {o : Object F}

lemma loads_line (o : Object F) {ws : Text} (hws : ∀ c ∈ ws, isJsonSpace c = true) :
    loads (o.line ++ ws) = some (.obj o.1) :=
  loads_dumps (by simp [isJsonSpace]) o.2 hws

lemma loads_line_self (o : Object F) : loads o.line = some (.obj o.1) := by
  have h := o.loads_line (List.forall_mem_nil _)
  rwa [List.append_nil] at h

lemma walk_line (o : Object F) : walk .outside o.line = some .outside :=
  walk_of_loads o.loads_line_self

lemma not_mem_line (o : Object F) {c : Char} (hc : c.toNat < 32) : c ∉ o.line := by
  intro hm
  rcases mem_dumps (by simp) hm with hp | ⟨-, h32⟩
  · exact absurd hp.1 (by omega)
  · omega

lemma unbroken_line : (∀ c ∈ o.line, isLineBreak c = false) ↔ o.hasSeparator = false := by
  rw [line, unbroken_iff, NoWideBreak, hasSeparator, List.any_eq_false]
  simp

lemma head_line (o : Object F) : o.line.head? = some '\x7b' := by
  rw [line, dumps]
  rfl

lemma last_line (o : Object F) : o.line.reverse.head? = some '\x7d' := by
  rw [line, dumps]
  simp

lemma strip_line (o : Object F) : strip o.line ≠ [] :=
  strip_ne_nil (List.mem_of_mem_head? o.head_line) (by decide)

/-- A boundary in a line is a wide one. -/
lemma wide_of_mem {c : Char} (hm : c ∈ o.line) (hc : isLineBreak c = true) :
    isWideBreak c = true :=
  isWideBreak_of_isLineBreak hc (not_lt.mp fun h32 => o.not_mem_line h32 hm)

lemma exists_break (h : o.hasSeparator = true) : ∃ c ∈ o.line, isLineBreak c = true := by
  by_contra hc
  rw [unbroken_line.mp fun c hm => by simpa using fun hb => hc ⟨c, hm, hb⟩] at h
  cases h

lemma lt_of_isWideBreak {c : Char} (h : isWideBreak c = true) : 127 < c.toNat := by
  simp only [isWideBreak, Bool.or_eq_true, beq_iff_eq] at h
  omega

/-- A line with separators inside, cut at the first of them. -/
lemma cut_first (h : o.hasSeparator = true) : ∃ a c b, o.line = a ++ c :: b ∧
    isWideBreak c = true ∧ (∀ d ∈ a, isLineBreak d = false) ∧ strip a ≠ [] ∧
      loads (F := F) a = none := by
  cases hf : o.line.find? isLineBreak with
  | none =>
    obtain ⟨c, hm, hb⟩ := exists_break h
    exact absurd hb (List.find?_eq_none.mp hf c hm)
  | some c =>
    obtain ⟨hc, a, b, he, ha⟩ := List.find?_eq_some_iff_append.mp hf
    have hwide : isWideBreak c = true := wide_of_mem (o := o) (by simp [he]) hc
    refine ⟨a, c, b, he, hwide, by simpa using ha, ?_, ?_⟩
    · -- the line begins with its opening brace, which is no separator
      have hhead := o.head_line
      rw [he] at hhead
      cases a with
      | nil =>
        obtain rfl : c = '\x7b' := by simpa using hhead
        exact absurd hwide (by decide)
      | cons d a =>
        obtain rfl : d = '\x7b' := by simpa using hhead
        exact strip_ne_nil (List.mem_cons_self) (by decide)
    · have hwalk := o.walk_line
      rw [he] at hwalk
      exact loads_before_cut (lt_of_isWideBreak hwide) hwalk

/-- The same line, cut at the last of them. -/
lemma cut_last (h : o.hasSeparator = true) : ∃ a c b, o.line = a ++ c :: b ∧
    isWideBreak c = true ∧ (∀ d ∈ b, isLineBreak d = false) ∧ strip b ≠ [] ∧
      loads (F := F) b = none := by
  cases hf : o.line.reverse.find? isLineBreak with
  | none =>
    obtain ⟨c, hm, hb⟩ := exists_break h
    exact absurd hb (List.find?_eq_none.mp hf c (List.mem_reverse.mpr hm))
  | some c =>
    obtain ⟨hc, b, a, he, hb⟩ := List.find?_eq_some_iff_append.mp hf
    have hsplit : o.line = a.reverse ++ c :: b.reverse := by
      rw [← List.reverse_reverse o.line, he]
      simp
    have hwide : isWideBreak c = true := wide_of_mem (o := o) (by simp [hsplit]) hc
    refine ⟨a.reverse, c, b.reverse, hsplit, hwide, by simpa using hb, ?_, ?_⟩
    · have hlast := o.last_line
      rw [he] at hlast
      cases b with
      | nil =>
        obtain rfl : c = '\x7d' := by simpa using hlast
        exact absurd hwide (by decide)
      | cons d b =>
        obtain rfl : d = '\x7d' := by simpa using hlast
        exact strip_ne_nil (c := '\x7d') (by simp) (by decide)
    · have hwalk := o.walk_line
      rw [hsplit] at hwalk
      exact loads_cut (lt_of_isWideBreak hwide) hwalk

end Object

section Files

/-- The bytes of a file that holds some objects. -/
def fileOf (os : List (Object F)) : Bytes := utf8Encode (fileText (os.map Object.line))

/-- The last line read is the last object's, or the end of it and no JSON text. -/
theorem lastLine_fileOf (os : List (Object F)) (o : Object F) :
    jsonlLastLine (fileOf (os ++ [o])) ≠ [] ∧ loads (jsonlLastLine (fileOf (os ++ [o]))) =
      if o.hasSeparator then none else some (.obj o.1) := by
  rw [fileOf, List.map_append, List.map_cons, List.map_nil]
  by_cases hsep : o.hasSeparator = true
  · obtain ⟨a, c, b, hsplit, hwide, hb, hs, hloads⟩ := Object.cut_last hsep
    have hn : '\n' ∉ a ++ c :: b := hsplit ▸ o.not_mem_line (by decide)
    rw [hsplit, jsonlLastLine_cut _ hwide hn hs hb, hloads, if_pos hsep]
    refine ⟨?_, rfl⟩
    rintro rfl
    exact hs rfl
  · have hline : ∀ c ∈ o.line, isLineBreak c = false :=
      Object.unbroken_line.mpr (by simpa using hsep)
    rw [jsonlLastLine_fileText _ o.strip_line hline, o.loads_line_self, if_neg hsep]
    refine ⟨?_, rfl⟩
    intro hnil
    exact o.strip_line (by rw [hnil]; rfl)

/-- A text file read with universal newlines. -/
def universalNewlines : Text → Text
  | [] => []
  | '\r' :: '\n' :: cs => '\n' :: universalNewlines cs
  | c :: cs => (if c = '\r' then '\n' else c) :: universalNewlines cs

lemma universalNewlines_plain {s : Text} (h : '\r' ∉ s) : universalNewlines s = s := by
  induction s with
  | nil => rfl
  | cons c cs ih =>
    rw [List.mem_cons, not_or] at h
    rw [universalNewlines.eq_def]
    split
    · simp_all
    · simp_all
    · rename_i heq
      obtain ⟨rfl, rfl⟩ := List.cons.inj heq
      rw [if_neg (Ne.symm h.1), ih h.2]

lemma universalNewlines_fileText (os : List (Object F)) :
    universalNewlines (fileText (os.map Object.line)) = fileText (os.map Object.line) := by
  refine universalNewlines_plain fun hm => ?_
  rw [fileText, List.flatMap_map, List.mem_flatMap] at hm
  obtain ⟨o, -, hm⟩ := hm
  rcases List.mem_append.mp hm with hm | hm
  · exact o.not_mem_line (by decide) hm
  · simp at hm

section Readers

variable {ε α : Type} (bad : ε) (read : Json F → Except ε α)

/-- `read(json.loads(line))`, where `json.loads` may raise. -/
def readLine (line : Text) : Except ε α :=
  match loads line with
  | some v => read v
  | none => .error bad

/-- `[read(json.loads(line)) for line in text.splitlines() if line.strip()]`. -/
def readLines (text : Text) : Except ε (List α) :=
  ((splitlines text).filter fun l => strip l ≠ []).mapM (readLine bad read)

/-- What the lines of one object are read as. -/
def readObject (o : Object F) : Except ε α :=
  if o.hasSeparator then .error bad else read (.obj o.1)

lemma readLines_line (o : Object F) (text : Text) :
    readLines bad read (o.line ++ '\n' :: text) = do
      let a ← readObject bad read o
      let as ← readLines bad read text
      return a :: as := by
  have hbreak := splitlines_append_break o.line text (k := '\n') (by decide) (by decide)
  rw [readLines, hbreak, List.filter_append, readObject]
  by_cases hsep : o.hasSeparator = true
  · obtain ⟨a, c, b, hsplit, hwide, ha, hs, hloads⟩ := Object.cut_first hsep
    have hr : c ≠ '\r' := by
      rintro rfl
      exact absurd hwide (by decide)
    have hne : a ≠ [] := fun hnil => hs (by rw [hnil]; rfl)
    have hwide' := isLineBreak_of_isWideBreak hwide
    rw [if_pos hsep, hsplit, List.append_assoc, List.cons_append,
      splitlines_append_break _ _ hwide' hr, splitlines_plain ha hne hwide', List.filter_append,
      List.filter_cons_of_pos (by simpa using hs), List.filter_nil, List.append_assoc,
      List.singleton_append, List.mapM_cons, readLine, hloads]
    rfl
  · have hline : ∀ c ∈ o.line, isLineBreak c = false :=
      Object.unbroken_line.mpr (by simpa using hsep)
    have hne : o.line ≠ [] := fun hnil => o.strip_line (by rw [hnil]; rfl)
    rw [if_neg hsep, splitlines_plain hline hne (by decide),
      List.filter_cons_of_pos (by simpa using o.strip_line), List.filter_nil,
      List.singleton_append, List.mapM_cons, readLine, o.loads_line_self, readLines]

/-- Each object of a file is read, up to the first that holds a separator. -/
theorem readLines_fileText (os : List (Object F)) :
    readLines bad read (fileText (os.map Object.line)) = os.mapM (readObject bad read) := by
  induction os with
  | nil => rfl
  | cons o os ih =>
    have htext : fileText ((o :: os).map Object.line) =
        o.line ++ '\n' :: fileText (os.map Object.line) := by
      simp [fileText]
    rw [htext, readLines_line, ih, List.mapM_cons]

end Readers

end Files

end CommitReplay.JsonlObjects
