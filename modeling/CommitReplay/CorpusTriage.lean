import CommitReplay.RefusalTriage
import CommitReplay.UntakenKeys

/-! The corpora of shell lines the guard is held to, one of honest lines and one of refused lines,
and the writer of the lines a person accepted from a triage. -/
namespace CommitReplay.CorpusTriage

open CommitReplay.PythonText CommitReplay.PythonRepr CommitReplay.JsonlObjects
open CommitReplay.RefusalTriage CommitReplay.UntakenKeys

section Files

/-- A corpus line is not blank, and no comment. -/
def visible (line : Text) : Bool := strip line ≠ [] ∧ ¬ startsWith line ['#']

/-- The lines a reader of a corpus finds. -/
def found (text : Text) : List Text := (splitlines text).filter visible

/-- A corpus file, when there is one, as it is read. -/
def readText (file : Option Text) : Text := universalNewlines (file.getD [])

def existingLines (file : Option Text) : List Text := (found (readText file)).map strip

/-- `_append`: on its own line, whether or not the file ends in a newline. -/
def append (file : Option Text) (block : Text) : Option Text :=
  let existing := readText file
  let sep := if existing = [] ∨ existing.getLast? = some '\n' then [] else ['\n']
  some (file.getD [] ++ sep ++ block)

structure Corpora where
  honest : Option Text
  refused : Option Text

def beforeTab (line : Text) : Text := splitHead '\t' line

lemma splitlines_universalNewlines (t : Text) : splitlines (universalNewlines t) = splitlines t := by
  fun_induction universalNewlines t with
  | case1 => rfl
  | case2 cs ih => rw [splitlines_cons_break rfl (by simp), ih, splitlines]
  | case3 c cs h ih =>
    by_cases hc : c = '\r'
    · subst hc
      have hhead : cs.head? ≠ some '\n' := by
        cases cs with
        | nil => simp
        | cons d ds => exact fun hd => h ds rfl (by simpa using hd)
      rw [if_pos rfl, splitlines_cons_break rfl (by simp), splitlines_cons_break rfl fun _ => hhead, ih]
    · rw [if_neg hc]
      by_cases hb : isLineBreak c = true
      · rw [splitlines_cons_break hb fun h => absurd h hc, splitlines_cons_break hb fun h => absurd h hc, ih]
      · have hb' : isLineBreak c = false := by simpa using hb
        rw [splitlines_cons_plain hb', splitlines_cons_plain hb', ih]

lemma universalNewlines_append {s t : Text} (h : s.getLast? = some '\r' → t.head? ≠ some '\n') :
    universalNewlines (s ++ t) = universalNewlines s ++ universalNewlines t := by
  fun_induction universalNewlines s with
  | case1 => rfl
  | case2 cs ih =>
    rw [List.cons_append, List.cons_append, universalNewlines, ih fun hl => ?_, List.cons_append]
    refine h ?_
    cases cs with
    | nil => simp at hl
    | cons d ds => simpa using hl
  | case3 c cs hn ih =>
    have htail : cs.getLast? = some '\r' → t.head? ≠ some '\n' := fun hl => h (by
      cases cs with
      | nil => simp at hl
      | cons d ds => simpa using hl)
    have hne : ∀ ds, c = '\r' → cs ++ t ≠ '\n' :: ds := by
      intro ds hc he
      cases cs with
      | nil => exact h (by simp [hc]) (by simpa using congrArg List.head? he)
      | cons d es =>
        obtain ⟨rfl, -⟩ := List.cons.inj he
        exact hn es hc rfl
    rw [List.cons_append, universalNewlines.eq_def]
    split
    · simp_all
    · rename_i ds heq
      obtain ⟨hc, he⟩ := List.cons.inj heq
      exact absurd he (hne ds hc)
    · rename_i heq
      obtain ⟨rfl, rfl⟩ := List.cons.inj heq
      rw [ih htail, List.cons_append]

@[simp] lemma found_universalNewlines (t : Text) : found (universalNewlines t) = found t := by
  rw [found, found, splitlines_universalNewlines]

lemma visible_nil : visible [] = false := rfl

/-- A newline at the end ends the last line, or adds an empty one. -/
lemma splitlines_newline (t : Text) : splitlines (t ++ ['\n']) = splitlines t ∨
    splitlines (t ++ ['\n']) = splitlines t ++ [[]] := by
  fun_induction splitlines t with
  | case1 => exact .inr rfl
  | case2 cs ih => simpa [splitlines] using ih
  | case3 c cs hn hc ih =>
    by_cases hr : c = '\r' ∧ cs = []
    · obtain ⟨rfl, rfl⟩ := hr
      exact .inl rfl
    · have hhead : c = '\r' → (cs ++ ['\n']).head? ≠ some '\n' := by
        intro h
        cases cs with
        | nil => exact absurd ⟨h, rfl⟩ hr
        | cons d ds => exact fun hd => hn ds h (by simpa using hd)
      rw [List.cons_append, splitlines_cons_break hc hhead]
      exact ih.imp (by rw [·]) (by rw [·, List.cons_append])
  | case4 c cs hn hc hnil ih =>
    rw [List.cons_append, splitlines_cons_plain (by simpa using hc)]
    rcases ih with ih | ih
    · exact absurd (ih.trans hnil) (splitlines_break_ne_nil cs [] '\n')
    · exact .inl (by rw [ih, hnil]; rfl)
  | case5 c cs hn hc l ls hl ih =>
    rw [List.cons_append, splitlines_cons_plain (by simpa using hc)]
    rcases ih with ih | ih
    · exact .inl (by rw [ih, hl]; rfl)
    · exact .inr (by rw [ih, hl]; rfl)

lemma found_newline (t : Text) : found (t ++ ['\n']) = found t := by
  rw [found, found]
  rcases splitlines_newline t with h | h
  · rw [h]
  · rw [h, List.filter_append, List.filter_cons_of_neg (by simp [visible_nil]), List.filter_nil,
      List.append_nil]

lemma found_line_append (s t : Text) : found (s ++ '\n' :: t) = found s ++ found t := by
  have hs := found_newline s
  rw [found, found] at hs
  rw [found, found, found, splitlines_append_break s t rfl (by decide), List.filter_append, hs]

/-- The lines found once a block is appended. -/
lemma found_append (file : Option Text) {block : Text} (h : block.head? ≠ some '\n') :
    found (readText (append file block)) = found (readText file) ++ found block := by
  have hread : ∀ f : Option Text, found (readText f) = found (f.getD []) := fun f =>
    found_universalNewlines _
  rw [hread, hread, append, Option.getD_some]
  split_ifs with hsep
  · rw [List.append_nil]
    rcases hsep with hnil | hlast
    · rw [← found_universalNewlines (file.getD [] ++ block), universalNewlines_append fun _ => h]
      rw [readText] at hnil
      rw [← found_universalNewlines (file.getD []), hnil, List.nil_append, found_universalNewlines]
      rfl
    · obtain ⟨s, hs⟩ := List.getLast?_eq_some_iff.mp hlast
      rw [readText] at hs
      calc found (file.getD [] ++ block)
          = found (universalNewlines (file.getD []) ++ universalNewlines block) := by
            rw [← universalNewlines_append fun _ => h, found_universalNewlines]
        _ = found s ++ found (universalNewlines block) := by
            rw [hs, List.append_assoc, List.singleton_append, found_line_append]
        _ = found (file.getD []) ++ found block := by
            rw [← found_newline s, ← hs, found_universalNewlines, found_universalNewlines]
  · rw [List.append_assoc, List.singleton_append, found_line_append]

end Files

section Decisions

inductive Verdict
  | honest | refuse | unsure
  deriving DecidableEq

def Verdict.text : Verdict → Text
  | .honest => "honest".toList
  | .refuse => "refuse".toList
  | .unsure => "unsure".toList

structure RefusalDecision where
  groupId : Text
  verdict : Verdict
  note : Text
  command : Text
  label : Option {p : GuardPrefix // p ∈ corpusRefusedPrefixes}
  groupId_ne : groupId ≠ []

variable (isWide isPrintable : Char → Bool)

/-- The text of a `LearnError` about a decision. -/
def refusal (d : RefusalDecision) (why : Text) : Text :=
  "decision ".toList ++ d.groupId ++ ": ".toList ++ why

/-- The first three of some texts, with a mark when there are more. -/
def firstThree (xs : List Text) : Text :=
  (", ".toList).intercalate (xs.take 3) ++ if 3 < xs.length then " …".toList else []

def provenance (g : RefusalGroup) (verdict : Verdict) (who date note : Text) : Text :=
  "# learned ".toList ++ date ++ " from ".toList ++ firstThree g.tasks ++ " row ".toList ++
    firstThree (g.rows.map (List.take 12)) ++ " (".toList ++ verdict.text ++ "→".toList ++
    oneLine who ++ ")".toList ++ if note = [] then [] else " — ".toList ++ oneLine note

def commandFor (d : RefusalDecision) (g : RefusalGroup) : Except Text Text :=
  if d.command = [] then
    if g.truncated then .error (refusal d ("every recorded example was truncated by the " ++
      "recorder's cap; supply the full 'command'").toList)
    else .ok g.candidateHonest
  else if ¬ g.truncated then .error (refusal d (("'command' completes a class whose recorded " ++
    "examples were all truncated; this class is not truncated, so its line is the report's own").toList))
  else
    let cmd := encodeCorpusLine isWide d.command
    if g.examples.any fun e => e ≠ [] ∧ startsWith cmd e then .ok cmd
    else .error (refusal d ("'command' must continue a recorded cut example (".toList ++
      (", ".toList).intercalate (g.examples.map (reprStr isPrintable)) ++
      "); it completes that line, never replaces it".toList))

/-- The line a decision writes: in the refused corpus with the label of the refusal after a tab. -/
def lineFor (d : RefusalDecision) (g : RefusalGroup) (cmd : Text) : Except Text Text :=
  if d.verdict = .refuse then
    match (d.label.map (·.1)).or (if g.guard ∈ corpusRefusedPrefixes then some g.guard else none) with
    | none => .error (refusal d (("the refused corpus takes only ('archaeology', 'network'); " ++
        "group prefix is ").toList ++ reprStr isPrintable g.guard.text ++
        " — supply 'prefix' (a tamper is belt 1's, not the shell guard's)".toList))
    | some p => .ok (cmd ++ '\t' :: (p.text ++ [':']))
  else .ok cmd

/-- A decision accepted for writing, with the command and the line it writes. -/
structure Planned where
  decision : RefusalDecision
  group : RefusalGroup
  command : Text
  line : Text

def planOne (honestHave refusedHave : List Text) (report : RefusalReport) (d : RefusalDecision) :
    Except Text (Option Planned) :=
  match report.get d.groupId with
  | none => .error (refusal d "no such group in the report".toList)
  | some g =>
    if d.verdict = .unsure then .ok none
    else (commandFor isWide isPrintable d g).bind fun cmd =>
      if cmd = [] then .error (refusal d "no command to append (supply 'command')".toList)
      else if cmd ∈ (if d.verdict = .honest then refusedHave else honestHave) then
        .error (refusal d (reprStr isPrintable cmd ++ (" is already in the OTHER corpus — a " ++
          "contradiction is moved by hand with a reason, never applied (the corpus rule: " ++
          "never weaken a refusal to make a line pass)").toList))
      else (lineFor isPrintable d g cmd).map fun line => some ⟨d, g, cmd, line⟩

def plan (honestHave refusedHave : List Text) (report : RefusalReport) :
    List RefusalDecision → Except Text (List Planned)
  | [] => .ok []
  | d :: ds => (planOne isWide isPrintable honestHave refusedHave report d).bind fun p =>
      (plan honestHave refusedHave report ds).map (p.toList ++ ·)

/-- What needs no file is refused first. -/
def precheck (report : RefusalReport) : List RefusalDecision → Except Text Unit
  | [] => .ok ()
  | d :: ds =>
    match report.get d.groupId with
    | none => .error (refusal d "no such group in the report".toList)
    | some g =>
      if d.verdict = .unsure then precheck report ds
      else (commandFor isWide isPrintable d g).bind fun _ => precheck report ds

end Decisions

section Write

structure TriageApplied where
  honestAdded : List Text
  refusedAdded : List Text
  skipped : List Text
  unsure : List Text

/-- The corpora while the planned lines are written, and the commands known to stand in them. -/
structure Progress where
  corpora : Corpora
  honestHave : List Text
  refusedHave : List Text
  honestAdded : List Text
  refusedAdded : List Text
  skipped : List Text

variable (who date : Text)

def Planned.block (p : Planned) : Text :=
  provenance p.group p.decision.verdict who date p.decision.note ++ '\n' :: (p.line ++ ['\n'])

def writeOne (s : Progress) (p : Planned) : Progress :=
  let cmdOnly := beforeTab p.line
  if cmdOnly ∈ s.honestHave ∨ cmdOnly ∈ s.refusedHave then { s with skipped := s.skipped ++ [p.line] }
  else if p.decision.verdict = .honest then
    { s with
      corpora := { s.corpora with honest := append s.corpora.honest (p.block who date) }
      honestHave := cmdOnly :: s.honestHave
      honestAdded := s.honestAdded ++ [p.line] }
  else
    { s with
      corpora := { s.corpora with refused := append s.corpora.refused (p.block who date) }
      refusedHave := cmdOnly :: s.refusedHave
      refusedAdded := s.refusedAdded ++ [p.line] }

end Write

section Apply

variable (isWide isPrintable : Char → Bool) (report : RefusalReport)

def applyLocked (who date : Text) (decisions : List RefusalDecision) (c : Corpora) :
    Except Text TriageApplied × Corpora :=
  let honestHave := existingLines c.honest
  let refusedHave := (existingLines c.refused).map beforeTab
  match plan isWide isPrintable honestHave refusedHave report decisions with
  | .error e => (.error e, c)
  | .ok planned =>
    let s := planned.foldl (writeOne who date) ⟨c, honestHave, refusedHave, [], [], []⟩
    (.ok ⟨s.honestAdded, s.refusedAdded, s.skipped,
      (decisions.filter (·.verdict = .unsure)).map (·.groupId)⟩, s.corpora)

/-- The arguments of a call other than the report and the corpora, and the day it is made. -/
structure TriageCall where
  decisions : List RefusalDecision
  decidedBy : Text
  date : Text
  today : Text

def TriageCall.who (call : TriageCall) : Text := strip call.decidedBy

def TriageCall.day (call : TriageCall) : Text := if call.date = [] then call.today else call.date

/-- `apply_triage`: what it returns or raises, and the corpora it leaves. -/
def applyTriage (call : TriageCall) (c : Corpora) : Except Text TriageApplied × Corpora :=
  if call.who = [] then (.error "apply_triage needs decided_by".toList, c)
  else match precheck isWide isPrintable report call.decisions with
  | .error e => (.error e, c)
  | .ok () => applyLocked isWide isPrintable report call.who call.day call.decisions c

end Apply

end CommitReplay.CorpusTriage
