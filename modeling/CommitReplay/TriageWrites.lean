import CommitReplay.CorpusTriage

/-! What a call of the triage's writer does: it raises and leaves the corpora, or writes the blocks
of the accepted decisions whose command, read before the first tab, was not taken yet. -/
namespace CommitReplay.TriageWrites

open CommitReplay.PythonText CommitReplay.PythonRepr CommitReplay.JsonlObjects
open CommitReplay.RefusalTriage CommitReplay.UntakenKeys CommitReplay.CorpusTriage

variable (isWide isPrintable : Char → Bool) (report : RefusalReport)

section Plan

/-- The decisions a call would write on empty corpora. -/
def accepted (ds : List RefusalDecision) : List Planned :=
  ds.filterMap fun d => (planOne isWide isPrintable [] [] report d).toOption.join

/-- Each decision names a group, and a command and a label where it needs them. -/
def Answerable (ds : List RefusalDecision) : Prop :=
  ∀ d ∈ ds, ∃ x, planOne isWide isPrintable [] [] report d = .ok x

/-- The commands of the corpus that a verdict must not contradict. -/
def otherHave (honestHave refusedHave : List Text) (p : Planned) : List Text :=
  if p.decision.verdict = .honest then refusedHave else honestHave

variable {isWide isPrintable report} {hs rs : List Text} {d : RefusalDecision} {ds : List RefusalDecision}

lemma planOne_ok {x : Option Planned} : planOne isWide isPrintable hs rs report d = .ok x ↔
    planOne isWide isPrintable [] [] report d = .ok x ∧ ∀ p ∈ x, p.command ∉ otherHave hs rs p := by
  rw [planOne, planOne]
  cases report.get d.groupId with
  | none => simp
  | some g =>
    by_cases hu : d.verdict = .unsure
    · simp only [hu, if_true]
      constructor
      · rintro ⟨⟩
        exact ⟨rfl, by simp⟩
      · exact fun h => h.1
    · simp only [hu, if_false]
      cases commandFor isWide isPrintable d g with
      | error e => simp [Except.bind]
      | ok cmd =>
        simp only [Except.bind, ite_self, List.not_mem_nil, if_false]
        by_cases hnil : cmd = []
        · simp [hnil]
        · simp only [hnil, if_false]
          cases lineFor isPrintable d g cmd with
          | error e => split_ifs <;> simp [Except.map]
          | ok line =>
            simp only [Except.map]
            constructor
            · intro h
              split_ifs at h with hv ho ho
              all_goals
                cases h
                exact ⟨rfl, by simpa [otherHave, hv] using ho⟩
            · rintro ⟨h, hx⟩
              cases h
              have hno := hx _ rfl
              rw [otherHave] at hno
              exact if_neg hno

lemma accepted_cons {x : Option Planned} (h : planOne isWide isPrintable [] [] report d = .ok x) :
    accepted isWide isPrintable report (d :: ds) =
      x.toList ++ accepted isWide isPrintable report ds := by
  rw [accepted, accepted, List.filterMap_cons, h]
  cases x <;> rfl

lemma plan_ok {ps : List Planned} : plan isWide isPrintable hs rs report ds = .ok ps ↔
    Answerable isWide isPrintable report ds ∧ ps = accepted isWide isPrintable report ds ∧
      ∀ p ∈ accepted isWide isPrintable report ds, p.command ∉ otherHave hs rs p := by
  induction ds generalizing ps with
  | nil => simp [plan, Answerable, accepted, eq_comm]
  | cons d ds ih =>
    rw [plan, Answerable, List.forall_mem_cons]
    constructor
    · intro h
      cases hp : planOne isWide isPrintable hs rs report d with
      | error e => rw [hp] at h; cases h
      | ok x =>
        cases hq : plan isWide isPrintable hs rs report ds with
        | error e => rw [hp, hq] at h; cases h
        | ok qs =>
          rw [hp, hq] at h
          cases h
          obtain ⟨hans, rfl, hno⟩ := ih.mp hq
          obtain ⟨hx, hxno⟩ := planOne_ok.mp hp
          rw [accepted_cons hx]
          refine ⟨⟨⟨x, hx⟩, hans⟩, rfl, fun p hp => ?_⟩
          rcases List.mem_append.mp hp with hp | hp
          · exact hxno p (Option.mem_toList.mp hp)
          · exact hno p hp
    · rintro ⟨⟨⟨x, hx⟩, hans⟩, rfl, hno⟩
      rw [accepted_cons hx] at hno ⊢
      have hone : planOne isWide isPrintable hs rs report d = .ok x := planOne_ok.mpr
        ⟨hx, fun p hp => hno p (List.mem_append_left _ (Option.mem_toList.mpr hp))⟩
      have hrest := ih.mpr ⟨hans, rfl, fun p hp => hno p (List.mem_append_right _ hp)⟩
      rw [hone, hrest]
      rfl

lemma precheck_ok (h : Answerable isWide isPrintable report ds) :
    precheck isWide isPrintable report ds = .ok () := by
  induction ds with
  | nil => rfl
  | cons d ds ih =>
    obtain ⟨⟨x, hx⟩, hrest⟩ := List.forall_mem_cons.mp h
    rw [planOne] at hx
    rw [precheck]
    cases hg : report.get d.groupId with
    | none => rw [hg] at hx; cases hx
    | some g =>
      rw [hg] at hx
      simp only at hx ⊢
      by_cases hu : d.verdict = .unsure
      · rw [if_pos hu]
        exact ih hrest
      · rw [if_neg hu] at hx ⊢
        cases hc : commandFor isWide isPrintable d g with
        | error e => rw [hc] at hx; cases hx
        | ok cmd => exact ih hrest

end Plan

section Shape

variable {isWide isPrintable report}

/-- What an accepted decision writes: a command that is one line, and after it the label of a
refusal. -/
structure Shaped (p : Planned) : Prop where
  ne_nil : p.command ≠ []
  onLine : OnLine p.command
  decided : p.decision.verdict ≠ .unsure
  honest : p.decision.verdict = .honest → p.line = p.command
  refused : p.decision.verdict ≠ .honest → ∃ label : GuardPrefix,
    p.line = p.command ++ '\t' :: (label.text ++ [':'])

lemma onLine_commandFor {d : RefusalDecision} {g : RefusalGroup} (hg : g.Lined) {cmd : Text}
    (h : commandFor isWide isPrintable d g = .ok cmd) : OnLine cmd := by
  rw [commandFor] at h
  dsimp only at h
  split_ifs at h
  · exact Except.ok.inj h ▸ hg.2
  · exact Except.ok.inj h ▸ onLine_encodeCorpusLine _ _

lemma shaped_of_planOne {d : RefusalDecision} (hlined : ∀ id g, report.get id = some g → g.Lined)
    {p : Planned} (h : planOne isWide isPrintable [] [] report d = .ok (some p)) : Shaped p := by
  rw [planOne] at h
  cases hg : report.get d.groupId with
  | none => rw [hg] at h; cases h
  | some g =>
    rw [hg] at h
    simp only at h
    by_cases hu : d.verdict = .unsure
    · rw [if_pos hu] at h
      cases h
    · rw [if_neg hu] at h
      cases hc : commandFor isWide isPrintable d g with
      | error e => rw [hc] at h; cases h
      | ok cmd =>
        rw [hc] at h
        simp only [Except.bind, ite_self, List.not_mem_nil, if_false] at h
        split_ifs at h with hnil
        cases hl : lineFor isPrintable d g cmd with
        | error e => rw [hl] at h; cases h
        | ok line =>
          rw [hl] at h
          cases h
          rw [lineFor] at hl
          refine ⟨hnil, onLine_commandFor (hlined _ g hg) hc, hu, fun hv => ?_, fun hv => ?_⟩
          · rw [if_neg (by simp [show d.verdict = .honest from hv])] at hl
            exact (Except.ok.inj hl).symm
          · have hr : d.verdict = .refuse := by
              cases hd : d.verdict with
              | honest => exact absurd hd hv
              | refuse => rfl
              | unsure => exact absurd hd hu
            rw [if_pos hr] at hl
            split at hl
            · cases hl
            · rename_i label _
              exact ⟨label, (Except.ok.inj hl).symm⟩

lemma shaped_of_accepted (hlined : ∀ id g, report.get id = some g → g.Lined)
    {ds : List RefusalDecision} {p : Planned} (hp : p ∈ accepted isWide isPrintable report ds) :
    Shaped p := by
  obtain ⟨d, -, h⟩ := List.mem_filterMap.mp hp
  cases hd : planOne isWide isPrintable [] [] report d with
  | error e => rw [hd] at h; cases h
  | ok x =>
    rw [hd] at h
    have hx : x = some p := h
    exact shaped_of_planOne hlined (hx ▸ hd)

end Shape

section Loop

/-- The text a planned line is looked up by. -/
def keyOf (p : Planned) : Text := beforeTab p.line

def fileOf (c : Corpora) : Verdict → Option Text
  | .honest => c.honest
  | _ => c.refused

variable (who date : Text)

/-- A block is appended to the corpus its verdict names. -/
def put (c : Corpora) (p : Planned) : Corpora :=
  if p.decision.verdict = .honest then { c with honest := append c.honest (p.block who date) }
  else { c with refused := append c.refused (p.block who date) }

/-- The lines written to a corpus. -/
def linesFor (v : Verdict) (ps : List Planned) : List Text :=
  (ps.filter (·.decision.verdict = v)).map (·.line)

variable {who date} {s : Progress} {p : Planned}

lemma writeOne_of_taken (h : keyOf p ∈ s.honestHave ++ s.refusedHave) :
    writeOne who date s p = { s with skipped := s.skipped ++ [p.line] } :=
  if_pos (List.mem_append.mp h)

lemma writeOne_of_untaken (hv : p.decision.verdict ≠ .unsure)
    (h : keyOf p ∉ s.honestHave ++ s.refusedHave) :
    (writeOne who date s p).corpora = put who date s.corpora p ∧
      (∀ k, k ∈ (writeOne who date s p).honestHave ++ (writeOne who date s p).refusedHave ↔
        k ∈ keyOf p :: (s.honestHave ++ s.refusedHave)) ∧
      (writeOne who date s p).honestAdded = s.honestAdded ++ linesFor .honest [p] ∧
      (writeOne who date s p).refusedAdded = s.refusedAdded ++ linesFor .refuse [p] := by
  rw [List.mem_append] at h
  have hkey : ¬ (beforeTab p.line ∈ s.honestHave ∨ beforeTab p.line ∈ s.refusedHave) := h
  rw [writeOne, if_neg hkey, put]
  cases hd : p.decision.verdict with
  | honest =>
    simp only [if_true]
    exact ⟨trivial, fun k => Iff.rfl, by simp [linesFor, hd], by simp [linesFor, hd]⟩
  | refuse =>
    simp only [reduceCtorEq, if_false]
    refine ⟨trivial, fun k => ?_, by simp [linesFor, hd], by simp [linesFor, hd]⟩
    simp only [List.mem_append, List.mem_cons, keyOf]
    tauto
  | unsure => exact absurd hd hv

/-- The loop writes the blocks whose key no corpus and no earlier block has taken. -/
lemma foldl_writeOne {ps : List Planned} (hv : ∀ p ∈ ps, p.decision.verdict ≠ .unsure) (s : Progress) :
    (ps.foldl (writeOne who date) s).corpora =
        (untaken keyOf (s.honestHave ++ s.refusedHave) ps).foldl (put who date) s.corpora ∧
      (ps.foldl (writeOne who date) s).honestAdded = s.honestAdded ++
        linesFor .honest (untaken keyOf (s.honestHave ++ s.refusedHave) ps) ∧
      (ps.foldl (writeOne who date) s).refusedAdded = s.refusedAdded ++
        linesFor .refuse (untaken keyOf (s.honestHave ++ s.refusedHave) ps) := by
  induction ps generalizing s with
  | nil => simp [untaken, linesFor]
  | cons p ps ih =>
    obtain ⟨hp, hps⟩ := List.forall_mem_cons.mp hv
    rw [List.foldl_cons]
    by_cases h : keyOf p ∈ s.honestHave ++ s.refusedHave
    · rw [writeOne_of_taken h, untaken_cons_of_mem h]
      exact ih hps _
    · obtain ⟨hc, htaken, hha, hra⟩ := @writeOne_of_untaken who date s p hp h
      obtain ⟨ihc, ihh, ihr⟩ := ih hps (writeOne who date s p)
      rw [untaken_congr htaken] at ihc ihh ihr
      have hlines : ∀ v W, linesFor v [p] ++ linesFor v W = linesFor v (p :: W) := by
        intro v W
        rw [linesFor, linesFor, linesFor, ← List.map_append, ← List.filter_append]
        rfl
      rw [untaken_cons h, List.foldl_cons, ihc, ihh, ihr, hc, hha, hra, List.append_assoc, hlines,
        List.append_assoc, hlines]
      exact ⟨rfl, rfl, rfl⟩

end Loop

section Blocks

variable {who date : Text} {p : Planned}

lemma strip_eq_self {t : Text} (hhead : ∀ c ∈ t.head?, isSpace c = false)
    (hlast : ∀ c ∈ t.getLast?, isSpace c = false) : strip t = t := by
  have hdrop : t.dropWhile isSpace = t := by
    cases t with
    | nil => rfl
    | cons c cs => exact List.dropWhile_cons_of_neg (by simp [hhead c rfl])
  rw [strip, hdrop, List.rdropWhile_eq_self_iff]
  exact fun hne => by simp [hlast _ (List.getLast?_eq_some_getLast hne)]

lemma head_of_strip {t : Text} (h : strip t = t) : ∀ c ∈ t.head?, isSpace c = false := by
  intro c hc
  obtain ⟨u, hu⟩ : strip t <+: t.dropWhile isSpace := List.rdropWhile_prefix ..
  have hnot := List.head?_dropWhile_not isSpace t
  rw [← hu, h] at hnot
  cases t with
  | nil => simp at hc
  | cons d ds => simpa [Option.mem_some.mp hc] using hnot

lemma plain_label (label : GuardPrefix) : ∀ c ∈ '\t' :: (label.text ++ [':']), isLineBreak c = false := by
  have hall : (('\t' :: (label.text ++ [':'])).all fun c => !isLineBreak c) = true := by
    cases label <;> rfl
  simpa only [List.all_eq_true, Bool.not_eq_true'] using hall

lemma onLine_labelled {cmd : Text} (hne : cmd ≠ []) (hhead : ∀ c ∈ cmd.head?, isSpace c = false)
    (hplain : ∀ c ∈ cmd, isLineBreak c = false) (label : GuardPrefix) :
    OnLine (cmd ++ '\t' :: (label.text ++ [':'])) := by
  have hlast : (cmd ++ '\t' :: (label.text ++ [':'])).getLast? = some ':' := by
    rw [← List.cons_append, ← List.append_assoc, List.getLast?_concat]
  refine ⟨strip_eq_self ?_ ?_, fun c hc => (List.mem_append.mp hc).elim (hplain c) (plain_label label c)⟩
  · rwa [List.head?_append_of_ne_nil _ hne]
  · rw [hlast]
    exact fun c hc => Option.mem_some.mp hc ▸ rfl

/-- A planned line is one line with no blank around it. -/
lemma Shaped.onLine_line (h : Shaped p) : OnLine p.line := by
  by_cases hv : p.decision.verdict = .honest
  · exact h.honest hv ▸ h.onLine
  · obtain ⟨label, hl⟩ := h.refused hv
    rw [hl]
    exact onLine_labelled h.ne_nil (head_of_strip h.onLine.1) h.onLine.2 label

lemma Shaped.line_ne_nil (h : Shaped p) : p.line ≠ [] := by
  by_cases hv : p.decision.verdict = .honest
  · exact h.honest hv ▸ h.ne_nil
  · obtain ⟨label, hl⟩ := h.refused hv
    simp [hl]

lemma Shaped.comment_line (h : Shaped p) :
    startsWith p.line ['#'] = startsWith p.command ['#'] := by
  by_cases hv : p.decision.verdict = .honest
  · rw [h.honest hv]
  · obtain ⟨label, hl⟩ := h.refused hv
    obtain ⟨c, cs, hc⟩ := List.exists_cons_of_ne_nil h.ne_nil
    simp [hl, hc, startsWith, List.isPrefixOf]

lemma beforeTab_append (a r : Text) : beforeTab (a ++ '\t' :: r) = beforeTab a := by
  rw [beforeTab, splitHead, List.takeWhile_append, beforeTab, splitHead]
  split_ifs with hall
  · rw [List.takeWhile_cons_of_neg (by simp), List.append_nil]
    exact (List.takeWhile_prefix _).eq_of_length hall |>.symm
  · rfl

lemma keyOf_eq (h : Shaped p) : keyOf p = beforeTab p.command := by
  by_cases hv : p.decision.verdict = .honest
  · rw [keyOf, h.honest hv]
  · obtain ⟨label, hl⟩ := h.refused hv
    rw [keyOf, hl, beforeTab_append]

lemma found_line {l : Text} (hne : l ≠ []) (h : OnLine l) :
    found (l ++ ['\n']) = if startsWith l ['#'] then [] else [l] := by
  rw [found, splitlines_plain h.2 hne rfl, List.filter_singleton, visible, h.1]
  cases startsWith l ['#'] <;> simp [hne]

/-- What a reader finds of a block: of the provenance comment nothing, unless a line break stands
in it, and of the line nothing if it is read as a comment. -/
lemma found_block (h : Shaped p) : found (p.block who date) =
    found (provenance p.group p.decision.verdict who date p.decision.note) ++
      if startsWith p.command ['#'] then [] else [p.line] := by
  rw [Planned.block, found_line_append, found_line h.line_ne_nil h.onLine_line, h.comment_line]

lemma head_block : (p.block who date).head? ≠ some '\n' := by
  have hhead : (p.block who date).head? = some '#' := rfl
  simp [hhead]

/-- Blocks add what a reader finds of each to the corpus they are for. -/
lemma found_foldl_put {ps : List Planned} (hv : ∀ p ∈ ps, p.decision.verdict ≠ .unsure) (c : Corpora)
    {v : Verdict} (hd : v ≠ .unsure) :
    found (readText (fileOf (ps.foldl (put who date) c) v)) = found (readText (fileOf c v)) ++
      (ps.filter (·.decision.verdict = v)).flatMap fun p => found (p.block who date) := by
  induction ps generalizing c with
  | nil => simp
  | cons p ps ih =>
    obtain ⟨hp, hps⟩ := List.forall_mem_cons.mp hv
    rw [List.foldl_cons, ih hps, List.filter_cons]
    by_cases hpv : p.decision.verdict = v
    · have hfile : fileOf (put who date c p) v = append (fileOf c v) (p.block who date) := by
        subst hpv
        cases hc : p.decision.verdict with
        | honest => simp [put, hc, fileOf]
        | refuse => simp [put, hc, fileOf]
        | unsure => exact absurd hc hp
      rw [hfile, found_append _ head_block, if_pos (by simpa using hpv), List.flatMap_cons,
        List.append_assoc]
    · have hfile : fileOf (put who date c p) v = fileOf c v := by
        cases hc : p.decision.verdict with
        | honest => cases v with
          | honest => exact absurd hc hpv
          | refuse => simp [put, hc, fileOf]
          | unsure => exact absurd rfl hd
        | refuse => cases v with
          | honest => simp [put, hc, fileOf]
          | refuse => exact absurd hc hpv
          | unsure => exact absurd rfl hd
        | unsure => exact absurd hc hp
      rw [hfile, if_neg (by simpa using hpv)]

end Blocks

end CommitReplay.TriageWrites
