import CommitReplay.JoinedTexts
import CommitReplay.TriageWrites

/-! Applying a triage: a call that returns adds to the corpora exactly the lines owed, keeps them
from contradicting each other, and adds nothing the second time. It does so on every pair of corpora
exactly when the accepted commands hold no tab, no two opposite decisions name one command, and the
blocks written are read back as their lines. -/
namespace CommitReplay.TriageApplies

open CommitReplay.PythonText CommitReplay.JoinedTexts
open CommitReplay.RefusalTriage CommitReplay.UntakenKeys CommitReplay.CorpusTriage CommitReplay.TriageWrites

variable (isWide isPrintable : Char → Bool) (report : RefusalReport) (call : TriageCall)

section Property

/-- The commands that stand in a corpus, of a refusal the text before the first tab. -/
def standing (c : Corpora) : Verdict → List Text
  | .honest => existingLines c.honest
  | _ => (existingLines c.refused).map beforeTab

/-- The accepted decisions of a verdict whose command does not stand in the corpus it names, each
command once. -/
def owed (c : Corpora) (v : Verdict) : List Planned :=
  untaken Planned.command (standing c v)
    ((accepted isWide isPrintable report call.decisions).filter (·.decision.verdict = v))

def InBoth (c : Corpora) (cmd : Text) : Prop := cmd ∈ standing c .honest ∧ cmd ∈ standing c .refuse

/-- Two decisions name one command with opposite verdicts. -/
def Opposed : Prop := ∃ p ∈ accepted isWide isPrintable report call.decisions,
  ∃ q ∈ accepted isWide isPrintable report call.decisions,
    p.decision.verdict ≠ q.decision.verdict ∧ p.command = q.command

/-- A call raises and leaves the corpora, or returns having added the lines owed; then no command
came to stand in both, no decision was opposed, and the same call adds nothing more. -/
def Applies (c : Corpora) : Prop :=
  match applyTriage isWide isPrintable report call c with
  | (.error _, after) => after = c
  | (.ok _, after) =>
    (∀ v, v ≠ .unsure → found (readText (fileOf after v)) =
      found (readText (fileOf c v)) ++ (owed isWide isPrintable report call c v).map (·.line)) ∧
    ((∀ cmd, ¬ InBoth c cmd) → ∀ cmd, ¬ InBoth after cmd) ∧
    ¬ Opposed isWide isPrintable report call ∧
    ∃ again, applyTriage isWide isPrintable report call after = (.ok again, after) ∧
      again.honestAdded = [] ∧ again.refusedAdded = []

/-- No accepted command holds a tab or is opposed, and of each block that can be written a reader
finds the line and nothing else. -/
structure Legible : Prop where
  untabbed : ∀ p ∈ accepted isWide isPrintable report call.decisions, '\t' ∉ p.command
  unopposed : ¬ Opposed isWide isPrintable report call
  uncommented : ∀ p ∈ untaken Planned.command [] (accepted isWide isPrintable report call.decisions),
    startsWith p.command ['#'] = false
  annotated : ∀ p ∈ untaken Planned.command [] (accepted isWide isPrintable report call.decisions),
    found (provenance p.group p.decision.verdict call.who call.day p.decision.note) = []

end Property

section Call

variable {isWide isPrintable report call} {c : Corpora}

/-- No accepted command stands in the corpus opposite to its verdict. -/
def Consistent (isWide isPrintable : Char → Bool) (report : RefusalReport) (call : TriageCall)
    (c : Corpora) : Prop :=
  ∀ p ∈ accepted isWide isPrintable report call.decisions,
    p.command ∉ otherHave (standing c .honest) (standing c .refuse) p

/-- The planned lines a call writes. -/
def written (isWide isPrintable : Char → Bool) (report : RefusalReport) (call : TriageCall)
    (c : Corpora) : List Planned :=
  untaken keyOf (standing c .honest ++ standing c .refuse)
    (accepted isWide isPrintable report call.decisions)

lemma applyTriage_error (h : ¬ (call.who ≠ [] ∧ Answerable isWide isPrintable report call.decisions ∧
    Consistent isWide isPrintable report call c)) :
    ∃ e, applyTriage isWide isPrintable report call c = (.error e, c) := by
  rw [applyTriage]
  by_cases hw : call.who = []
  · exact ⟨_, if_pos hw⟩
  · rw [if_neg hw]
    cases precheck isWide isPrintable report call.decisions with
    | error e => exact ⟨e, rfl⟩
    | ok u =>
      cases hp : plan isWide isPrintable (existingLines c.honest)
          ((existingLines c.refused).map beforeTab) report call.decisions with
      | error e =>
        simp only [applyLocked, hp]
        exact ⟨e, rfl⟩
      | ok ps =>
        obtain ⟨hans, -, hno⟩ := plan_ok.mp hp
        exact absurd ⟨hw, hans, hno⟩ h

lemma applyTriage_ok (hshape : ∀ p ∈ accepted isWide isPrintable report call.decisions, Shaped p)
    (hw : call.who ≠ []) (hans : Answerable isWide isPrintable report call.decisions)
    (hc : Consistent isWide isPrintable report call c) :
    ∃ a, applyTriage isWide isPrintable report call c =
        (.ok a, (written isWide isPrintable report call c).foldl (put call.who call.day) c) ∧
      a.honestAdded = linesFor .honest (written isWide isPrintable report call c) ∧
      a.refusedAdded = linesFor .refuse (written isWide isPrintable report call c) := by
  have hp : plan isWide isPrintable (existingLines c.honest) ((existingLines c.refused).map beforeTab)
      report call.decisions = .ok (accepted isWide isPrintable report call.decisions) :=
    plan_ok.mpr ⟨hans, rfl, hc⟩
  let s : Progress := ⟨c, existingLines c.honest, (existingLines c.refused).map beforeTab, [], [], []⟩
  obtain ⟨hcor, hha, hra⟩ := @foldl_writeOne call.who call.day _ (fun p hp => (hshape p hp).decided) s
  let t := (accepted isWide isPrintable report call.decisions).foldl (writeOne call.who call.day) s
  refine ⟨⟨t.honestAdded, t.refusedAdded, t.skipped,
    (call.decisions.filter (·.verdict = .unsure)).map (·.groupId)⟩, ?_, hha, hra⟩
  rw [applyTriage, if_neg hw, precheck_ok hans]
  simp only [applyLocked, hp]
  exact Prod.ext rfl hcor

end Call

section Kept

variable {isWide isPrintable report call} {c : Corpora}

lemma beforeTab_eq_self {t : Text} (h : '\t' ∉ t) : beforeTab t = t := by
  rw [beforeTab, splitHead, List.takeWhile_eq_self_iff]
  exact fun d hd => decide_eq_true fun he => h (he ▸ hd)

/-- Without a tab, a planned line is looked up by its command. -/
lemma keyOf_eq_command {p : Planned} (hs : Shaped p) (h : '\t' ∉ p.command) : keyOf p = p.command := by
  rw [keyOf_eq hs, beforeTab_eq_self h]

lemma written_subset : written isWide isPrintable report call c ⊆
    accepted isWide isPrintable report call.decisions := untaken_subset

/-- In each corpus a call writes the lines it owes. -/
lemma filter_written (hshape : ∀ p ∈ accepted isWide isPrintable report call.decisions, Shaped p)
    (htab : ∀ p ∈ accepted isWide isPrintable report call.decisions, '\t' ∉ p.command)
    (hopp : ¬ Opposed isWide isPrintable report call) (hc : Consistent isWide isPrintable report call c)
    {v : Verdict} (hv : v ≠ .unsure) :
    (written isWide isPrintable report call c).filter (·.decision.verdict = v) =
      owed isWide isPrintable report call c v := by
  rw [written, untaken_congr_key fun p hp => keyOf_eq_command (hshape p hp) (htab p hp), owed]
  refine filter_untaken (fun p hp hpv => ?_) fun p hp q hq hpv hqv he => ?_
  · have hno := hc p hp
    have hpv' : p.decision.verdict = v := by simpa using hpv
    rw [List.mem_append]
    cases v with
    | honest =>
      rw [otherHave, if_pos hpv'] at hno
      exact or_iff_left hno
    | refuse =>
      rw [otherHave, if_neg (by simp [hpv'])] at hno
      exact or_iff_right hno
    | unsure => exact absurd rfl hv
  · refine hopp ⟨p, hp, q, hq, ?_, he⟩
    simp only [decide_eq_true_eq, decide_eq_false_iff_not] at hpv hqv
    exact fun h => hqv (h ▸ hpv)

lemma mem_untaken_nil {p : Planned} (hshape : ∀ p ∈ accepted isWide isPrintable report call.decisions, Shaped p)
    (htab : ∀ p ∈ accepted isWide isPrintable report call.decisions, '\t' ∉ p.command)
    (hp : p ∈ written isWide isPrintable report call c) :
    p ∈ untaken Planned.command [] (accepted isWide isPrintable report call.decisions) := by
  rw [written, untaken_congr_key fun p hp => keyOf_eq_command (hshape p hp) (htab p hp)] at hp
  exact untaken_anti (List.nil_subset _) hp

/-- A legible block is read back as its line. -/
lemma found_legible (hl : Legible isWide isPrintable report call)
    (hshape : ∀ p ∈ accepted isWide isPrintable report call.decisions, Shaped p) {p : Planned}
    (hp : p ∈ written isWide isPrintable report call c) : found (p.block call.who call.day) = [p.line] := by
  have hmem := mem_untaken_nil hshape hl.untabbed hp
  rw [found_block (hshape p (written_subset hp)), hl.annotated p hmem, hl.uncommented p hmem]
  rfl

lemma found_after (hl : Legible isWide isPrintable report call)
    (hshape : ∀ p ∈ accepted isWide isPrintable report call.decisions, Shaped p)
    (hc : Consistent isWide isPrintable report call c) {v : Verdict} (hv : v ≠ .unsure) :
    found (readText (fileOf ((written isWide isPrintable report call c).foldl
      (put call.who call.day) c) v)) =
      found (readText (fileOf c v)) ++ (owed isWide isPrintable report call c v).map (·.line) := by
  rw [found_foldl_put (fun p hp => (hshape p (written_subset hp)).decided) c hv,
    ← filter_written hshape hl.untabbed hl.unopposed hc hv]
  refine congrArg _ ?_
  rw [List.map_eq_flatMap]
  exact List.flatMap_congr fun p hp => found_legible hl hshape (List.mem_of_mem_filter hp)

lemma standing_eq (c : Corpora) {v : Verdict} (hv : v ≠ .unsure) : standing c v =
    ((found (readText (fileOf c v))).map fun l => if v = .honest then strip l else beforeTab (strip l)) := by
  cases v with
  | honest => rfl
  | refuse => exact List.map_map ..
  | unsure => exact absurd rfl hv

/-- The commands of the lines owed come to stand in the corpus. -/
lemma standing_after (hl : Legible isWide isPrintable report call)
    (hshape : ∀ p ∈ accepted isWide isPrintable report call.decisions, Shaped p)
    (hc : Consistent isWide isPrintable report call c) {v : Verdict} (hv : v ≠ .unsure) :
    standing ((written isWide isPrintable report call c).foldl (put call.who call.day) c) v =
      standing c v ++ (owed isWide isPrintable report call c v).map (·.command) := by
  rw [standing_eq _ hv, standing_eq _ hv, found_after hl hshape hc hv, List.map_append, List.map_map]
  refine congrArg _ (List.map_congr_left fun p hp => ?_)
  have hmem := List.mem_filter.mp (untaken_subset hp)
  have hs := hshape p hmem.1
  have hpv : p.decision.verdict = v := by simpa using hmem.2
  simp only [Function.comp_apply, hs.onLine_line.1]
  split_ifs with h
  · exact hs.honest (hpv.trans h)
  · exact keyOf_eq_command hs (hl.untabbed p hmem.1)

end Kept

section Sufficient

variable {isWide isPrintable report call}

/-- The command of a line owed to one corpus is owed to no other. -/
lemma verdict_of_mem_owed (hopp : ¬ Opposed isWide isPrintable report call) {c : Corpora} {v : Verdict}
    {p : Planned} (hp : p ∈ accepted isWide isPrintable report call.decisions)
    (h : p.command ∈ (owed isWide isPrintable report call c v).map (·.command)) :
    p.decision.verdict = v := by
  obtain ⟨q, hq, he⟩ := List.mem_map.mp h
  have hmem := List.mem_filter.mp (untaken_subset hq)
  by_contra hne
  exact hopp ⟨p, hp, q, hmem.1, fun hpq => hne (hpq.trans (by simpa using hmem.2)), he.symm⟩

theorem applies_of_legible (hl : Legible isWide isPrintable report call)
    (hshape : ∀ p ∈ accepted isWide isPrintable report call.decisions, Shaped p) (c : Corpora) :
    Applies isWide isPrintable report call c := by
  rw [Applies]
  by_cases hret : call.who ≠ [] ∧ Answerable isWide isPrintable report call.decisions ∧
      Consistent isWide isPrintable report call c
  case neg =>
    obtain ⟨e, he⟩ := applyTriage_error hret
    rw [he]
  obtain ⟨hw, hans, hc⟩ := hret
  obtain ⟨a, ha, -, -⟩ := applyTriage_ok hshape hw hans hc
  rw [ha]
  have hh := standing_after hl hshape hc (show Verdict.honest ≠ .unsure by decide)
  have hr := standing_after hl hshape hc (show Verdict.refuse ≠ .unsure by decide)
  refine ⟨fun v hv => found_after hl hshape hc hv, fun hno cmd hboth => ?_, hl.unopposed, ?_⟩
  · rw [InBoth, hh, hr, List.mem_append, List.mem_append] at hboth
    -- a command owed to a corpus stands in neither, and is owed to one corpus only
    have howed : ∀ v v' : Verdict, v ≠ v' → v ≠ .unsure → v' ≠ .unsure →
        cmd ∈ (owed isWide isPrintable report call c v).map (·.command) →
        cmd ∉ standing c v' ∧ cmd ∉ (owed isWide isPrintable report call c v').map (·.command) := by
      intro v v' hvv hv hv' hm
      obtain ⟨p, hp, rfl⟩ := List.mem_map.mp hm
      have hmem := List.mem_filter.mp (untaken_subset hp)
      have hpv : p.decision.verdict = v := by simpa using hmem.2
      refine ⟨fun hst => hc p hmem.1 ?_, fun hm' =>
        hvv (hpv.symm.trans (verdict_of_mem_owed hl.unopposed hmem.1 hm'))⟩
      rw [otherHave, hpv]
      cases v <;> cases v' <;> simp_all
    obtain ⟨h1 | h1, h2 | h2⟩ := hboth
    · exact hno cmd ⟨h1, h2⟩
    · exact (howed .refuse .honest (by decide) (by decide) (by decide) h2).1 h1
    · exact (howed .honest .refuse (by decide) (by decide) (by decide) h1).1 h2
    · exact (howed .honest .refuse (by decide) (by decide) (by decide) h1).2 h2
  · generalize hafter : (written isWide isPrintable report call c).foldl (put call.who call.day) c = after at *
    have hc' : Consistent isWide isPrintable report call after := by
      intro p hp hmem
      have hno := hc p hp
      rw [otherHave] at hmem hno
      split_ifs at hmem hno with hv
      · rw [hr, List.mem_append] at hmem
        exact hmem.elim hno fun hm => by simpa [hv] using verdict_of_mem_owed hl.unopposed hp hm
      · rw [hh, List.mem_append] at hmem
        exact hmem.elim hno fun hm => hv (verdict_of_mem_owed hl.unopposed hp hm)
    have hnil : written isWide isPrintable report call after = [] := by
      refine untaken_eq_nil fun p hp => ?_
      rw [keyOf_eq_command (hshape p hp) (hl.untabbed p hp), List.mem_append]
      have hstands : p.command ∈ standing after p.decision.verdict := by
        rw [← hafter, standing_after hl hshape hc (hshape p hp).decided, List.mem_append]
        have hmem : p ∈ (accepted isWide isPrintable report call.decisions).filter
            (·.decision.verdict = p.decision.verdict) := List.mem_filter.mpr ⟨hp, by simp⟩
        refine (taken_or_kept hmem).imp id fun hkept => ?_
        obtain ⟨q, hq, he⟩ := hkept
        exact List.mem_map.mpr ⟨q, hq, he⟩
      cases hv : p.decision.verdict with
      | honest => exact .inl (hv ▸ hstands)
      | refuse => exact .inr (hv ▸ hstands)
      | unsure => exact absurd hv (hshape p hp).decided
    obtain ⟨again, hagain, hha, hra⟩ := applyTriage_ok hshape hw hans hc'
    rw [hnil] at hagain hha hra
    exact ⟨again, hagain, hha, hra⟩

end Sufficient

section Necessary

variable {isWide isPrintable report call}

def emptyCorpora : Corpora := ⟨none, none⟩

lemma standing_empty (v : Verdict) : standing emptyCorpora v = [] := by
  cases v <;> rfl

lemma consistent_empty : Consistent isWide isPrintable report call emptyCorpora := by
  intro p _
  rw [standing_empty, standing_empty, otherHave, ite_self]
  exact List.not_mem_nil

/-- A corpus of the given lines, each after a blank. -/
def corpusOf (ls : List Text) : Option Text := some (ls.flatMap fun l => ' ' :: l ++ ['\n'])

lemma existingLines_corpusOf {ls : List Text} (h : ∀ l ∈ ls, l ≠ [] ∧ OnLine l) :
    existingLines (corpusOf ls) = ls := by
  rw [existingLines, readText, found_universalNewlines, corpusOf, Option.getD_some]
  induction ls with
  | nil => rfl
  | cons l ls ih =>
    obtain ⟨⟨hne, hl⟩, hls⟩ := List.forall_mem_cons.mp h
    have hstrip : strip (' ' :: l) = l := by
      rw [strip, List.dropWhile_cons_of_pos rfl]
      exact hl.1
    have hplain : ∀ c ∈ ' ' :: l, isLineBreak c = false := List.forall_mem_cons.mpr ⟨rfl, hl.2⟩
    have hfound : found (' ' :: l) = [' ' :: l] := by
      rw [← found_newline, found, splitlines_plain hplain (by simp) rfl, List.filter_singleton, visible,
        hstrip]
      simp [hne, startsWith, List.isPrefixOf]
    rw [List.flatMap_cons, List.append_assoc, List.singleton_append, found_line_append, hfound,
      List.singleton_append, List.map_cons, hstrip, ih hls]

/-- The honest commands without a tab, and the key of every other accepted line. -/
def honestCommands (ps : List Planned) : List Text :=
  (ps.filter fun p => p.decision.verdict = .honest ∧ '\t' ∉ p.command).map (·.command)

def otherLines (ps : List Planned) : List Text :=
  (ps.filter fun p => keyOf p ∉ honestCommands ps).map fun p =>
    keyOf p ++ '\t' :: (GuardPrefix.network.text ++ [':'])

/-- Corpora in which the key of every accepted line is taken. -/
def takenCorpora (ps : List Planned) : Corpora := ⟨corpusOf (honestCommands ps), corpusOf (otherLines ps)⟩

lemma tab_not_mem_keyOf (p : Planned) : '\t' ∉ keyOf p := by
  intro h
  simpa using List.mem_takeWhile_imp h

lemma keyOf_ne_nil {p : Planned} (hs : Shaped p) :
    keyOf p ≠ [] ∧ ∀ c ∈ (keyOf p).head?, isSpace c = false := by
  obtain ⟨c, cs, hc⟩ := List.exists_cons_of_ne_nil hs.ne_nil
  have hspace : isSpace c = false := head_of_strip hs.onLine.1 c (by rw [hc]; rfl)
  have hne : c ≠ '\t' := by rintro rfl; cases hspace
  rw [keyOf_eq hs, hc, beforeTab, splitHead, List.takeWhile_cons_of_pos (by simpa using hne)]
  exact ⟨List.cons_ne_nil _ _, fun d hd => Option.mem_some.mp hd ▸ hspace⟩

lemma standing_taken {ps : List Planned} (hshape : ∀ p ∈ ps, Shaped p) :
    standing (takenCorpora ps) .honest = honestCommands ps ∧
      standing (takenCorpora ps) .refuse = (ps.filter fun p => keyOf p ∉ honestCommands ps).map keyOf := by
  constructor
  · refine existingLines_corpusOf fun l hl => ?_
    obtain ⟨p, hp, rfl⟩ := List.mem_map.mp hl
    have hs := hshape p (List.mem_of_mem_filter hp)
    exact ⟨hs.ne_nil, hs.onLine⟩
  · have hline : ∀ l ∈ otherLines ps, l ≠ [] ∧ OnLine l := by
      intro l hl
      obtain ⟨p, hp, rfl⟩ := List.mem_map.mp hl
      have hs := hshape p (List.mem_of_mem_filter hp)
      obtain ⟨hne, hhead⟩ := keyOf_ne_nil hs
      have hplain : ∀ c ∈ keyOf p, isLineBreak c = false := fun c hc =>
        hs.onLine.2 c ((List.takeWhile_sublist _).subset (keyOf_eq hs ▸ hc))
      exact ⟨by simp [hne], onLine_labelled hne hhead hplain _⟩
    change (existingLines (corpusOf (otherLines ps))).map beforeTab = _
    rw [existingLines_corpusOf hline, otherLines, List.map_map]
    refine List.map_congr_left fun p _ => ?_
    rw [Function.comp_apply, beforeTab_append, beforeTab_eq_self (tab_not_mem_keyOf p)]

/-- A decision on a command with a tab is passed over once the text before the tab stands anywhere,
although its command stands nowhere. -/
lemma untabbed_of_applies (hshape : ∀ p ∈ accepted isWide isPrintable report call.decisions, Shaped p)
    (hw : call.who ≠ []) (hans : Answerable isWide isPrintable report call.decisions)
    (hopp : ¬ Opposed isWide isPrintable report call)
    (h : Applies isWide isPrintable report call
      (takenCorpora (accepted isWide isPrintable report call.decisions)))
    {p : Planned} (hp : p ∈ accepted isWide isPrintable report call.decisions) : '\t' ∉ p.command := by
  set ps := accepted isWide isPrintable report call.decisions with hps
  obtain ⟨hh, hr⟩ := standing_taken hshape
  have htabfree : ∀ v, ∀ k ∈ standing (takenCorpora ps) v, '\t' ∉ k := by
    have hhonest : ∀ k ∈ honestCommands ps, '\t' ∉ k := by
      intro k hk
      obtain ⟨q, hq, rfl⟩ := List.mem_map.mp hk
      exact (of_decide_eq_true (List.mem_filter.mp hq).2).2
    have hrefused : ∀ k ∈ standing (takenCorpora ps) .refuse, '\t' ∉ k := by
      intro k hk
      rw [hr] at hk
      obtain ⟨q, -, rfl⟩ := List.mem_map.mp hk
      exact tab_not_mem_keyOf q
    intro v
    cases v with
    | honest => exact hh ▸ hhonest
    | refuse => exact hrefused
    | unsure => exact hrefused
  have hc : Consistent isWide isPrintable report call (takenCorpora ps) := by
    intro q hq hmem
    rw [otherHave] at hmem
    split_ifs at hmem with hv
    · have htab := htabfree _ _ hmem
      rw [hr] at hmem
      obtain ⟨r, hr', he⟩ := List.mem_map.mp hmem
      refine of_decide_eq_true (List.mem_filter.mp hr').2 (he ▸ ?_)
      exact List.mem_map.mpr ⟨q, List.mem_filter.mpr ⟨hq, by simp [hv, htab]⟩, rfl⟩
    · rw [hh] at hmem
      obtain ⟨r, hr', he⟩ := List.mem_map.mp hmem
      obtain ⟨hrmem, hrv⟩ := List.mem_filter.mp hr'
      have hrh : r.decision.verdict = .honest := (of_decide_eq_true hrv).1
      exact hopp ⟨q, hq, r, hrmem, hrh ▸ hv, he.symm⟩
  have hnil : written isWide isPrintable report call (takenCorpora ps) = [] := by
    refine untaken_eq_nil fun q hq => ?_
    rw [hh, hr, List.mem_append]
    by_cases hk : keyOf q ∈ honestCommands ps
    · exact .inl hk
    · exact .inr (List.mem_map.mpr ⟨q, List.mem_filter.mpr ⟨hq, by simpa using hk⟩, rfl⟩)
  obtain ⟨a, ha, -, -⟩ := applyTriage_ok hshape hw hans hc
  rw [Applies, ha, hnil] at h
  have howed := h.1 p.decision.verdict (hshape p hp).decided
  have hnone : owed isWide isPrintable report call (takenCorpora ps) p.decision.verdict = [] :=
    List.map_eq_nil_iff.mp (List.append_right_eq_self.mp howed.symm)
  intro htab
  have hmem : p ∈ ps.filter (·.decision.verdict = p.decision.verdict) := List.mem_filter.mpr ⟨hp, by simp⟩
  have hkept : p.command ∈ standing (takenCorpora ps) p.decision.verdict ∨
      ∃ q ∈ owed isWide isPrintable report call (takenCorpora ps) p.decision.verdict,
        q.command = p.command := taken_or_kept hmem
  rcases hkept with hst | ⟨q, hq, -⟩
  · exact htabfree _ _ hst htab
  · rw [hnone] at hq
    exact List.not_mem_nil hq

/-- Texts that are each found after some others are found alone when their number is right. -/
lemma eq_nil_of_flatMap_eq {α β : Type} {ws : List α} {before : α → List β} {g : α → β}
    (h : (ws.flatMap fun w => before w ++ [g w]).length = ws.length) : ∀ w ∈ ws, before w = [] := by
  have hle : ∀ us : List α, us.length ≤ (us.flatMap fun w => before w ++ [g w]).length := by
    intro us
    induction us with
    | nil => simp
    | cons u us ih =>
      simp only [List.flatMap_cons, List.length_append, List.length_cons, List.length_nil]
      omega
  induction ws with
  | nil => simp
  | cons u us ih =>
    simp only [List.flatMap_cons, List.length_append, List.length_cons, List.length_nil] at h ih
    have hus := hle us
    refine List.forall_mem_cons.mpr ⟨List.length_eq_zero_iff.mp (by omega), ih ?_⟩
    simp only [List.length_flatMap, List.length_append, List.length_cons, List.length_nil] at h hus ⊢
    omega

/-- What a call adds to empty corpora shows which blocks are read back as their lines. -/
lemma legible_of_applies (hshape : ∀ p ∈ accepted isWide isPrintable report call.decisions, Shaped p)
    (hw : call.who ≠ []) (hans : Answerable isWide isPrintable report call.decisions)
    (h : ∀ c, Applies isWide isPrintable report call c) : Legible isWide isPrintable report call := by
  have hempty := h emptyCorpora
  obtain ⟨a, ha, -, -⟩ := applyTriage_ok hshape hw hans consistent_empty
  rw [Applies, ha] at hempty
  obtain ⟨hfound, -, hopp, -⟩ := hempty
  have htab : ∀ p ∈ accepted isWide isPrintable report call.decisions, '\t' ∉ p.command := fun p hp =>
    untabbed_of_applies hshape hw hans hopp (h _) hp
  have hall : untaken Planned.command [] (accepted isWide isPrintable report call.decisions) =
      written isWide isPrintable report call emptyCorpora := by
    rw [written, standing_empty, standing_empty,
      untaken_congr_key fun p hp => keyOf_eq_command (hshape p hp) (htab p hp)]
    rfl
  have hblocks : ∀ v, v ≠ .unsure →
      ((written isWide isPrintable report call emptyCorpora).filter (·.decision.verdict = v)).flatMap
        (fun p => found (p.block call.who call.day)) =
      linesFor v (written isWide isPrintable report call emptyCorpora) := by
    intro v hv
    have hv' := hfound v hv
    rw [found_foldl_put (fun p hp => (hshape p (written_subset hp)).decided) _ hv,
      ← filter_written hshape htab hopp consistent_empty hv] at hv'
    exact List.append_cancel_left hv'
  have hplain : ∀ p ∈ written isWide isPrintable report call emptyCorpora,
      startsWith p.command ['#'] = false := by
    intro p hp
    have hs := hshape p (written_subset hp)
    have hmem : p.line ∈ linesFor p.decision.verdict (written isWide isPrintable report call emptyCorpora) :=
      List.mem_map.mpr ⟨p, List.mem_filter.mpr ⟨hp, by simp⟩, rfl⟩
    rw [← hblocks _ hs.decided] at hmem
    obtain ⟨q, -, hq⟩ := List.mem_flatMap.mp hmem
    have hvis := (List.mem_filter.mp hq).2
    rw [visible, decide_eq_true_eq] at hvis
    rw [← hs.comment_line]
    exact Bool.eq_false_iff.mpr hvis.2
  refine ⟨htab, hopp, hall ▸ hplain, hall ▸ fun p hp => ?_⟩
  have hs := hshape p (written_subset hp)
  have heach : ∀ q ∈ (written isWide isPrintable report call emptyCorpora).filter
      (·.decision.verdict = p.decision.verdict), found (q.block call.who call.day) =
        found (provenance q.group q.decision.verdict call.who call.day q.decision.note) ++ [q.line] := by
    intro q hq
    have hmem := List.mem_of_mem_filter hq
    rw [found_block (hshape q (written_subset hmem)), hplain q hmem]
    rfl
  have hlen := congrArg List.length (hblocks _ hs.decided)
  rw [List.flatMap_congr heach, linesFor, List.length_map] at hlen
  exact eq_nil_of_flatMap_eq hlen p (List.mem_filter.mpr ⟨hp, by simp⟩)

end Necessary

section Provenance

def Unbroken (t : Text) : Prop := ∀ c ∈ t, isLineBreak c = false

lemma unbroken_of_all {t : Text} (h : t.all (fun c => !isLineBreak c) = true) : Unbroken t := by
  simp only [List.all_eq_true, Bool.not_eq_true'] at h
  exact h

lemma Unbroken.append {s t : Text} (hs : Unbroken s) (ht : Unbroken t) : Unbroken (s ++ t) := fun c hc =>
  (List.mem_append.mp hc).elim (hs c) (ht c)

lemma unbroken_firstThree {xs : List Text} (h : ∀ x ∈ xs, Unbroken x) : Unbroken (firstThree xs) := by
  refine Unbroken.append (fun c hc => ?_) ?_
  · rcases mem_intercalate hc with hc | ⟨x, hx, hcx⟩
    · exact unbroken_of_all rfl c hc
    · exact h x (List.mem_of_mem_take hx) c hcx
  · split_ifs
    · exact unbroken_of_all rfl
    · exact unbroken_of_all rfl

lemma unbroken_provenance {g : RefusalGroup} (verdict : Verdict) (who note : Text) {date : Text}
    (hdate : Unbroken date) (htasks : ∀ t ∈ g.tasks, Unbroken t) (hrows : ∀ r ∈ g.rows, Unbroken r) :
    Unbroken (provenance g verdict who date note) := by
  have hrows' : ∀ r ∈ g.rows.map (List.take 12), Unbroken r := by
    intro r hr
    obtain ⟨q, hq, rfl⟩ := List.mem_map.mp hr
    exact fun c hc => hrows q hq c (List.mem_of_mem_take hc)
  have hverdict : Unbroken verdict.text := by
    cases verdict <;> exact unbroken_of_all rfl
  have htail : Unbroken (if note = [] then [] else " — ".toList ++ oneLine note) := by
    split_ifs
    · exact unbroken_of_all rfl
    · exact Unbroken.append (unbroken_of_all rfl) (oneLine_plain note)
  have h1 := (@unbroken_of_all "# learned ".toList rfl).append hdate
  have h2 := (h1.append (@unbroken_of_all " from ".toList rfl)).append (unbroken_firstThree htasks)
  have h3 := (h2.append (@unbroken_of_all " row ".toList rfl)).append (unbroken_firstThree hrows')
  have h4 := (h3.append (@unbroken_of_all " (".toList rfl)).append hverdict
  have h5 := (h4.append (@unbroken_of_all "→".toList rfl)).append (oneLine_plain who)
  exact (h5.append (unbroken_of_all (t := ")".toList) rfl)).append htail

lemma head_provenance (g : RefusalGroup) (verdict : Verdict) (who date note : Text) :
    startsWith (provenance g verdict who date note) ['#'] = true := rfl

/-- A reader finds nothing of a provenance comment whose date, tasks and rows are each one line;
the name and the note are made so. -/
theorem found_provenance {g : RefusalGroup} (verdict : Verdict) (who note : Text) {date : Text}
    (hdate : Unbroken date) (htasks : ∀ t ∈ g.tasks, Unbroken t) (hrows : ∀ r ∈ g.rows, Unbroken r) :
    found (provenance g verdict who date note) = [] := by
  have hhead := head_provenance g verdict who date note
  have hne : provenance g verdict who date note ≠ [] := fun hnil => by simp [hnil, startsWith] at hhead
  rw [← found_newline, found, splitlines_plain (unbroken_provenance verdict who note hdate htasks hrows)
    hne rfl, List.filter_singleton, visible, hhead]
  simp

end Provenance

section Main

variable (shapes : Shapes)

lemma shaped_accepted (rows : List RefusedRow) (ds : List RefusalDecision) :
    ∀ p ∈ accepted isWide isPrintable (triageRefusals isWide shapes rows) ds, Shaped p := fun _ hp =>
  shaped_of_accepted (fun _ _ hg => lined_triageRefusals shapes hg) hp

/-- A call applies on every pair of corpora exactly when it is refused on every pair, or is
legible. -/
theorem applies_iff (rows : List RefusedRow) :
    (∀ c, Applies isWide isPrintable (triageRefusals isWide shapes rows) call c) ↔
      (call.who ≠ [] → Answerable isWide isPrintable (triageRefusals isWide shapes rows) call.decisions →
        Legible isWide isPrintable (triageRefusals isWide shapes rows) call) := by
  have hshape := shaped_accepted isWide isPrintable shapes rows call.decisions
  constructor
  · exact fun h hw hans => legible_of_applies hshape hw hans h
  · intro h c
    by_cases hret : call.who ≠ [] ∧
        Answerable isWide isPrintable (triageRefusals isWide shapes rows) call.decisions
    · exact applies_of_legible (h hret.1 hret.2) hshape c
    · obtain ⟨e, he⟩ : ∃ e, applyTriage isWide isPrintable (triageRefusals isWide shapes rows) call c =
          (.error e, c) := applyTriage_error fun hall => hret ⟨hall.1, hall.2.1⟩
      rw [Applies, he]

end Main

section Sample

def sampleRow : RefusedRow where
  failureKind := "protocol".toList
  error := "protocol violation: network: no host (attempted: ls)".toList
  builderError := []
  repo := "r".toList
  taskId := "t".toList
  rowHash := "h".toList
  rowId := []

def sampleShapes : Shapes := ⟨id, id, fun _ => "g".toList⟩

def sampleDecision (verdict : Verdict) : RefusalDecision :=
  ⟨"g".toList, verdict, [], [], none, by decide⟩

/-- One class decided honest and refused in one call. -/
def opposedCall : TriageCall :=
  ⟨[sampleDecision .honest, sampleDecision .refuse], "paul".toList, "2026-09-14".toList, []⟩

lemma accepted_opposed : ∃ p q, accepted (fun _ => false) (fun _ => false)
    (triageRefusals (fun _ => false) sampleShapes [sampleRow]) opposedCall.decisions = [p, q] ∧
      p.decision.verdict = .honest ∧ q.decision.verdict = .refuse ∧ p.command = q.command :=
  ⟨_, _, rfl, rfl, rfl, rfl⟩

lemma answerable_opposed : Answerable (fun _ => false) (fun _ => false)
    (triageRefusals (fun _ => false) sampleShapes [sampleRow]) opposedCall.decisions := by
  refine List.forall_mem_cons.mpr ⟨⟨_, rfl⟩, List.forall_mem_singleton.mpr ⟨_, rfl⟩⟩

/-- The second decision is neither refused nor written. -/
theorem not_forall_applies : ¬ ∀ (rows : List RefusedRow) (call : TriageCall) (c : Corpora),
    Applies (fun _ => false) (fun _ => false) (triageRefusals (fun _ => false) sampleShapes rows) call c := by
  intro h
  have hl := legible_of_applies (shaped_accepted _ _ sampleShapes [sampleRow] opposedCall.decisions)
    (by decide) answerable_opposed (h [sampleRow] opposedCall)
  obtain ⟨p, q, hacc, hp, hq, hpq⟩ := accepted_opposed
  refine hl.unopposed ⟨p, ?_, q, ?_, ?_, hpq⟩
  · rw [hacc]
    exact List.mem_cons_self
  · rw [hacc]
    exact List.mem_cons_of_mem _ List.mem_cons_self
  · rw [hp, hq]
    decide

end Sample

end CommitReplay.TriageApplies
