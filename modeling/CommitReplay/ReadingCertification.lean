import CommitReplay.ReadingHierarchy

/-! A certified arm of a replayed reading: what its verdict rests on, from the standard of the cell
down to the rows of the ledger. -/
namespace CommitReplay.ReadingCertification

open CommitReplay.PythonText CommitReplay.JsonText CommitReplay.ContextArms CommitReplay.RowChecks
open CommitReplay.JsonRoundTrip CommitReplay.GradeRows
open CommitReplay.LookRule CommitReplay.ReadingRows CommitReplay.ReadingRecord
open CommitReplay.ReadingArms CommitReplay.ReadingReplay CommitReplay.ReadingHierarchy

variable {F N : Type} [PyFloat F] (parseTs : String → Option ℤ)

/-- A row that makes a commit of the arm a hit. -/
structure HitRow (r : Reading N) (arm : String) (rows : List (Row F)) (c : CommitReading)
    (row : Row F) : Prop where
  mem : row ∈ rows
  commit : row.str .taskId = c.commit
  scopeMiss : scopeMiss parseTs r arm row = .ok none
  inScope : InScope parseTs r arm row
  admitted : r.campaignId ≠ "" → row.str .runId ∈ r.admitted.getD []
  clean : row.clean = true
  notDisqualified : row.disqualified = false
  notLintDisabled : row.lintCouldChange = false

/-- A delivering look of an arm: of the first `k` commits kept in the pool's order all are observed,
no more than the look allows are misses, no two are of one change, and each hit has its own row. -/
structure DeliveringLook (r : Reading N) (arm : String) (rows : List (Row F)) (a : ArmReading)
    (k allowed : ℕ) : Prop where
  order : a.commits.map CommitReading.commit = r.pool
  size : k ≤ a.kept.length
  observed : ∀ c ∈ a.kept.take k, c.outcome ≠ none
  misses : (a.kept.take k).countP (·.outcome = some false) ≤ allowed
  changes : (a.kept.take k).Pairwise fun c c' => c.change ≠ c'.change
  witnessed : ∃ witness : CommitReading → Row F,
    (∀ c ∈ a.kept.take k, c.outcome = some true → HitRow parseTs r arm rows c (witness c)) ∧
    ∀ c ∈ a.kept.take k, ∀ c' ∈ a.kept.take k, c.outcome = some true → c'.outcome = some true →
      witness c = witness c' → c = c'

variable {parseTs} {r : Reading N} {arm : String} {rows : List (Row F)} {a : ArmReading}

lemma armReading_replay (hrule : r.attemptRule = "") (hreplay : r.prospective = false)
    (limit : ℤ) :
    armReading parseTs r arm rows limit =
      armReplay parseTs r arm (if r.admissionsUnread then [] else rows) limit := by
  have hres : r.reserved = false := by simp [Reading.reserved, hrule, attemptRuleReserved]
  simp [armReading, hres, hreplay]

/-- An arm whose look delivers has its rows. -/
lemma armReplay_deliver (h : armReplay parseTs r arm rows 0 = .ok a) (hd : a.look.state = .deliver) :
    ∃ looks k allowed, ruleLooks r.rule = .ok looks ∧ looks.lookup k = some allowed ∧
      DeliveringLook parseTs r arm rows a k allowed := by
  obtain ⟨-, -, -, hlook, -, eligible, read, heligible, hread, hcommits⟩ := armReplay_spec h
  obtain ⟨looks, allowed, hlooks, hallowed, hsize, hobserved, hmisses⟩ :=
    lookState_deliver (hlook rfl) hd
  rw [← List.map_take] at hobserved hmisses
  rw [List.length_map] at hsize
  obtain ⟨hpair, hhits⟩ := readPool_spec hread
  rw [← hcommits] at hpair hhits
  have hfirst : ∀ c ∈ a.kept.take a.look.counted, c ∈ a.kept := fun c => List.mem_of_mem_take
  have hrow : ∀ c ∈ a.kept.take a.look.counted, c.outcome = some true →
      ∃ row, HitRow parseTs r arm rows c row := fun c hc hhit => by
    obtain ⟨row, hmem, htask, hclean, hdq, hlint⟩ := (hhits c (hfirst c hc)).2.2 hhit
    obtain ⟨hrows, hadm, hscope⟩ := mem_eligibleRows heligible hmem
    refine ⟨row, hrows, htask, hscope, inScope_of_scopeMiss hscope, fun hne => ?_, hclean, hdq,
      hlint⟩
    simpa [admittedRun, hne] using hadm
  refine ⟨looks, a.look.counted, allowed, hlooks, hallowed, ?_, hsize, fun c hc hnone => ?_, ?_,
    hpair.sublist (List.take_sublist _ _), ?_⟩
  · rw [hcommits]
    exact commit_readPool hread
  · exact hobserved (List.mem_map.mpr ⟨c, hc, hnone⟩)
  · simpa only [List.count_eq_countP, List.countP_map, Function.comp_def, beq_eq_decide]
      using hmisses
  · have : Nonempty (Row F) := ⟨⟨⟨fun _ => .null, []⟩, ""⟩⟩
    choose! witness hwitness using hrow
    have hnodup : (a.kept.map CommitReading.change).Nodup := List.pairwise_map.mpr hpair
    refine ⟨witness, hwitness, fun c hc c' hc' hhit hhit' he => ?_⟩
    -- the row of a hit names its commit, and a commit has one change
    have hcommit : c.commit = c'.commit := by
      rw [← (hwitness c hc hhit).commit, he, (hwitness c' hc' hhit').commit]
    refine List.inj_on_of_nodup_map hnodup (hfirst c hc) (hfirst c' hc') ?_
    rw [(hhits c (hfirst c hc)).2.1, (hhits c' (hfirst c' hc')).2.1, hcommit]

/-- An arm of a reading is told to deliver only by its rows: the reading did not drift, and for a
replayed one under the first-observed rule the arm is the certifying standard, every arm before it
delivers without a row it cannot read, and a look of the rule is met by rows of the ledger. -/
theorem deliver_certified {o : ReadingOutcome N} {v : ArmVerdict}
    (ho : evaluate parseTs r rows = .ok o) (hv : verdictFor (some o) arm = .ok v)
    (hd : v.state = .ofArm .deliver) :
    r.poolDrift = [] ∧ (r.attemptRule = "" → r.prospective = false →
      (∃ p, parseArm arm = some p ∧ p.certifies = true) ∧ arm = o.standard ∧
      (∃ before after, r.hierarchy = before ++ arm :: after ∧ ∀ b ∈ before, b ≠ "" →
        ∃ a, armReading parseTs r b rows 0 = .ok a ∧ a.state = .deliver ∧ a.scopeFaults = [] ∧
          (r.arms.Nodup → o.arms.lookup b = some a)) ∧
      ∃ a looks k allowed, armReading parseTs r arm rows 0 = .ok a ∧
        ruleLooks r.rule = .ok looks ∧ looks.lookup k = some allowed ∧
        DeliveringLook parseTs r arm rows a k allowed) := by
  obtain ⟨-, -, -, -, -, hreading, -, -⟩ := evaluateWith_eq_ok ho
  refine ⟨hreading ▸ (verdictFor_deliver hv hd).1, fun hrule hreplay => ?_⟩
  have hread : ∀ arm n a, armReading parseTs r arm rows n = .ok a →
      a.stoppedBy = "" ∧ (n ≠ 0 → a.descriptive = true) := fun arm n a ha => by
    rw [armReading_replay hrule hreplay] at ha
    obtain ⟨hnone, hdesc, -⟩ := armReplay_spec ha
    exact ⟨hnone, fun hn => by simp [hdesc, hn]⟩
  obtain ⟨-, hstandard, hcertifies, hdelivers, before, after, hsplit, hbefore⟩ :=
    evaluateWith_deliver hread ho hv hd
  have hstate : ∀ {b n a}, armReading parseTs r b rows n = .ok a → a.state = .deliver →
      a.scopeFaults = [] ∧ a.look.state = .deliver := fun {b n a} ha hd => by
    unfold ArmReading.state at hd
    rw [if_neg (not_not.mpr (hread b n a ha).1)] at hd
    split_ifs at hd with hfaults hdesc
    exact ⟨not_not.mp hfaults, hd⟩
  refine ⟨?_, hstandard, ⟨before, after, hsplit, fun b hb hne => ?_⟩, ?_⟩
  · unfold certifies at hcertifies
    split at hcertifies
    · rename_i p hp
      exact ⟨p, hp, Except.ok.inj hcertifies⟩
    · cases hcertifies
  · obtain ⟨a, ha, had, hlook⟩ := hbefore b hb hne
    exact ⟨a, ha, had, (hstate ha had).1, fun hnd => hlook (hreading ▸ hnd)⟩
  · obtain ⟨a, ha, had, -⟩ := hdelivers
    have ha' : armReading parseTs r arm rows 0 = .ok a := ha
    rw [armReading_replay hrule hreplay] at ha'
    obtain ⟨looks, k, allowed, hlooks, hallowed, hlook⟩ := armReplay_deliver ha' (hstate ha had).2
    refine ⟨a, looks, k, allowed, ha, hlooks, hallowed, ?_⟩
    obtain ⟨witness, hwitness, hinj⟩ := hlook.witnessed
    refine { hlook with witnessed := ⟨witness, fun c hc hhit => ?_, hinj⟩ }
    have hrow := hwitness c hc hhit
    refine { hrow with mem := ?_ }
    have hmem := hrow.mem
    split_ifs at hmem
    · cases hmem
    · exact hmem

section Sample

/-- Whether an arm is told to deliver. -/
def toldToDeliver (r : Reading N) (rows : List (Row Whole)) (arm : String) : Bool :=
  match evaluate sampleTs r rows with
  | .error _ => false
  | .ok o =>
    match verdictFor (some o) arm with
    | .error _ => false
    | .ok v => v.state = .ofArm .deliver

lemma toldToDeliver_eq_true {r : Reading N} {rows : List (Row Whole)} {arm : String}
    (h : toldToDeliver r rows arm = true) :
    ∃ o v, evaluate sampleTs r rows = .ok o ∧ verdictFor (some o) arm = .ok v ∧
      v.state = .ofArm .deliver := by
  unfold toldToDeliver at h
  split at h
  · cases h
  · rename_i o ho
    split at h
    · cases h
    · rename_i v hv
      exact ⟨o, v, ho, hv, of_decide_eq_true h⟩

theorem deliver_certified_sampleReading :
    ∃ o a k allowed, evaluate sampleTs sampleReading (samplePool.map sampleRow) = .ok o ∧
      "S1@m" = o.standard ∧
      armReading sampleTs sampleReading "S1@m" (samplePool.map sampleRow) 0 = .ok a ∧
      DeliveringLook sampleTs sampleReading "S1@m" (samplePool.map sampleRow) a k allowed := by
  obtain ⟨o, v, ho, hv, hd⟩ := toldToDeliver_eq_true
    (show toldToDeliver sampleReading (samplePool.map sampleRow) "S1@m" = true by decide +kernel)
  obtain ⟨-, hstandard, -, a, -, k, allowed, ha, -, -, hlook⟩ :=
    (deliver_certified ho hv hd).2 rfl rfl
  exact ⟨o, a, k, allowed, ho, hstandard, ha, hlook⟩

end Sample

end CommitReplay.ReadingCertification
