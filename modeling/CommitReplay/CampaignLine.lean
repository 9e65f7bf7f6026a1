import CommitReplay.DecimalRounding
import CommitReplay.RunQueue

/-! A campaign's money: the record, the tally of its runs and the rule that admits one more. What
an active run may still spend is held, so the runs together never pass the line. -/
namespace CommitReplay.CampaignLine

open CommitReplay.DecimalRounding CommitReplay.KeyedTable CommitReplay.TransitionRuns
open CommitReplay.RunQueue (Status)

/-- A run's headroom before the campaign has seen a priced attempt. -/
def headroomFirstUsd : ℚ := 5

/-- An `S1` run's headroom per commit before a priced author call. -/
def authorCallFirstUsd : ℚ := 15 / 100

def epsilon : ℚ := 1 / 10 ^ 9

section Record

structure Body where
  schema : String
  name : String
  ceilingGbp : ℚ
  releasedGbp : ℚ
  rateUsdPerGbp : ℚ
  decision : String
  actor : String
  registeredAt : String

structure Campaign extends Body where
  campaignId : String

/- `sha256_text(canonical_json(body))`. -/
variable (bodyDigest : Body → String)

def idOf (body : Body) : String := "cmp_" ++ (bodyDigest body).take 24

/-- The constructor gives a campaign without an identifier its own. -/
def Campaign.make (body : Body) (campaignId : String) : Campaign :=
  ⟨body, if campaignId = "" then idOf bodyDigest body else campaignId⟩

def Campaign.verify (c : Campaign) : Bool :=
  (Campaign.make bodyDigest c.toBody "").campaignId = c.campaignId && 0 < c.rateUsdPerGbp &&
    (0 < c.releasedGbp && c.releasedGbp ≤ c.ceilingGbp)

def Campaign.usd (c : Campaign) (gbp : ℚ) : ℚ := roundTo 2 (gbp * c.rateUsdPerGbp)

/-- The most any release named, never above the ceiling nor below the first release. -/
def Campaign.lineGbp (c : Campaign) (releases : List ℚ) : ℚ :=
  min c.ceilingGbp (releases.foldl max c.releasedGbp)

variable {bodyDigest}

lemma Campaign.usd_mono {c : Campaign} (h : c.verify bodyDigest = true) {a b : ℚ} (hab : a ≤ b) :
    c.usd a ≤ c.usd b := by
  simp only [verify, Bool.and_eq_true, decide_eq_true_eq] at h
  exact roundTo_mono 2 (mul_le_mul_of_nonneg_right hab h.1.2.le)

lemma le_foldl_max (first : ℚ) (releases : List ℚ) : first ≤ releases.foldl max first := by
  induction releases generalizing first with
  | nil => exact le_rfl
  | cons r releases ih => exact (le_max_left first r).trans (ih _)

lemma Campaign.lineGbp_mono (c : Campaign) (releases more : List ℚ) :
    c.lineGbp releases ≤ c.lineGbp (releases ++ more) := by
  rw [lineGbp, lineGbp, List.foldl_append]
  exact min_le_min_left _ (le_foldl_max _ _)

lemma Campaign.lineGbp_le_ceiling (c : Campaign) (releases : List ℚ) :
    c.lineGbp releases ≤ c.ceilingGbp :=
  min_le_left _ _

lemma Campaign.lineGbp_pos {c : Campaign} (h : c.verify bodyDigest = true) (releases : List ℚ) :
    0 < c.lineGbp releases := by
  simp only [verify, Bool.and_eq_true, decide_eq_true_eq] at h
  exact lt_min (h.2.1.trans_le h.2.2) (h.2.1.trans_le (le_foldl_max _ _))

lemma Campaign.usd_nonneg {c : Campaign} (h : c.verify bodyDigest = true) {gbp : ℚ}
    (hg : 0 ≤ gbp) : 0 ≤ c.usd gbp := by
  simp only [verify, Bool.and_eq_true, decide_eq_true_eq] at h
  exact roundTo_nonneg 2 (mul_nonneg hg h.1.2.le)

end Record

section Members

/-- What a run has spent: its rows, its author's calls and its attempts without a row. -/
structure Spending where
  commitsDone : ℤ
  rowsUsd : ℚ
  dearestRowUsd : ℚ
  rowsUnknown : ℕ
  authoringUsd : ℚ
  dearestAuthorUsd : ℚ
  authorsUnknown : ℕ
  unrowedUsd : ℚ
  unrowed : ℕ
  unrowedUnknown : ℕ

/-- A run under the campaign, with what it was admitted to. -/
structure MemberRun extends Spending where
  runId : String
  status : Status
  capUsd : ℚ
  s1 : Bool
  commits : ℤ
  headroomUsd : ℚ

namespace MemberRun

variable (m : MemberRun)

def spentUsd : ℚ := m.rowsUsd + m.authoringUsd + m.unrowedUsd

def active : Bool := m.status = .queued || m.status = .running

def unknown : ℕ := m.rowsUnknown + m.authorsUnknown + m.unrowedUnknown

def commitsLeft : ℤ := if m.active then max 0 (m.commits - m.commitsDone) else 0

end MemberRun

structure Tally where
  lineUsd : ℚ
  spentUsd : ℚ
  authoringUsd : ℚ
  heldUsd : ℚ
  dearestAttemptUsd : Option ℚ
  dearestAuthorUsd : Option ℚ
  unknownRuns : List String
  overrunRuns : List String
  unplacedRuns : List String

/-- Why one more run is refused. -/
inductive CampaignRefused
  | costUnknown (runIds : List String)
  | overrun (runIds : List String)
  | unplaced (runIds : List String)
  | ceiling (t : Tally) (capUsd headroomUsd : ℚ)

def CampaignRefused.code : CampaignRefused → String
  | .costUnknown _ => "campaign_cost_unknown"
  | .overrun _ => "campaign_overrun"
  | .unplaced _ => "unplaced_spend"
  | .ceiling .. => "campaign_ceiling"

namespace Tally

variable (t : Tally)

/-- What a run may pass its cap by. -/
def headroom (s1 : Bool) (commitsLeft : ℤ) : ℚ :=
  let attempt := t.dearestAttemptUsd.getD headroomFirstUsd
  let authors := if s1 then max 0 commitsLeft * t.dearestAuthorUsd.getD authorCallFirstUsd else 0
  roundTo 6 (attempt + authors)

def refusal (capUsd : ℚ) (s1 : Bool) (commits : ℤ) : Option CampaignRefused :=
  if t.unknownRuns ≠ [] then some (.costUnknown t.unknownRuns)
  else if t.overrunRuns ≠ [] then some (.overrun t.overrunRuns)
  else if t.unplacedRuns ≠ [] then some (.unplaced t.unplacedRuns)
  else if t.lineUsd + epsilon < t.spentUsd + t.heldUsd + (capUsd + t.headroom s1 commits) then
    some (.ceiling t capUsd (t.headroom s1 commits))
  else none

lemma le_line_of_refusal_eq_none {t : Tally} {capUsd : ℚ} {s1 : Bool} {commits : ℤ}
    (h : t.refusal capUsd s1 commits = none) :
    t.spentUsd + t.heldUsd + (capUsd + t.headroom s1 commits) ≤ t.lineUsd + epsilon := by
  unfold refusal at h
  split_ifs at h with h₁ h₂ h₃ h₄
  exact not_lt.mp h₄

end Tally

/-- `max(xs) if xs else None`. -/
def maxOf : List ℚ → Option ℚ
  | [] => none
  | x :: xs => some (xs.foldl max x)

/-- The tally before anything is held. -/
def baseTally (lineUsd : ℚ) (members : List MemberRun) : Tally where
  lineUsd := lineUsd
  spentUsd := (members.map MemberRun.spentUsd).sum
  authoringUsd := (members.map fun m => m.authoringUsd).sum
  heldUsd := 0
  dearestAttemptUsd := maxOf ((members.map fun m => m.dearestRowUsd).filter (0 < ·))
  dearestAuthorUsd := maxOf ((members.map fun m => m.dearestAuthorUsd).filter (0 < ·))
  unknownRuns := []
  overrunRuns := []
  unplacedRuns := []

/-- What is held for a run: its unspent cap, and the larger of its headroom then and now. -/
def heldFor (base : Tally) (m : MemberRun) : ℚ :=
  if m.active then
    max 0 (m.capUsd - m.spentUsd) + max m.headroomUsd (base.headroom m.s1 m.commitsLeft)
  else 0

def tally (lineUsd : ℚ) (members : List MemberRun) : Tally :=
  let base := baseTally lineUsd members
  { base with
    heldUsd := (members.map (heldFor base)).sum
    unknownRuns := (members.filter fun m => m.unknown ≠ 0).map fun m => m.runId
    overrunRuns :=
      (members.filter fun m => m.capUsd + m.headroomUsd + epsilon < m.spentUsd).map
        fun m => m.runId
    unplacedRuns := (members.filter fun m => m.unrowed ≠ 0).map fun m => m.runId }

/-- What a run still counts for: all it was admitted to while it is active, then what it spent. -/
def committed (m : MemberRun) : ℚ := if m.active then m.capUsd + m.headroomUsd else m.spentUsd

/-- The tally holds at least what the runs count for. -/
lemma committed_le_spent_add_held (base : Tally) (m : MemberRun) :
    committed m ≤ m.spentUsd + heldFor base m := by
  unfold committed heldFor
  split_ifs
  · have h₁ := le_max_right 0 (m.capUsd - m.spentUsd)
    have h₂ := le_max_left m.headroomUsd (base.headroom m.s1 m.commitsLeft)
    linarith
  · linarith

lemma sum_committed_le_tally (lineUsd : ℚ) (members : List MemberRun) :
    (members.map committed).sum ≤
      (tally lineUsd members).spentUsd + (tally lineUsd members).heldUsd := by
  have h : (members.map committed).sum ≤ (members.map fun m =>
      m.spentUsd + heldFor (baseTally lineUsd members) m).sum :=
    List.sum_le_sum fun m _ => committed_le_spent_add_held _ m
  rwa [List.sum_map_add] at h

end Members

section History

abbrev MemberTable := Table MemberRun.runId

structure State where
  releases : List ℚ
  members : MemberTable

def State.init : State := ⟨[], Table.empty⟩

/-- What happens to a campaign: a run asks to be admitted, an active run spends or ends, and more
of the ceiling is released. -/
inductive Label
  | admission (runId : String) (capUsd : ℚ) (s1 : Bool) (commits : ℤ)
  | report (runId : String) (status : Status) (spending : Spending)
  | release (gbp : ℚ)

def noSpending : Spending := ⟨0, 0, 0, 0, 0, 0, 0, 0, 0, 0⟩

variable (c : Campaign)

def State.lineUsd (s : State) : ℚ := c.usd (c.lineGbp s.releases)

def State.tally (s : State) : Tally := CampaignLine.tally (s.lineUsd c) s.members.rows

/-- A run's new status and spending, while it was active. -/
def MemberRun.report (status : Status) (spending : Spending) (m : MemberRun) : MemberRun :=
  if m.active then { m with toSpending := spending, status := status } else m

lemma MemberRun.report_runId (status : Status) (spending : Spending) (m : MemberRun) :
    (m.report status spending).runId = m.runId := by
  unfold report
  split_ifs <;> rfl

def step (s : State) : Label → State
  | .admission runId capUsd s1 commits =>
    if (s.tally c).refusal capUsd s1 commits = none then
      let member : MemberRun :=
        ⟨noSpending, runId, .queued, capUsd, s1, commits, (s.tally c).headroom s1 commits⟩
      match s.members.insert? member with
      | some members => { s with members }
      | none => s
    else s
  | .report runId status spending =>
    ⟨s.releases, s.members.modify runId (MemberRun.report status spending)
      (MemberRun.report_runId status spending)⟩
  | .release gbp => { s with releases := s.releases ++ [gbp] }

def State.spentUsd (s : State) : ℚ := (s.members.rows.map MemberRun.spentUsd).sum

/-- Every run's spend is at or under its cap and the headroom it was admitted with. -/
def WithinCaps (s : State) : Prop :=
  ∀ m ∈ s.members.rows, m.spentUsd ≤ m.capUsd + m.headroomUsd

/-- What every step keeps: all that the runs count for is at or under the line. -/
def Inv (s : State) : Prop :=
  (s.members.rows.map committed).sum ≤ s.lineUsd c + epsilon

variable {c} {bodyDigest : Body → String}

lemma step_lineUsd (hc : c.verify bodyDigest = true) (s : State) (l : Label) :
    s.lineUsd c ≤ (step c s l).lineUsd c := by
  cases l with
  | admission runId capUsd s1 commits =>
    rw [step]
    split_ifs
    · dsimp only
      split <;> exact le_rfl
    · exact le_rfl
  | report runId status spending => exact le_rfl
  | release gbp => exact Campaign.usd_mono hc (c.lineGbp_mono s.releases [gbp])

/-- A report of an active run that stays within its cap and headroom counts for no more. -/
lemma committed_report_le {m : MemberRun} {status : Status} {spending : Spending}
    (h : (m.report status spending).spentUsd ≤
      (m.report status spending).capUsd + (m.report status spending).headroomUsd) :
    committed (m.report status spending) ≤ committed m := by
  unfold MemberRun.report at h ⊢
  split_ifs at h ⊢ with ha
  · rw [committed, committed, if_pos ha]
    split_ifs
    · exact le_rfl
    · exact h
  · exact le_rfl

theorem step_inv (hc : c.verify bodyDigest = true) {s : State} {l : Label} (hi : Inv c s)
    (hw : WithinCaps (step c s l)) : Inv c (step c s l) := by
  cases l with
  | admission runId capUsd s1 commits =>
    rw [step]
    split_ifs with hadmission
    · dsimp only
      split
      · rename_i members hins
        have hfit := Tally.le_line_of_refusal_eq_none hadmission
        have hheld := sum_committed_le_tally (s.lineUsd c) s.members.rows
        have hline : (s.tally c).lineUsd = s.lineUsd c := rfl
        rw [State.tally] at hfit hline
        rw [hline] at hfit
        rw [Inv, Table.rows_insert? hins, List.map_append, List.sum_append]
        simp only [List.map_cons, List.map_nil, List.sum_cons, List.sum_nil, add_zero]
        have hnew : committed ⟨noSpending, runId, .queued, capUsd, s1, commits,
            (s.tally c).headroom s1 commits⟩ = capUsd + (s.tally c).headroom s1 commits := rfl
        rw [hnew, State.tally]
        change _ ≤ s.lineUsd c + epsilon
        linarith
      · exact hi
    · exact hi
  | report runId status spending =>
    refine le_trans ?_ hi
    rw [step, Table.rows_modify, List.map_map]
    refine List.sum_le_sum fun m hm => ?_
    dsimp only [Function.comp_apply]
    split_ifs with hid
    · refine committed_report_le (hw _ ?_)
      rw [step, Table.rows_modify]
      exact List.mem_map.mpr ⟨m, hm, if_pos hid⟩
    · exact le_rfl
  | release gbp =>
    exact hi.trans (add_le_add_left (step_lineUsd hc s (.release gbp)) epsilon)

lemma init_inv (hc : c.verify bodyDigest = true) : Inv c State.init := by
  have h : 0 ≤ State.init.lineUsd c := Campaign.usd_nonneg hc (c.lineGbp_pos hc []).le
  have he : (0 : ℚ) ≤ epsilon := by norm_num [epsilon]
  exact add_nonneg h he

/-- In every history of a verified campaign whose runs stay within their caps and headrooms, all
runs together have spent at most the line and the epsilon of the check; and the line in force
never falls nor passes the ceiling. -/
theorem spent_le_line (hc : c.verify bodyDigest = true) (history later : List Label)
    (h : Along (step c) (fun s l => WithinCaps (step c s l)) State.init history) :
    let s := runFrom (step c) State.init history
    s.spentUsd ≤ s.lineUsd c + epsilon ∧ s.lineUsd c ≤ (runFrom (step c) s later).lineUsd c ∧
      c.lineGbp s.releases ≤ c.ceilingGbp ∧ s.lineUsd c ≤ c.usd c.ceilingGbp := by
  intro s
  have hi : Inv c s :=
    h.preserves (I := Inv c) (fun _ _ hi hw => step_inv hc hi hw) (init_inv hc)
  have hw : WithinCaps s :=
    h.preserves (I := WithinCaps) (fun _ _ _ hw => hw) (by simp [WithinCaps, State.init, Table.empty])
  refine ⟨?_, ?_, c.lineGbp_le_ceiling _, Campaign.usd_mono hc (c.lineGbp_le_ceiling _)⟩
  · refine le_trans (List.sum_le_sum fun m hm => ?_) hi
    unfold committed
    split_ifs
    · exact hw m hm
    · exact le_rfl
  · exact (along_of_forall (P := fun _ _ => True) fun _ _ _ => trivial).relates
      (R := fun s t => s.lineUsd c ≤ t.lineUsd c) (I := fun _ => True) (fun _ => le_rfl)
      (fun _ _ _ => le_trans) (fun _ _ _ _ => trivial) (fun s l _ _ => step_lineUsd hc s l) trivial

instance (s : State) : Decidable (WithinCaps s) := inferInstanceAs (Decidable (∀ m ∈ _, _))

/-- A campaign of eighty pounds, half of them released. -/
def halfReleased : Campaign :=
  Campaign.make (fun _ => "") ⟨"crb.campaign.v1", "c", 80, 40, 5 / 4, "", "", ""⟩ ""

lemma halfReleased_verify : halfReleased.verify (fun _ => "") = true := by decide +kernel

/-- A run is admitted and ends two dollars past its cap. -/
def overshotHistory : List Label :=
  [.admission "run1" 10 false 2,
    .report "run1" .succeeded { noSpending with commitsDone := 2, rowsUsd := 12 }]

theorem spent_le_line_halfReleased :
    let s := runFrom (step halfReleased) State.init overshotHistory
    s.spentUsd = 12 ∧ s.spentUsd ≤ s.lineUsd halfReleased + epsilon :=
  ⟨by decide +kernel, (spent_le_line halfReleased_verify overshotHistory []
    ⟨by decide +kernel, by decide +kernel, trivial⟩).1⟩

end History

end CommitReplay.CampaignLine
