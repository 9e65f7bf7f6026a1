import CommitReplay.SlotReadiness

/-! The entry gate of the factory. The cells the size rule reads for an estimate are folded to the
more demanding one; an item enters on its standard, with what that standard needs, or stops. -/
namespace CommitReplay.ContextStandard

open CommitReplay.PythonText CommitReplay.SlotReadiness

section Standards

inductive Stop
  | unsized | granularize | noProvenStandard | needsContext | unsignedCell | notLicensed
  | sizeExceedsLicence | cellNotLicensed | calibrationBuild
deriving DecidableEq, Repr

def Stop.text : Stop → String
  | .unsized => "unsized"
  | .granularize => "granularize"
  | .noProvenStandard => "no_proven_standard"
  | .needsContext => "needs_context"
  | .unsignedCell => "unsigned_cell"
  | .notLicensed => "not_licensed"
  | .sizeExceedsLicence => "size_exceeds_licence"
  | .cellNotLicensed => "cell_not_licensed"
  | .calibrationBuild => "calibration_build"

/-- The stops an approver's calibration build answers. -/
def calibratable : List Stop := [.noProvenStandard, .needsContext]

def baseS1 : String := "S1"
def baseS2 : String := "S2"
def baseS3 : String := "S3"

/-- `_base` of an arm's identifier. -/
def baseOf (arm : String) : String := .ofList (splitHead '@' (splitHead '+' arm.toList))

/-- `_author`: the test author an arm names, if it names one. -/
def authorOf (arm : String) : String :=
  .ofList (((splitHead '+' arm.toList).dropWhile (· ≠ '@')).drop 1)

/-- A cell's proven standard. -/
structure Standard where
  arm : String
  signed : Bool
  readingId : String
  valid : baseOf arm = baseS1 ∨ baseOf arm = baseS2 ∨ baseOf arm = baseS3
deriving DecidableEq

def Standard.base (s : Standard) : String := baseOf s.arm

/-- The loop's switch is part of the arm. -/
def Standard.plusL (s : Standard) : Bool := (s.arm.toList.splitOn '+').tail.contains ['L']

def Standard.ceiling (s : Standard) : Bool := s.base = baseS3

def Standard.licenses (s : Standard) : Bool := s.base = baseS1 || s.base = baseS2

lemma Standard.licenses_of_not_ceiling {s : Standard} (h : s.ceiling = false) :
    s.licenses = true := by
  rcases s.valid with hv | hv | hv
  · simp [licenses, base, hv]
  · simp [licenses, base, hv]
  · simp [ceiling, base, hv] at h

def standardSigned (standard : Option Standard) : Bool :=
  match standard with
  | none => false
  | some s => s.licenses && s.signed

/-- One cell to read. -/
structure CellRef where
  capabilityClass : String
  size : Option Tier
  builder : String
  model : String
  arm : String
  provider : String
  taxonomy : String
  orgClass : String
deriving DecidableEq

end Standards

section SizeRule

def nextSize : Tier → Tier
  | .XS => .S
  | .S => .M
  | .M => .L
  | .L => .XL
  | .XL => .XL

/-- The size that is split before any attempt. -/
def sizeGranularize : Tier := .XL

/-- The sizes the size rule reads for an estimate: its own, and the larger ones. -/
def largerToRead (size : Tier) (agreementPassed : Bool) : List Tier :=
  if agreementPassed ∨ size = sizeGranularize then [] else [nextSize size]

def sizesToRead (size : Tier) (agreementPassed : Bool) : List Tier :=
  size :: largerToRead size agreementPassed

/-- A size read, with the standard of its cell. -/
abbrev Read := Tier × Option Standard

def demand (standard : Option Standard) : ℕ :=
  match standard with
  | none => 4
  | some s => if s.ceiling then 3 else if s.base = baseS2 then 2 else 1

/-- Of the cells read the more demanding; on a tie the later one, which is the larger. -/
def moreDemanding (first : Read) (rest : List Read) : Read :=
  rest.foldl (fun best cand => if demand best.2 ≤ demand cand.2 then cand else best) first

lemma moreDemanding_mem (first : Read) (rest : List Read) :
    moreDemanding first rest ∈ first :: rest := by
  induction rest generalizing first with
  | nil => simp [moreDemanding]
  | cons cand rest ih =>
    rw [moreDemanding, List.foldl_cons]
    have h := ih (if demand first.2 ≤ demand cand.2 then cand else first)
    rw [moreDemanding] at h
    rcases List.mem_cons.mp h with h | h
    · rw [h]
      split_ifs <;> simp
    · exact List.mem_cons_of_mem _ (List.mem_cons_of_mem _ h)

/-- No cell read demands more than the one applied. -/
lemma demand_le_moreDemanding (first : Read) (rest : List Read) :
    ∀ r ∈ first :: rest, demand r.2 ≤ demand (moreDemanding first rest).2 := by
  induction rest generalizing first with
  | nil => simp [moreDemanding]
  | cons cand rest ih =>
    rw [moreDemanding, List.foldl_cons]
    have h := ih (if demand first.2 ≤ demand cand.2 then cand else first)
    rw [moreDemanding] at h
    have hbest := h _ (List.mem_cons_self ..)
    intro r hr
    rcases List.mem_cons.mp hr with rfl | hr
    · refine le_trans ?_ hbest
      split_ifs with hc
      · exact hc
      · exact le_rfl
    · rcases List.mem_cons.mp hr with rfl | hr
      · refine le_trans ?_ hbest
        split_ifs with hc
        · exact le_rfl
        · exact (not_le.mp hc).le
      · exact h r (List.mem_cons_of_mem _ hr)

lemma licenses_of_demand_lt {standard : Option Standard} (h : demand standard < 3) :
    ∃ s, standard = some s ∧ s.licenses = true := by
  cases standard with
  | none => simp [demand] at h
  | some s =>
    refine ⟨s, rfl, Standard.licenses_of_not_ceiling ?_⟩
    by_contra hc
    simp only [Bool.not_eq_false] at hc
    simp [demand, hc] at h

lemma demand_lt_of_licensing {s : Standard} (h : s.ceiling = false) : demand (some s) < 3 := by
  simp only [demand, h, Bool.false_eq_true, if_false]
  split_ifs <;> omega

end SizeRule

section Deciding

/-- An approver's funded calibration build. -/
structure Calibration where
  approver : String
  reason : String
  eventId : String
deriving DecidableEq

structure CellView where
  size : Tier
  standard : String
  ceiling : Bool
deriving DecidableEq

/-- The gate's decision for one item; without a code the item enters. -/
structure Entry where
  code : Option Stop
  reason : String
  reasonCode : String
  needs : List String
  standard : Option Standard
  cells : List CellView
  calibration : Option Calibration
  overrideBy : String
deriving DecidableEq

def Entry.enters (e : Entry) : Bool := e.code.isNone

def Entry.arm (e : Entry) : String := (e.standard.map (·.arm)).getD ""

/-- `Entry()`. -/
def Entry.blank : Entry := ⟨none, "", "", [], none, [], none, ""⟩

def cellsView (read : List Read) : List CellView :=
  read.map fun r => ⟨r.1, (r.2.map (·.arm)).getD "", (r.2.map (·.ceiling)).getD false⟩

def andJoined (sizes : List Tier) : String := String.intercalate " and " (sizes.map Tier.name)

/-- `_cells`. -/
def cellsWord (named : List Tier) (possessive : Bool) : String :=
  if possessive then if named.length = 1 then "cell's" else "cells'"
  else if named.length = 1 then "cell" else "cells"

def needsText (base : String) : String :=
  if base = baseS1 then "the structural facts the test author reads, one `slot: text` line each"
  else "a failing test a person wrote, attached to the ticket before any build"

def needFailingTest : String := "a failing test"

/-- What the decision is about, but for the cells. -/
structure Ticket where
  capabilityClass : String
  missingSlots : List String
  personTest : Bool
  author : Option String

/-- The stop of a missing standard or of missing context. -/
def contextStop (t : Ticket) (standard : Option Standard) (named : List Tier)
    (cells : List CellView) : Option Entry :=
  let cell := t.capabilityClass ++ " " ++ andJoined named
  match standard with
  | none => some ⟨some .noProvenStandard, "no context standard is proven for the " ++ cell ++ " " ++
      cellsWord named false ++ ": it is not built. Measure the cell, or an approver may fund one " ++
      "calibration build, which never opens a pull request", "none", [], none, cells, none, ""⟩
  | some s =>
    let head := "the " ++ cell ++ " " ++ cellsWord named true ++ " standard is " ++ s.arm
    if s.ceiling then some ⟨some .noProvenStandard, "the " ++ cell ++ " " ++ cellsWord named true ++
      " standard is an S3 ceiling — the commits' own tests, which a ticket never carries — so it " ++
      "licenses nothing: it is not built. Measure the cell, or an approver may fund one " ++
      "calibration build, which never opens a pull request", "ceiling", [], some s, cells, none, ""⟩
    else if s.base = baseS1 ∧ t.missingSlots ≠ [] then
      some ⟨some .needsContext, head ++ ", which needs " ++ needsText baseS1 ++ "; missing: " ++
        commaJoined t.missingSlots, baseS1, t.missingSlots, some s, cells, none, ""⟩
    else if s.base = baseS1 ∧ t.author.isSome ∧ authorOf s.arm ≠ "" ∧
        t.author ≠ some (authorOf s.arm) then
      some ⟨some .needsContext, head ++ ", measured with tests written by " ++ authorOf s.arm ++
        "; this run's test would be written by " ++
        (if t.author = some "" then "nobody" else t.author.getD "") ++
        ", an arm nobody measured, so it is not built. Run it with the standard's test author, " ++
        "or an approver may fund one calibration build of the other arm", baseS1,
        [needFailingTest ++ " written by " ++ authorOf s.arm ++ ", the standard's test author"],
        some s, cells, none, ""⟩
    else if s.base = baseS2 ∧ !t.personTest then
      some ⟨some .needsContext, head ++ ", which needs " ++ needsText baseS2, baseS2,
        [needFailingTest], some s, cells, none, ""⟩
    else none

/-- The decision once the cells are read: first the standard and its context, which a calibration
answers, then the signatures of every cell read, which an override lifts. -/
def decideRead (t : Ticket) (first : Read) (rest : List Read) (calibration : Option Calibration)
    (requireSignedCell : Bool) (overrideBy : String) : Entry :=
  let read := first :: rest
  let cells := cellsView read
  let standard := (moreDemanding first rest).2
  let named := (read.filter fun r => demand r.2 = demand standard).map Prod.fst
  match contextStop t standard named cells with
  | some stop =>
    match calibration, stop.code with
    | some c, some code =>
      if code ∈ calibratable then
        ⟨none, "calibration build funded by " ++ c.approver ++ ": " ++ c.reason ++ " (answers " ++
          code.text ++ ")", code.text, [], standard, cells, some c, ""⟩
      else stop
    | _, _ => stop
  | none =>
    let unsigned := (read.filter fun r => !standardSigned r.2).map Prod.fst
    if requireSignedCell ∧ unsigned ≠ [] then
      if overrideBy = "" then
        ⟨some .unsignedCell, "the " ++ t.capabilityClass ++ " " ++ andJoined unsigned ++ " " ++
          cellsWord unsigned true ++ " standard is proven but has no active sign-off: it is not " ++
          "built. A second person signs the cell, or an approver's named override licenses this " ++
          "one run (it lifts only the sign-off)", Stop.unsignedCell.text, [], standard, cells,
          none, ""⟩
      else ⟨none, "", "", [], standard, cells, none, overrideBy⟩
    else ⟨none, "", "", [], standard, cells, none, ""⟩

/-- The size to read from, or the stop of an item that has none or reaches the size to split. -/
def sizeStop (size : Option Tier) (agreementPassed : Bool) : Entry ⊕ Tier :=
  match size with
  | none => .inl ⟨some .unsized, "the item carries no size estimate, so it cannot claim a cell — " ++
      "a person sizes it (story points on the ticket, or an operator's estimate)",
      Stop.unsized.text, [], none, [], none, ""⟩
  | some size =>
    let sizes := sizesToRead size agreementPassed
    if sizeGranularize ∈ sizes then
      .inl ⟨some .granularize, "the size rule reads " ++ andJoined sizes ++ " for an estimate of " ++
        size.name ++ (if agreementPassed then "" else
          " (the points-to-churn agreement has not passed)") ++ ", and " ++ sizeGranularize.name ++
        " changes are split before any attempt: split the ticket into smaller ones",
        Stop.granularize.text, [], none, sizes.map fun s => ⟨s, "", false⟩, none, ""⟩
    else .inr size

lemma sizeStop_inl {size : Option Tier} {agreementPassed : Bool} {stop : Entry}
    (h : sizeStop size agreementPassed = .inl stop) : stop.enters = false := by
  cases size with
  | none =>
    rw [← Sum.inl.inj h]
    rfl
  | some size =>
    simp only [sizeStop] at h
    by_cases hmem : sizeGranularize ∈ sizesToRead size agreementPassed
    · rw [if_pos hmem] at h
      rw [← Sum.inl.inj h]
      rfl
    · rw [if_neg hmem] at h
      cases h

lemma sizeStop_inr {size : Option Tier} {agreementPassed : Bool} {own : Tier}
    (h : sizeStop size agreementPassed = .inr own) : size = some own := by
  cases size with
  | none => cases h
  | some size =>
    simp only [sizeStop] at h
    by_cases hmem : sizeGranularize ∈ sizesToRead size agreementPassed
    · rw [if_pos hmem] at h
      cases h
    · rw [if_neg hmem] at h
      rw [Sum.inr.inj h]

/-- What the arm of a standard needs is there. -/
structure ContextPresent (t : Ticket) (s : Standard) : Prop where
  slots : s.base = baseS1 → t.missingSlots = []
  author : s.base = baseS1 → ∀ a, t.author = some a → authorOf s.arm = "" ∨ a = authorOf s.arm
  test : s.base = baseS2 → t.personTest = true

lemma contextStop_eq_none {t : Ticket} {standard : Option Standard} {named : List Tier}
    {cells : List CellView} (h : contextStop t standard named cells = none) :
    ∃ s, standard = some s ∧ s.ceiling = false ∧ ContextPresent t s := by
  cases standard with
  | none => cases h
  | some s =>
    simp only [contextStop] at h
    split_ifs at h with h1 h2 h3 h4
    refine ⟨s, rfl, by simpa using h1, fun hb => ?_, fun hb a ha => ?_, fun hb => ?_⟩
    · by_contra hne
      exact h2 ⟨hb, hne⟩
    · by_contra hne
      rw [not_or] at hne
      exact h3 ⟨hb, by simp [ha], hne.1, by simpa [ha] using hne.2⟩
    · by_contra hne
      exact h4 ⟨hb, by simpa using hne⟩

lemma contextStop_code {t : Ticket} {standard : Option Standard} {named : List Tier}
    {cells : List CellView} {stop : Entry} (h : contextStop t standard named cells = some stop) :
    ∃ code ∈ calibratable, stop.code = some code ∧ stop.calibration = none ∧
      stop.overrideBy = "" := by
  cases standard with
  | none =>
    obtain rfl := Option.some.inj h
    exact ⟨.noProvenStandard, by simp [calibratable], rfl, rfl, rfl⟩
  | some s =>
    simp only [contextStop] at h
    split_ifs at h <;> obtain rfl := Option.some.inj h
    · exact ⟨.noProvenStandard, by simp [calibratable], rfl, rfl, rfl⟩
    all_goals exact ⟨.needsContext, by simp [calibratable], rfl, rfl, rfl⟩

/-- Every cell read has a certifying standard, with what the one applied needs, and is signed
unless the clause is off or an override lifts it. -/
structure OnStandard (t : Ticket) (read : List Read) (requireSignedCell : Bool) (overrideBy : String)
    (e : Entry) : Prop where
  certifying : ∀ r ∈ read, ∃ s, r.2 = some s ∧ s.licenses = true
  applied : ∃ s, e.standard = some s ∧ (∃ r ∈ read, r.2 = some s) ∧ ContextPresent t s
  signed : e.overrideBy = "" → requireSignedCell = true →
    ∀ r ∈ read, standardSigned r.2 = true
  lifted : e.overrideBy ≠ "" → e.overrideBy = overrideBy ∧ requireSignedCell = true ∧
    ∃ r ∈ read, standardSigned r.2 = false

/-- What an entry means: the standards let the item in, or a grant answered one of the two stops
it may answer. -/
theorem decideRead_enters {t : Ticket} {first : Read} {rest : List Read}
    {calibration : Option Calibration} {requireSignedCell : Bool} {overrideBy : String} {e : Entry}
    (he : decideRead t first rest calibration requireSignedCell overrideBy = e)
    (henters : e.enters = true) :
    e.calibration = none ∧ OnStandard t (first :: rest) requireSignedCell overrideBy e ∨
      ∃ c, e.calibration = some c ∧ calibration = some c ∧ e.overrideBy = "" ∧
        ∃ code ∈ calibratable, e.reasonCode = code.text := by
  subst he
  unfold decideRead at henters ⊢
  dsimp only at henters ⊢
  cases hstop : contextStop t (moreDemanding first rest).2 _ _ with
  | some stop =>
    obtain ⟨code, hcal, hcode, hnone, hover⟩ := contextStop_code hstop
    rw [hstop] at henters
    cases calibration with
    | none => simp [Entry.enters, hcode] at henters
    | some c =>
      dsimp only
      rw [hcode]
      dsimp only
      rw [if_pos hcal]
      exact .inr ⟨c, rfl, rfl, rfl, code, hcal, rfl⟩
  | none =>
    obtain ⟨s, hs, hceiling, hcontext⟩ := contextStop_eq_none hstop
    rw [hstop] at henters
    have hcert : ∀ r ∈ first :: rest, ∃ s, r.2 = some s ∧ s.licenses = true := fun r hr =>
      licenses_of_demand_lt ((demand_le_moreDemanding first rest r hr).trans_lt
        (by rw [hs]; exact demand_lt_of_licensing hceiling))
    have happ : ∃ s', (moreDemanding first rest).2 = some s' ∧
        (∃ r ∈ first :: rest, r.2 = some s') ∧ ContextPresent t s' :=
      ⟨s, hs, ⟨_, moreDemanding_mem first rest, hs⟩, hcontext⟩
    dsimp only at henters ⊢
    by_cases hsign : requireSignedCell = true ∧
      ((first :: rest).filter fun r => !standardSigned r.2).map Prod.fst ≠ []
    · rw [if_pos hsign] at henters ⊢
      by_cases hover : overrideBy = ""
      · rw [if_pos hover] at henters
        cases henters
      · rw [if_neg hover]
        refine .inl ⟨rfl, hcert, happ, fun h => absurd h hover, fun _ => ⟨rfl, hsign.1, ?_⟩⟩
        obtain ⟨r, hr⟩ := List.exists_mem_of_ne_nil ((first :: rest).filter fun r =>
          !standardSigned r.2) fun hnil => hsign.2 (by rw [hnil]; rfl)
        obtain ⟨hr, hunsigned⟩ := List.mem_filter.mp hr
        exact ⟨r, hr, by simpa using hunsigned⟩
    · rw [if_neg hsign]
      refine .inl ⟨rfl, hcert, happ, fun _ hreq r hr => ?_, fun h => absurd rfl h⟩
      by_contra hunsigned
      refine hsign ⟨hreq, fun hnil => ?_⟩
      have hmem : r ∈ (first :: rest).filter fun r => !standardSigned r.2 :=
        List.mem_filter.mpr ⟨hr, by simpa using hunsigned⟩
      rw [List.map_eq_nil_iff.mp hnil] at hmem
      cases hmem

/-- A grant changes nothing but a stop that a calibration build may answer. -/
theorem grant_answers (t : Ticket) (first : Read) (rest : List Read) (c : Calibration)
    (requireSignedCell : Bool) (overrideBy : String) :
    decideRead t first rest (some c) requireSignedCell overrideBy =
        decideRead t first rest none requireSignedCell overrideBy ∨
      ∃ code ∈ calibratable,
        (decideRead t first rest none requireSignedCell overrideBy).code = some code := by
  unfold decideRead
  dsimp only
  cases hstop : contextStop t (moreDemanding first rest).2 _ _ with
  | none => exact .inl rfl
  | some stop =>
    obtain ⟨code, hcal, hcode, -, -⟩ := contextStop_code hstop
    exact .inr ⟨code, hcal, hcode⟩

/-- An override changes nothing but the stop of an unsigned cell. -/
theorem override_answers (t : Ticket) (first : Read) (rest : List Read)
    (calibration : Option Calibration) (requireSignedCell : Bool) (overrideBy : String) :
    decideRead t first rest calibration requireSignedCell overrideBy =
        decideRead t first rest calibration requireSignedCell "" ∨
      (decideRead t first rest calibration requireSignedCell "").code = some .unsignedCell := by
  unfold decideRead
  dsimp only
  cases hstop : contextStop t (moreDemanding first rest).2 _ _ with
  | some stop => exact .inl rfl
  | none =>
    dsimp only
    by_cases hsign : requireSignedCell = true ∧
      ((first :: rest).filter fun r => !standardSigned r.2).map Prod.fst ≠ []
    · right
      rw [if_pos hsign, if_pos rfl]
    · left
      rw [if_neg hsign, if_neg hsign]

end Deciding

section Licences

/-- What licensed, or refused, a delivery. -/
structure Licence where
  code : Option Stop
  reason : String
  cell : CellRef
  standard : Option Standard
  estimate : Option Tier
  measured : Tier

def Licence.licensed (l : Licence) : Bool := l.code.isNone

/-- `_licenses_arm`. -/
def licensesArm (standard : Option Standard) (arm : String) : Bool :=
  match standard with
  | none => false
  | some s => s.licenses && s.arm = arm

/-- `own_cell_licence`, given the standard its reader answers for the cell. -/
def ownCellLicence (cell : CellRef) (estimate : Option Tier) (measured : Tier)
    (standard : Option Standard) : Licence :=
  let rung := cell.builder ++ ":" ++ cell.model
  let what := match standard with
    | none => "no standard"
    | some s => if s.licenses then "the standard " ++ s.arm ++ ", not " ++ cell.arm ++
        ", the arm this build carried" else "only " ++ s.arm ++ ", a ceiling"
  if licensesArm standard cell.arm then ⟨none, "", cell, standard, estimate, measured⟩
  else if estimate.any fun e => e.rank < measured.rank then
    ⟨some .sizeExceedsLicence, "the change built is " ++ measured.name ++
      " (its churn) where the item was estimated " ++ sizeName estimate ++ ", and the " ++
      cell.capabilityClass ++ " " ++ measured.name ++ " cell for " ++ rung ++ " has " ++ what ++
      ": no pull request", cell, standard, estimate, measured⟩
  else
    ⟨some .cellNotLicensed, "the delivered change's own cell (" ++ cell.capabilityClass ++ " " ++
      measured.name ++ ", " ++ rung ++ ") has " ++ what ++ ": no pull request", cell, standard,
      estimate, measured⟩

lemma ownCellLicence_licensed {cell : CellRef} {estimate : Option Tier} {measured : Tier}
    {standard : Option Standard} (h : (ownCellLicence cell estimate measured standard).licensed = true) :
    ∃ s, standard = some s ∧ s.licenses = true ∧ s.arm = cell.arm := by
  unfold ownCellLicence at h
  dsimp only at h
  by_cases harm : licensesArm standard cell.arm = true
  · cases standard with
    | none => cases harm
    | some s =>
      simp only [licensesArm, Bool.and_eq_true, decide_eq_true_eq] at harm
      exact ⟨s, rfl, harm.1, harm.2⟩
  · rw [if_neg harm] at h
    split at h <;> cases h

@[simp] lemma ownCellLicence_standard (cell : CellRef) (estimate : Option Tier) (measured : Tier)
    (standard : Option Standard) :
    (ownCellLicence cell estimate measured standard).standard = standard := by
  unfold ownCellLicence
  dsimp only
  split_ifs <;> rfl

end Licences

end CommitReplay.ContextStandard
