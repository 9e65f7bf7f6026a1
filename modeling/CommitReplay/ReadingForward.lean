import CommitReplay.ReadingArms
import Mathlib.Data.List.Dedup

/-! The arm of a forward reading under the first-observed rule: each enrolled ticket is read by its
first factory attempt after the registration, and there is no re-run. -/
namespace CommitReplay.ReadingForward

open CommitReplay.JsonText CommitReplay.RowChecks CommitReplay.LookRule CommitReplay.ReadingRows
open CommitReplay.ReadingRecord CommitReplay.ReadingArms

section Tickets

variable {F N : Type} (r : Reading N) (row : Row F)

/-- `dict(reading.enrolled).get(item, "")`. -/
def enrolledRecord (item : String) : String := (r.enrolled.reverse.lookup item).getD ""

/-- Built by another builder, model or provider than the cell's. -/
def otherCell : Bool :=
  row.str .builder ≠ r.cell.get "builder" || row.str .model ≠ r.cell.get "model" ||
    row.str .provider ≠ r.cell.get "provider"

end Tickets

variable {F N : Type} [PyFloat F] (parseTs : String → Option ℤ)

section Enrolment

/-- The record of one ticket's held-out tests, as far as a reading reads it. -/
structure HeldOutTests where
  repo : String
  itemId : String
  writtenAt : String
  capabilityClass : String
  size : String
  language : String
  recordId : String

/-- Written strictly after the registration, for a ticket of the reading's class, size and
language. -/
def enrols (r : Reading N) (rec : HeldOutTests) : Bool :=
  (match parseTs r.registeredAt, parseTs rec.writtenAt with
    | some registered, some written => registered < written
    | _, _ => false) &&
  rec.repo = r.repo && rec.capabilityClass = r.cell.get "capability_class" &&
    rec.size = r.cell.get "size" && rec.language = r.cell.get "language" && rec.itemId ≠ ""

/-- A ticket is enrolled once, by the first record that enrols it. -/
def enrol (r : Reading N) (enrolled : List (String × String)) (rec : HeldOutTests) :
    List (String × String) :=
  if enrols parseTs r rec = true ∧ rec.itemId ∉ enrolled.map Prod.fst then
    enrolled ++ [(rec.itemId, rec.recordId)]
  else enrolled

/-- The reading with its pool filled by the tickets enrolled. -/
def withTickets (r : Reading N) (enrolled : List (String × String)) : Reading N :=
  { r with pool := enrolled.map Prod.fst, enrolled }

def withEnrolment (r : Reading N) (records : List HeldOutTests) : Reading N :=
  if r.prospective then withTickets r (records.foldl (enrol parseTs r) []) else r

end Enrolment

/-- The admitted factory attempts of the enrolled tickets, in ledger order. -/
def ticketAttempts (r : Reading N) (rows : List (Row F)) : List (Row F) :=
  rows.filter fun row =>
    row.labelStr "item_id" ∈ r.pool && forwardAttempt parseTs r row && admittedRun r row

def readTicket (r : Reading N) (arm : String) (attempts : List (Row F)) (item : String) :
    CommitReading :=
  match attempts.find? fun row => row.labelStr "item_id" = item with
  | none => ⟨item, item, none, none, "", none, none⟩
  | some row =>
    let leaves (why : Left) : CommitReading := ⟨item, item, none, some why, row.rowHash, none, none⟩
    if forwardMiss parseTs r arm row ≠ none ∨
        row.labelStr "acceptance_id" ≠ enrolledRecord r item then leaves .notGraded
    else if otherCell r row then leaves .otherCell
    else if row.hasFailureKind "harness" then leaves .harness
    else if row.hasFailureKind "outage" then leaves .unobserved
    else if row.heldOutResult = "error" then leaves .heldOutError
    else if row.lintCouldChange ∧ row.heldOutResult = "pass" then leaves .lintDisabled
    else
      ⟨item, item, some (row.clean && !row.disqualified && row.heldOutResult = "pass"), none,
        row.rowHash, none, none⟩

/-- The tickets of the pool in enrolment order, as the arm reads them. -/
def ticketCommits (r : Reading N) (arm : String) (rows : List (Row F)) : List CommitReading :=
  r.pool.map (readTicket parseTs r arm (ticketAttempts parseTs r rows))

def armForward (r : Reading N) (arm : String) (rows : List (Row F)) :
    Except ReadingError ArmReading := do
  let attempts := ticketAttempts parseTs r rows
  let commits := ticketCommits parseTs r arm rows
  let look ← lookState ((commits.filter (·.left = none)).map CommitReading.outcome) r.rule true
  return { arm, look, commits, descriptive := false, stoppedBy := "", waiting := false, limit := 0
           scopeFaults := []
           unsealedDropped := 0
           -- every attempt of a ticket after its first
           duplicateCommits :=
            attempts.length - ((attempts.map (·.labelStr "item_id")).dedup).length }

variable {parseTs}

lemma commit_readTicket (r : Reading N) (arm : String) (attempts : List (Row F)) (item : String) :
    (readTicket parseTs r arm attempts item).commit = item := by
  unfold readTicket
  split
  · rfl
  · split_ifs <;> rfl

/-- A ticket without an attempt has no outcome, nor has one whose first attempt was not graded on the
record that enrolled it. -/
lemma outcome_readTicket_eq_none {r : Reading N} {arm : String} {attempts : List (Row F)}
    {item : String}
    (h : ∀ row, attempts.find? (fun row => row.labelStr "item_id" = item) = some row →
      row.heldOutGraded = false ∨ row.labelStr "acceptance_id" ≠ enrolledRecord r item) :
    (readTicket parseTs r arm attempts item).outcome = none := by
  unfold readTicket
  split
  · rfl
  · rename_i row hrow
    have hleft : forwardMiss parseTs r arm row ≠ none ∨
        row.labelStr "acceptance_id" ≠ enrolledRecord r item :=
      (h row hrow).imp_left fun hgraded => by simp [forwardMiss, hgraded]
    rw [if_pos hleft]

/-- A ticket read as a hit: a clean build of the reading's cell, graded by the held-out tests that
enrolled the ticket and passed. -/
theorem readTicket_hit {r : Reading N} {arm : String} {rows : List (Row F)} {item : String}
    (h : (readTicket parseTs r arm (ticketAttempts parseTs r rows) item).outcome = some true) :
    ∃ row ∈ rows, row.labelStr "item_id" = item ∧ admittedRun r row = true ∧
      forwardMiss parseTs r arm row = none ∧ row.labelStr "acceptance_id" = enrolledRecord r item ∧
      otherCell r row = false ∧ row.clean = true ∧ row.disqualified = false ∧
      row.lintCouldChange = false ∧ row.heldOutResult = "pass" := by
  unfold readTicket at h
  split at h
  · cases h
  · rename_i row hrow
    have hitem := List.find?_some hrow
    obtain ⟨hmem, hc⟩ := List.mem_filter.mp (List.mem_of_find?_eq_some hrow)
    simp only [Bool.and_eq_true, decide_eq_true_eq] at hc hitem
    split_ifs at h with hscope hcell _ _ _ hlint
    push Not at hscope
    have hhit := Option.some.inj h
    simp only [Bool.and_eq_true, Bool.not_eq_true', decide_eq_true_eq] at hhit
    obtain ⟨⟨hclean, hdq⟩, hpass⟩ := hhit
    exact ⟨row, hmem, hitem, hc.2, hscope.1, hscope.2, by simpa using hcell, hclean, hdq,
      by simpa [hpass] using hlint, hpass⟩

/-- What the arm of a forward reading is, once read. -/
lemma armForward_spec {r : Reading N} {arm : String} {rows : List (Row F)} {a : ArmReading}
    (h : armForward parseTs r arm rows = .ok a) :
    a.commits = ticketCommits parseTs r arm rows ∧
      lookState (a.kept.map CommitReading.outcome) r.rule true = .ok a.look ∧
      a.state = a.look.state ∧ a.limit = 0 := by
  obtain ⟨look, hlook, hret⟩ := bind_eq_ok.mp h
  obtain rfl := Except.ok.inj hret
  exact ⟨rfl, hlook, rfl, rfl⟩

lemma armForward_isOk {r : Reading N} {arm : String} {rows : List (Row F)} {look : LookState}
    (h : lookState (((ticketCommits parseTs r arm rows).filter (·.left = none)).map
      CommitReading.outcome) r.rule true = .ok look) :
    ∃ a, armForward parseTs r arm rows = .ok a ∧ a.look = look := by
  simp only [armForward, h, bind, Except.bind]
  exact ⟨_, rfl, rfl⟩

end CommitReplay.ReadingForward
