import CommitReplay.ReadingHierarchy

/-! What decides a forward reading is what was written first: of two logs that only grow, the records
that enrol tickets and the rows of the ledger, each ticket keeps its first record and its first
attempt. -/
namespace CommitReplay.ForwardStability

open CommitReplay.PythonText CommitReplay.JsonText CommitReplay.JsonRoundTrip
open CommitReplay.RowChecks CommitReplay.LookRule
open CommitReplay.ReadingRows CommitReplay.ReadingRecord CommitReplay.ReadingArms
open CommitReplay.ReadingForward CommitReplay.ReadingHierarchy

variable {parseTs : String → Option ℤ} {r : Reading N}

section Enrolment

/-- Later records enrol other tickets only. -/
lemma foldl_enrol (parseTs : String → Option ℤ) (r : Reading N) (records : List HeldOutTests) (enrolled : List (String × String)) :
    ∃ extra, records.foldl (enrol parseTs r) enrolled = enrolled ++ extra ∧
      ∀ p ∈ extra, p.1 ∉ enrolled.map Prod.fst := by
  induction records generalizing enrolled with
  | nil => exact ⟨[], by simp⟩
  | cons rec records ih =>
    rw [List.foldl_cons, enrol]
    split_ifs with h
    · obtain ⟨extra, he, hout⟩ := ih (enrolled ++ [(rec.itemId, rec.recordId)])
      refine ⟨(rec.itemId, rec.recordId) :: extra, by simp [he], fun p hp => ?_⟩
      rcases List.mem_cons.mp hp with rfl | hp
      · exact h.2
      · exact fun hin => hout p hp (by
          rw [List.map_append]
          exact List.mem_append_left _ hin)
    · exact ih enrolled

/-- The pool only grows, and a ticket keeps the record that enrolled it. -/
lemma withEnrolment_append (parseTs : String → Option ℤ) (hforward : r.prospective = true) (records more : List HeldOutTests) :
    ∃ enrolled extra, withEnrolment parseTs r records = withTickets r enrolled ∧
      withEnrolment parseTs r (records ++ more) = withTickets r (enrolled ++ extra) ∧
      ∀ p ∈ extra, p.1 ∉ enrolled.map Prod.fst := by
  obtain ⟨extra, he, hout⟩ := foldl_enrol parseTs r more (records.foldl (enrol parseTs r) [])
  refine ⟨records.foldl (enrol parseTs r) [], extra, ?_, ?_, hout⟩
  · simp only [withEnrolment, hforward, if_true]
  · simp only [withEnrolment, hforward, if_true, List.foldl_append, he]

lemma lookup_eq_none_of_not_mem {ps : List (String × String)} {k : String}
    (h : ∀ p ∈ ps, p.1 ≠ k) : ps.lookup k = none := by
  rw [List.lookup_eq_none_iff]
  intro p hp
  simpa using fun he => h p hp he.symm

end Enrolment

section Tickets

variable {F N : Type} [PyFloat F]

/-- A row is an attempt of the ticket that the reading may read. -/
def attempts (parseTs : String → Option ℤ) (r : Reading N) (item : String) (row : Row F) : Bool :=
  row.labelStr "item_id" = item && forwardAttempt parseTs r row && admittedRun r row

omit [PyFloat F] in
/-- The first attempt of an enrolled ticket is its first in the ledger. -/
lemma find?_ticketAttempts {rows : List (Row F)} {item : String} (h : item ∈ r.pool) :
    ((ticketAttempts parseTs r rows).find? fun row => row.labelStr "item_id" = item) =
      rows.find? (attempts parseTs r item) := by
  rw [ticketAttempts, List.find?_filter]
  refine List.find?_congr fun row _ => ?_
  by_cases hi : row.labelStr "item_id" = item
  · simp [attempts, hi, h]
  · simp [attempts, hi]

variable {enrolled extra : List (String × String)} {arm : String} {rows added : List (Row F)}

/-- A ticket that has an attempt is read the same with more tickets enrolled and more rows. -/
lemma readTicket_append (hextra : ∀ p ∈ extra, p.1 ∉ enrolled.map Prod.fst) {item : String}
    (hitem : item ∈ enrolled.map Prod.fst) {row : Row F}
    (hrow : rows.find? (attempts parseTs r item) = some row) :
    readTicket parseTs (withTickets r (enrolled ++ extra)) arm
        (ticketAttempts parseTs (withTickets r (enrolled ++ extra)) (rows ++ added)) item =
      readTicket parseTs (withTickets r enrolled) arm
        (ticketAttempts parseTs (withTickets r enrolled) rows) item := by
  have hitem' : item ∈ (withTickets r (enrolled ++ extra)).pool := by
    rw [withTickets, List.map_append]
    exact List.mem_append_left _ hitem
  have hrecord : enrolledRecord (withTickets r (enrolled ++ extra)) item =
      enrolledRecord (withTickets r enrolled) item := by
    have hnone : extra.reverse.lookup item = none :=
      lookup_eq_none_of_not_mem fun p hp he =>
        hextra p (List.mem_reverse.mp hp) (he ▸ hitem)
    simp [enrolledRecord, withTickets, List.reverse_append, List.lookup_append, hnone]
  have hfirst : ∀ enrolled, rows.find? (attempts parseTs (withTickets r enrolled) item) =
      some row := fun _ => hrow
  unfold readTicket
  rw [find?_ticketAttempts hitem', find?_ticketAttempts hitem, List.find?_append, hfirst, hfirst,
    Option.some_or]
  simp only [hrecord]
  rfl

omit [PyFloat F] in
/-- What is kept of a pool up to its decided commits is kept of a longer one that reads them so. -/
lemma take_kept {pool more : List String} {read read' : String → CommitReading}
    (h : ∀ item ∈ pool, (read item).left ≠ none ∨ (read item).outcome ≠ none →
      read' item = read item) {j : ℕ}
    (hsize : j ≤ ((pool.map read).filter (·.left = none)).length)
    (hdecided : none ∉ (((pool.map read).filter (·.left = none)).map
      CommitReading.outcome).take j) :
    (((pool ++ more).map read').filter (·.left = none)).take j =
      ((pool.map read).filter (·.left = none)).take j := by
  induction pool generalizing j with
  | nil =>
    obtain rfl : j = 0 := by simpa using hsize
    simp
  | cons item pool ih =>
    have hrest : ∀ item ∈ pool, (read item).left ≠ none ∨ (read item).outcome ≠ none →
        read' item = read item := fun item hitem => h item (List.mem_cons_of_mem _ hitem)
    by_cases hleft : (read item).left = none
    · rcases Nat.eq_zero_or_pos j with rfl | hj
      · simp
      obtain ⟨i, rfl⟩ := Nat.exists_eq_succ_of_ne_zero (Nat.pos_iff_ne_zero.mp hj)
      have hout : (read item).outcome ≠ none := fun hn => hdecided (by simp [hleft, hn])
      have hsame := h item List.mem_cons_self (.inr hout)
      have hih := ih hrest (j := i) (by simpa [hleft] using hsize)
        (fun hn => hdecided (by simpa [hleft] using .inr hn))
      simpa [hsame, hleft] using hih
    · have hsame := h item List.mem_cons_self (.inl hleft)
      have hih := ih hrest (j := j) (by simpa [hleft] using hsize)
        (by simpa [hleft] using hdecided)
      simpa [hsame, hleft] using hih

end Tickets

section Decision

variable {F N : Type} [PyFloat F] {records more : List HeldOutTests} {arm : String}
  {rows added : List (Row F)}

lemma armReading_forward (hrule : r.attemptRule = "") (hforward : r.prospective = true)
    (records : List HeldOutTests) (arm : String) (rows : List (Row F)) (limit : ℤ) :
    armReading parseTs (withEnrolment parseTs r records) arm rows limit =
      armForward parseTs (withEnrolment parseTs r records) arm
        (if r.admissionsUnread then [] else rows) := by
  obtain ⟨enrolled, -, he, -⟩ := withEnrolment_append parseTs hforward records []
  rw [he]
  have hreserved : (withTickets r enrolled).reserved = false := by
    simp [Reading.reserved, withTickets, hrule, attemptRuleReserved]
  have hprospective : (withTickets r enrolled).prospective = true := hforward
  simp only [armReading, hreserved, hprospective, Bool.false_eq_true, if_false, if_true]
  rfl

variable (added) in
/-- The tickets kept up to the decided ones are kept so with more records and more rows. -/
lemma take_ticketCommits {enrolled extra : List (String × String)} {j : ℕ}
    (hextra : ∀ p ∈ extra, p.1 ∉ enrolled.map Prod.fst)
    (hsize : j ≤ ((ticketCommits parseTs (withTickets r enrolled) arm rows).filter
      (·.left = none)).length)
    (hnone : none ∉ (((ticketCommits parseTs (withTickets r enrolled) arm rows).filter
      (·.left = none)).map CommitReading.outcome).take j) :
    ((ticketCommits parseTs (withTickets r (enrolled ++ extra)) arm (rows ++ added)).filter
        (·.left = none)).take j =
      ((ticketCommits parseTs (withTickets r enrolled) arm rows).filter (·.left = none)).take j := by
  have hpool : (withTickets r (enrolled ++ extra)).pool =
      (withTickets r enrolled).pool ++ extra.map Prod.fst := List.map_append
  rw [ticketCommits, hpool]
  refine take_kept (fun item hitem hdecided => ?_) hsize hnone
  cases hrow : rows.find? (attempts parseTs r item) with
  | none =>
    exfalso
    have hread : (ticketAttempts parseTs (withTickets r enrolled) rows).find?
        (fun row => row.labelStr "item_id" = item) = none :=
      (find?_ticketAttempts hitem).trans hrow
    rw [readTicket, hread] at hdecided
    simp at hdecided
  | some row => exact readTicket_append hextra hitem hrow

variable (more added) in
lemma armForward_append (hforward : r.prospective = true) {a : ArmReading}
    (ha : armForward parseTs (withEnrolment parseTs r records) arm rows = .ok a)
    (hd : a.state = .deliver ∨ a.state = .insufficient) :
    ∃ a', armForward parseTs (withEnrolment parseTs r (records ++ more)) arm (rows ++ added) =
        .ok a' ∧ a'.state = a.state ∧ a'.look = a.look ∧
      a'.countedCommits = a.countedCommits ∧
      a'.kept.take a.look.counted = a.kept.take a.look.counted := by
  obtain ⟨enrolled, extra, he, he', hextra⟩ := withEnrolment_append parseTs hforward records more
  rw [he] at ha
  rw [he']
  obtain ⟨hcommits, hlook, hstate, hlimit⟩ := armForward_spec ha
  have hs : a.look.state ≠ .lookPending ∧ a.look.state ≠ .undecided := by
    rw [← hstate]
    rcases hd with hd | hd <;> rw [hd] <;> exact ⟨nofun, nofun⟩
  obtain ⟨-, hnone, hsize, -⟩ := lookState_of_take hlook hs rfl
  rw [List.length_map] at hsize
  rw [ArmReading.kept, hcommits] at hnone hsize hlook
  have htake := take_ticketCommits added hextra hsize hnone
  have hlook' : lookState (((ticketCommits parseTs (withTickets r (enrolled ++ extra)) arm
      (rows ++ added)).filter (·.left = none)).map CommitReading.outcome)
      (withTickets r (enrolled ++ extra)).rule true = .ok a.look :=
    (lookState_of_take hlook hs (by rw [← List.map_take, htake, List.map_take])).1
  obtain ⟨a', ha', hal⟩ := armForward_isOk hlook'
  obtain ⟨hcommits', -, hstate', hlimit'⟩ := armForward_spec ha'
  have hkept : a'.kept.take a.look.counted = a.kept.take a.look.counted := by
    rw [ArmReading.kept, ArmReading.kept, hcommits, hcommits', htake]
  refine ⟨a', ha', by rw [hstate, hstate', hal], hal, ?_, hkept⟩
  simp only [ArmReading.countedCommits, hlimit, hlimit', hal, hkept, ne_eq, not_true_eq_false,
    if_false]

/-- A ticket whose first attempt was not graded on the record that enrolled it. -/
def NotGraded (parseTs : String → Option ℤ) (r : Reading N) (records : List HeldOutTests)
    (rows : List (Row F)) (item : String) : Prop :=
  item ∈ (withEnrolment parseTs r records).pool ∧
    ∃ row, rows.find? (attempts parseTs r item) = some row ∧ (row.heldOutGraded = false ∨
      row.labelStr "acceptance_id" ≠ enrolledRecord (withEnrolment parseTs r records) item)

/-- A forward reading under the first-observed rule is decided by what was written first: once its
arm has a decision it keeps its state, its look, the tickets it counted and their outcomes, whatever
records and rows come; and a ticket whose first attempt was not graded on the record that enrolled
it never has an outcome. -/
theorem forward_decision_fixed (hrule : r.attemptRule = "") (hforward : r.prospective = true)
    (limit : ℤ) :
    (∀ a, armReading parseTs (withEnrolment parseTs r records) arm rows limit = .ok a →
      a.state = .deliver ∨ a.state = .insufficient →
      ∃ a', armReading parseTs (withEnrolment parseTs r (records ++ more)) arm (rows ++ added)
          limit = .ok a' ∧ a'.state = a.state ∧ a'.look = a.look ∧
        a'.countedCommits = a.countedCommits ∧
        a'.kept.take a.look.counted = a.kept.take a.look.counted) ∧
    ∀ item, NotGraded parseTs r records rows item → ∀ a',
      armReading parseTs (withEnrolment parseTs r (records ++ more)) arm (rows ++ added) limit =
        .ok a' → ∀ c ∈ a'.commits, c.commit = item → c.outcome = none := by
  refine ⟨fun a ha hd => ?_, fun item hitem a' ha' c hc hcommit => ?_⟩
  · rw [armReading_forward hrule hforward] at ha ⊢
    by_cases hunread : r.admissionsUnread = true
    · rw [if_pos hunread] at ha ⊢
      simpa using armForward_append more [] hforward ha hd
    · rw [if_neg hunread] at ha ⊢
      exact armForward_append more added hforward ha hd
  · obtain ⟨hpool, row, hrow, hwhy⟩ := hitem
    obtain ⟨enrolled, extra, he, he', hextra⟩ := withEnrolment_append parseTs hforward records more
    rw [armReading_forward hrule hforward, he'] at ha'
    rw [he] at hpool hwhy
    rw [(armForward_spec ha').1] at hc
    obtain ⟨item', -, rfl⟩ := List.mem_map.mp hc
    rw [commit_readTicket] at hcommit
    subst hcommit
    by_cases hunread : r.admissionsUnread = true
    · rw [if_pos hunread]
      exact outcome_readTicket_eq_none (by simp [ticketAttempts])
    · rw [if_neg hunread, readTicket_append hextra hpool hrow]
      refine outcome_readTicket_eq_none fun row' hrow' => ?_
      rw [find?_ticketAttempts hpool] at hrow'
      obtain rfl : row = row' := Option.some.inj (hrow.symm.trans hrow')
      exact hwhy

/-- A factory attempt of a ticket, graded on its held-out tests. -/
def ticketRow (item result : String) : Row Whole where
  val
    | .processStep => .str "factory"
    | f => (sampleRow item).val f
  labels := [("acceptance", .str "held_out"), ("acceptance_id", .str ("hot_" ++ item)),
    ("acceptance_result", .str result), ("acceptance_sha256", .str "d"),
    ("context_arm", .str "S2"), ("item_id", .str item)]
  rowHash := item

def ticketRecord (item : String) : HeldOutTests where
  repo := (sampleRow "").str .repo
  itemId := item
  writtenAt := "2026-01-02T00:00:00Z"
  capabilityClass := (ticketRow "" "").cell.get "capability_class"
  size := (ticketRow "" "").cell.get "size"
  language := (ticketRow "" "").cell.get "language"
  recordId := "hot_" ++ item

def forwardSample : Reading ℚ where
  toBody := { sampleReading.toBody with
    poolRule := poolRuleCalibration, hierarchy := ["S2"], cell := (ticketRow "" "").cell, pool := [] }
  readingId := "rdg_4"
  enrolled := []
  admitted := none
  registeredEventId := 0
  reservations := none
  poolDrift := []

/-- Three tickets failed; a pass of the first and a fourth ticket come too late. -/
theorem forward_decision_fixed_forwardSample :
    ∃ a a', armReading sampleTs (withEnrolment sampleTs forwardSample
        (["a", "b", "c"].map ticketRecord)) "S2"
        (["a", "b", "c"].map fun item => ticketRow item "fail") 0 = .ok a ∧
      armReading sampleTs (withEnrolment sampleTs forwardSample
        (["a", "b", "c"].map ticketRecord ++ [ticketRecord "d"])) "S2"
        ((["a", "b", "c"].map fun item => ticketRow item "fail") ++ [ticketRow "a" "pass"]) 0 =
          .ok a' ∧ a.state = .insufficient ∧ a'.state = a.state := by
  obtain ⟨a, ha, hd⟩ := exists_ok_of_map_toOption
    (show (armReading sampleTs (withEnrolment sampleTs forwardSample
      (["a", "b", "c"].map ticketRecord)) "S2"
      (["a", "b", "c"].map fun item => ticketRow item "fail") 0).toOption.map ArmReading.state =
        some .insufficient by rfl)
  obtain ⟨a', ha', hs, -⟩ := (forward_decision_fixed rfl rfl 0).1 a ha (.inr hd)
  exact ⟨a, a', ha, ha', hd, hs⟩

end Decision

end CommitReplay.ForwardStability
