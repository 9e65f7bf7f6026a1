import CommitReplay.ReservedDecides

/-! A miss of a reserved reading is final: rows that come later, and reservations that come or settle
later, never make it a hit, so an arm that read insufficient never delivers. -/
namespace CommitReplay.ReservedFinality

open CommitReplay.PythonText CommitReplay.JsonText CommitReplay.JsonRoundTrip
open CommitReplay.ContextArms CommitReplay.RowChecks CommitReplay.LookRule
open CommitReplay.ReadingRows CommitReplay.ReadingRecord CommitReplay.ReadingArms
open CommitReplay.ReadingReserved CommitReplay.ReadingReplay CommitReplay.ReadingHierarchy
open CommitReplay.ReservedDecides

variable {F N : Type} [PyFloat F] {parseTs : String → Option ℤ}

/-- What may come after a reading was read: reservations of units that had none, reservations that
settle, and rows, none of them of the run and claim of a reservation that had settled. -/
structure Later (r r' : Reading N) (added : List (Row F)) : Prop where
  reading : r' = { r with reservations := r'.reservations }
  kept : ∀ arm unit res, r.reservation arm unit = some res → ∃ settled,
    (res.settled = true → settled = true) ∧ r'.reservation arm unit = some { res with settled }
  guarded : ∀ row ∈ added, ∀ res ∈ r.reservations.getD [], res.settled = true →
    ¬ (row.str .runId = res.runId ∧ row.labelStr "claim" = toString res.claim)

section Candidates

variable (r : Reading N) (res : Reservation) (rows added : List (Row F))

omit [PyFloat F] in
/-- The stamped rows are the candidates' rows and more. -/
lemma reservedCandidates_stamped :
    reservedCandidates r res (stamped res rows) = reservedCandidates r res rows := by
  unfold reservedCandidates stamped
  split_ifs with hevent
  · refine (List.filter_eq_nil_iff.mpr fun row _ => ?_).symm
    simp [wroteRow, hevent]
  · rw [List.filter_filter]
    refine List.filter_congr fun row _ => ?_
    by_cases hw : wroteRow r res row = true
    · have hlabel : row.labelStr "reservation" = res.eventId := by
        simp only [wroteRow, Bool.and_eq_true, decide_eq_true_eq] at hw
        exact hw.1.2
      simp [hw, hlabel]
    · simp [hw]

omit [PyFloat F] in
lemma reservedCandidates_append : reservedCandidates r res (rows ++ added) =
    reservedCandidates r res rows ++ reservedCandidates r res added := List.filter_append ..

lemma reservedVerdict_stamped (arm : String) :
    reservedVerdict parseTs r arm (some res) (stamped res rows) =
      reservedVerdict parseTs r arm (some res) rows := by
  simp only [reservedVerdict, reservedCandidates_stamped]

end Candidates

section Later

variable {r r' : Reading N} {rows added : List (Row F)} {arm : String}

omit [PyFloat F] in
/-- A row of a settled reservation does not come later. -/
lemma Later.reservedCandidates_nil (h : Later r r' added) {res : Reservation}
    (hres : res ∈ r.reservations.getD []) (hsettled : res.settled = true) :
    reservedCandidates r res added = [] := by
  refine List.filter_eq_nil_iff.mpr fun row hrow hw => ?_
  simp only [wroteRow, Bool.and_eq_true, decide_eq_true_eq] at hw
  exact h.guarded row hrow res hres hsettled ⟨hw.1.1.1.1.1.2, hw.2⟩

/-- Reservations that were read are read later. -/
lemma unread_eq_of_mem {q : Option (List Reservation)} {res res' : Reservation}
    (hres : res ∈ r.reservations.getD []) (hres' : res' ∈ q.getD []) :
    { r with reservations := q }.reservationsUnread = r.reservationsUnread := by
  cases hr : r.reservations with
  | none => simp [hr] at hres
  | some _ =>
    cases q with
    | none => simp at hres'
    | some _ => simp [Reading.reservationsUnread, Reading.reserved, hr]

/-- The verdict of a reservation, once it is a hit or a miss, stays one, and a miss stays a miss. -/
lemma Later.reservedVerdict_settles (h : Later r r' added) {res : Reservation} {settled : Bool}
    (hres : res ∈ r.reservations.getD []) (hres' : { res with settled } ∈ r'.reservations.getD [])
    (hsettled : res.settled = true → settled = true) {v : Verdict}
    (hv : reservedVerdict parseTs r arm (some res) rows = .ok v) (hdecided : v.outcome ≠ none) :
    ∃ v', reservedVerdict parseTs r' arm (some { res with settled }) (rows ++ added) = .ok v' ∧
      v'.outcome ≠ none ∧ (v.outcome = some false → v'.outcome = some false) := by
  have hnil := h.reservedCandidates_nil hres
  obtain ⟨q, rfl⟩ : ∃ q, r' = { r with reservations := q } := ⟨_, h.reading⟩
  have hcands : reservedCandidates { r with reservations := q } { res with settled }
      (rows ++ added) = reservedCandidates r res rows ++ reservedCandidates r res added :=
    reservedCandidates_append r res rows added
  have hunread : { r with reservations := q }.reservationsUnread = r.reservationsUnread :=
    unread_eq_of_mem hres hres'
  have hadmissions : { r with reservations := q }.admissionsUnread = r.admissionsUnread := rfl
  have hrow : ∀ row : Row F, rowVerdict parseTs { r with reservations := q } arm
      { res with settled } row = rowVerdict parseTs r arm res row := fun row => rfl
  simp only [reservedVerdict, hcands, hunread, hadmissions, hrow] at hv ⊢
  by_cases hread : (r.reservationsUnread || r.admissionsUnread) = true
  · rw [if_pos hread] at hv
    obtain rfl := Except.ok.inj hv
    exact absurd rfl hdecided
  rw [if_neg hread] at hv ⊢
  cases hfound : reservedCandidates r res rows with
  | nil =>
    rw [hfound] at hv
    obtain rfl := Except.ok.inj hv
    split_ifs at hdecided with hs
    · rw [hnil hs, hsettled hs]
      exact ⟨_, rfl, nofun, fun _ => rfl⟩
    · exact absurd rfl hdecided
  | cons row rest =>
    rw [hfound] at hv
    cases rest with
    | nil =>
      cases reservedCandidates r res added with
      | nil => exact ⟨v, hv, hdecided, id⟩
      | cons row' rest => exact ⟨_, rfl, nofun, fun _ => rfl⟩
    | cons row' rest => exact ⟨_, rfl, nofun, fun _ => rfl⟩

/-- A commit read as a hit or a miss stays one, and a miss stays a miss. -/
lemma Later.readReserved_settles (h : Later r r' added) {commit : String} {c : CommitReading}
    (hc : readReserved parseTs r arm rows commit = .ok c) (hdecided : c.outcome ≠ none) :
    ∃ c', readReserved parseTs r' arm (rows ++ added) commit = .ok c' ∧ c'.outcome ≠ none ∧
      (c.outcome = some false → c'.outcome = some false) := by
  obtain ⟨v, hv, hret⟩ := bind_eq_ok.mp hc
  obtain rfl := Except.ok.inj hret
  cases hres : r.reservation arm commit with
  | none =>
    rw [hres] at hv
    obtain rfl := Except.ok.inj hv
    exact absurd rfl hdecided
  | some res =>
    obtain ⟨settled, hsettled, hres'⟩ := h.kept arm commit res hres
    rw [hres] at hv
    rw [Option.map_some, Option.getD_some, reservedVerdict_stamped] at hv
    obtain ⟨v', hv', hdecided', hmiss⟩ :=
      h.reservedVerdict_settles (reservation_mem hres) (reservation_mem hres') hsettled hv hdecided
    simp only [readReserved, hres', Option.map_some, Option.getD_some, reservedVerdict_stamped, hv',
      bind, Except.bind, pure, Except.pure]
    exact ⟨_, rfl, hdecided', hmiss⟩

lemma Later.outcomes_settle (h : Later r r' added) {enrolled : List String}
    {commits commits' : List CommitReading}
    (hc : enrolled.mapM (readReserved parseTs r arm rows) = .ok commits)
    (hc' : enrolled.mapM (readReserved parseTs r' arm (rows ++ added)) = .ok commits') :
    List.Forall₂ Settles (commits.map CommitReading.outcome)
      (commits'.map CommitReading.outcome) := by
  induction enrolled generalizing commits commits' with
  | nil =>
    obtain rfl := Except.ok.inj hc
    obtain rfl := Except.ok.inj hc'
    exact .nil
  | cons commit enrolled ih =>
    rw [List.mapM_cons] at hc hc'
    obtain ⟨c, hfirst, hc⟩ := bind_eq_ok.mp hc
    obtain ⟨rest, hrest, hret⟩ := bind_eq_ok.mp hc
    obtain rfl := Except.ok.inj hret
    obtain ⟨c', hfirst', hc'⟩ := bind_eq_ok.mp hc'
    obtain ⟨rest', hrest', hret'⟩ := bind_eq_ok.mp hc'
    obtain rfl := Except.ok.inj hret'
    have hsettles : c.outcome ≠ none → c'.outcome ≠ none ∧
        (c.outcome = some false → c'.outcome = some false) := fun hdecided => by
      obtain ⟨d, hd, hout⟩ := h.readReserved_settles hfirst hdecided
      obtain rfl : d = c' := Except.ok.inj (hd.symm.trans hfirst')
      exact hout
    exact .cons ⟨fun hf => (hsettles (hf ▸ nofun)).2 hf, fun ht => (hsettles (ht ▸ nofun)).1⟩
      (ih hrest hrest')

/-- A miss of a reserved reading is final, and so is an arm that read insufficient. -/
theorem reserved_miss_final (hreserved : r.reserved = true) (h : Later r r' added)
    (arm : String) :
    (∀ commit c, readReserved parseTs r arm rows commit = .ok c → c.outcome = some false →
      ∃ c', readReserved parseTs r' arm (rows ++ added) commit = .ok c' ∧
        c'.outcome = some false) ∧
    ∀ limit a a', armReading parseTs r arm rows limit = .ok a →
      armReading parseTs r' arm (rows ++ added) limit = .ok a' → a.look.state = .insufficient →
      a'.look.state = .insufficient ∧ a'.state ≠ .deliver := by
  refine ⟨fun commit c hc hmiss => ?_, fun limit a a' ha ha' hi => ?_⟩
  · obtain ⟨c', hc', -, hmiss'⟩ := h.readReserved_settles hc (by rw [hmiss]; nofun)
    exact ⟨c', hc', hmiss' hmiss⟩
  · have hreserved' : r'.reserved = true := by
      rw [h.reading]
      exact hreserved
    rw [armReading, if_pos hreserved] at ha
    rw [armReading, if_pos hreserved'] at ha'
    obtain ⟨hcommits, hlook, -⟩ := armReserved_spec ha
    obtain ⟨hcommits', hlook', -⟩ := armReserved_spec ha'
    have hsettles : List.Forall₂ Settles (a.commits.map CommitReading.outcome)
        (a'.commits.map CommitReading.outcome) := by
      refine h.outcomes_settle hcommits ?_
      have hbody : r'.toBody = r.toBody := by rw [h.reading]
      rwa [enrolledCommits_eq_of_body hbody] at hcommits'
    have hi' : a'.look.state = .insufficient := by
      have hsame : descriptiveCount r' arm limit = descriptiveCount r arm limit ∧
          r'.rule = r.rule ∧ r'.prospective = r.prospective := by
        rw [h.reading]
        exact ⟨rfl, rfl, rfl⟩
      rw [hsame.1, hsame.2.1, hsame.2.2] at hlook'
      unfold armLook at hlook hlook'
      split_ifs at hlook hlook'
      · rw [← Except.ok.inj hlook] at hi
        cases hi
      · obtain ⟨look, hl, hs⟩ := lookState_insufficient hsettles hlook hi
        rwa [Except.ok.inj (hl.symm.trans hlook')] at hs
    refine ⟨hi', ?_⟩
    unfold ArmReading.state
    rw [hi']
    split_ifs <;> decide

/-- A reserved reading of three commits whose attempts wrote no row. -/
def lostReserved : Reading ℚ where
  toBody := { oneReserved.toBody with pool := ["a", "b", "c"] }
  readingId := "rdg_3"
  enrolled := []
  admitted := none
  registeredEventId := 1
  reservations := some [⟨"S1@m", "a", "run_1", "ev_1", 2, 0, "t", true⟩,
    ⟨"S1@m", "b", "run_1", "ev_2", 3, 0, "t", true⟩,
    ⟨"S1@m", "c", "run_1", "ev_3", 4, 0, "t", true⟩]
  poolDrift := []

/-- A row of another run comes later. -/
lemma later_lostReserved : Later lostReserved lostReserved [sampleRow "a"] where
  reading := rfl
  kept := fun _ _ res h => ⟨res.settled, id, h⟩
  guarded := by decide

theorem reserved_miss_final_lostReserved :
    ∃ a a', armReading sampleTs lostReserved "S1@m" ([] : List (Row Whole)) 0 = .ok a ∧
      armReading sampleTs lostReserved "S1@m" [sampleRow "a"] 0 = .ok a' ∧
      a.look.state = .insufficient ∧ a'.state ≠ .deliver := by
  obtain ⟨a, ha, hi⟩ := exists_ok_of_map_toOption
    (show (armReading sampleTs lostReserved "S1@m" ([] : List (Row Whole)) 0).toOption.map
      (·.look.state) = some .insufficient by rfl)
  obtain ⟨a', ha', -⟩ := exists_ok_of_map_toOption
    (show (armReading sampleTs lostReserved "S1@m" [sampleRow "a"] 0).toOption.map
      (·.look.state) = some .insufficient by rfl)
  exact ⟨a, a', ha, ha', hi,
    ((reserved_miss_final rfl later_lostReserved "S1@m").2 0 a a' ha ha' hi).2⟩

end Later

end CommitReplay.ReservedFinality
