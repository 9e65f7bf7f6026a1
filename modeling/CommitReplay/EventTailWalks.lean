import CommitReplay.EventVerifier
import CommitReplay.JsonRoundTrip

/-! What the reports of the verifier say over a whole history: while the table only grows a tail
walk finds what a full walk finds, and over any table it proves the rows behind the head it
resumed from. -/
namespace CommitReplay.EventTailWalks

open CommitReplay.PythonText CommitReplay.JsonValue CommitReplay.JsonText CommitReplay.JsonRoundTrip
open CommitReplay.GradeRows CommitReplay.HashChain CommitReplay.TransitionRuns
open CommitReplay.EventWalk CommitReplay.EventVerifier

variable {F : Type} [PyFloat F] {C : Type} [Sub C] [LT C] [DecidableLT C]
variable (casts : Casts F) (isPrintable : Char → Bool) (sha256 : Sha256)
variable (readBack : Values F → Values F) (every : C)

section Growing

/-- Two reports that find the same. -/
structure SameFindings (a b : EventChainReport) : Prop where
  ok : a.ok = b.ok
  rows : a.rows = b.rows
  head : a.head = b.head
  brokenAt : a.brokenAt = b.brokenAt

/-- What is kept of a walk is what the table holds up to the row it ended on. -/
structure Covers (T : Table F) (w : Walked C) (r : EventRow F) : Prop where
  mem : r ∈ T.rows
  id : r.id = w.lastId
  positive : 0 < r.id
  last : (T.upTo r.id).getLast? = some r
  head : r.rowHash = w.head
  rows : (T.upTo r.id).length = w.rows
  intact : Intact casts isPrintable sha256 genesisHash (T.upTo r.id)

def Resumable (T : Table F) (walked : Option (Walked C)) : Prop :=
  ∀ w, walked = some w → ∃ r, Covers casts isPrintable sha256 T w r

variable {casts isPrintable sha256 readBack every}

omit [Sub C] [LT C] [DecidableLT C] in
lemma Resumable.grows {T T' : Table F} {walked : Option (Walked C)}
    (h : Resumable casts isPrintable sha256 T walked) (hg : T.Grows T') :
    Resumable casts isPrintable sha256 T' walked := by
  intro w hw
  obtain ⟨r, hr⟩ := h w hw
  have hup := hg.upTo_eq hr.mem
  exact ⟨r, hg.mem hr.mem, hr.id, hr.positive, by rw [hup]; exact hr.last, hr.head,
    by rw [hup]; exact hr.rows, by rw [hup]; exact hr.intact⟩

/-- The walk of a call finds what a full walk of the same table finds. -/
lemma walk_sameFindings {c : Call F C} {T₀ T₁ : Table F} {walked : Option (Walked C)}
    (h : Resumable casts isPrintable sha256 T₁ walked) (utcNow : String) :
    SameFindings (c.walk casts isPrintable sha256 every T₀ T₁ walked).1
      (verifyEventsIn casts isPrintable sha256 T₁ utcNow) := by
  unfold Call.walk
  split
  · rename_i w hw
    obtain ⟨r, hr⟩ := h w (Option.eq_some_of_filter_eq_some hw)
    have hwalk := @walkEventChain_resumed _ _ casts isPrintable sha256 _ (T₁.after r.id) r
      genesisHash hr.last hr.intact
    rw [← T₁.after_zero hr.positive, hr.head, hr.rows] at hwalk
    rw [verifyEventsIn, chainRows_eq, chainRows_eq, hwalk, hr.id]
    exact ⟨rfl, rfl, rfl, rfl⟩
  · exact ⟨rfl, rfl, rfl, rfl⟩

omit [Sub C] [LT C] [DecidableLT C] in
/-- The row found by the last hash of a clean walk is the row the walk ended on. -/
lemma resumable_keep {T₁ T₂ : Table F} (hg : T₁.Grows T₂) {report : EventChainReport}
    {utcNow fullAtIso : String} {fullAt : C} {walked : Option (Walked C)}
    (hsame : SameFindings report (verifyEventsIn casts isPrintable sha256 T₁ utcNow))
    (hkeep : keep T₂ report fullAt fullAtIso = some walked) :
    Resumable casts isPrintable sha256 T₂ walked := by
  refine Resumable.grows ?_ hg
  unfold keep at hkeep
  split_ifs at hkeep with hok
  swap
  · rintro w rfl
    cases hkeep
  rw [hsame.rows, hsame.head, verifyEventsIn, chainRows_eq] at hkeep
  rw [hsame.ok, hsame.rows, verifyEventsIn, chainRows_eq] at hok
  simp only [walkEventChain_ok, walkEventChain_rows, Nat.zero_add] at hok
  obtain ⟨hintact, hne⟩ := hok
  obtain ⟨m, hm⟩ : ∃ m, (T₁.after 0).getLast? = some m := by
    cases hlast : (T₁.after 0).getLast? with
    | none => exact absurd (by rw [List.getLast?_eq_none_iff.mp hlast]; rfl) hne
    | some m => exact ⟨m, rfl⟩
  have hmem := List.mem_of_getLast? hm
  obtain ⟨hmT, hpos⟩ : m ∈ T₁.rows ∧ 0 < m.id := by simpa [Table.after] using hmem
  have hup : T₁.upTo m.id = T₁.after 0 := by
    have hall : ((T₁.after 0).take (T₁.after 0).length).getLast? = some m := by
      rw [List.take_length, hm]
    have hnil := Table.after_take hall
    rw [List.drop_length] at hnil
    rw [T₁.after_zero hpos, hnil, List.append_nil]
  simp only [walkEventChain_head hm, walkEventChain_rows] at hkeep
  have hfound : m ∈ T₂.rows.filter (·.rowHash = m.rowHash) := by
    simpa using hg.mem hmT
  intro w hw
  split at hkeep
  · rw [← Option.some.inj hkeep] at hw
    cases hw
  · rename_i row hrow
    rw [hrow, List.mem_singleton] at hfound
    subst hfound
    rw [← Option.some.inj hkeep, Option.some.injEq] at hw
    subst hw
    exact ⟨m, hmT, rfl, hpos, by rw [hup]; exact hm, rfl, by rw [hup, Nat.zero_add],
      by rw [hup]; exact hintact⟩
  · cases hkeep

end Growing

section Runs

/-- The last walk of the history that found rows and no break. -/
def lastClean (log : List (Entry F)) : Option (Entry F) :=
  log.reverse.find? fun e => e.report.ok && e.report.rows ≠ 0

/-- The rows of a table behind the head of a report form a chain that extends it, and as many rows
lead up to it as the report counted. -/
def Extends (p : EventChainReport) (T : Table F) : Prop :=
  ∃ r ∈ T.rows, r.rowHash = p.head ∧ Intact casts isPrintable sha256 p.head (T.after r.id) ∧
    T.rows.countP (·.id ≤ r.id) = p.rows

/-- What a clean report says of its table: a tail walk, that the table extends the last clean walk;
a full walk, that it is a chain from the first row on. -/
structure Proves (earlier : List (Entry F)) (e : Entry F) : Prop where
  tail : e.report.walk = .tail →
    ∃ p, lastClean earlier = some p ∧ Extends casts isPrintable sha256 p.report e.table
  full : e.report.walk = .full → Intact casts isPrintable sha256 genesisHash (e.table.after 0)

/-- What the verifier keeps is of its last report. -/
def Recorded (s : State F C) : Prop :=
  ∀ w, s.walked = some w → ∃ e, s.log.getLast? = some e ∧ e.report.ok = true ∧
    e.report.rows ≠ 0 ∧ e.report.head = w.head ∧ e.report.rows = w.rows

/-- Every clean report of a history proves what its kind of walk can. -/
def AllProve (log : List (Entry F)) : Prop :=
  ∀ earlier e later, log = earlier ++ e :: later → e.report.ok = true →
    Proves casts isPrintable sha256 earlier e

/-- What every history keeps: what is recorded is of the last report, and the reports prove. -/
structure Sound (s : State F C) : Prop where
  recorded : Recorded s
  proves : AllProve casts isPrintable sha256 s.log

/-- Every report found what a full walk of its table finds. -/
def AllFull (log : List (Entry F)) : Prop :=
  ∀ e ∈ log, ∀ utcNow, SameFindings e.report (verifyEventsIn casts isPrintable sha256 e.table utcNow)

/-- What a history of appends keeps. -/
structure Grown (s : State F C) : Prop where
  resumable : Resumable casts isPrintable sha256 s.table s.walked
  allFull : AllFull casts isPrintable sha256 s.log

def Label.isTamper : Label F C → Bool
  | .tamper _ => true
  | _ => false

/-- What a call of `verify` leaves: it raised, or it made a report. -/
lemma verify_cases (s : State F C) (c : Call F C) :
    let T₁ := s.table.appendAll casts isPrintable sha256 readBack c.beforeWalk
    let T₂ := T₁.appendAll casts isPrintable sha256 readBack c.afterWalk
    let w := c.walk casts isPrintable sha256 every s.table T₁ s.walked
    s.verify casts isPrintable sha256 readBack every c = ⟨T₂, none, s.log⟩ ∨
      ∃ walked, keep T₂ w.1 w.2.1 w.2.2 = some walked ∧
        s.verify casts isPrintable sha256 readBack every c = ⟨T₂, walked, s.log ++ [⟨T₁, w.1⟩]⟩ := by
  intro T₁ T₂ w
  cases hk : keep T₂ w.1 w.2.1 w.2.2 with
  | none =>
    refine .inl ?_
    simp only [State.verify]
    rw [hk]
  | some walked =>
    refine .inr ⟨walked, rfl, ?_⟩
    simp only [State.verify]
    rw [hk]

/-- A tail walk was made of the prefix kept, while it held. -/
lemma walk_cases (c : Call F C) (T₀ T₁ : Table F) (walked : Option (Walked C)) :
    (∃ w, walked = some w ∧ holds casts isPrintable sha256 T₀ w = true ∧
      (c.walk casts isPrintable sha256 every T₀ T₁ walked).1 =
        { walkEventChain casts isPrintable sha256 (T₁.after w.lastId) w.head w.rows with
          fullWalkAt := w.fullAtIso }) ∨
      (c.walk casts isPrintable sha256 every T₀ T₁ walked).1 =
        verifyEventsIn casts isPrintable sha256 T₁ c.utcNow := by
  unfold Call.walk
  split
  · rename_i w hw
    obtain ⟨hwalked, hcond⟩ := Option.filter_eq_some_iff.mp hw
    rw [Bool.and_eq_true] at hcond
    exact .inl ⟨w, hwalked, hcond.2, by rw [chainRows_eq]⟩
  · exact .inr rfl

variable {casts isPrintable sha256 readBack every}

omit [PyFloat F] [Sub C] [LT C] [DecidableLT C] in
lemma keep_cases {T : Table F} {report : EventChainReport} {fullAt : C} {iso : String} {w : Walked C}
    (h : keep T report fullAt iso = some (some w)) :
    report.ok = true ∧ report.rows ≠ 0 ∧ report.head = w.head ∧ report.rows = w.rows := by
  unfold keep at h
  split_ifs at h with hok
  swap
  · cases h
  split at h
  · cases h
  · obtain rfl := Option.some.inj (Option.some.inj h)
    exact ⟨hok.1, hok.2, rfl, rfl⟩
  · cases h

lemma allProve_concat {log : List (Entry F)} {e : Entry F}
    (h : AllProve casts isPrintable sha256 log)
    (he : e.report.ok = true → Proves casts isPrintable sha256 log e) :
    AllProve casts isPrintable sha256 (log ++ [e]) := by
  intro earlier e' later heq hok
  rcases List.eq_nil_or_concat later with rfl | ⟨later, x, rfl⟩
  · obtain ⟨rfl, he'⟩ := List.append_inj' heq rfl
    obtain rfl := List.singleton_inj.mp he'
    exact he hok
  · rw [List.concat_eq_append, ← List.cons_append, ← List.append_assoc] at heq
    exact h earlier e' later (List.append_inj' heq rfl).1 hok

lemma recorded_step {s : State F C} (h : Recorded s) (l : Label F C) :
    Recorded (step casts isPrintable sha256 readBack every s l) := by
  cases l with
  | append a => exact h
  | tamper T => exact h
  | verify c =>
    rw [step]
    intro w hw
    rcases verify_cases casts isPrintable sha256 readBack every s c with he | ⟨walked, hk, he⟩
    · rw [he] at hw
      cases hw
    · rw [he] at hw ⊢
      obtain rfl : walked = some w := hw
      obtain ⟨hok, hne, hhead, hrows⟩ := keep_cases hk
      exact ⟨_, List.getLast?_concat, hok, hne, hhead, hrows⟩

omit [Sub C] [LT C] [DecidableLT C] in
lemma holds_cases {T : Table F} {w : Walked C} (h : holds casts isPrintable sha256 T w = true) :
    ∃ r ∈ T.rows, r.id = w.lastId ∧ r.rowHash = w.head ∧ T.rows.countP (·.id ≤ r.id) = w.rows := by
  unfold holds at h
  split at h
  · cases h
  · rename_i r hr
    simp only [Bool.and_eq_true, decide_eq_true_eq] at h
    obtain ⟨⟨hhash, -⟩, hcount⟩ := h
    have hid : r.id = w.lastId := by simpa using List.find?_some hr
    exact ⟨r, List.mem_of_find?_eq_some hr, hid, hhash, by rw [hid]; exact hcount⟩

omit [PyFloat F] in
lemma lastClean_concat {log : List (Entry F)} {e : Entry F} (hok : e.report.ok = true)
    (hne : e.report.rows ≠ 0) (h : log.getLast? = some e) : lastClean log = some e := by
  obtain ⟨front, rfl⟩ := List.getLast?_eq_some_iff.mp h
  simp [lastClean, hok, hne]

/-- A report without a break proves of its table what its kind of walk can. -/
lemma proves_verify {s : State F C} (h : Recorded s) {c : Call F C} {T₁ : Table F}
    (hg : s.table.Grows T₁)
    (hok : (c.walk casts isPrintable sha256 every s.table T₁ s.walked).1.ok = true) :
    Proves casts isPrintable sha256 s.log
      ⟨T₁, (c.walk casts isPrintable sha256 every s.table T₁ s.walked).1⟩ := by
  rcases walk_cases casts isPrintable sha256 every c s.table T₁ s.walked with ⟨w, hw, hholds, hwalk⟩ | hwalk
  · obtain ⟨p, hlast, hpok, hpne, hphead, hprows⟩ := h w hw
    obtain ⟨r, hr, hid, hhash, hcount⟩ := holds_cases hholds
    have hne : w.rows ≠ 0 := hprows ▸ hpne
    rw [hwalk] at hok ⊢
    refine ⟨fun _ => ⟨p, lastClean_concat hpok hpne hlast, r, hg.mem hr, ?_, ?_, ?_⟩, fun hf => ?_⟩
    · rw [hhash, hphead]
    · rw [hphead, hid]
      exact walkEventChain_ok.mp hok
    · rw [hg.countP_eq hr, hcount, hprows]
    · simp [walkEventChain_walk, hne] at hf
  · rw [hwalk] at hok ⊢
    rw [verifyEventsIn, chainRows_eq] at hok ⊢
    exact ⟨fun ht => by simp [walkEventChain_walk] at ht, fun _ => walkEventChain_ok.mp hok⟩

lemma sound_step {s : State F C} (h : Sound casts isPrintable sha256 s) (l : Label F C) :
    Sound casts isPrintable sha256 (step casts isPrintable sha256 readBack every s l) := by
  refine ⟨recorded_step h.recorded l, ?_⟩
  cases l with
  | append a => exact h.proves
  | tamper T => exact h.proves
  | verify c =>
    rw [step]
    rcases verify_cases casts isPrintable sha256 readBack every s c with he | ⟨walked, -, he⟩
    · rw [he]
      exact h.proves
    · rw [he]
      exact allProve_concat h.proves fun hok =>
        proves_verify h.recorded (Table.grows_appendAll _ _) hok

lemma grown_step {s : State F C} (h : Grown casts isPrintable sha256 s) {l : Label F C}
    (hl : Label.isTamper l = false) :
    Grown casts isPrintable sha256 (step casts isPrintable sha256 readBack every s l) := by
  cases l with
  | append a => exact ⟨h.resumable.grows (s.table.grows_append a), h.allFull⟩
  | tamper T => cases hl
  | verify c =>
    rw [step]
    have hg₁ : s.table.Grows (s.table.appendAll casts isPrintable sha256 readBack c.beforeWalk) :=
      Table.grows_appendAll _ _
    have hres := h.resumable.grows hg₁
    rcases verify_cases casts isPrintable sha256 readBack every s c with he | ⟨walked, hk, he⟩
    · rw [he]
      exact ⟨fun w hw => (by cases hw), h.allFull⟩
    · rw [he]
      refine ⟨resumable_keep (Table.grows_appendAll _ _) (walk_sameFindings hres "") hk, ?_⟩
      intro e hmem utcNow
      rcases List.mem_append.mp hmem with hmem | hmem
      · exact h.allFull e hmem utcNow
      · obtain rfl := List.mem_singleton.mp hmem
        exact walk_sameFindings hres utcNow

/-- While the table only grows, at whatever clock readings and whatever others append meanwhile,
each report finds what a full walk finds. Over any tables a clean report of a tail walk proves that
the table extends the last clean walk, and one of a full walk that it is a chain. -/
theorem reports_run (casts : Casts F) (isPrintable : Char → Bool) (sha256 : Sha256)
    (readBack : Values F → Values F) (every : C) (T : Table F) (labels : List (Label F C)) :
    ((∀ l ∈ labels, Label.isTamper l = false) → AllFull casts isPrintable sha256
      (runFrom (step casts isPrintable sha256 readBack every) (State.init T) labels).log) ∧
    AllProve casts isPrintable sha256
      (runFrom (step casts isPrintable sha256 readBack every) (State.init T) labels).log := by
  constructor
  · intro h
    have hrun : Along (step casts isPrintable sha256 readBack every)
        (fun _ l => Label.isTamper l = false) (State.init T) labels :=
      along_of_forall fun _ => h
    have hgrown : Grown casts isPrintable sha256
        (runFrom (step casts isPrintable sha256 readBack every) (State.init T) labels) :=
      hrun.preserves (I := Grown casts isPrintable sha256) (fun _ _ hs hl => grown_step hs hl)
        ⟨fun w hw => (by cases hw), fun e he => (by simp [State.init] at he)⟩
    exact hgrown.allFull
  · have hrun : Along (step casts isPrintable sha256 readBack every)
        (fun _ _ => True) (State.init T) labels := along_of_forall fun _ _ _ => trivial
    have hsound : Sound casts isPrintable sha256
        (runFrom (step casts isPrintable sha256 readBack every) (State.init T) labels) :=
      hrun.preserves (I := Sound casts isPrintable sha256) (fun _ l hs _ => sound_step hs l)
        ⟨fun w hw => (by cases hw), fun earlier e later he _ => (by simp [State.init] at he)⟩
    exact hsound.proves

/-- Two events by their identifiers. -/
def writtenEvent (eventId : String) : Values Whole := fun key =>
  if key = "event_id" then .str eventId
  else if key ∈ ["trace_id", "timestamp", "stage", "action", "status"] then .str "x"
  else .null

def wholeCasts : Casts Whole := ⟨fun x => some x.value, fun n => ⟨n⟩⟩

/-- A digest that tells the first event from what follows it. -/
def firstDigest : Sha256 := markDigest <|
  match eventBody wholeCasts (fun _ => true) (storedValues (writtenEvent "e1")) with
  | .ok body => canonicalJson (.obj (ofPairs (body ++ [("prev_hash", .str genesisHash)])))
  | .error _ => []

def quietCall : Call Whole ℤ := ⟨0, "", false, [], []⟩

def firstOnly : Table Whole :=
  Table.append wholeCasts (fun _ => true) firstDigest id ⟨[], .nil⟩ ⟨1, writtenEvent "e1"⟩

/-- Two events, a walk of them, the second cut off, and a walk of what is left. -/
def cutHistory : List (Label Whole ℤ) :=
  [.append ⟨1, writtenEvent "e1"⟩, .append ⟨2, writtenEvent "e2"⟩, .verify quietCall,
    .tamper firstOnly, .verify quietCall]

theorem reports_run_quiet : AllFull wholeCasts (fun _ => true) firstDigest
    (runFrom (step wholeCasts (fun _ => true) firstDigest id 300) (State.init ⟨[], .nil⟩)
      [.append ⟨1, writtenEvent "e1"⟩, .verify quietCall, .append ⟨2, writtenEvent "e2"⟩,
        .verify quietCall]).log :=
  (reports_run wholeCasts (fun _ => true) firstDigest id 300 ⟨[], .nil⟩ _).1 (by simp [Label.isTamper])

def cutLog : List (Entry Whole) :=
  (runFrom (step wholeCasts (fun _ => true) firstDigest id 300) (State.init ⟨[], .nil⟩)
    cutHistory).log

/-- A clean report of some rows, and then a clean report of a table that does not hold its head. -/
def cutsUnseen : List (Entry Whole) → Bool
  | [e₁, e₂] => e₁.report.ok && e₁.report.rows != 0 && e₂.report.ok &&
      e₂.table.rows.all (·.rowHash != e₁.report.head)
  | _ => false

lemma cutLog_eq : ∃ e₁ e₂, cutLog = [e₁, e₂] ∧ (e₁.report.ok = true ∧ e₁.report.rows ≠ 0) ∧
    e₂.report.ok = true ∧ ∀ r ∈ e₂.table.rows, r.rowHash ≠ e₁.report.head := by
  have h : cutsUnseen cutLog = true := by decide +kernel
  unfold cutsUnseen at h
  split at h
  next e₁ e₂ he =>
    simp only [Bool.and_eq_true, bne_iff_ne, List.all_eq_true] at h
    exact ⟨e₁, e₂, he, ⟨h.1.1.1, h.1.1.2⟩, h.1.2, h.2⟩
  · cases h

/-- Rows cut from the end are found by no walk: a clean report need not extend the last. -/
theorem not_extends_cut : ¬ ∀ earlier e later, cutLog = earlier ++ e :: later →
    e.report.ok = true → ∀ p, lastClean earlier = some p →
      Extends wholeCasts (fun _ => true) firstDigest p.report e.table := by
  obtain ⟨e₁, e₂, hlog, ⟨hok, hne⟩, hok₂, hcut⟩ := cutLog_eq
  intro h
  obtain ⟨r, hr, hhead, -⟩ := h [e₁] e₂ [] hlog hok₂ e₁ (lastClean_concat hok hne rfl)
  exact hcut r hr hhead

end Runs

end CommitReplay.EventTailWalks
