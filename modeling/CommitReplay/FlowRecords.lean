import CommitReplay.CallHistories
import CommitReplay.Redaction
import CommitReplay.TransitionRuns

/-! The moments the flow reading cannot derive, written as events when they happen: a cell first routes
deliver, the install, the first healthy read. A writer goes by what it has read of the log, and others may
commit before it does. -/
namespace CommitReplay.FlowRecords

open CommitReplay.PythonText CommitReplay.Redaction CommitReplay.CallHistories CommitReplay.TransitionRuns

section Events

abbrev Cell := Text × Text

structure Scope where
  apparatus : Text
  postureClass : Text
  checksArm : Text

/-- `scope_key` -/
def scopeKey (scope : Scope) : Text :=
  scope.apparatus ++ '|' :: scope.postureClass ++ '|' :: scope.checksArm

inductive Moment
  | observed
  | unknown

/-- What an event says, of those the recorder writes; others write events of their own. -/
inductive Payload
  | recorderStarted (scopeKey : Text) (scope : Scope) (runId : Text) (inherited : List Cell)
  | routedDeliver (scopeKey : Text) (scope : Scope) (cell : Cell) (moment : Moment) (runId : Text)
  | installed (moment : Moment)
  | firstHealthy (status : Text)
  | other

structure Event where
  repo : Text
  payload : Payload

variable (isWide : Char → Bool)

def Scope.redacted (scope : Scope) : Scope := {
  apparatus := redactText isWide scope.apparatus
  postureClass := redactText isWide scope.postureClass
  checksArm := redactText isWide scope.checksArm }

def redactCell (cell : Cell) : Cell := (redactText isWide cell.1, redactText isWide cell.2)

/-- `StepEvent` redacts every string of its payload. -/
def Payload.redacted : Payload → Payload
  | recorderStarted key scope runId inherited => .recorderStarted (redactText isWide key)
      (scope.redacted isWide) (redactText isWide runId) (inherited.map (redactCell isWide))
  | routedDeliver key scope cell moment runId => .routedDeliver (redactText isWide key)
      (scope.redacted isWide) (redactCell isWide cell) moment (redactText isWide runId)
  | installed moment => .installed moment
  | firstHealthy status => .firstHealthy (redactText isWide status)
  | other => .other

end Events

section Recorder

variable (seen : List Event) (repo key : Text)

/-- The cells a start of the recorder found at deliver. -/
def startedOf (e : Event) : Option (List Cell) :=
  match e.payload with
  | .recorderStarted k _ _ inherited => if e.repo = repo ∧ k = key then some inherited else none
  | _ => none

/-- The cell a stamp is for. -/
def stampOf (e : Event) : Option Cell :=
  match e.payload with
  | .routedDeliver k _ cell _ _ => if e.repo = repo ∧ k = key then some cell else none
  | _ => none

/-- `sorted(set(...))` -/
def sortedCells (cells : List Cell) : List Cell :=
  cells.dedup.insertionSort fun a b => a.1 < b.1 ∨ a.1 = b.1 ∧ a.2 ≤ b.2

/-- `record_deliver_transitions`: the events it writes and the cells it returns. -/
def recordDeliverTransitions (deliverCells : List Cell) (scope : Scope) (runId : Text) :
    List Payload × List Cell :=
  let key := scopeKey scope
  let now := sortedCells deliverCells
  let started := seen.filterMap (startedOf repo key)
  if started = [] then ([.recorderStarted key scope runId now], [])
  else
    let inherited := started.flatten
    let stamped := seen.filterMap (stampOf repo key)
    let new := now.filter fun c => !inherited.contains c && !stamped.contains c
    (new.map fun c => .routedDeliver key scope c .observed runId, new)

/-- `database_is_fresh` -/
def databaseIsFresh (users repos : ℕ) : Bool := users = 0 && seen.isEmpty && repos = 0

def isInstalled (e : Event) : Bool :=
  match e.payload with
  | .installed _ => true
  | _ => false

def isFirstHealthy (e : Event) : Bool :=
  match e.payload with
  | .firstHealthy _ => true
  | _ => false

/-- `record_install` -/
def recordInstall (fresh : Bool) : List Payload :=
  if seen.any isInstalled then [] else [.installed (if fresh then .observed else .unknown)]

/-- `record_first_healthy` -/
def recordFirstHealthy (status : Text) : List Payload :=
  if status ≠ "ok".toList ∨ seen.any isFirstHealthy then [] else [.firstHealthy status]

end Recorder

section Log

/-- An event, and how much of the log its writer had read. -/
structure Entry where
  seen : ℕ
  event : Event

def read (log : List Entry) (n : ℕ) : List Event := (log.take n).map (·.event)

variable (isWide : Char → Bool)

/-- A writer that had read the first `n` entries commits. -/
def commit (log : List Entry) (n : ℕ) (repo : Text) (payloads : List Payload) : List Entry :=
  log ++ payloads.map fun p => ⟨min n log.length, repo, p.redacted isWide⟩

/-- A writer of the recorder, with how much it had read, or another one. -/
inductive Label
  | look (n : ℕ) (repo : Text) (deliverCells : List Cell) (scope : Scope) (runId : Text)
  | start (n users repos : ℕ)
  | health (n : ℕ) (status : Text)
  | other (repo : Text)

def step (log : List Entry) : Label → List Entry
  | .look n repo deliverCells scope runId => commit isWide log n repo
      (recordDeliverTransitions (read log n) repo deliverCells scope runId).1
  | .start n users repos => commit isWide log n []
      (recordInstall (read log n) (databaseIsFresh (read log n) users repos))
  | .health n status => commit isWide log n [] (recordFirstHealthy (read log n) status)
  | .other repo => commit isWide log log.length repo [.other]

/-- Redaction leaves the words of a look as they are. -/
def Plain : Label → Prop
  | .look _ _ deliverCells scope _ => redactText isWide (scopeKey scope) = scopeKey scope ∧
      ∀ c ∈ deliverCells, redactCell isWide c = c
  | _ => True

end Log

section Marks

/-- What is to be written once. -/
inductive Mark
  | started (repo key : Text)
  | routed (repo key : Text) (cell : Cell)
  | installed
  | healthy

def Event.mark (e : Event) : Option Mark :=
  match e.payload with
  | .recorderStarted key .. => some (.started e.repo key)
  | .routedDeliver key _ cell .. => some (.routed e.repo key cell)
  | .installed _ => some .installed
  | .firstHealthy _ => some .healthy
  | .other => none

/-- Its writer had not read of an event of the same mark. A cell is stamped where the writer had read that
the recorder was started, and of no start that found the cell at deliver. -/
structure Fresh (seen : List Event) (e : Event) : Prop where
  alone : ∀ d ∈ seen, ∀ m, e.mark = some m → d.mark ≠ some m
  late : ∀ repo key cell, e.mark = some (.routed repo key cell) →
    (∃ d ∈ seen, d.mark = some (.started repo key)) ∧
    ∀ d ∈ seen, ∀ inherited, startedOf repo key d = some inherited → cell ∉ inherited

/-- A cell is known to have been at deliver before, or it was stamped. -/
def Covered (events : List Event) (repo key : Text) (cell : Cell) : Prop :=
  (∃ e ∈ events, ∃ inherited, startedOf repo key e = some inherited ∧ cell ∈ inherited) ∨
    ∃ e ∈ events, stampOf repo key e = some cell

end Marks

section Steps

variable {isWide : Char → Bool} {log : List Entry} {n : ℕ} {repo key : Text} {e : Event} {cell : Cell}
  {payloads : List Payload}

lemma mem_sortedCells {cells : List Cell} : cell ∈ sortedCells cells ↔ cell ∈ cells := by
  rw [sortedCells, List.mem_insertionSort, List.mem_dedup]

lemma nodup_sortedCells (cells : List Cell) : (sortedCells cells).Nodup :=
  (List.perm_insertionSort _ _).nodup_iff.mpr (List.nodup_dedup _)

lemma mark_started (h : e.mark = some (.started repo key)) :
    ∃ inherited, startedOf repo key e = some inherited := by
  obtain ⟨repo', payload⟩ := e
  cases payload with
  | recorderStarted k scope runId inherited =>
    obtain ⟨rfl, rfl⟩ := Mark.started.inj (Option.some.inj h)
    exact ⟨inherited, if_pos ⟨rfl, rfl⟩⟩
  | _ => cases h

lemma started_mark {inherited : List Cell} (h : startedOf repo key e = some inherited) :
    e.mark = some (.started repo key) := by
  obtain ⟨repo', payload⟩ := e
  cases payload with
  | recorderStarted k scope runId inherited' =>
    simp only [startedOf] at h
    split_ifs at h with hsame
    obtain ⟨rfl, rfl⟩ := hsame
    rfl
  | _ => cases h

lemma mark_routed : e.mark = some (.routed repo key cell) ↔ stampOf repo key e = some cell := by
  obtain ⟨repo', payload⟩ := e
  cases payload with
  | routedDeliver k scope cell' moment runId =>
    simp only [Event.mark, stampOf, Option.some.injEq, Mark.routed.injEq]
    split_ifs with hsame
    · simp [hsame]
    · simp only [iff_false]
      rintro ⟨rfl, rfl, -⟩
      exact hsame ⟨rfl, rfl⟩
  | _ => simp [Event.mark, stampOf]

lemma read_append (more : List Entry) : read (log ++ more) (min n log.length) = read log n := by
  rw [read, List.take_append_of_le_length (Nat.min_le_right ..), ← List.take_eq_take_min]
  rfl

lemma mem_of_read {d : Event} (h : d ∈ read log n) : ∃ f ∈ log, f.event = d := by
  obtain ⟨f, hf, hd⟩ := List.mem_map.mp h
  exact ⟨f, List.mem_of_mem_take hf, hd⟩

lemma mem_read {f : Entry} (hn : log.length ≤ n) (h : f ∈ log) : f.event ∈ read log n := by
  rw [read, List.take_of_length_le hn]
  exact List.mem_map_of_mem h

/-- Every event was fresh to its writer. -/
abbrev AllFresh (log : List Entry) : Prop := Each (fun pre e => Fresh (read pre e.seen) e.event) log

lemma AllFresh.commit (h : AllFresh log)
    (hfresh : ∀ p ∈ payloads, Fresh (read log n) ⟨repo, p.redacted isWide⟩) :
    AllFresh (commit isWide log n repo payloads) := by
  unfold FlowRecords.commit
  induction payloads using List.reverseRecOn with
  | nil => simpa using h
  | append_singleton ps p ih =>
    rw [List.map_append, ← List.append_assoc]
    refine (ih fun q hq => hfresh q (List.mem_append_left _ hq)).snoc ?_
    rw [read_append]
    exact hfresh p (List.mem_append_right _ List.mem_cons_self)

variable {seen : List Event} {deliverCells : List Cell} {scope : Scope} {runId : Text} {p : Payload}

lemma mark_started_event : (⟨repo, (Payload.recorderStarted key scope runId deliverCells).redacted isWide⟩ :
    Event).mark = some (.started repo (redactText isWide key)) := rfl

lemma mark_routed_event {moment : Moment} :
    (⟨repo, (Payload.routedDeliver key scope cell moment runId).redacted isWide⟩ : Event).mark =
      some (.routed repo (redactText isWide key) (redactCell isWide cell)) := rfl

/-- What a look writes. -/
lemma look_cases (h : p ∈ (recordDeliverTransitions seen repo deliverCells scope runId).1) :
    (p = .recorderStarted (scopeKey scope) scope runId (sortedCells deliverCells) ∧
      ∀ d ∈ seen, startedOf repo (scopeKey scope) d = none) ∨
    ∃ cell ∈ deliverCells, p = .routedDeliver (scopeKey scope) scope cell .observed runId ∧
      (∃ d ∈ seen, d.mark = some (.started repo (scopeKey scope))) ∧
      (∀ d ∈ seen, ∀ inherited, startedOf repo (scopeKey scope) d = some inherited → cell ∉ inherited) ∧
      ∀ d ∈ seen, stampOf repo (scopeKey scope) d ≠ some cell := by
  unfold recordDeliverTransitions at h
  dsimp only at h
  split_ifs at h with hnone
  · refine .inl ⟨List.mem_singleton.mp h, fun d hd => ?_⟩
    exact List.filterMap_eq_nil_iff.mp hnone d hd
  · obtain ⟨cell, hcell, rfl⟩ := List.mem_map.mp h
    obtain ⟨hnow, hnew⟩ := List.mem_filter.mp hcell
    simp only [Bool.and_eq_true, Bool.not_eq_true', List.contains_eq_mem, decide_eq_false_iff_not] at hnew
    refine .inr ⟨cell, mem_sortedCells.mp hnow, rfl, ?_, ?_, ?_⟩
    · obtain ⟨inherited, hmem⟩ := List.exists_mem_of_ne_nil _ hnone
      obtain ⟨d, hd, hstarted⟩ := List.mem_filterMap.mp hmem
      exact ⟨d, hd, started_mark hstarted⟩
    · intro d hd inherited hstarted hin
      exact hnew.1 (List.mem_flatten.mpr ⟨inherited, List.mem_filterMap.mpr ⟨d, hd, hstarted⟩, hin⟩)
    · intro d hd hstamp
      exact hnew.2 (List.mem_filterMap.mpr ⟨d, hd, hstamp⟩)

lemma fresh_look (hkey : redactText isWide (scopeKey scope) = scopeKey scope)
    (hcells : ∀ c ∈ deliverCells, redactCell isWide c = c)
    (h : p ∈ (recordDeliverTransitions seen repo deliverCells scope runId).1) :
    Fresh seen ⟨repo, p.redacted isWide⟩ := by
  rcases look_cases h with ⟨rfl, hnone⟩ | ⟨cell, hcell, rfl, hstarted, hlate, hunstamped⟩
  · refine ⟨fun d hd m hm hdm => ?_, fun repo' key cell hm => ?_⟩
    · rw [mark_started_event, hkey] at hm
      obtain rfl := Option.some.inj hm
      obtain ⟨inherited, hinherited⟩ := mark_started hdm
      rw [hnone d hd] at hinherited
      cases hinherited
    · rw [mark_started_event] at hm
      cases hm
  · refine ⟨fun d hd m hm hdm => ?_, fun repo' key cell' hm => ?_⟩
    · rw [mark_routed_event, hkey, hcells cell hcell] at hm
      obtain rfl := Option.some.inj hm
      exact hunstamped d hd (mark_routed.mp hdm)
    · rw [mark_routed_event, hkey, hcells cell hcell] at hm
      obtain ⟨rfl, rfl, rfl⟩ := Mark.routed.inj (Option.some.inj hm)
      exact ⟨hstarted, hlate⟩

lemma fresh_install {fresh : Bool} (h : p ∈ recordInstall seen fresh) :
    Fresh seen ⟨repo, p.redacted isWide⟩ := by
  unfold recordInstall at h
  by_cases hany : seen.any isInstalled = true
  · rw [if_pos hany] at h
    cases h
  rw [if_neg hany] at h
  obtain rfl := List.mem_singleton.mp h
  refine ⟨fun d hd m hm hdm => hany (List.any_eq_true.mpr ⟨d, hd, ?_⟩),
    fun repo' key cell hm => (by cases hm)⟩
  obtain rfl := Option.some.inj hm
  obtain ⟨repo', payload⟩ := d
  cases payload with
  | installed moment => rfl
  | _ => cases hdm

lemma fresh_health {status : Text} (h : p ∈ recordFirstHealthy seen status) :
    Fresh seen ⟨repo, p.redacted isWide⟩ := by
  unfold recordFirstHealthy at h
  split_ifs at h with hany
  · cases h
  obtain rfl := List.mem_singleton.mp h
  refine ⟨fun d hd m hm hdm => hany (.inr (List.any_eq_true.mpr ⟨d, hd, ?_⟩)),
    fun repo' key cell hm => (by cases hm)⟩
  obtain rfl := Option.some.inj hm
  obtain ⟨repo', payload⟩ := d
  cases payload with
  | firstHealthy status => rfl
  | _ => cases hdm

lemma allFresh_step {l : Label} (hl : Plain isWide l) (h : AllFresh log) : AllFresh (step isWide log l) := by
  cases l with
  | look n repo deliverCells scope runId => exact h.commit fun p hp => fresh_look hl.1 hl.2 hp
  | start n users repos => exact h.commit fun p hp => fresh_install hp
  | health n status => exact h.commit fun p hp => fresh_health hp
  | other repo =>
    refine h.commit fun p hp => ?_
    obtain rfl := List.mem_singleton.mp hp
    exact ⟨fun d hd m hm => (by cases hm), fun repo' key cell hm => (by cases hm)⟩

lemma Covered.mono {events events' : List Event} (h : Covered events repo key cell) (hsub : events ⊆ events') :
    Covered events' repo key cell := by
  rcases h with ⟨e, he, inherited, hstarted, hin⟩ | ⟨e, he, hstamp⟩
  · exact .inl ⟨e, hsub he, inherited, hstarted, hin⟩
  · exact .inr ⟨e, hsub he, hstamp⟩

/-- A look leaves none of its cells out. -/
lemma covered_look (hkey : redactText isWide (scopeKey scope) = scopeKey scope)
    (hcells : ∀ c ∈ deliverCells, redactCell isWide c = c) (hcell : cell ∈ deliverCells) :
    Covered ((step isWide log (.look n repo deliverCells scope runId)).map (·.event)) repo (scopeKey scope)
      cell := by
  have hread : read log n ⊆ (step isWide log (.look n repo deliverCells scope runId)).map (·.event) := by
    intro d hd
    obtain ⟨f, hf, rfl⟩ := mem_of_read hd
    exact List.mem_map_of_mem (List.mem_append_left _ hf)
  have hwritten : ∀ p ∈ (recordDeliverTransitions (read log n) repo deliverCells scope runId).1,
      (⟨repo, p.redacted isWide⟩ : Event) ∈
        (step isWide log (.look n repo deliverCells scope runId)).map (·.event) := by
    intro p hp
    rw [step, commit, List.map_append, List.map_map]
    exact List.mem_append_right _ (List.mem_map.mpr ⟨p, hp, rfl⟩)
  have hnow : cell ∈ sortedCells deliverCells := mem_sortedCells.mpr hcell
  by_cases hnone : (read log n).filterMap (startedOf repo (scopeKey scope)) = []
  · refine .inl ⟨_, hwritten (.recorderStarted (scopeKey scope) scope runId (sortedCells deliverCells)) ?_,
      (sortedCells deliverCells).map (redactCell isWide), ?_, ?_⟩
    · simp only [recordDeliverTransitions, if_pos hnone, List.mem_singleton]
    · simp only [Payload.redacted, startedOf, hkey, and_self, if_true]
    · exact List.mem_map.mpr ⟨cell, hnow, hcells cell hcell⟩
  by_cases hinherited : cell ∈ ((read log n).filterMap (startedOf repo (scopeKey scope))).flatten
  · obtain ⟨inherited, hmem, hin⟩ := List.mem_flatten.mp hinherited
    obtain ⟨d, hd, hstarted⟩ := List.mem_filterMap.mp hmem
    exact .inl ⟨d, hread hd, inherited, hstarted, hin⟩
  by_cases hstamped : cell ∈ (read log n).filterMap (stampOf repo (scopeKey scope))
  · obtain ⟨d, hd, hstamp⟩ := List.mem_filterMap.mp hstamped
    exact .inr ⟨d, hread hd, hstamp⟩
  · refine .inr ⟨_, hwritten (.routedDeliver (scopeKey scope) scope cell .observed runId) ?_, ?_⟩
    · simp only [recordDeliverTransitions, if_neg hnone]
      refine List.mem_map_of_mem (List.mem_filter.mpr ⟨hnow, ?_⟩)
      simp only [List.contains_eq_mem, decide_eq_false hinherited, decide_eq_false hstamped, Bool.not_false,
        Bool.and_self]
    · simp only [Payload.redacted, stampOf, hkey, hcells cell hcell, and_self, if_true]

/-- A step adds to the log. -/
lemma prefix_step (log : List Entry) (l : Label) : log <+: step isWide log l := by
  cases l <;> exact List.prefix_append _ _

lemma prefix_run (log : List Entry) (labels : List Label) : log <+: runFrom (step isWide) log labels := by
  induction labels generalizing log with
  | nil => exact List.prefix_rfl
  | cons l labels ih => exact (prefix_step log l).trans (ih _)

lemma allFresh_run {labels : List Label} (hplain : ∀ l ∈ labels, Plain isWide l) (h : AllFresh log) :
    AllFresh (runFrom (step isWide) log labels) :=
  (along_of_forall fun _ => hplain).preserves (fun _ _ h hl => allFresh_step hl h) h

end Steps

section Serial

variable {isWide : Char → Bool} {log : List Entry} {n : ℕ} {repo : Text} {payloads : List Payload}

/-- Each mark stands once, and no cell that a start found at deliver is stamped. -/
structure Once (log : List Entry) : Prop where
  marks : (log.filterMap (·.event.mark)).Nodup
  apart : ∀ e ∈ log, ∀ repo key cell, e.event.mark = some (.routed repo key cell) →
    ∀ d ∈ log, ∀ inherited, startedOf repo key d.event = some inherited → cell ∉ inherited

/-- How much of the log a writer of the recorder has read. -/
def Label.seen : Label → Option ℕ
  | look n .. | start n .. | health n _ => some n
  | other _ => none

/-- It has read all of it. -/
def Serial (log : List Entry) (l : Label) : Prop := ∀ n ∈ l.seen, log.length ≤ n

lemma AllFresh.started (hf : AllFresh log) {e : Entry} (he : e ∈ log) {key : Text} {cell : Cell}
    (hm : e.event.mark = some (.routed repo key cell)) :
    ∃ d ∈ log, d.event.mark = some (.started repo key) := by
  obtain ⟨pre, post, hsplit⟩ := List.append_of_mem he
  obtain ⟨d, hd, hstarted⟩ := ((hf pre e post hsplit).late repo key cell hm).1
  obtain ⟨f, hfmem, rfl⟩ := mem_of_read hd
  exact ⟨f, by rw [hsplit]; exact List.mem_append_left _ hfmem, hstarted⟩

/-- Events that are fresh to a writer that has read the whole log, and do not come in each other's way. -/
lemma Once.commit (ho : Once log) (hf : AllFresh log) (hn : log.length ≤ n)
    (hfresh : ∀ p ∈ payloads, Fresh (read log n) ⟨repo, p.redacted isWide⟩)
    (hmarks : (payloads.filterMap fun p => (⟨repo, p.redacted isWide⟩ : Event).mark).Nodup)
    (hkind : ∀ p ∈ payloads, ∀ q ∈ payloads, ∀ repo' key cell,
      (⟨repo, p.redacted isWide⟩ : Event).mark = some (.routed repo' key cell) →
        (⟨repo, q.redacted isWide⟩ : Event).mark ≠ some (.started repo' key)) :
    Once (FlowRecords.commit isWide log n repo payloads) where
  marks := by
    rw [FlowRecords.commit, List.filterMap_append, List.filterMap_map, List.nodup_append]
    refine ⟨ho.marks, hmarks, ?_⟩
    rintro m hm m' hm' rfl
    obtain ⟨e, he, hem⟩ := List.mem_filterMap.mp hm
    obtain ⟨p, hp, hpm⟩ := List.mem_filterMap.mp hm'
    exact (hfresh p hp).alone e.event (mem_read hn he) m hpm hem
  apart e he repo' key cell hm d hd inherited hstarted := by
    rcases List.mem_append.mp he with he | he <;> rcases List.mem_append.mp hd with hd | hd
    · exact ho.apart e he repo' key cell hm d hd inherited hstarted
    · obtain ⟨q, hq, rfl⟩ := List.mem_map.mp hd
      obtain ⟨d', hd', hstarted'⟩ := hf.started he hm
      exact absurd hstarted' ((hfresh q hq).alone d'.event (mem_read hn hd') _ (started_mark hstarted))
    · obtain ⟨p, hp, rfl⟩ := List.mem_map.mp he
      exact ((hfresh p hp).late repo' key cell hm).2 d.event (mem_read hn hd) inherited hstarted
    · obtain ⟨p, hp, rfl⟩ := List.mem_map.mp he
      obtain ⟨q, hq, rfl⟩ := List.mem_map.mp hd
      exact absurd (started_mark hstarted) (hkind p hp q hq repo' key cell hm)

lemma Once.commit_one (ho : Once log) (hf : AllFresh log) (hn : log.length ≤ n)
    (hfresh : ∀ p ∈ payloads, Fresh (read log n) ⟨repo, p.redacted isWide⟩) (hone : payloads.length ≤ 1) :
    Once (FlowRecords.commit isWide log n repo payloads) := by
  rcases payloads with _ | ⟨p, _ | ⟨q, payloads⟩⟩
  · exact ho.commit hf hn hfresh List.nodup_nil fun p hp => by cases hp
  · refine ho.commit hf hn hfresh ?_ fun p' hp q hq repo' key cell hm hm' => ?_
    · cases hp : (⟨repo, p.redacted isWide⟩ : Event).mark <;> simp [hp]
    · obtain rfl := List.mem_singleton.mp hp
      obtain rfl := List.mem_singleton.mp hq
      cases hm.symm.trans hm'
  · simp at hone

variable {seen : List Event} {deliverCells : List Cell} {scope : Scope} {runId : Text}

lemma nodup_look (hcells : ∀ c ∈ deliverCells, redactCell isWide c = c) :
    ((recordDeliverTransitions seen repo deliverCells scope runId).1.filterMap fun p =>
      (⟨repo, p.redacted isWide⟩ : Event).mark).Nodup := by
  unfold recordDeliverTransitions
  dsimp only
  split_ifs with hnone
  · exact List.nodup_singleton _
  · have hmap : ∀ cells : List Cell,
        cells.filterMap ((fun p : Payload => (⟨repo, p.redacted isWide⟩ : Event).mark) ∘
          fun c => Payload.routedDeliver (scopeKey scope) scope c .observed runId) =
        cells.map fun c => Mark.routed repo (redactText isWide (scopeKey scope)) (redactCell isWide c) :=
      fun cells => congrFun List.filterMap_eq_map cells
    rw [List.filterMap_map, hmap]
    refine ((nodup_sortedCells deliverCells).filter _).map_on fun c hc d hd hcd => ?_
    have hsame := (Mark.routed.inj hcd).2.2
    rwa [hcells c (mem_sortedCells.mp (List.mem_of_mem_filter hc)),
      hcells d (mem_sortedCells.mp (List.mem_of_mem_filter hd))] at hsame

lemma once_step {l : Label} (hl : Plain isWide l) (hs : Serial log l) (hf : AllFresh log) (ho : Once log) :
    Once (step isWide log l) := by
  cases l with
  | look n repo deliverCells scope runId =>
    refine ho.commit hf (hs n rfl) (fun p hp => fresh_look hl.1 hl.2 hp) (nodup_look hl.2) ?_
    intro p hp q hq repo' key cell hm hm'
    rcases look_cases hq with ⟨rfl, hnone⟩ | ⟨cell', -, rfl, -⟩
    · rcases look_cases hp with ⟨rfl, -⟩ | ⟨cell', -, rfl, ⟨d, hd, hstarted⟩, -⟩
      · cases hm.symm.trans hm'
      · obtain ⟨inherited, hinherited⟩ := mark_started hstarted
        rw [hnone d hd] at hinherited
        cases hinherited
    · rw [mark_routed_event] at hm'
      cases hm'
  | start n users repos =>
    refine ho.commit_one hf (hs n rfl) (fun p hp => fresh_install hp) ?_
    unfold recordInstall
    by_cases hany : (read log n).any isInstalled = true
    · rw [if_pos hany]
      exact Nat.zero_le 1
    · rw [if_neg hany]
      exact le_refl 1
  | health n status =>
    refine ho.commit_one hf (hs n rfl) (fun p hp => fresh_health hp) ?_
    unfold recordFirstHealthy
    split_ifs <;> simp
  | other repo =>
    refine ho.commit_one hf (le_refl _) (fun p hp => ?_) ?_
    · obtain rfl := List.mem_singleton.mp hp
      exact ⟨fun d hd m hm => (by cases hm), fun repo' key cell hm => (by cases hm)⟩
    · exact le_refl 1

lemma once_run {labels : List Label} (hplain : ∀ l ∈ labels, Plain isWide l)
    (hserial : Along (step isWide) Serial log labels) (hf : AllFresh log) (ho : Once log) :
    Once (runFrom (step isWide) log labels) :=
  (((along_of_forall fun _ => hplain).and hserial).preserves (I := fun log => AllFresh log ∧ Once log)
    (fun _ _ h hl => ⟨allFresh_step hl.1 h.1, once_step hl.1 hl.2 h.1 h.2⟩) ⟨hf, ho⟩).2

end Serial

section Runs

section Sample

def sampleScope : Scope := ⟨['a'], ['p'], ['k']⟩

/-- A look at one cell, and then one at two, whose writer had read the first or not. -/
def sampleLooks (n : ℕ) : List Label := [
  .look 0 ['r'] [(['c'], ['s'])] sampleScope ['1'],
  .look n ['r'] [(['c'], ['s']), (['d'], ['s'])] sampleScope ['2']]

lemma sample_plain {n : ℕ} : ∀ l ∈ sampleLooks n, Plain (fun _ => false) l := by
  have hkey : redactText (fun _ => false) (scopeKey sampleScope) = scopeKey sampleScope := rfl
  have hc : redactCell (fun _ => false) (['c'], ['s']) = (['c'], ['s']) := rfl
  have hd : redactCell (fun _ => false) (['d'], ['s']) = (['d'], ['s']) := rfl
  intro l hl
  rcases List.mem_cons.mp hl with rfl | hl
  · exact ⟨hkey, by simpa using hc⟩
  · obtain rfl := List.mem_singleton.mp hl
    exact ⟨hkey, by simpa using ⟨hc, hd⟩⟩

end Sample

variable (isWide : Char → Bool)

/-- However the writers of the log overlap, each writes only what it had not read as written: a cell is
stamped where the recorder was known to be started, and not where a start had found it at deliver. And no
cell that was seen at deliver is left out. -/
theorem flow_recorded (labels : List Label) (hplain : ∀ l ∈ labels, Plain isWide l) :
    let log := runFrom (step isWide) [] labels
    AllFresh log ∧ ∀ n repo deliverCells scope runId, .look n repo deliverCells scope runId ∈ labels →
      ∀ cell ∈ deliverCells, Covered (log.map (·.event)) repo (scopeKey scope) cell := by
  intro log
  refine ⟨allFresh_run hplain each_nil, fun n repo deliverCells scope runId hl cell hcell => ?_⟩
  obtain ⟨before, after, rfl⟩ := List.append_of_mem hl
  obtain ⟨hkey, hcells⟩ := hplain _ hl
  have hlog : log = runFrom (step isWide) (step isWide (runFrom (step isWide) [] before)
      (.look n repo deliverCells scope runId)) after := by
    rw [← runFrom_cons, ← runFrom_append]
  rw [hlog]
  exact (covered_look hkey hcells hcell).mono (List.map_subset _ (prefix_run _ after).subset)

theorem flow_recorded_sample : AllFresh (runFrom (step fun _ => false) [] (sampleLooks 0)) ∧
    Covered ((runFrom (step fun _ => false) [] (sampleLooks 0)).map (·.event)) ['r'] (scopeKey sampleScope)
      (['d'], ['s']) :=
  ⟨(flow_recorded (fun _ => false) (sampleLooks 0) sample_plain).1,
    (flow_recorded (fun _ => false) (sampleLooks 0) sample_plain).2 0 ['r'] [(['c'], ['s']), (['d'], ['s'])]
      sampleScope ['2'] (List.mem_cons_of_mem _ List.mem_cons_self) _
      (List.mem_cons_of_mem _ List.mem_cons_self)⟩

/-- Where no writers overlap, every moment is written once: one start of the recorder for each repository
and scope, one stamp for a cell and none where the start had found it at deliver, one install and one first
healthy read. -/
theorem flow_once (labels : List Label) (hplain : ∀ l ∈ labels, Plain isWide l)
    (hserial : Along (step isWide) Serial [] labels) : Once (runFrom (step isWide) [] labels) :=
  once_run hplain hserial each_nil ⟨List.nodup_nil, fun e he => by cases he⟩

theorem flow_once_sample : Once (runFrom (step fun _ => false) [] (sampleLooks 1)) := by
  refine flow_once (fun _ => false) (sampleLooks 1) sample_plain ⟨?_, ?_, trivial⟩
  · intro n hn
    exact Nat.zero_le _
  · intro n hn
    obtain rfl := Option.some.inj hn
    exact le_refl 1

end Runs

end CommitReplay.FlowRecords
