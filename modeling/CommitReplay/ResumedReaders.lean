import CommitReplay.JsonRoundTrip
import CommitReplay.TraceEvents
import Mathlib.Data.Multiset.AddSub
import Mathlib.Tactic.Abel

/-! Every event handed to a sink is stored once or counted as dropped. A reader that resumes from the last
number it was served misses nothing as long as no writer stores a number it chose itself below one stored
before. -/
namespace CommitReplay.ResumedReaders

open CommitReplay.JsonRoundTrip CommitReplay.TransitionRuns CommitReplay.CursorReads
open CommitReplay.TraceEvents

variable {F ι ρ : Type}

section Entries

variable [DecidableEq ι]

def handedTo (i : ι) (log : List (Entry F ι)) : List (StepEvent F) :=
  log.filterMap fun
    | .handed j e => if j = i then some e else none
    | _ => none

/-- The events a sink stored, each with its row. -/
def storedBy (i : ι) (log : List (Entry F ι)) : List (StepEvent F × StepEvent F) :=
  log.filterMap fun
    | .stored j e row => if j = i then some (e, row) else none
    | _ => none

def droppedBy (i : ι) (log : List (Entry F ι)) : List (StepEvent F) :=
  log.filterMap fun
    | .dropped j e => if j = i then some e else none
    | _ => none

def rowsOf (log : List (Entry F ι)) : List (StepEvent F) :=
  log.filterMap fun
    | .stored _ _ row => some row
    | .appended row => some row
    | _ => none

variable (i : ι) (m n : List (Entry F ι))

omit [DecidableEq ι] in
lemma rowsOf_append : rowsOf (m ++ n) = rowsOf m ++ rowsOf n := List.filterMap_append

lemma handedTo_append : handedTo i (m ++ n) = handedTo i m ++ handedTo i n := List.filterMap_append

lemma storedBy_append : storedBy i (m ++ n) = storedBy i m ++ storedBy i n := List.filterMap_append

lemma droppedBy_append : droppedBy i (m ++ n) = droppedBy i m ++ droppedBy i n := List.filterMap_append

end Entries

section Accounts

variable [DecidableEq ι]

/-- A stored row is the event itself, or the event with another number. -/
def Own (p : StepEvent F × StepEvent F) : Prop := p.2 = { p.1 with seq := p.2.seq }

def renumbered (ps : List (StepEvent F × StepEvent F)) : ℕ := ps.countP fun p => p.1.seq ≠ p.2.seq

/-- Each event handed to the sink is stored, dropped or still waiting, and the sink's counts are right. -/
structure Accounted (i : ι) (em : Emitter F) (log : List (Entry F ι)) : Prop where
  settled : ((storedBy i log).map Prod.fst ++ droppedBy i log ++ em.waiting).Perm (handedTo i log)
  own : ∀ p ∈ storedBy i log, Own p
  written : em.sink.written = (storedBy i log).length
  dropped : em.sink.dropped = (droppedBy i log).length
  realloc : renumbered (storedBy i log) ≤ em.sink.realloc

/-- What one transaction of a sink does. -/
structure Moves (i : ι) (t : Table F) (sink : DbEventSink F) (t' : Table F) (sink' : DbEventSink F)
    (entries : List (Entry F ι)) : Prop where
  rows : t'.rows = t.rows ++ rowsOf entries
  handed : ∀ j, handedTo j entries = []
  others : ∀ j, j ≠ i → storedBy j entries = [] ∧ droppedBy j entries = []
  settled : ((storedBy i entries).map Prod.fst ++ droppedBy i entries ++
    sink'.todo.flatMap SinkTask.events).Perm (sink.todo.flatMap SinkTask.events)
  own : ∀ p ∈ storedBy i entries, Own p
  written : sink'.written = sink.written + (storedBy i entries).length
  dropped : sink'.dropped = sink.dropped + (droppedBy i entries).length
  realloc : sink.realloc + renumbered (storedBy i entries) ≤ sink'.realloc

lemma rows_transact {t t' : Table F} {es : List (StepEvent F)} {o : Outcome}
    (h : transact t es o = .committed t') : t'.rows = t.rows ++ es := by
  cases o with
  | commits =>
    simp only [transact] at h
    split at h
    · next t'' hins =>
      obtain rfl := Result.committed.inj h
      exact Table.rows_insert? hins
    · cases h
  | collides => cases h
  | fails => cases h

lemma storedBy_all (i j : ι) (es : List (StepEvent F)) :
    storedBy j (es.map fun e => Entry.stored i e e) = if i = j then es.map fun e => (e, e) else [] := by
  rw [storedBy, List.filterMap_map]
  split_ifs with h <;> simp [h]

lemma moves_all (i : ι) {t t' : Table F} {es : List (StepEvent F)} {rest : List (SinkTask F)}
    {sink : DbEventSink F} (htodo : sink.todo = .insertAll es :: rest) (ht : t'.rows = t.rows ++ es) :
    Moves i t sink t' { sink with todo := rest, written := sink.written + es.length }
      (es.map fun e => .stored i e e) where
  rows := by simp [ht, rowsOf, List.filterMap_map]
  handed j := by simp [handedTo, List.filterMap_map]
  others j hj := by
    rw [storedBy_all, if_neg (Ne.symm hj)]
    simp [droppedBy, List.filterMap_map]
  settled := by
    rw [storedBy_all, if_pos rfl, htodo]
    simp [droppedBy, List.filterMap_map, Function.comp_def, SinkTask.events]
  own p hp := by
    rw [storedBy_all, if_pos rfl] at hp
    obtain ⟨e, -, rfl⟩ := List.mem_map.mp hp
    rfl
  written := by simp [storedBy_all]
  dropped := by simp [droppedBy, List.filterMap_map]
  realloc := by simp [storedBy_all, renumbered, List.countP_map]

/-- A transaction that leaves the table and the counts, and the same events to come. -/
lemma moves_todo (i : ι) (t : Table F) {sink : DbEventSink F} {todo : List (SinkTask F)}
    (h : todo.flatMap SinkTask.events = sink.todo.flatMap SinkTask.events) :
    Moves i t sink t { sink with todo } [] where
  rows := by simp [rowsOf]
  handed _ := rfl
  others _ _ := ⟨rfl, rfl⟩
  settled := by simp [storedBy, droppedBy, h]
  own _ hp := by cases hp
  written := rfl
  dropped := rfl
  realloc := le_rfl

lemma moves_dropped (i : ι) (t : Table F) {sink : DbEventSink F} {task : SinkTask F} {rest : List (SinkTask F)}
    {e : StepEvent F} (htodo : sink.todo = task :: rest) (he : task.events = [e]) :
    Moves i t sink t { sink with todo := rest, dropped := sink.dropped + 1 } [.dropped i e] where
  rows := by simp [rowsOf]
  handed _ := rfl
  others j hj := by simp [storedBy, droppedBy, Ne.symm hj]
  settled := by simp [storedBy, droppedBy, htodo, he]
  own _ hp := by cases hp
  written := rfl
  dropped := by simp [droppedBy]
  realloc := le_rfl

lemma moves_stored (i : ι) {t t' : Table F} {sink : DbEventSink F} {task : SinkTask F} {rest : List (SinkTask F)}
    {e : StepEvent F} {n realloc : ℕ} (htodo : sink.todo = task :: rest) (he : task.events = [e])
    (ht : t'.rows = t.rows ++ [{ e with seq := n }])
    (hrealloc : sink.realloc + (if e.seq = n then 0 else 1) ≤ realloc) :
    Moves i t sink t' { sink with todo := rest, realloc, written := sink.written + 1 }
      [.stored i e { e with seq := n }] where
  rows := by simp [ht, rowsOf]
  handed _ := rfl
  others j hj := by simp [storedBy, droppedBy, Ne.symm hj]
  settled := by simp [storedBy, droppedBy, htodo, he]
  own p hp := by
    obtain rfl : p = (e, { e with seq := n }) := by simpa [storedBy] using hp
    rfl
  written := by simp [storedBy]
  dropped := by simp [droppedBy]
  realloc := by
    by_cases hn : e.seq = n <;> simpa [storedBy, renumbered, hn] using hrealloc

lemma moves_next (i : ι) (t : Table F) (sink : DbEventSink F) (o : Outcome) :
    Moves i t sink (sink.next i t o).1 (sink.next i t o).2.1 (sink.next i t o).2.2 := by
  cases htodo : sink.todo with
  | nil =>
    have hstay : Moves i t sink t { sink with todo := sink.todo } [] := moves_todo i t rfl
    simp only [DbEventSink.next, htodo]
    exact hstay
  | cons task rest =>
    cases task with
    | insert e =>
      simp only [DbEventSink.next, htodo]
      cases hr : transact t [e] o with
      | committed t' => exact moves_stored (n := e.seq) i htodo rfl (rows_transact hr) (by simp)
      | collided => exact moves_todo i t (by simp [htodo, SinkTask.events])
      | failed => exact moves_dropped i t htodo rfl
    | reallocate e =>
      simp only [DbEventSink.next, htodo]
      cases hr : transact t [{ e with seq := t.lastSeq e.traceId + 1 }] o with
      | committed t' =>
        refine moves_stored i htodo rfl (rows_transact hr) ?_
        split_ifs <;> omega
      | collided => exact moves_dropped i t htodo rfl
      | failed => exact moves_dropped i t htodo rfl
    | insertAll es =>
      have hall : (es.map SinkTask.insert ++ rest).flatMap SinkTask.events =
          (SinkTask.insertAll es :: rest).flatMap SinkTask.events := by
        simp [List.flatMap_append, List.flatMap_map, SinkTask.events]
      simp only [DbEventSink.next, htodo]
      cases hr : transact t es o with
      | committed t' => exact moves_all i htodo (rows_transact hr)
      | collided => exact moves_todo i t (htodo ▸ hall)
      | failed => exact moves_todo i t (htodo ▸ hall)

end Accounts

section Kept

variable [DecidableEq ι]

/-- Nothing is said of a sink. -/
def Quiet (i : ι) (entries : List (Entry F ι)) : Prop :=
  handedTo i entries = [] ∧ storedBy i entries = [] ∧ droppedBy i entries = []

/-- The table holds what was stored and nothing else, and each sink's account is right. -/
structure Kept (s : State F ι ρ) : Prop where
  rows : s.table.rows = rowsOf s.log
  accounted : ∀ i em, s.emitters i = some em → Accounted i em s.log
  absent : ∀ i, s.emitters i = none → Quiet i s.log

lemma Accounted.quiet {i : ι} {em : Emitter F} {log entries : List (Entry F ι)} (h : Accounted i em log)
    (hq : Quiet i entries) : Accounted i em (log ++ entries) where
  settled := by simpa [storedBy_append, droppedBy_append, handedTo_append, hq.1, hq.2.1, hq.2.2] using h.settled
  own := by simpa [storedBy_append, hq.2.1] using h.own
  written := by simpa [storedBy_append, hq.2.1] using h.written
  dropped := by simpa [droppedBy_append, hq.2.2] using h.dropped
  realloc := by simpa [storedBy_append, hq.2.1] using h.realloc

lemma Quiet.append {i : ι} {m n : List (Entry F ι)} (hm : Quiet i m) (hn : Quiet i n) : Quiet i (m ++ n) := by
  refine ⟨?_, ?_, ?_⟩
  · rw [handedTo_append, hm.1, hn.1, List.nil_append]
  · rw [storedBy_append, hm.2.1, hn.2.1, List.nil_append]
  · rw [droppedBy_append, hm.2.2, hn.2.2, List.nil_append]

/-- One emitter changes, and what the log gains is said of it alone. -/
lemma Kept.update {s : State F ι ρ} (h : Kept s) {i : ι} {em : Emitter F} {t : Table F}
    {entries : List (Entry F ι)} (ht : t.rows = s.table.rows ++ rowsOf entries)
    (hq : ∀ j, j ≠ i → Quiet j entries) (ha : Accounted i em (s.log ++ entries)) :
    Kept { s with table := t, emitters := Function.update s.emitters i (some em), log := s.log ++ entries } where
  rows := by rw [ht, h.rows, rowsOf_append]
  accounted j em' hj := by
    dsimp only at hj
    by_cases hji : j = i
    · subst hji
      rw [Function.update_self] at hj
      obtain rfl := Option.some.inj hj
      exact ha
    · rw [Function.update_of_ne hji] at hj
      exact (h.accounted j em' hj).quiet (hq j hji)
  absent j hj := by
    dsimp only at hj
    by_cases hji : j = i
    · subst hji
      rw [Function.update_self] at hj
      cases hj
    · rw [Function.update_of_ne hji] at hj
      exact (h.absent j hj).append (hq j hji)

lemma quiet_handed {i j : ι} (hj : j ≠ i) (es : List (StepEvent F)) :
    Quiet j (es.map (Entry.handed i)) := by
  refine ⟨?_, ?_, ?_⟩
  · simp [handedTo, List.filterMap_map, Ne.symm hj]
  · simp [storedBy, List.filterMap_map]
  · simp [droppedBy, List.filterMap_map]

/-- A sink with nothing to do takes more events. -/
lemma Accounted.hand {i : ι} {traceId : String} {seq seq' : ℕ} {sink : DbEventSink F}
    {log : List (Entry F ι)} {es : List (StepEvent F)} {todo : List (SinkTask F)}
    (h : Accounted i ⟨traceId, seq, sink⟩ log) (hidle : sink.todo = [])
    (htodo : todo.flatMap SinkTask.events = es) :
    Accounted i ⟨traceId, seq', { sink with todo }⟩ (log ++ es.map (.handed i)) := by
  have hhanded : handedTo i (es.map (Entry.handed i)) = es := by
    simp [handedTo, List.filterMap_map]
  have hstored : storedBy i (es.map (Entry.handed i)) = [] := by
    simp [storedBy, List.filterMap_map]
  have hdropped : droppedBy i (es.map (Entry.handed i)) = [] := by
    simp [droppedBy, List.filterMap_map]
  constructor
  · have hs := h.settled
    rw [Emitter.waiting, hidle, List.flatMap_nil, List.append_nil] at hs
    rw [storedBy_append, droppedBy_append, handedTo_append, hhanded, hstored, hdropped, List.append_nil,
      List.append_nil, Emitter.waiting, htodo]
    exact hs.append_right es
  · simpa [storedBy_append, hstored] using h.own
  · simpa [storedBy_append, hstored] using h.written
  · simpa [droppedBy_append, hdropped] using h.dropped
  · simpa [storedBy_append, hstored] using h.realloc

lemma Accounted.moves {i : ι} {em : Emitter F} {log entries : List (Entry F ι)} {t t' : Table F}
    {sink : DbEventSink F} (h : Accounted i em log) (hm : Moves i t em.sink t' sink entries) :
    Accounted i { em with sink } (log ++ entries) := by
  constructor
  · rw [storedBy_append, droppedBy_append, handedTo_append, hm.handed, List.append_nil, List.map_append]
    -- what the transaction settled was waiting before it
    refine List.Perm.trans ?_ ((hm.settled.append_left _).trans h.settled)
    rw [← Multiset.coe_eq_coe]
    simp only [← Multiset.coe_add, Emitter.waiting]
    abel
  · intro p hp
    rw [storedBy_append] at hp
    exact (List.mem_append.mp hp).elim (h.own p) (hm.own p)
  · rw [storedBy_append, List.length_append, hm.written, h.written]
  · rw [droppedBy_append, List.length_append, hm.dropped, h.dropped]
  · rw [storedBy_append, renumbered, List.countP_append]
    exact (Nat.add_le_add_right h.realloc _).trans hm.realloc

lemma kept_init : Kept (State.init : State F ι ρ) where
  rows := rfl
  accounted _ _ h := by cases h
  absent _ _ := ⟨rfl, rfl, rfl⟩

lemma kept_openEmitter {s : State F ι ρ} (h : Kept s) (i : ι) (traceId : String) :
    Kept (openEmitter s i traceId) := by
  unfold openEmitter
  cases hi : s.emitters i with
  | some em => exact h
  | none =>
    obtain ⟨hh, hs, hd⟩ := h.absent i hi
    have ha : Accounted i { traceId, seq := s.table.lastSeq traceId } (s.log ++ []) := by
      rw [List.append_nil]
      exact ⟨by simp [hh, hs, hd, Emitter.waiting], by simp [hs], by simp [hs], by simp [hd],
        by simp [hs, renumbered]⟩
    have hk := h.update (t := s.table) (by simp [rowsOf]) (fun j _ => ⟨rfl, rfl, rfl⟩) ha
    rw [List.append_nil] at hk
    exact hk

lemma kept_emit {s : State F ι ρ} (h : Kept s) (i : ι) (event : StepEvent F) : Kept (emit s i event) := by
  unfold emit
  split
  · next traceId seq dropped written realloc hi =>
    exact h.update (by simp [rowsOf]) (fun j hj => quiet_handed hj [_]) ((h.accounted i _ hi).hand rfl rfl)
  · exact h

lemma kept_emitMany {s : State F ι ρ} (h : Kept s) (i : ι) (events : List (StepEvent F)) :
    Kept (emitMany s i events) := by
  unfold emitMany
  split
  · next traceId seq dropped written realloc hi =>
    refine h.update (by simp [rowsOf, List.filterMap_map])
      (fun j hj => quiet_handed hj events) ((h.accounted i _ hi).hand rfl ?_)
    split_ifs with hnil <;> simp [hnil, SinkTask.events]
  · exact h

lemma kept_next {s : State F ι ρ} (h : Kept s) (i : ι) (o : Outcome) : Kept (next s i o) := by
  unfold next
  cases hi : s.emitters i with
  | none => exact h
  | some em =>
    have hm := moves_next i s.table em.sink o
    exact h.update hm.rows (fun j hj => ⟨hm.handed j, hm.others j hj⟩) ((h.accounted i em hi).moves hm)

lemma kept_append {s : State F ι ρ} (h : Kept s) (event : StepEvent F) (o : Outcome) :
    Kept (append s event o) := by
  unfold append
  dsimp only
  split
  · next table hr =>
    refine ⟨?_, fun i em hi => (h.accounted i em hi).quiet ⟨rfl, rfl, rfl⟩,
      fun i hi => (h.absent i hi).append ⟨rfl, rfl, rfl⟩⟩
    rw [rows_transact hr, h.rows, rowsOf_append]
    rfl
  · exact h

variable [DecidableEq ρ]

lemma kept_step {s : State F ι ρ} (h : Kept s) (l : Label F ι ρ) : Kept (step s l) := by
  cases l with
  | start i traceId => exact kept_openEmitter h i traceId
  | emit i event => exact kept_emit h i event
  | emitMany i events => exact kept_emitMany h i events
  | next i o => exact kept_next h i o
  | append event o => exact kept_append h event o
  | follow r traceId =>
    simp only [step, follow]
    split <;> exact ⟨h.rows, h.accounted, h.absent⟩
  | page r limit =>
    simp only [step, turnPage]
    split <;> exact ⟨h.rows, h.accounted, h.absent⟩

end Kept

section Cursors

/-- The rows lie above what is stored of their traces, and rise. -/
def Above (t : Table F) (es : List (StepEvent F)) : Prop :=
  (∀ e ∈ es, t.lastSeq e.traceId < e.seq) ∧ es.Pairwise fun a b => a.traceId = b.traceId → a.seq < b.seq

/-- The rows a transaction adds under the numbers they came with. -/
def numbered : SinkTask F → List (StepEvent F)
  | .insert e => [e]
  | .reallocate _ => []
  | .insertAll es => es

/-- Where the indexes accept the numbers a writer chose itself, the numbers lie above those stored. -/
def Lands (s : State F ι ρ) : Label F ι ρ → Prop
  | .next i _ => ∀ em task rest, s.emitters i = some em → em.sink.todo = task :: rest →
      (s.table.insert? (numbered task)).isSome → Above s.table (numbered task)
  | _ => True

/-- Numbers rise in the order of the commits, and each reader was served all there is up to its cursor. -/
structure Climbs (s : State F ι ρ) : Prop where
  rising : s.table.rows.Pairwise fun a b => a.traceId = b.traceId → a.seq < b.seq
  positive : ∀ e ∈ s.table.rows, 0 < e.seq
  upToDate : ∀ r x, s.readers r = some x → UpToDate StepEvent.seq (s.table.trace x.traceId) x.reader

lemma rising_trace {t : Table F} (h : t.rows.Pairwise fun a b => a.traceId = b.traceId → a.seq < b.seq)
    (traceId : String) : Rising StepEvent.seq (t.trace traceId) := by
  refine (h.sublist List.filter_sublist).imp_of_mem fun {a b} ha hb hab => hab ?_
  have hta : a.traceId = traceId := by simpa using List.of_mem_filter ha
  have htb : b.traceId = traceId := by simpa using List.of_mem_filter hb
  rw [hta, htb]

lemma climbs_grows {s s' : State F ι ρ} (h : Climbs s) {es : List (StepEvent F)}
    (ht : s'.table.rows = s.table.rows ++ es) (ha : Above s.table es) (hr : s'.readers = s.readers) :
    Climbs s' := by
  have hrising : s'.table.rows.Pairwise fun a b => a.traceId = b.traceId → a.seq < b.seq := by
    rw [ht, List.pairwise_append]
    refine ⟨h.rising, ha.2, fun a hmem b hb hab => ?_⟩
    have hle := Table.seq_le_lastSeq hmem
    have hlt := ha.1 b hb
    rw [hab] at hle
    omega
  have hpos : ∀ e ∈ es, 0 < e.seq := fun e he => Nat.zero_lt_of_lt (ha.1 e he)
  refine ⟨hrising, fun e he => ?_, fun r x hx => ?_⟩
  · rw [ht] at he
    exact (List.mem_append.mp he).elim (h.positive e) (hpos e)
  · rw [hr] at hx
    rw [Table.trace_append ht]
    refine (h.upToDate r x hx).append ?_ fun e he => hpos e (List.mem_of_mem_filter he)
    rw [← Table.trace_append ht]
    exact rising_trace hrising x.traceId

lemma above_nil (t : Table F) : Above t [] := ⟨fun _ h => (by cases h), List.Pairwise.nil⟩

lemma above_next (t : Table F) (e : StepEvent F) :
    Above t [{ e with seq := t.lastSeq e.traceId + 1 }] := by
  refine ⟨fun e' he => ?_, List.pairwise_singleton _ _⟩
  obtain rfl := List.mem_singleton.mp he
  exact Nat.lt_succ_self _

lemma isSome_insert?_of_transact {t t' : Table F} {es : List (StepEvent F)} {o : Outcome}
    (h : transact t es o = .committed t') : (t.insert? es).isSome := by
  cases o with
  | commits =>
    simp only [transact] at h
    split at h
    · next t'' hins => rw [hins]; rfl
    · cases h
  | collides => cases h
  | fails => cases h

/-- What a sink's transaction adds to the table lies above what was stored. -/
lemma above_sinkNext {i : ι} {t : Table F} {sink : DbEventSink F} {o : Outcome}
    (h : ∀ task rest, sink.todo = task :: rest → (t.insert? (numbered task)).isSome → Above t (numbered task)) :
    ∃ es, (sink.next i t o).1.rows = t.rows ++ es ∧ Above t es := by
  have hstay : ∃ es, t.rows = t.rows ++ es ∧ Above t es := ⟨[], by simp, above_nil t⟩
  cases htodo : sink.todo with
  | nil => simpa only [DbEventSink.next, htodo] using hstay
  | cons task rest =>
    cases task with
    | insert e =>
      simp only [DbEventSink.next, htodo]
      cases hr : transact t [e] o with
      | committed t' => exact ⟨[e], rows_transact hr, h _ _ htodo (isSome_insert?_of_transact hr)⟩
      | collided => exact hstay
      | failed => exact hstay
    | reallocate e =>
      simp only [DbEventSink.next, htodo]
      cases hr : transact t [{ e with seq := t.lastSeq e.traceId + 1 }] o with
      | committed t' => exact ⟨_, rows_transact hr, above_next t e⟩
      | collided => exact hstay
      | failed => exact hstay
    | insertAll es =>
      simp only [DbEventSink.next, htodo]
      cases hr : transact t es o with
      | committed t' => exact ⟨es, rows_transact hr, h _ _ htodo (isSome_insert?_of_transact hr)⟩
      | collided => exact hstay
      | failed => exact hstay

lemma climbs_init : Climbs (State.init : State F ι ρ) where
  rising := List.Pairwise.nil
  positive _ h := by cases h
  upToDate _ _ h := by cases h

section Readers

variable [DecidableEq ρ]

lemma climbs_follow {s : State F ι ρ} (h : Climbs s) (r : ρ) (traceId : String) :
    Climbs (follow s r traceId) := by
  unfold follow
  split
  · exact h
  · refine ⟨h.rising, h.positive, fun r' x hx => ?_⟩
    dsimp only at hx
    by_cases hr : r' = r
    · subst hr
      rw [Function.update_self] at hx
      obtain rfl := Option.some.inj hx
      exact upToDate_start fun e he => h.positive e (List.mem_of_mem_filter he)
    · rw [Function.update_of_ne hr] at hx
      exact h.upToDate r' x hx

lemma climbs_turnPage {s : State F ι ρ} (h : Climbs s) (r : ρ) (limit : ℤ) :
    Climbs (turnPage s r limit) := by
  unfold turnPage
  cases hx : s.readers r with
  | none => exact h
  | some x =>
    refine ⟨h.rising, h.positive, fun r' y hy => ?_⟩
    dsimp only at hy
    by_cases hr : r' = r
    · subst hr
      rw [Function.update_self] at hy
      obtain rfl := Option.some.inj hy
      exact (h.upToDate r' x hx).turn (rising_trace h.rising x.traceId) _
    · rw [Function.update_of_ne hr] at hy
      exact h.upToDate r' y hy

variable [DecidableEq ι]

lemma climbs_step {s : State F ι ρ} (h : Climbs s) {l : Label F ι ρ} (hl : Lands s l) :
    Climbs (step s l) := by
  cases l with
  | start i traceId =>
    simp only [step, openEmitter]
    split <;> exact ⟨h.rising, h.positive, h.upToDate⟩
  | emit i event =>
    simp only [step, emit]
    split <;> exact ⟨h.rising, h.positive, h.upToDate⟩
  | emitMany i events =>
    simp only [step, emitMany]
    split <;> exact ⟨h.rising, h.positive, h.upToDate⟩
  | next i o =>
    simp only [step, next]
    cases hi : s.emitters i with
    | none => exact h
    | some em =>
      obtain ⟨es, hrows, habove⟩ := above_sinkNext (i := i) (o := o) fun task rest => hl em task rest hi
      exact climbs_grows h hrows habove rfl
  | append event o =>
    simp only [step, append]
    split
    · next table hr => exact climbs_grows h (rows_transact hr) (above_next _ _) rfl
    · exact h
  | follow r traceId => exact climbs_follow h r traceId
  | page r limit => exact climbs_turnPage h r limit

end Readers

end Cursors

section Gaps

/-- No number below the last of a trace is free. -/
def Gapless (t : Table F) : Prop :=
  ∀ traceId n, 0 < n → n ≤ t.lastSeq traceId → ∃ e ∈ t.rows, e.traceId = traceId ∧ e.seq = n

/-- An emitter stands at most one number above its trace, and there only with an event to store. -/
structure Near (t : Table F) (em : Emitter F) : Prop where
  seq : em.seq ≤ t.lastSeq em.traceId + 1
  idle : em.sink.todo = [] → em.seq ≤ t.lastSeq em.traceId
  todo : ∀ task rest, em.sink.todo = task :: rest → rest = [] ∧ ∃ e, e.traceId = em.traceId ∧
    (task = .insert e ∧ e.seq = em.seq ∧ 0 < em.seq ∨ task = .reallocate e)

structure Dense (s : State F ι ρ) : Prop where
  gapless : Gapless s.table
  near : ∀ i em, s.emitters i = some em → Near s.table em

lemma lastSeq_le {t : Table F} {traceId : String} {n : ℕ}
    (h : ∀ e ∈ t.rows, e.traceId = traceId → e.seq ≤ n) : t.lastSeq traceId ≤ n := by
  have hall : ∀ ns : List ℕ, (∀ m ∈ ns, m ≤ n) → ns.foldr max 0 ≤ n := by
    intro ns hns
    induction ns with
    | nil => exact Nat.zero_le n
    | cons m ns ih => exact max_le (hns m (by simp)) (ih fun k hk => hns k (by simp [hk]))
  refine hall _ fun m hm => ?_
  obtain ⟨e, he, rfl⟩ := List.mem_map.mp hm
  exact h e (List.mem_of_mem_filter he) (by simpa using List.of_mem_filter he)

lemma lastSeq_append {t t' : Table F} {es : List (StepEvent F)} (h : t'.rows = t.rows ++ es)
    (traceId : String) : t.lastSeq traceId ≤ t'.lastSeq traceId := by
  refine lastSeq_le fun e he htrace => ?_
  rw [← htrace]
  exact Table.seq_le_lastSeq (by rw [h]; exact List.mem_append_left _ he)

lemma lastSeq_snoc_le {t t' : Table F} {e : StepEvent F} (h : t'.rows = t.rows ++ [e]) (traceId : String) :
    t'.lastSeq traceId ≤ max (t.lastSeq traceId) (if e.traceId = traceId then e.seq else 0) := by
  refine lastSeq_le fun a ha htrace => ?_
  rw [h] at ha
  obtain ha | ha := List.mem_append.mp ha
  · exact le_max_of_le_left (htrace ▸ Table.seq_le_lastSeq ha)
  · obtain rfl := List.mem_singleton.mp ha
    rw [if_pos htrace]
    exact le_max_right _ _

lemma Near.append {t t' : Table F} {em : Emitter F} {es : List (StepEvent F)} (h : Near t em)
    (ht : t'.rows = t.rows ++ es) : Near t' em where
  seq := h.seq.trans (Nat.succ_le_succ (lastSeq_append ht _))
  idle hidle := (h.idle hidle).trans (lastSeq_append ht _)
  todo := h.todo

lemma Gapless.snoc {t t' : Table F} {e : StepEvent F} (h : Gapless t) (ht : t'.rows = t.rows ++ [e])
    (he : e.seq ≤ t.lastSeq e.traceId + 1) : Gapless t' := by
  intro traceId n hpos hn
  by_cases hlast : n ≤ t.lastSeq traceId
  · obtain ⟨a, ha, hplace⟩ := h traceId n hpos hlast
    exact ⟨a, by rw [ht]; exact List.mem_append_left _ ha, hplace⟩
  · -- only the new row reaches further
    have hlast' := lastSeq_snoc_le ht traceId
    by_cases htrace : e.traceId = traceId
    · rw [if_pos htrace] at hlast'
      rw [htrace] at he
      exact ⟨e, by rw [ht]; simp, htrace, by omega⟩
    · rw [if_neg htrace] at hlast'
      omega

lemma Near.above {t : Table F} {em : Emitter F} (h : Near t em) (hg : Gapless t) {task : SinkTask F}
    {rest : List (SinkTask F)} (htodo : em.sink.todo = task :: rest)
    (hfree : (t.insert? (numbered task)).isSome) : Above t (numbered task) := by
  obtain ⟨-, e, htrace, ⟨rfl, hseq, hpos⟩ | rfl⟩ := h.todo task rest htodo
  · refine ⟨fun e' he => ?_, List.pairwise_singleton _ _⟩
    obtain rfl := List.mem_singleton.mp he
    by_contra hle
    obtain ⟨a, ha, hat, has⟩ := hg e'.traceId e'.seq (hseq ▸ hpos) (not_lt.mp hle)
    obtain ⟨t', ht'⟩ := Option.isSome_iff_exists.mp hfree
    have hplaces := t'.places
    rw [Table.rows_insert? ht', List.map_append, List.nodup_append] at hplaces
    exact hplaces.2.2 a.place (List.mem_map_of_mem ha) e'.place (by simp [numbered])
      (by simp [StepEvent.place, hat, has])
  · exact above_nil t

variable [DecidableEq ι] [DecidableEq ρ]

/-- No batch is written and no event dropped. -/
def Undropped (s : State F ι ρ) (l : Label F ι ρ) : Prop :=
  (∀ i es, l ≠ .emitMany i es) ∧ ∀ i e, Entry.dropped i e ∉ (step s l).log

omit [DecidableEq ρ] in
lemma Dense.update {s : State F ι ρ} (h : Dense s) {t : Table F} {es : List (StepEvent F)} {i : ι}
    {em : Emitter F} (ht : t.rows = s.table.rows ++ es) (hg : Gapless t) (hem : Near t em)
    (log : List (Entry F ι)) :
    Dense { s with table := t, emitters := Function.update s.emitters i (some em), log } where
  gapless := hg
  near j em' hj := by
    dsimp only at hj
    by_cases hji : j = i
    · subst hji
      rw [Function.update_self] at hj
      obtain rfl := Option.some.inj hj
      exact hem
    · rw [Function.update_of_ne hji] at hj
      exact (h.near j em' hj).append ht

omit [DecidableEq ι] in
/-- A transaction that drops nothing leaves no gap, and its emitter near the end of the trace. -/
lemma Near.next {i : ι} {t : Table F} {em : Emitter F} {o : Outcome} (h : Near t em) (hg : Gapless t)
    (hd : ∀ e, Entry.dropped i e ∉ (em.sink.next i t o).2.2) :
    ∃ es, (em.sink.next i t o).1.rows = t.rows ++ es ∧ Gapless (em.sink.next i t o).1 ∧
      Near (em.sink.next i t o).1 { em with sink := (em.sink.next i t o).2.1 } := by
  cases htodo : em.sink.todo with
  | nil =>
    simp only [DbEventSink.next, htodo]
    exact ⟨[], by simp, hg, h.seq, h.idle, h.todo⟩
  | cons task rest =>
    obtain ⟨rfl, e, htrace, ⟨rfl, hseq, hpos⟩ | rfl⟩ := h.todo task rest htodo
    · simp only [DbEventSink.next, htodo] at hd ⊢
      cases hr : transact t [e] o with
      | committed t' =>
        dsimp only
        have ht := rows_transact hr
        have hlast : e.seq ≤ t'.lastSeq e.traceId := Table.seq_le_lastSeq (by rw [ht]; simp)
        rw [hseq, htrace] at hlast
        exact ⟨[e], ht, hg.snoc ht (by rw [hseq, htrace]; exact h.seq),
          h.seq.trans (Nat.succ_le_succ (lastSeq_append ht _)), fun _ => hlast, fun _ _ hc => by cases hc⟩
      | collided =>
        dsimp only
        refine ⟨[], by simp, hg, h.seq, fun hc => (by cases hc), fun task rest hc => ?_⟩
        obtain ⟨rfl, rfl⟩ := List.cons.inj hc
        exact ⟨rfl, e, htrace, .inr rfl⟩
      | failed =>
        rw [hr] at hd
        exact absurd (by simp) (hd e)
    · have hdrop : transact t [{ e with seq := t.lastSeq e.traceId + 1 }] o ≠ .collided ∧
          transact t [{ e with seq := t.lastSeq e.traceId + 1 }] o ≠ .failed := by
        constructor <;> intro hr <;> exact hd e (by simp [DbEventSink.next, htodo, hr])
      simp only [DbEventSink.next, htodo]
      cases hr : transact t [{ e with seq := t.lastSeq e.traceId + 1 }] o with
      | committed t' =>
        dsimp only
        have ht := rows_transact hr
        have hmem : { e with seq := t.lastSeq e.traceId + 1 } ∈ t'.rows := by rw [ht]; simp
        have hlast : t.lastSeq em.traceId + 1 ≤ t'.lastSeq em.traceId := htrace ▸ Table.seq_le_lastSeq hmem
        exact ⟨_, ht, hg.snoc ht le_rfl, h.seq.trans (hlast.trans (Nat.le_succ _)),
          fun _ => h.seq.trans hlast, fun _ _ hc => by cases hc⟩
      | collided => exact absurd hr hdrop.1
      | failed => exact absurd hr hdrop.2

omit [DecidableEq ρ] in
lemma dense_next {s : State F ι ρ} (h : Dense s) {i : ι} {o : Outcome}
    (hd : ∀ j e, Entry.dropped j e ∉ (next s i o).log) : Dense (next s i o) := by
  unfold next at hd ⊢
  cases hi : s.emitters i with
  | none => exact h
  | some em =>
    rw [hi] at hd
    obtain ⟨es, hrows, hg, hem⟩ := (h.near i em hi).next (o := o) h.gapless
      fun e he => hd i e (List.mem_append_right _ he)
    exact h.update hrows hg hem _

lemma dense_step {s : State F ι ρ} (h : Dense s) {l : Label F ι ρ} (hl : Undropped s l) :
    Dense (step s l) := by
  have hself : s.table.rows = s.table.rows ++ [] := (List.append_nil _).symm
  cases l with
  | start i traceId =>
    simp only [step, openEmitter]
    split
    · exact h
    · exact h.update hself h.gapless ⟨Nat.le_succ _, fun _ => le_rfl, fun _ _ hc => by cases hc⟩ s.log
  | emit i event =>
    simp only [step, emit]
    split
    · next traceId seq dropped written realloc hi =>
      have hidle := (h.near i _ hi).idle rfl
      refine h.update hself h.gapless ⟨Nat.succ_le_succ hidle, fun hc => (by cases hc), fun task rest hc => ?_⟩ _
      obtain ⟨rfl, rfl⟩ := List.cons.inj hc
      exact ⟨rfl, _, rfl, .inl ⟨rfl, rfl, Nat.succ_pos _⟩⟩
    · exact h
  | emitMany i events => exact absurd rfl (hl.1 i events)
  | next i o => exact dense_next h hl.2
  | append event o =>
    simp only [step, append]
    split
    · next table hr =>
      have ht := rows_transact hr
      exact ⟨h.gapless.snoc ht le_rfl, fun i em hi => (h.near i em hi).append ht⟩
    · exact h
  | follow r traceId =>
    simp only [step, follow]
    split <;> exact ⟨h.gapless, h.near⟩
  | page r limit =>
    simp only [step, turnPage]
    split <;> exact ⟨h.gapless, h.near⟩

omit [DecidableEq ι] [DecidableEq ρ] in
lemma dense_init : Dense (State.init : State F ι ρ) where
  gapless _ n hpos hn := absurd hn (by simp [State.init, Table.lastSeq, Table.trace, Table.empty]; omega)
  near _ _ h := by cases h

/-- Below the last number of a trace a number is free only where an event was dropped or a batch left it. -/
theorem lands_of_undropped {labels : List (Label F ι ρ)}
    (h : Along step Undropped (State.init : State F ι ρ) labels) : Along step Lands State.init labels := by
  refine h.strengthen (I := Dense) (fun _ _ hs hl => dense_step hs hl) (fun s l hs hl => ?_) dense_init
  cases l with
  | next i o => exact fun em task rest hi htodo hfree => (hs.near i em hi).above hs.gapless htodo hfree
  | _ => trivial

end Gaps

section Runs

variable [DecidableEq ι] [DecidableEq ρ]

end Runs

section TwoWorkers

def note (eventId : String) : StepEvent Whole where
  traceId := "run1"
  stage := .grade
  action := "attempt.graded"
  timestamp := "t0"
  eventId := eventId

/-- A worker's second event is lost. The run is reclaimed, and the new worker resumes from the first. The
old one, not yet stopped, stores its third event, a reader is served it, and the new worker stores its first
under the number that was lost. -/
def lostNumber : List (Label Whole Bool Unit) :=
  [.start false "run1", .follow () "run1",
    .emit false (note "e1"), .next false .commits,
    .emit false (note "e2"), .next false .fails,
    .start true "run1",
    .emit false (note "e3"), .next false .commits, .page () 500,
    .emit true (note "e4"), .next true .commits, .page () 500]

/-- One worker alone. -/
def firstNumbers : List (Label Whole Bool Unit) :=
  [.start false "run1", .follow () "run1", .emit false (note "e1"), .next false .commits, .page () 500]

def servedIds (s : State Whole Bool Unit) : Option (List String) :=
  (s.readers ()).map fun x => x.reader.served.map StepEvent.eventId

/-- The number that was lost is stored below the reader's cursor. -/
lemma runFrom_lostNumber :
    let s := runFrom step (State.init : State Whole Bool Unit) lostNumber
    s.table.rows.map StepEvent.place = [("run1", 1), ("run1", 3), ("run1", 2)] ∧
      (s.readers ()).map (fun x => x.reader.cursor) = some 3 ∧ servedIds s = some ["e1", "e3"] ∧
      (s.table.trace "run1").map StepEvent.eventId = ["e1", "e3", "e4"] := by
  decide

end TwoWorkers

end CommitReplay.ResumedReaders
