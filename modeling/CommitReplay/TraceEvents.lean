import CommitReplay.CursorReads
import CommitReplay.JsonValue
import CommitReplay.TransitionRuns
import Mathlib.Data.List.Nodup
import Mathlib.Data.List.Perm.Basic
import Mathlib.Logic.Function.Basic

/-! The events of the runs: emitters that number what they emit, the sinks that store it, the writers that
take the next number under the events lock, and the readers that resume from a number. -/
namespace CommitReplay.TraceEvents

open CommitReplay.JsonValue CommitReplay.TransitionRuns CommitReplay.CursorReads

inductive Stage
  | mine | prep | build | grade | ledger | oracle | factory | system
deriving DecidableEq, Repr

inductive StepStatus
  | ok | error | invalid | skipped | inProgress
deriving DecidableEq, Repr

/-- An event, already redacted. -/
structure StepEvent (F : Type) where
  traceId : String
  stage : Stage
  action : String
  status : StepStatus := .ok
  stepId : String := ""
  parentStepId : String := ""
  actor : String := ""
  repo : String := ""
  taskId : String := ""
  inputRef : String := ""
  outputRef : String := ""
  errorCode : String := ""
  errorMessage : String := ""
  durationMs : Option ℤ := none
  costUsd : Option F := none
  payload : List (String × Json F) := []
  timestamp : String
  seq : ℕ := 0
  eventId : String

variable {F : Type}

/-- What `uq_events_trace_seq` keeps unique. -/
def StepEvent.place (e : StepEvent F) : String × ℕ := (e.traceId, e.seq)

/-- The rows in the order they were committed. -/
structure Table (F : Type) where
  rows : List (StepEvent F)
  ids : (rows.map StepEvent.eventId).Nodup
  places : (rows.map StepEvent.place).Nodup

namespace Table

def empty : Table F := ⟨[], List.nodup_nil, List.nodup_nil⟩

/-- One transaction that adds all the rows or, when an index refuses one of them, none. -/
def insert? (t : Table F) (es : List (StepEvent F)) : Option (Table F) :=
  if h : ((t.rows ++ es).map StepEvent.eventId).Nodup ∧ ((t.rows ++ es).map StepEvent.place).Nodup then
    some ⟨t.rows ++ es, h.1, h.2⟩
  else none

def trace (t : Table F) (traceId : String) : List (StepEvent F) := t.rows.filter fun e => e.traceId = traceId

def lastSeq (t : Table F) (traceId : String) : ℕ := ((t.trace traceId).map StepEvent.seq).foldr max 0

def maxReadLimit : ℕ := 5000

/-- The number of rows a reader gets at most. -/
def pageSize (limit : ℤ) : ℕ := (max 1 (min limit maxReadLimit)).toNat

def readEvents (t : Table F) (traceId : String) (afterSeq : ℕ) (limit : ℤ) : List (StepEvent F) :=
  pageAfter StepEvent.seq (t.trace traceId) afterSeq (pageSize limit)

variable {t t' : Table F}

lemma rows_insert? {es : List (StepEvent F)} (h : t.insert? es = some t') : t'.rows = t.rows ++ es := by
  unfold insert? at h
  split_ifs at h
  obtain rfl := Option.some.inj h
  rfl

lemma trace_append {es : List (StepEvent F)} (h : t'.rows = t.rows ++ es) (traceId : String) :
    t'.trace traceId = t.trace traceId ++ es.filter fun e => e.traceId = traceId := by
  rw [trace, h, List.filter_append, trace]

lemma le_foldr_max {n : ℕ} : ∀ {ns : List ℕ}, n ∈ ns → n ≤ ns.foldr max 0
  | m :: ns, h => by
    obtain rfl | h := List.mem_cons.mp h
    · exact le_max_left _ _
    · exact (le_foldr_max h).trans (le_max_right _ _)

lemma seq_le_lastSeq {e : StepEvent F} (h : e ∈ t.rows) : e.seq ≤ t.lastSeq e.traceId :=
  le_foldr_max (List.mem_map_of_mem (List.mem_filter.mpr ⟨h, by simp⟩))

end Table

/-- How a transaction ends: committed unless an index refuses it, refused as an integrity error whose text
names the trace, or lost to any other failure. -/
inductive Outcome
  | commits | collides | fails
deriving DecidableEq

inductive Result (F : Type)
  | committed (t : Table F) | collided | failed

def transact (t : Table F) (es : List (StepEvent F)) : Outcome → Result F
  | .commits =>
    match t.insert? es with
    | some t' => .committed t'
    | none => .collided
  | .collides => .collided
  | .fails => .failed

/-- A transaction a sink has still to make of the call it is in. -/
inductive SinkTask (F : Type)
  | insert (e : StepEvent F)
  | reallocate (e : StepEvent F)
  | insertAll (es : List (StepEvent F))

def SinkTask.events : SinkTask F → List (StepEvent F)
  | .insert e => [e]
  | .reallocate e => [e]
  | .insertAll es => es

structure DbEventSink (F : Type) where
  dropped : ℕ := 0
  written : ℕ := 0
  realloc : ℕ := 0
  todo : List (SinkTask F) := []

/-- An emitter of one trace with its own sink. Between its calls the sink has nothing to do. -/
structure Emitter (F : Type) where
  traceId : String
  seq : ℕ
  sink : DbEventSink F := {}

def Emitter.waiting (em : Emitter F) : List (StepEvent F) := em.sink.todo.flatMap SinkTask.events

/-- What happened to an event. -/
inductive Entry (F ι : Type)
  | handed (i : ι) (e : StepEvent F)
  | stored (i : ι) (e row : StepEvent F)
  | dropped (i : ι) (e : StepEvent F)
  | appended (row : StepEvent F)

/-- The next transaction of a sink: the table and the sink after it, and what became of the events. -/
def DbEventSink.next {ι : Type} (i : ι) (t : Table F) (sink : DbEventSink F) (o : Outcome) :
    Table F × DbEventSink F × List (Entry F ι) :=
  match sink.todo with
  | [] => (t, sink, [])
  | .insert e :: rest =>
    match transact t [e] o with
    | .committed t' => (t', { sink with todo := rest, written := sink.written + 1 }, [.stored i e e])
    | .collided => (t, { sink with todo := .reallocate e :: rest }, [])
    | .failed => (t, { sink with todo := rest, dropped := sink.dropped + 1 }, [.dropped i e])
  | .reallocate e :: rest =>
    let row := { e with seq := t.lastSeq e.traceId + 1 }
    match transact t [row] o with
    | .committed t' =>
      (t', { sink with todo := rest, realloc := sink.realloc + 1, written := sink.written + 1 },
        [.stored i e row])
    | _ => (t, { sink with todo := rest, dropped := sink.dropped + 1 }, [.dropped i e])
  | .insertAll es :: rest =>
    match transact t es o with
    | .committed t' =>
      (t', { sink with todo := rest, written := sink.written + es.length }, es.map fun e => .stored i e e)
    | _ => (t, { sink with todo := es.map .insert ++ rest }, [])

/-- A resuming reader of one trace. -/
structure TraceReader (F : Type) where
  traceId : String
  reader : Reader (StepEvent F) := {}

structure State (F ι ρ : Type) where
  table : Table F
  emitters : ι → Option (Emitter F)
  readers : ρ → Option (TraceReader F)
  log : List (Entry F ι)

def State.init {F ι ρ : Type} : State F ι ρ := ⟨.empty, fun _ => none, fun _ => none, []⟩

inductive Label (F ι ρ : Type)
  | start (i : ι) (traceId : String)
  | emit (i : ι) (event : StepEvent F)
  | emitMany (i : ι) (events : List (StepEvent F))
  | next (i : ι) (o : Outcome)
  | append (event : StepEvent F) (o : Outcome)
  | follow (r : ρ) (traceId : String)
  | page (r : ρ) (limit : ℤ)

section Steps

variable {ι ρ : Type} [DecidableEq ι] [DecidableEq ρ]

/-- An emitter starts from the last number stored when it is made. -/
def openEmitter (s : State F ι ρ) (i : ι) (traceId : String) : State F ι ρ :=
  match s.emitters i with
  | some _ => s
  | none =>
    { s with emitters := Function.update s.emitters i (some { traceId, seq := s.table.lastSeq traceId }) }

/-- `Emitter.emit` takes the next number and hands the event to the sink, under one lock: an emitter whose
sink is in a call waits. -/
def emit (s : State F ι ρ) (i : ι) (event : StepEvent F) : State F ι ρ :=
  match s.emitters i with
  | some ⟨traceId, seq, ⟨dropped, written, realloc, []⟩⟩ =>
    let e := { event with traceId, seq := seq + 1 }
    { s with
      emitters := Function.update s.emitters i
        (some ⟨traceId, seq + 1, ⟨dropped, written, realloc, [.insert e]⟩⟩)
      log := s.log ++ [.handed i e] }
  | _ => s

def emitMany (s : State F ι ρ) (i : ι) (events : List (StepEvent F)) : State F ι ρ :=
  match s.emitters i with
  | some ⟨traceId, seq, ⟨dropped, written, realloc, []⟩⟩ =>
    { s with
      emitters := Function.update s.emitters i
        (some ⟨traceId, seq, ⟨dropped, written, realloc, if events = [] then [] else [.insertAll events]⟩⟩)
      log := s.log ++ events.map (.handed i) }
  | _ => s

def next (s : State F ι ρ) (i : ι) (o : Outcome) : State F ι ρ :=
  match s.emitters i with
  | none => s
  | some em =>
    let (table, sink, entries) := em.sink.next i s.table o
    { s with table, emitters := Function.update s.emitters i (some { em with sink }), log := s.log ++ entries }

/-- `append_event`, `append_event_checked` and the other writers under the events lock. -/
def append (s : State F ι ρ) (event : StepEvent F) (o : Outcome) : State F ι ρ :=
  let row := { event with seq := s.table.lastSeq event.traceId + 1 }
  match transact s.table [row] o with
  | .committed table => { s with table, log := s.log ++ [.appended row] }
  | _ => s

def follow (s : State F ι ρ) (r : ρ) (traceId : String) : State F ι ρ :=
  match s.readers r with
  | some _ => s
  | none => { s with readers := Function.update s.readers r (some { traceId }) }

def turnPage (s : State F ι ρ) (r : ρ) (limit : ℤ) : State F ι ρ :=
  match s.readers r with
  | none => s
  | some x =>
    let page := s.table.readEvents x.traceId x.reader.cursor limit
    let reader := x.reader.turn StepEvent.seq page
    { s with readers := Function.update s.readers r (some { x with reader }) }

def step (s : State F ι ρ) : Label F ι ρ → State F ι ρ
  | .start i traceId => openEmitter s i traceId
  | .emit i event => emit s i event
  | .emitMany i events => emitMany s i events
  | .next i o => next s i o
  | .append event o => append s event o
  | .follow r traceId => follow s r traceId
  | .page r limit => turnPage s r limit

end Steps

end CommitReplay.TraceEvents
