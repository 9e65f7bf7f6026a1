import CommitReplay.EventWalk
import CommitReplay.TransitionRuns

/-! The verifier of the audit trail over a table that other writers append to. It keeps what the
last clean walk covered and walks only the rows after it while that prefix still holds. -/
namespace CommitReplay.EventVerifier

open CommitReplay.PythonText CommitReplay.JsonValue CommitReplay.JsonText
open CommitReplay.GradeRows CommitReplay.HashChain
open CommitReplay.EventWalk CommitReplay.TransitionRuns

variable {F : Type}

section Tables

/-- The `events` table: its rows in the order of their ids, the primary key. -/
structure Table (F : Type) where
  rows : List (EventRow F)
  ordered : rows.Pairwise fun r s => r.id < s.id

def Table.empty : Table F := ⟨[], .nil⟩

def Table.after (T : Table F) (k : ℤ) : List (EventRow F) := T.rows.filter (k < ·.id)

/-- The rows from the first id on that a walk reads, up to an id. -/
def Table.upTo (T : Table F) (k : ℤ) : List (EventRow F) :=
  T.rows.filter fun r => 0 < r.id ∧ r.id ≤ k

def verifyBatch : ℕ := 1000

/-- `_chain_rows`: pages of the rows after an id, each from the last id of the page before. -/
def pages (batch : ℕ) (T : Table F) : ℕ → ℤ → List (EventRow F)
  | 0, _ => []
  | fuel + 1, last =>
    let chunk := (T.after last).take batch
    match chunk.getLast? with
    | none => []
    | some m => chunk ++ pages batch T fuel m.id

def chainRows (T : Table F) (after : ℤ) : List (EventRow F) :=
  pages verifyBatch T (T.rows.length + 1) after

lemma Table.after_pairwise (T : Table F) (k : ℤ) :
    (T.after k).Pairwise fun r s => r.id < s.id := T.ordered.filter _

/-- What is left after a page is what its last row leaves. -/
lemma Table.after_take {T : Table F} {k : ℤ} {n : ℕ} {m : EventRow F}
    (hm : ((T.after k).take n).getLast? = some m) : T.after m.id = (T.after k).drop n := by
  have hmk : k < m.id := by
    have := List.mem_of_mem_take (List.mem_of_getLast? hm)
    simpa using (List.mem_filter.mp this).2
  have hsplit := T.after_pairwise k
  rw [← List.take_append_drop n (T.after k), List.pairwise_append] at hsplit
  obtain ⟨htake, -, hcross⟩ := hsplit
  have hafter : T.after m.id = (T.after k).filter (m.id < ·.id) := by
    rw [Table.after, Table.after, List.filter_filter]
    refine List.filter_congr fun r _ => ?_
    by_cases h : m.id < r.id
    · simp [h, hmk.trans h]
    · simp [h]
  rw [hafter, ← List.take_append_drop n (T.after k), List.filter_append]
  have hleft : ((T.after k).take n).filter (m.id < ·.id) = [] := by
    rw [List.filter_eq_nil_iff]
    intro r hr
    obtain ⟨front, hfront⟩ := List.getLast?_eq_some_iff.mp hm
    rw [hfront] at hr htake
    rcases List.mem_append.mp hr with hr | hr
    · have := (List.pairwise_append.mp htake).2.2 r hr m (by simp)
      simp only [decide_eq_true_eq, not_lt]
      omega
    · simp only [List.mem_singleton] at hr
      simp [hr]
  have hright : ((T.after k).drop n).filter (m.id < ·.id) = (T.after k).drop n := by
    rw [List.filter_eq_self]
    intro r hr
    simpa using hcross m (List.mem_of_getLast? hm) r hr
  rw [hleft, hright, List.nil_append, List.take_append_drop]

lemma pages_eq {T : Table F} {batch fuel : ℕ} (hb : 0 < batch) {last : ℤ}
    (hf : (T.after last).length < fuel) : pages batch T fuel last = T.after last := by
  induction fuel generalizing last with
  | zero => omega
  | succ fuel ih =>
    rw [pages]
    cases hm : ((T.after last).take batch).getLast? with
    | none =>
      rw [List.getLast?_eq_none_iff, List.take_eq_nil_iff] at hm
      rcases hm with hm | hm
      · omega
      · simp only [hm]
    | some m =>
      have hlen : (T.after last).length ≠ 0 := by
        intro h0
        rw [List.length_eq_zero_iff.mp h0, List.take_nil] at hm
        cases hm
      simp only
      rw [ih (by rw [Table.after_take hm, List.length_drop]; omega), Table.after_take hm,
        List.take_append_drop]

/-- The pages are all the rows after the id. -/
lemma chainRows_eq (T : Table F) (k : ℤ) : chainRows T k = T.after k :=
  pages_eq (by decide) (Nat.lt_succ_of_le (List.length_filter_le _ _))

lemma Table.after_zero (T : Table F) {k : ℤ} (hk : 0 < k) :
    T.after 0 = T.upTo k ++ T.after k := by
  have hT := T.ordered
  rw [Table.after, Table.upTo, Table.after]
  generalize T.rows = rows at hT
  induction rows with
  | nil => rfl
  | cons r rows ih =>
    obtain ⟨hr, hrows⟩ := List.pairwise_cons.mp hT
    by_cases hrk : r.id ≤ k
    · by_cases h0 : 0 < r.id <;> simp [h0, hrk, not_lt.mpr hrk, ih hrows]
    · have hnil : rows.filter (fun s => decide (0 < s.id ∧ s.id ≤ k)) = [] := by
        rw [List.filter_eq_nil_iff]
        intro s hs
        have := hr s hs
        simp only [decide_eq_true_eq, not_and, not_le]
        omega
      rw [List.filter_cons_of_pos (by simp; omega), List.filter_cons_of_neg (by simp; omega),
        List.filter_cons_of_pos (by simp; omega), ih hrows, hnil, List.nil_append, List.nil_append]

/-- A later table of one that only grew: rows with higher ids behind the old ones. -/
def Table.Grows (T T' : Table F) : Prop :=
  ∃ new, T'.rows = T.rows ++ new ∧ ∀ r ∈ T.rows, ∀ s ∈ new, r.id < s.id

lemma Table.Grows.refl (T : Table F) : T.Grows T := ⟨[], by simp, by simp⟩

lemma Table.Grows.trans {T U V : Table F} (h : T.Grows U) (h' : U.Grows V) : T.Grows V := by
  obtain ⟨new, hU, hlt⟩ := h
  obtain ⟨newer, hV, hlt'⟩ := h'
  refine ⟨new ++ newer, by rw [hV, hU, List.append_assoc], fun r hr s hs => ?_⟩
  rcases List.mem_append.mp hs with hs | hs
  · exact hlt r hr s hs
  · exact hlt' r (by rw [hU]; exact List.mem_append_left _ hr) s hs

/-- What is read up to the id of a row does not change while the table grows. -/
lemma Table.Grows.upTo_eq {T T' : Table F} (h : T.Grows T') {r : EventRow F} (hr : r ∈ T.rows) :
    T'.upTo r.id = T.upTo r.id := by
  obtain ⟨new, hT, hlt⟩ := h
  rw [Table.upTo, hT, List.filter_append, Table.upTo]
  have hnil : new.filter (fun s => decide (0 < s.id ∧ s.id ≤ r.id)) = [] := by
    rw [List.filter_eq_nil_iff]
    intro s hs
    have := hlt r hr s hs
    simp only [decide_eq_true_eq, not_and, not_le]
    omega
  rw [hnil, List.append_nil]

lemma Table.Grows.countP_eq {T T' : Table F} (h : T.Grows T') {r : EventRow F} (hr : r ∈ T.rows) :
    T'.rows.countP (·.id ≤ r.id) = T.rows.countP (·.id ≤ r.id) := by
  obtain ⟨new, hT, hlt⟩ := h
  have hnew : new.countP (fun s => decide (s.id ≤ r.id)) = 0 := by
    rw [List.countP_eq_zero]
    intro s hs
    have := hlt r hr s hs
    simp only [decide_eq_true_eq, not_le]
    omega
  rw [hT, List.countP_append, hnew, Nat.add_zero]

lemma Table.Grows.mem {T T' : Table F} (h : T.Grows T') {r : EventRow F} (hr : r ∈ T.rows) :
    r ∈ T'.rows := by
  obtain ⟨new, hT, -⟩ := h
  rw [hT]
  exact List.mem_append_left _ hr

end Tables

section Verifying

variable [PyFloat F] (casts : Casts F) (isPrintable : Char → Bool) (sha256 : Sha256)
/- What the columns give back of the values written. -/
variable (readBack : Values F → Values F)

/-- The default of a column of the table. -/
def columnDefault (key : String) : Json F :=
  if key = "seq" then .int 0
  else if key = "payload_json" then .obj []
  else if key ∈ ["step_id", "parent_step_id", "actor", "repo", "task_id", "input_ref",
    "output_ref", "error_code", "error_message"] then .str ""
  else .null

def storedValues (values : Values F) : Values F := fun key =>
  match values key with
  | .null => columnDefault key
  | v => v

/-- `_predecessor`: a head that is no SHA-256 is refused. -/
def predecessor (head : Option String) : Option String :=
  match head with
  | none => some genesisHash
  | some h => if h.toList.length = 64 ∧ h.toList.all (hexDigits.toList.contains ·) then some h
    else none

/-- A new event: its id and the values its writer set. -/
structure Append (F : Type) where
  id : ℤ
  values : Values F

/-- The row `_chain_new_events` makes of a new event. -/
def chainedRow (T : Table F) (a : Append F) : Option (EventRow F) := do
  let prev ← predecessor (T.rows.getLast?.map (·.rowHash))
  let hash ← (eventRowHash casts isPrintable sha256 (storedValues a.values) prev).toOption
  return ⟨a.id, prev, hash, readBack (storedValues a.values)⟩

/-- The insert of a new event; an id that is not above all others is refused. -/
def Table.append (T : Table F) (a : Append F) : Table F :=
  match chainedRow casts isPrintable sha256 readBack T a with
  | none => T
  | some r =>
    if h : ∀ s ∈ T.rows, s.id < r.id then
      ⟨T.rows ++ [r], List.pairwise_append.mpr
        ⟨T.ordered, List.pairwise_singleton .., fun s hs t ht => by
          rw [List.mem_singleton.mp ht]
          exact h s hs⟩⟩
    else T

def Table.appendAll (T : Table F) (as : List (Append F)) : Table F :=
  as.foldl (Table.append casts isPrintable sha256 readBack) T

/-- What the last clean walk covered. -/
structure Walked (C : Type) where
  lastId : ℤ
  head : String
  rows : ℕ
  fullAt : C
  fullAtIso : String

variable {C : Type} [Sub C] [LT C] [DecidableLT C] (every : C)

def verifyEventsIn (T : Table F) (utcNow : String) : EventChainReport :=
  { walkEventChain casts isPrintable sha256 (chainRows T 0) genesisHash 0 with
    fullWalkAt := utcNow }

/-- `_holds`: the prefix of the last walk is still there. -/
def holds (T : Table F) (w : Walked C) : Bool :=
  match T.rows.find? (·.id = w.lastId) with
  | none => false
  | some row =>
    row.rowHash = w.head &&
      (eventRowHash casts isPrintable sha256 (storedValues row.column) row.prevHash).toOption =
        some w.head &&
      T.rows.countP (·.id ≤ w.lastId) = w.rows

/-- One call of `verify`: what its clock reads, whether a full walk is asked for, and what other
writers append between the check of the prefix and the walk, and between the walk and the lookup
of its last row. -/
structure Call (F C : Type) where
  now : C
  utcNow : String
  full : Bool
  beforeWalk : List (Append F)
  afterWalk : List (Append F)

/-- The tail walk or the full walk of a call, over the table at the time of the walk. -/
def Call.walk (c : Call F C) (T₀ T₁ : Table F) (walked : Option (Walked C)) :
    EventChainReport × C × String :=
  match walked.filter fun w => !c.full && decide (c.now - w.fullAt < every) &&
      holds casts isPrintable sha256 T₀ w with
  | some w =>
    ({ walkEventChain casts isPrintable sha256 (chainRows T₁ w.lastId) w.head w.rows with
        fullWalkAt := w.fullAtIso }, w.fullAt, w.fullAtIso)
  | none => (verifyEventsIn casts isPrintable sha256 T₁ c.utcNow, c.now, c.utcNow)

/-- What `verify` keeps after its walk, or `none` where it raises: `scalar_one_or_none` of two
rows with the last hash. -/
def keep (T₂ : Table F) (report : EventChainReport) (fullAt : C) (fullAtIso : String) :
    Option (Option (Walked C)) :=
  if report.ok ∧ report.rows ≠ 0 then
    match T₂.rows.filter (·.rowHash = report.head) with
    | [] => some none
    | [row] => some (some ⟨row.id, report.head, report.rows, fullAt, fullAtIso⟩)
    | _ => none
  else some none

/-- A report, with the table it is of. -/
structure Entry (F : Type) where
  table : Table F
  report : EventChainReport

structure State (F C : Type) where
  table : Table F
  walked : Option (Walked C)
  log : List (Entry F)

def State.init (T : Table F) : State F C := ⟨T, none, []⟩

/-- A writer appends; someone puts another table in the place of the table; a page is read. -/
inductive Label (F C : Type)
  | append (a : Append F)
  | tamper (T : Table F)
  | verify (c : Call F C)

def State.verify (s : State F C) (c : Call F C) : State F C :=
  let T₁ := s.table.appendAll casts isPrintable sha256 readBack c.beforeWalk
  let T₂ := T₁.appendAll casts isPrintable sha256 readBack c.afterWalk
  let (report, fullAt, fullAtIso) := c.walk casts isPrintable sha256 every s.table T₁ s.walked
  match keep T₂ report fullAt fullAtIso with
  | none => { s with table := T₂, walked := none }
  | some walked => ⟨T₂, walked, s.log ++ [⟨T₁, report⟩]⟩

def step (s : State F C) : Label F C → State F C
  | .append a => { s with table := s.table.append casts isPrintable sha256 readBack a }
  | .tamper T => { s with table := T }
  | .verify c => s.verify casts isPrintable sha256 readBack every c

variable {casts isPrintable sha256 readBack every}

lemma Table.grows_append (T : Table F) (a : Append F) :
    T.Grows (T.append casts isPrintable sha256 readBack a) := by
  unfold Table.append
  split
  · exact .refl T
  · split_ifs with h
    · exact ⟨[_], rfl, fun r hr s hs => List.mem_singleton.mp hs ▸ h r hr⟩
    · exact .refl T

lemma Table.grows_appendAll (T : Table F) (as : List (Append F)) :
    T.Grows (T.appendAll casts isPrintable sha256 readBack as) := by
  induction as generalizing T with
  | nil => exact .refl T
  | cons a as ih => exact (T.grows_append a).trans (ih _)

end Verifying

end CommitReplay.EventVerifier
