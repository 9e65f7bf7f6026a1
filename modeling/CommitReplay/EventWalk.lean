import CommitReplay.GradeRows
import CommitReplay.HashChain
import CommitReplay.PythonRepr

/-! The hash chain of the `events` table: what one row hashes, and the walk over stored rows that
reports the first break. A walk goes on from the rows of an earlier one. -/
namespace CommitReplay.EventWalk

open CommitReplay.PythonText CommitReplay.JsonValue CommitReplay.JsonText CommitReplay.PythonRepr
open CommitReplay.GradeRows CommitReplay.HashChain

variable {F : Type} [PyFloat F]

/-- `int` of a float that is a whole number, and `float` of an integer. -/
structure Casts (F : Type) where
  int : F → Option ℤ
  float : ℤ → F

variable (casts : Casts F) (isPrintable : Char → Bool) (sha256 : Sha256)

section Rows

def eventChainSchema : String := "crb.events.chain.v1"

def eventChainFields : List String :=
  ["event_id", "trace_id", "seq", "timestamp", "stage", "action", "status", "step_id",
    "parent_step_id", "actor", "repo", "task_id", "input_ref", "output_ref", "error_code",
    "error_message", "duration_ms", "cost_usd", "payload"]

def intFields : List String := ["seq", "duration_ms"]

/-- `type(value).__name__`. -/
def typeName : Json F → String
  | .null => "NoneType"
  | .bool _ => "bool"
  | .int _ => "int"
  | .float _ => "float"
  | .str _ => "str"
  | .arr _ => "list"
  | .obj _ => "dict"

/-- `_normal`: a stored value as the hash reads it, or what the `UnreadableEvent` says. -/
def normalValue (key : String) (value : Json F) : Except String (Json F) :=
  match value with
  | .null => .ok .null
  | v =>
    if key ∈ intFields then
      match v with
      | .int n => .ok (.int n)
      | .float x =>
        match casts.int x with
        | some n => .ok (.int n)
        | none => .error (key ++ " is " ++ .ofList (reprFloat x) ++ ", not an integer")
      | v => .error (key ++ " is " ++ typeName v ++ ", not an integer")
    else if key = "cost_usd" then
      match v with
      | .int n => .ok (.float (casts.float n))
      | .float x => .ok (.float x)
      | v => .error ("cost_usd is " ++ typeName v ++ ", not a number")
    else if key = "payload" then
      match v with
      | .obj ps => .ok (normal (.obj ps))
      | v => .error ("payload is " ++ typeName v ++ ", not an object")
    else .ok (.str (pyStr isPrintable v))

/-- A row's stored values by the names of its columns; a name that is no column gives null. -/
abbrev Values (F : Type) := String → Json F

def eventBody (values : Values F) : Except String (List (String × Json F)) := do
  let fields ← eventChainFields.mapM fun key => do
    let raw := match key, values key with
      | "payload", .null => values "payload_json"
      | _, v => v
    return (key, ← normalValue casts isPrintable key raw)
  return ("schema", .str eventChainSchema) :: fields

def eventRowHash (values : Values F) (prevHash : String) : Except String String := do
  let body ← eventBody casts isPrintable values
  return sha256.hex (canonicalJson (.obj (ofPairs (body ++ [("prev_hash", .str prevHash)]))))

structure EventRow (F : Type) where
  id : ℤ
  prevHash : String
  rowHash : String
  column : Values F

end Rows

section Walking

inductive WalkKind
  | full
  | tail
deriving DecidableEq

structure EventChainReport where
  rows : ℕ
  ok : Bool
  brokenAt : Option ℤ
  detail : String
  head : String
  walk : WalkKind
  walked : ℕ
  fullWalkAt : String
deriving DecidableEq

/-- What the loop of the walk carries: the rows counted, the hash the next row has to name, the
last row's hash and the first break. -/
structure Walk where
  n : ℕ
  prev : String
  head : String
  broken : Option (ℤ × String)
deriving DecidableEq

/-- The break a row is, if it does not follow the hash before it. -/
def breakAt (rid : ℤ) (prev : String) (row : EventRow F) : Option (ℤ × String) :=
  if row.prevHash ≠ prev then
    some (rid, "event id " ++ toString rid ++
      ": prev_hash mismatch (a row before it was removed or moved)")
  else
    match eventRowHash casts isPrintable sha256 row.column row.prevHash with
    | .error exc => some (rid, "event id " ++ toString rid ++ ": row unreadable (edited): " ++ exc)
    | .ok recomputed =>
      if row.rowHash ≠ recomputed then
        some (rid, "event id " ++ toString rid ++ ": row_hash mismatch (the row was edited)")
      else none

def Walk.next (w : Walk) (row : EventRow F) : Walk :=
  let n := w.n + 1
  let rid := if row.id = 0 then (n : ℤ) else row.id
  { n
    prev := row.rowHash
    head := row.rowHash
    broken := w.broken.or (breakAt casts isPrintable sha256 rid w.prev row) }

def Walk.start (prev : String) (verified : ℕ) : Walk :=
  ⟨verified, prev, if verified = 0 then "" else prev, none⟩

def Walk.over (w : Walk) (rows : List (EventRow F)) : Walk :=
  rows.foldl (Walk.next casts isPrintable sha256) w

def Walk.report (verified : ℕ) (w : Walk) : EventChainReport where
  rows := w.n
  ok := w.broken.isNone
  brokenAt := w.broken.map (·.1)
  detail := (w.broken.map (·.2)).getD (toString w.n ++ " events, chain intact")
  head := w.head
  walk := if verified = 0 then .full else .tail
  walked := w.n - verified
  fullWalkAt := ""

/-- `walk_event_chain`; from the start of the chain with `genesisHash` and no row verified. -/
def walkEventChain (rows : List (EventRow F)) (prev : String) (verified : ℕ) : EventChainReport :=
  ((Walk.start prev verified).over casts isPrintable sha256 rows).report verified

/-- The rows continue a chain whose last hash is `g`. -/
abbrev Intact (g : String) (rows : List (EventRow F)) : Prop :=
  Linked (fun r => some r.prevHash) (fun r => some r.rowHash)
    (fun r => (eventRowHash casts isPrintable sha256 r.column r.prevHash).toOption) (some g) rows

variable {casts isPrintable sha256}

lemma breakAt_eq_none {rid : ℤ} {prev : String} {row : EventRow F} :
    breakAt casts isPrintable sha256 rid prev row = none ↔ row.prevHash = prev ∧
      some row.rowHash = (eventRowHash casts isPrintable sha256 row.column row.prevHash).toOption := by
  unfold breakAt
  by_cases hp : row.prevHash = prev
  · cases eventRowHash casts isPrintable sha256 row.column row.prevHash with
    | error exc => simp [hp, Except.toOption]
    | ok h => simp [hp, Except.toOption]
  · simp [hp]

@[simp] lemma Walk.over_nil (w : Walk) :
    w.over casts isPrintable sha256 ([] : List (EventRow F)) = w := rfl

@[simp] lemma Walk.over_cons (w : Walk) (r : EventRow F) (rows : List (EventRow F)) :
    w.over casts isPrintable sha256 (r :: rows) =
      (w.next casts isPrintable sha256 r).over casts isPrintable sha256 rows := rfl

lemma Walk.over_append (w : Walk) (rs ss : List (EventRow F)) :
    w.over casts isPrintable sha256 (rs ++ ss) =
      (w.over casts isPrintable sha256 rs).over casts isPrintable sha256 ss :=
  List.foldl_append

lemma Walk.over_n (w : Walk) (rows : List (EventRow F)) :
    (w.over casts isPrintable sha256 rows).n = w.n + rows.length := by
  induction rows generalizing w with
  | nil => rfl
  | cons r rows ih =>
    rw [over_cons, ih, List.length_cons]
    simp only [next]
    omega

/-- A walk finds no break exactly when the rows continue the chain. -/
lemma Walk.over_broken (w : Walk) (rows : List (EventRow F)) :
    (w.over casts isPrintable sha256 rows).broken = none ↔
      w.broken = none ∧ Intact casts isPrintable sha256 w.prev rows := by
  induction rows generalizing w with
  | nil => simp [Linked]
  | cons r rows ih =>
    rw [over_cons, ih]
    simp only [next, Option.or_eq_none_iff, breakAt_eq_none, Linked, Option.some.injEq, and_assoc]

/-- The last row of a walk is the one the next has to name. -/
lemma Walk.over_concat (w : Walk) (rows : List (EventRow F)) (r : EventRow F) :
    (w.over casts isPrintable sha256 (rows ++ [r])).prev = r.rowHash ∧
      (w.over casts isPrintable sha256 (rows ++ [r])).head = r.rowHash := by
  rw [over_append]
  exact ⟨rfl, rfl⟩

lemma walkEventChain_ok {rows : List (EventRow F)} {prev : String} {verified : ℕ} :
    (walkEventChain casts isPrintable sha256 rows prev verified).ok = true ↔
      Intact casts isPrintable sha256 prev rows := by
  simp only [walkEventChain, Walk.report, Option.isNone_iff_eq_none, Walk.over_broken, Walk.start,
    true_and]

@[simp] lemma walkEventChain_rows (rows : List (EventRow F)) (prev : String) (verified : ℕ) :
    (walkEventChain casts isPrintable sha256 rows prev verified).rows = verified + rows.length :=
  Walk.over_n _ rows

lemma walkEventChain_walk (rows : List (EventRow F)) (prev : String) (verified : ℕ) :
    (walkEventChain casts isPrintable sha256 rows prev verified).walk =
      if verified = 0 then .full else .tail := rfl

lemma walkEventChain_head {rows : List (EventRow F)} {prev : String} {verified : ℕ}
    {r : EventRow F} (hr : rows.getLast? = some r) :
    (walkEventChain casts isPrintable sha256 rows prev verified).head = r.rowHash := by
  obtain ⟨rows, rfl⟩ := List.getLast?_eq_some_iff.mp hr
  exact (Walk.over_concat _ rows r).2

/-- A tail walk has a full walk's findings: rows walked without a break are not walked again. -/
theorem walkEventChain_resumed {rs ss : List (EventRow F)} {r : EventRow F} {g : String}
    (hr : rs.getLast? = some r) (hrs : Intact casts isPrintable sha256 g rs) :
    walkEventChain casts isPrintable sha256 (rs ++ ss) g 0 =
      { walkEventChain casts isPrintable sha256 ss r.rowHash rs.length with
        walk := .full, walked := rs.length + ss.length } := by
  have hne : rs.length ≠ 0 := by
    intro h0
    rw [List.length_eq_zero_iff.mp h0] at hr
    cases hr
  have hstart : (Walk.start g 0).over casts isPrintable sha256 rs =
      Walk.start r.rowHash rs.length := by
    obtain ⟨front, rfl⟩ := List.getLast?_eq_some_iff.mp hr
    have hn := @Walk.over_n _ _ casts isPrintable sha256 (Walk.start g 0) (front ++ [r])
    obtain ⟨hp, hh⟩ := @Walk.over_concat _ _ casts isPrintable sha256 (Walk.start g 0) front r
    have hb := ((Walk.start g 0).over_broken (front ++ [r])).mpr ⟨rfl, hrs⟩
    generalize (Walk.start g 0).over casts isPrintable sha256 (front ++ [r]) = w at hn hp hh hb ⊢
    obtain ⟨n, p, h, b⟩ := w
    simp only [Walk.start] at hn hp hh hb ⊢
    rw [hn, hp, hh, hb, if_neg hne, Nat.zero_add]
  rw [walkEventChain, walkEventChain, Walk.over_append, hstart]
  have hn := @Walk.over_n _ _ casts isPrintable sha256 (Walk.start r.rowHash rs.length) ss
  generalize (Walk.start r.rowHash rs.length).over casts isPrintable sha256 ss = w at hn ⊢
  rw [Walk.report, Walk.report, EventChainReport.mk.injEq]
  exact ⟨rfl, rfl, rfl, rfl, rfl, rfl, hn, rfl⟩

end Walking

end CommitReplay.EventWalk
