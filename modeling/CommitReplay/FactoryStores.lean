import CommitReplay.FactoryEvents
import CommitReplay.JsonlObjects

/-! The two stores of factory events. The one in memory is a list of events; the one in a file is
such a list too, whose reader constructs each event again, and which can be appended to as long
as no separator that `str.splitlines` splits at stands in its last event. -/
namespace CommitReplay.FactoryStores

open CommitReplay.PythonText CommitReplay.JsonValue CommitReplay.JsonText CommitReplay.JsonRoundTrip
open CommitReplay.GradeRows CommitReplay.JsonlTail CommitReplay.JsonlLedger CommitReplay.JsonQuotes
open CommitReplay.PythonRepr CommitReplay.JsonlObjects CommitReplay.FactoryEvents

variable {F : Type} [PyFloat F]

section Files

variable (sha256 : Sha256) (isWide isPrintable : Char → Bool) (now : String) (uuid : Uuid)

/-- `_last_hash`. -/
def lastHashOf (file : Bytes) : Except EventError String :=
  match jsonlLastLine file with
  | [] => .ok genesisHash
  | last => match loads last with
    | some (.obj d : Json F) =>
      match PythonRepr.pyStr isPrintable ((d.lookup "row_hash").getD (.str "")) with
      | "" => .error .lastWithoutHash
      | h => .ok h
    | _ => .error .unreadableLine

def lineOf (e : FactoryEvent F) : Text := dumps [' '] e.toDict

/-- `_append`: chain and write one line. -/
def append (file : Bytes) (e : FactoryEvent F) : Except EventError (Bytes × FactoryEvent F) := do
  let last ← lastHashOf (F := F) isPrintable file
  let chained := e.chained sha256 isWide last
  return (file ++ utf8Encode (lineOf chained ++ ['\n']), chained)

def appendEach (given : List (FactoryEvent F)) : Except EventError Bytes :=
  given.foldlM (fun file e => Prod.fst <$> append sha256 isWide isPrintable file e) []

def readLine (line : Text) : Except EventError (FactoryEvent F) :=
  match loads line with
  | some (.obj d) => FactoryEvent.fromDict isWide now uuid d
  | _ => .error .unreadableLine

/-- `events()`: what the iteration yields, line by line. -/
def eventsOf (file : Bytes) : List (Except EventError (FactoryEvent F)) :=
  match utf8Decode file with
  | none => [.error .unreadableLine]
  | some text => ((fileLines text).filter fun l => strip l ≠ []).map (readLine isWide now uuid)

/-- `verify_events`, from the hash `prev` and the count `n` on. -/
def verifyEvents : String → ℕ → List (Except EventError (FactoryEvent F)) → Except EventError ℕ
  | _, n, [] => .ok n
  | _, _, .error err :: _ => .error err
  | prev, n, .ok e :: es =>
    if e.prevHash ≠ prev then .error (.prevHashMismatch (n + 1) e.kind)
    else if !e.verifyHash sha256 then .error (.rowHashMismatch (n + 1) e.kind)
    else verifyEvents e.rowHash (n + 1) es

def verify (file : Bytes) : Except EventError ℕ :=
  verifyEvents sha256 genesisHash 0 (eventsOf (F := F) isWide now uuid file)

end Files

section Stores

inductive Store
  | memory | jsonl
deriving DecidableEq, Repr

abbrev Chain (F : Type) := List (FactoryEvent F)

def lastHash (chain : Chain F) : String := (chain.getLast?.map (·.rowHash)).getD genesisHash

/-- A separator that JSON leaves as it is stands in the event's line. -/
def hasSeparator (e : FactoryEvent F) : Bool := (chars e.toDict).any isWideBreak

variable (sha256 : Sha256) (isWide : Char → Bool)

namespace Store

def read : Store → FactoryEvent F → FactoryEvent F
  | .memory, e => e
  | .jsonl, e => e.reread isWide

def events (store : Store) (chain : Chain F) : List (FactoryEvent F) :=
  chain.map (store.read isWide)

/-- The last event's hash can be read. -/
def accepts : Store → Chain F → Bool
  | .memory, _ => true
  | .jsonl, chain => !chain.getLast?.any hasSeparator

def append (store : Store) (chain : Chain F) (e : FactoryEvent F) : Option (Chain F) :=
  if store.accepts chain then some (chain ++ [e.chained sha256 isWide (lastHash chain)]) else none

/-- `append_if`: `none` both where the check fails and where the append does. -/
def appendIf (store : Store) (chain : Chain F) (e : FactoryEvent F)
    (admits : List (FactoryEvent F) → Bool) : Option (Chain F) :=
  if admits (store.events isWide chain) then store.append sha256 isWide chain e else none

end Store

end Stores

section Lines

variable {sha256 : Sha256} {isWide : Char → Bool}

omit [PyFloat F] in
lemma items_nodup (e : FactoryEvent F) : (e.items.map Prod.fst).Nodup := by
  simp [FactoryEvent.items, FactoryEvent.bodyItems]

omit [PyFloat F] in
lemma lookup_items {e : FactoryEvent F} {k : String} {v : Json F} (h : (k, v) ∈ e.items) :
    (ofPairs e.items).lookup k = some v := by
  have hk := lookup_ofPairs_of_mem (items_nodup e) h
  exact hk

omit [PyFloat F] in
lemma canonical_items (e : FactoryEvent F) : ∀ p ∈ e.items, Canonical p.2 := by
  intro p hp
  simp only [FactoryEvent.items, FactoryEvent.bodyItems, List.cons_append, List.nil_append,
    List.mem_cons, List.not_mem_nil, or_false] at hp
  rcases hp with rfl | rfl | rfl | rfl | rfl | rfl | rfl | rfl | rfl | rfl <;>
    first | exact .str _ | exact e.payload.2

omit [PyFloat F] in
lemma canonical_toDict (e : FactoryEvent F) : Canonical e.toDict :=
  .obj (keySorted_ofPairs _) fun p hp => canonical_items e p (mem_ofPairs hp)

/-- The object an event's line is the text of. -/
def object (e : FactoryEvent F) : Object F := ⟨ofPairs e.items, canonical_toDict e⟩

lemma line_object (e : FactoryEvent F) : (object e).line = lineOf e := by
  rw [Object.line, object, lineOf, FactoryEvent.toDict]

omit [PyFloat F] in
lemma hasSeparator_object (e : FactoryEvent F) : (object e).hasSeparator = hasSeparator e := by
  rw [Object.hasSeparator, object, hasSeparator, FactoryEvent.toDict]

omit [PyFloat F] in
lemma payload_of (p : Payload F) : Payload.of p.1 = p := by
  refine Subtype.ext ?_
  obtain ⟨ps, hp⟩ := p
  have hn := normal_of_canonical hp
  rw [normal] at hn
  exact Json.obj.inj hn

omit [PyFloat F] in
/-- What was stored is what is read, constructed once more. -/
theorem fromDict_toDict (now : String) (uuid : Uuid) (e : FactoryEvent F) :
    FactoryEvent.fromDict isWide now uuid (ofPairs e.items) = .ok (e.reread isWide) := by
  have hstr : ∀ k v d, (k, Json.str v) ∈ e.items →
      FactoryEvent.strItem (ofPairs e.items) k d = .ok v := by
    intro k v d h
    rw [FactoryEvent.strItem, lookup_items h]
  have hkind : FactoryEvent.kindItem (ofPairs e.items) = .ok e.kind := by
    rw [FactoryEvent.kindItem, lookup_items (v := .str e.kind.text) (by
      simp [FactoryEvent.items, FactoryEvent.bodyItems])]
    simp [EventKind.ofText_text]
  have hpayload : FactoryEvent.payloadItem (ofPairs e.items) = .ok e.payload := by
    rw [FactoryEvent.payloadItem, lookup_items (v := .obj e.payload.1) (by
      simp [FactoryEvent.items, FactoryEvent.bodyItems])]
    exact congrArg _ (payload_of e.payload)
  rw [← FactoryEvent.make_self isWide uuid e, FactoryEvent.fromDict, hkind, hpayload,
    hstr "item_id" e.itemId, hstr "actor" e.actor, hstr "repo" e.repo, hstr "created" e.created,
    hstr "schema" e.schema, hstr "event_id" e.eventId, hstr "prev_hash" e.prevHash,
    hstr "row_hash" e.rowHash]
  · rfl
  all_goals simp [FactoryEvent.items, FactoryEvent.bodyItems]

lemma readLine_lineOf (now : String) (uuid : Uuid) (e : FactoryEvent F) :
    readLine isWide now uuid (lineOf e ++ ['\n']) = .ok (e.reread isWide) := by
  rw [readLine, ← line_object, (object e).loads_line (by simp [isJsonSpace]), object]
  dsimp only
  exact fromDict_toDict now uuid e

end Lines

section Refinement

variable {sha256 : Sha256} {isWide : Char → Bool} (isPrintable : Char → Bool)

/-- The file that holds the lines of a chain. -/
def fileOf (chain : Chain F) : Bytes := utf8Encode (fileText (chain.map lineOf))

lemma fileOf_eq (chain : Chain F) : fileOf chain = JsonlObjects.fileOf (chain.map object) := by
  have hline : Object.line ∘ object = lineOf (F := F) := funext line_object
  rw [fileOf, JsonlObjects.fileOf, List.map_map, hline]

/-- The hash the next line chains on can be read exactly while the store accepts an event. -/
lemma lastHashOf_fileOf {chain : Chain F} (hhash : ∀ e ∈ chain, e.rowHash ≠ "") :
    lastHashOf (F := F) isPrintable (fileOf chain) =
      if Store.jsonl.accepts chain then .ok (lastHash chain) else .error .unreadableLine := by
  cases chain using List.reverseRecOn with
  | nil => rfl
  | append_singleton chain e =>
    have hne := hhash e (by simp)
    have hrow : (ofPairs e.items).lookup "row_hash" = some (.str e.rowHash) :=
      lookup_items (by simp [FactoryEvent.items])
    obtain ⟨hline, hloads⟩ := lastLine_fileOf (chain.map object) (object e)
    rw [← List.map_singleton, ← List.map_append, ← fileOf_eq] at hline hloads
    rw [lastHashOf]
    split
    · rename_i hnil
      exact absurd hnil hline
    · rw [hloads, hasSeparator_object, Store.accepts, List.getLast?_concat, Option.any_some, object]
      cases hasSeparator e with
      | true => rfl
      | false => simp [hrow, PythonRepr.pyStr, lastHash]

/-- An append to the file is an append to the chain. -/
theorem append_fileOf {chain : Chain F} (hhash : ∀ e ∈ chain, e.rowHash ≠ "")
    (e : FactoryEvent F) : Prod.fst <$> append sha256 isWide isPrintable (fileOf chain) e =
      match Store.jsonl.append sha256 isWide chain e with
      | some chain' => .ok (fileOf chain')
      | none => .error .unreadableLine := by
  rw [append, lastHashOf_fileOf isPrintable hhash, Store.append]
  split_ifs
  · simp [fileOf, bind, Except.bind, pure, Except.pure, Functor.map, Except.map]
  · rfl

/-- The events read from the file are the chain's, each constructed again. -/
theorem eventsOf_fileOf (now : String) (uuid : Uuid) (chain : Chain F) :
    eventsOf isWide now uuid (fileOf chain) = (Store.jsonl.events isWide chain).map .ok := by
  rw [eventsOf, fileOf, utf8Decode_encode]
  dsimp only
  induction chain with
  | nil => rfl
  | cons e chain ih =>
    have hplain : ∀ c : Char, c.toNat < 32 → c ∉ lineOf e := fun c hc =>
      line_object e ▸ (object e).not_mem_line hc
    have hlines : fileLines (fileText ((e :: chain).map lineOf)) =
        (lineOf e ++ ['\n']) :: fileLines (fileText (chain.map lineOf)) := by
      rw [← fileLines_line (hplain _ (by decide)) (hplain _ (by decide))]
      simp [fileText]
    have hbrace : '\x7b' ∈ lineOf e :=
      line_object e ▸ List.mem_of_mem_head? (object e).head_line
    have hs : strip (lineOf e ++ ['\n']) ≠ [] :=
      strip_ne_nil (List.mem_append_left _ hbrace) (by decide)
    rw [hlines, List.filter_cons_of_pos (by simpa using hs), List.map_cons,
      readLine_lineOf now uuid e, ih]
    rfl

lemma rowHash_ne_empty (prev : String) (e : FactoryEvent F) :
    (e.chained sha256 isWide prev).rowHash ≠ "" := by
  intro he
  have hlen := (sha256.isHex (canonicalJson { e.reread isWide with prevHash := prev }.body)).1
  rw [show sha256.hex _ = "" from he] at hlen
  simp at hlen

end Refinement

end CommitReplay.FactoryStores
