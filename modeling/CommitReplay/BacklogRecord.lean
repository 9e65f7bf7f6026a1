import CommitReplay.GradeRows
import CommitReplay.SlotReadiness
import CommitReplay.DepthFirst
import CommitReplay.PointerChains

/-! The frozen backlog of forward mode: its items and their checks, the freeze, the evolutions chained onto
it, what stands for an item today, and the order by dependencies. -/
namespace CommitReplay.BacklogRecord

open CommitReplay.PythonText CommitReplay.PythonRepr CommitReplay.JsonValue CommitReplay.JsonText
open CommitReplay.JsonRoundTrip CommitReplay.GradeRows CommitReplay.SlotReadiness
open CommitReplay.PointerChains

section Errors

inductive BacklogError
  | badId (id : String) | noTitle (id : String) | supersedesItself (id : String) | dependsOnItself (id : String)
  | duplicateId (id : String) | unknownDependency (id dep : String) | unknownTarget (id old : String)
  | unfrozenEvolutions | emptyBacklog | tampered | notFrozen | itemExists (id : String)
  | unknownSuperseded (old : String) | alreadySuperseded (old : String) | cycle (id : String)
deriving DecidableEq

variable (isPrintable : Char → Bool)

def quoted (s : String) : String := .ofList (PythonRepr.reprStr isPrintable s.toList)

def BacklogError.message : BacklogError → String
  | .badId id => "item id " ++ quoted isPrintable id ++ " must match [A-Za-z0-9][A-Za-z0-9._-]\x7b0,63\x7d"
  | .noTitle id => "item " ++ id ++ ": title is required"
  | .supersedesItself id => "item " ++ id ++ " cannot supersede itself"
  | .dependsOnItself id => "item " ++ id ++ " cannot depend on itself"
  | .duplicateId id => "duplicate item id " ++ quoted isPrintable id
  | .unknownDependency id dep => "item " ++ id ++ " depends on unknown item " ++ quoted isPrintable dep
  | .unknownTarget id old => "item " ++ id ++ " supersedes unknown item " ++ quoted isPrintable old
  | .unfrozenEvolutions => "evolutions can only be registered against a frozen backlog"
  | .emptyBacklog => "cannot freeze an empty backlog"
  | .tampered => "frozen items do not match backlog_hash — record tampered"
  | .notFrozen => "freeze the backlog before registering evolutions"
  | .itemExists id => "item " ++ quoted isPrintable id ++ " already exists — a frozen record never mutates; register a new id"
  | .unknownSuperseded old => "cannot supersede unknown item " ++ quoted isPrintable old
  | .alreadySuperseded old => "item " ++ quoted isPrintable old ++ " is already superseded — supersede its latest evolution"
  | .cycle id => "dependency cycle through " ++ quoted isPrintable id

end Errors

section Items

inductive Level
  | L1 | L2 | L3
deriving DecidableEq, Repr

def Level.name : Level → String
  | .L1 => "L1"
  | .L2 => "L2"
  | .L3 => "L3"

def kindName : ItemKind → String
  | .code => "code"
  | .infra => "infra"
  | .operator => "operator"

def isIdStart (c : Char) : Bool := c.isAlphanum

def isIdChar (c : Char) : Bool := c.isAlphanum || c = '.' || c = '_' || c = '-'

/-- `_ID_RE.fullmatch`: at most 64 characters. -/
def idMatches : Text → Bool
  | [] => false
  | c :: cs => isIdStart c && cs.all isIdChar && cs.length ≤ 63

/-- The content of an item. -/
structure ItemFields where
  id : String
  title : String
  kind : ItemKind
  description : String := ""
  acceptanceCriteria : List String := []
  capabilityClass : String := "(unclassified)"
  sizeEstimate : Option Tier := some .S
  structuralFacts : List String := []
  dependsOn : List String := []
  level : Level := .L1
  supersedes : String := ""
  registered : String
  labels : List (String × String) := []
deriving DecidableEq

/-- `BacklogItem.__post_init__`, for a kind, a level and a size that exist. -/
def ItemFields.postInit (f : ItemFields) : Except BacklogError Unit :=
  if idMatches f.id.toList = false then .error (.badId f.id)
  else if strip f.title.toList = [] then .error (.noTitle f.id)
  else if f.supersedes = f.id then .error (.supersedesItself f.id)
  else if f.id ∈ f.dependsOn then .error (.dependsOnItself f.id)
  else .ok ()

/-- One registered issue. -/
structure BacklogItem extends ItemFields where
  valid : toItemFields.postInit = .ok ()
deriving DecidableEq

def textArray (xs : List String) : Json Whole := .arr (xs.map .str)

/-- `to_dict`; no value of an item is a float. -/
def BacklogItem.toDict (i : BacklogItem) : Json Whole :=
  .obj (ofPairs [("id", .str i.id), ("title", .str i.title), ("kind", .str (kindName i.kind)),
    ("description", .str i.description), ("acceptance_criteria", textArray i.acceptanceCriteria),
    ("capability_class", .str i.capabilityClass), ("size_estimate", .str (sizeName i.sizeEstimate)),
    ("structural_facts", textArray i.structuralFacts), ("depends_on", textArray i.dependsOn),
    ("level", .str i.level.name), ("supersedes", .str i.supersedes), ("registered", .str i.registered),
    ("labels", .obj (ofPairs (i.labels.map fun p => (p.1, .str p.2))))])

lemma BacklogItem.valid_iff (f : ItemFields) : f.postInit = .ok () ↔
    idMatches f.id.toList = true ∧ strip f.title.toList ≠ [] ∧ f.supersedes ≠ f.id ∧ f.id ∉ f.dependsOn := by
  unfold ItemFields.postInit
  split_ifs with h1 h2 h3 h4
  · simp [h1]
  · simp [h2]
  · simp [h3]
  · simp [h4]
  · simp [h1, h2, h3, h4]

lemma BacklogItem.id_ne_empty (i : BacklogItem) : i.id ≠ "" := by
  intro h
  have hid := ((valid_iff _).mp i.valid).1
  rw [h] at hid
  simp [idMatches] at hid

lemma BacklogItem.id_not_mem_dependsOn (i : BacklogItem) : i.id ∉ i.dependsOn :=
  ((valid_iff _).mp i.valid).2.2.2

lemma BacklogItem.supersedes_ne_id (i : BacklogItem) : i.supersedes ≠ i.id := ((valid_iff _).mp i.valid).2.2.1

end Items

section Checks

/-- The first loop of `_check_items`: the ids that are known once no id came twice. -/
def checkIds : List BacklogItem → List String → Except BacklogError (List String)
  | [], seen => .ok seen
  | it :: its, seen => if it.id ∈ seen then .error (.duplicateId it.id) else checkIds its (it.id :: seen)

def checkDependencies (it : BacklogItem) (seen : List String) : List String → Except BacklogError Unit
  | [] => .ok ()
  | dep :: deps =>
    if dep ∈ seen then checkDependencies it seen deps else .error (.unknownDependency it.id dep)

/-- The second: every target is known. -/
def checkTargets (seen : List String) : List BacklogItem → Except BacklogError Unit
  | [] => .ok ()
  | it :: its => do
    checkDependencies it seen it.dependsOn
    if it.supersedes ≠ "" ∧ it.supersedes ∉ seen then .error (.unknownTarget it.id it.supersedes)
    else checkTargets seen its

/-- `_check_items`. -/
def checkItems (items : List BacklogItem) (known : List String) : Except BacklogError Unit := do
  let seen ← checkIds items known
  checkTargets seen items

lemma checkIds_ok {items : List BacklogItem} {seen seen' : List String} (h : checkIds items seen = .ok seen') :
    (items.map (·.id)).Nodup ∧ (∀ i ∈ items, i.id ∉ seen) ∧ ∀ k, k ∈ seen' ↔ k ∈ seen ∨ k ∈ items.map (·.id) := by
  induction items generalizing seen with
  | nil =>
    obtain rfl := Except.ok.inj h
    simp
  | cons it its ih =>
    rw [checkIds] at h
    split_ifs at h with hin
    obtain ⟨hnodup, hnew, hseen⟩ := ih h
    refine ⟨List.nodup_cons.mpr ⟨fun hm => ?_, hnodup⟩, ?_, fun k => ?_⟩
    · obtain ⟨i, hi, he⟩ := List.mem_map.mp hm
      exact hnew i hi (he ▸ List.mem_cons_self)
    · refine List.forall_mem_cons.mpr ⟨hin, fun i hi hs => hnew i hi (List.mem_cons_of_mem _ hs)⟩
    · rw [hseen, List.mem_cons, List.map_cons, List.mem_cons]
      tauto

lemma checkDependencies_ok (it : BacklogItem) {seen deps : List String} :
    checkDependencies it seen deps = .ok () ↔ ∀ d ∈ deps, d ∈ seen := by
  induction deps with
  | nil => simp [checkDependencies]
  | cons d deps ih =>
    rw [checkDependencies, List.forall_mem_cons]
    split_ifs with h
    · rw [ih]
      simp [h]
    · simp [h]

lemma checkTargets_ok {seen : List String} {items : List BacklogItem} :
    checkTargets seen items = .ok () ↔
      ∀ i ∈ items, (∀ d ∈ i.dependsOn, d ∈ seen) ∧ (i.supersedes ≠ "" → i.supersedes ∈ seen) := by
  induction items with
  | nil => simp [checkTargets]
  | cons it its ih =>
    rw [checkTargets, List.forall_mem_cons, ← ih, ← checkDependencies_ok it]
    cases hd : checkDependencies it seen it.dependsOn with
    | error e => simp [bind, Except.bind]
    | ok u =>
      simp only [bind, Except.bind, true_and]
      split_ifs with h
      · simp [h]
      · exact ⟨fun hall => ⟨fun hs => by_contra fun hn => h ⟨hs, hn⟩, hall⟩, And.right⟩

/-- What `_check_items` lets through: new ids, each once, and targets that are known. -/
structure Checked (items : List BacklogItem) (known : List String) : Prop where
  nodup : (items.map (·.id)).Nodup
  fresh : ∀ i ∈ items, i.id ∉ known
  targets : ∀ i ∈ items, (∀ d ∈ i.dependsOn, d ∈ known ∨ d ∈ items.map (·.id)) ∧
    (i.supersedes ≠ "" → i.supersedes ∈ known ∨ i.supersedes ∈ items.map (·.id))

theorem checked_of_checkItems {items : List BacklogItem} {known : List String}
    (h : checkItems items known = .ok ()) : Checked items known := by
  unfold checkItems at h
  cases hs : checkIds items known with
  | error e =>
    rw [hs] at h
    cases h
  | ok seen =>
    rw [hs] at h
    obtain ⟨hnodup, hfresh, hseen⟩ := checkIds_ok hs
    refine ⟨hnodup, hfresh, fun i hi => ?_⟩
    obtain ⟨hd, hsup⟩ := checkTargets_ok.mp h i hi
    exact ⟨fun d hdi => (hseen d).mp (hd d hdi), fun hne => (hseen _).mp (hsup hne)⟩

end Checks

section Records

/-- A backlog as its constructor lets it through: items, and evolutions only of a frozen record. -/
structure Backlog where
  items : List BacklogItem
  repo : String
  frozenAt : String
  backlogHash : String
  evolutions : List BacklogItem
  evolutionsHash : String
  schema : String
  itemsChecked : Checked items []
  evolutionsChecked : Checked evolutions (items.map (·.id))
  evolved : evolutions ≠ [] → backlogHash ≠ ""

/-- `Backlog.__post_init__`. -/
def Backlog.postInit (items evolutions : List BacklogItem) (backlogHash : String) : Except BacklogError Unit := do
  checkItems items []
  checkItems evolutions (items.map (·.id))
  if evolutions ≠ [] ∧ backlogHash = "" then .error .unfrozenEvolutions else .ok ()

lemma Backlog.postInit_ok {items evolutions : List BacklogItem} {backlogHash : String}
    (h : Backlog.postInit items evolutions backlogHash = .ok ()) :
    Checked items [] ∧ Checked evolutions (items.map (·.id)) ∧ (evolutions ≠ [] → backlogHash ≠ "") := by
  unfold Backlog.postInit at h
  cases hi : checkItems items [] with
  | error e =>
    rw [hi] at h
    cases h
  | ok u =>
    cases he : checkItems evolutions (items.map (·.id)) with
    | error e =>
      rw [hi, he] at h
      cases h
    | ok v =>
      rw [hi, he] at h
      refine ⟨checked_of_checkItems hi, checked_of_checkItems he, fun hne hb => ?_⟩
      simp [bind, Except.bind, hne, hb] at h

/-- The constructor. -/
def Backlog.make (items : List BacklogItem) (repo frozenAt backlogHash : String) (evolutions : List BacklogItem)
    (evolutionsHash schema : String) : Except BacklogError Backlog :=
  match h : Backlog.postInit items evolutions backlogHash with
  | .error e => .error e
  | .ok _ => .ok ⟨items, repo, frozenAt, backlogHash, evolutions, evolutionsHash, schema,
      (Backlog.postInit_ok h).1, (Backlog.postInit_ok h).2.1, (Backlog.postInit_ok h).2.2⟩

lemma Backlog.make_ok {items evolutions : List BacklogItem} {repo frozenAt backlogHash evolutionsHash schema : String}
    {b : Backlog} (h : Backlog.make items repo frozenAt backlogHash evolutions evolutionsHash schema = .ok b) :
    b.items = items ∧ b.backlogHash = backlogHash ∧ b.evolutions = evolutions := by
  unfold Backlog.make at h
  split at h
  · cases h
  · obtain rfl := Except.ok.inj h
    exact ⟨rfl, rfl, rfl⟩

namespace Backlog

variable (sha256 : Sha256) (b : Backlog)

/-- `backlog_hash`. -/
def hashOf (items : List BacklogItem) : String := sha256.hex (canonicalJson (.arr (items.map (·.toDict))))

def frozen : Bool := b.backlogHash ≠ ""

/-- `freeze`. -/
def freeze (at_ now : String) : Except BacklogError Backlog :=
  if b.frozen = true then
    if b.backlogHash ≠ hashOf sha256 b.items then .error .tampered else .ok b
  else if b.items = [] then .error .emptyBacklog
  else make b.items b.repo (if at_ ≠ "" then at_ else now) (hashOf sha256 b.items) b.evolutions b.evolutionsHash b.schema

/-- `_evolutions_chain`. -/
def evolutionsChain (backlogHash : String) (evolutions : List BacklogItem) : String :=
  if evolutions = [] then ""
  else evolutions.foldl (fun h ev => sha256.hex (h.toList ++ canonicalJson ev.toDict)) backlogHash

/-- `verify`. -/
def verify (expectedHash : String) : Bool :=
  if b.frozen = false then false
  else if hashOf sha256 b.items ≠ b.backlogHash then false
  else if expectedHash ≠ "" ∧ expectedHash ≠ b.backlogHash then false
  else evolutionsChain sha256 b.backlogHash b.evolutions = b.evolutionsHash

def allItems : List BacklogItem := b.items ++ b.evolutions

def get (id : String) : Option BacklogItem := b.allItems.find? fun i => i.id = id

/-- What `evolve` asks of the item that is superseded. -/
def mayBeSuperseded (supersedes : String) : Except BacklogError Unit :=
  if supersedes = "" then .ok ()
  else
    match b.get supersedes with
    | none => .error (.unknownSuperseded supersedes)
    | some old => if b.evolutions.any fun e => e.supersedes = old.id then .error (.alreadySuperseded old.id) else .ok ()

/-- `evolve`: the copy is constructed again, then its chain is extended. -/
def evolve (item : BacklogItem) : Except BacklogError Backlog :=
  if b.frozen = false then .error .notFrozen
  else if (b.get item.id).isSome = true then .error (.itemExists item.id)
  else do
    b.mayBeSuperseded item.supersedes
    let new ← make b.items b.repo b.frozenAt b.backlogHash (b.evolutions ++ [item]) b.evolutionsHash b.schema
    return { new with evolutionsHash := evolutionsChain sha256 new.backlogHash new.evolutions }

def supersededIds : List String := (b.evolutions.filter fun e => e.supersedes ≠ "").map (·.supersedes)

def activeItems : List BacklogItem := b.allItems.filter fun i => i.id ∉ b.supersededIds

/-- The first loop of `_latest`: the evolution that supersedes each id last. -/
def superseding : List (String × String) :=
  b.evolutions.foldl (fun latest e => if e.supersedes ≠ "" then put e.supersedes e.id latest else latest) []

/-- `_latest`; `none` while its loop has not ended. -/
def latest (fuel : ℕ) : Option (List (String × String)) :=
  compress fuel (keys b.superseding) b.superseding

/-- `resolve`. -/
def resolve (fuel : ℕ) (id : String) : Option String := (b.latest fuel).map fun latest => (latest.lookup id).getD id

/-- The active items an item depends on. -/
def deps (latest : List (String × String)) (i : BacklogItem) : List BacklogItem :=
  i.dependsOn.filterMap fun d => b.activeItems.find? fun j => j.id = (latest.lookup d).getD d

/-- `ordered`; `none` while it has not ended. -/
def ordered (fuel : ℕ) : Option (Except BacklogError (List BacklogItem)) :=
  match b.latest fuel with
  | none => none
  | some latest =>
    match DepthFirst.order (fun i => i.id) (b.deps latest) b.activeItems fuel with
    | none => none
    | some (.error id) => some (.error (.cycle id))
    | some (.ok walk) => some (.ok walk.done)

end Backlog

end Records

end CommitReplay.BacklogRecord
