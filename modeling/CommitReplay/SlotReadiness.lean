import CommitReplay.PythonRepr

/-! Readiness of a backlog item: the facts its class needs, which of them the ticket or a person's
sign-off fills, and who has to act. Only a structural fact blocks a build. -/
namespace CommitReplay.SlotReadiness

open CommitReplay.PythonText CommitReplay.PythonRepr

section Items

inductive Tier
  | XS | S | M | L | XL
deriving DecidableEq, Repr

def Tier.rank : Tier → ℕ
  | .XS => 0
  | .S => 1
  | .M => 2
  | .L => 3
  | .XL => 4

def Tier.name : Tier → String
  | .XS => "XS"
  | .S => "S"
  | .M => "M"
  | .L => "L"
  | .XL => "XL"

inductive ItemKind
  | code | infra | operator
deriving DecidableEq, Repr

/-- A registered item; without a size estimate it is `unsized`. -/
structure BacklogItem where
  id : String
  title : String
  kind : ItemKind
  capabilityClass : String
  sizeEstimate : Option Tier
  structuralFacts : List String
  taxonomy : String
  orgClass : String
deriving DecidableEq

def sizeName (size : Option Tier) : String := (size.map Tier.name).getD "unsized"

end Items

section Catalogue

inductive SlotKind
  | structural | value
deriving DecidableEq, Repr

structure Slot where
  name : String
  question : String
  kind : SlotKind
deriving DecidableEq

/-- A structural slot and a value slot. -/
def slotS (name question : String) : Slot := ⟨name, question, .structural⟩

def slotV (name question : String) : Slot := ⟨name, question, .value⟩

def catalogue : List (String × List Slot) :=
  [("backend.route.add",
    [slotS "method_path" "What HTTP method and path does the new route answer?",
      slotS "request_shape" "What is the request shape (params / body fields and types)?",
      slotS "response_shape" "What is the response shape (status code, body fields and types)?",
      slotS "error_contract" "What error responses must it return, and for which inputs?",
      slotV "example_payload" "A representative request and its exact expected response."]),
  ("backend.route.edit",
    [slotS "route_identity" "Which existing route (method + path) changes?",
      slotS "behaviour_change" "What changes in its request/response shape or semantics?",
      slotS "error_contract" "Which error responses change, and which must stay the same?",
      slotV "example_payload" "A representative request and its exact expected response."]),
  ("backend.model.edit",
    [slotS "field_name_type" "Which model, and what is the field's name and type?",
      slotS "nullability" "Is the field nullable? Is it unique / indexed?",
      slotS "migration_needed" "Is a schema migration needed (yes/no), and is it reversible?",
      slotV "default_value" "The exact default value when the field is unset."]),
  ("backend.migration.add",
    [slotS "schema_change" "Which table(s) / column(s) does the migration add or alter?",
      slotS "reversible" "What does the downgrade do (or why is it irreversible)?",
      slotV "data_backfill" "The exact backfill value or rule for existing rows, if any."]),
  ("frontend.component.add",
    [slotS "props" "What props does the component take (names, types, required)?",
      slotS "states" "What visual states does it have (loading / empty / error / populated)?",
      slotV "rendered_text" "The exact text or labels rendered in each state."]),
  ("frontend.component.edit",
    [slotS "component_identity" "Which component changes?",
      slotS "prop_or_state_change" "Which props or states are added, removed or changed?",
      slotV "rendered_text" "The exact text or labels rendered after the change."]),
  ("frontend.route.add",
    [slotS "route_path" "What client-side path is added, and which component renders it?",
      slotS "guard" "Is the route guarded (auth / role)? What happens when denied?"]),
  ("bug.fix",
    [slotS "reproduction" "How is the bug reproduced (the input / sequence that fails)?",
      slotS "expected_behaviour" "What is the correct behaviour instead?",
      slotV "exact_value" "The exact output value / message at the reproduction input."]),
  ("test.add",
    [slotS "subject_under_test" "Which module / function / behaviour is under test?",
      slotS "behaviour_asserted" "What behaviour must the new test assert?"]),
  ("test.fix",
    [slotS "failing_test" "Which test is wrong (id), and why is it wrong?",
      slotS "corrected_assertion" "What must it assert instead?"]),
  ("docs.update", [slotS "doc_target" "Which document / section changes, and what must it say?"]),
  ("ci.workflow.edit",
    [slotS "workflow" "Which workflow file and job change?",
      slotS "trigger_and_steps" "What triggers it, and which steps are added or changed?"]),
  ("infra.helm.edit",
    [slotS "chart_and_values" "Which chart / template / values key changes?",
      slotS "provisioning"
        "What operator provisioning (cluster, credentials) must exist first?"]),
  ("infra.terraform.edit",
    [slotS "resource" "Which resource(s) and attribute(s) change?",
      slotS "provisioning"
        "What operator provisioning (account, billing, domain) must exist first?"])]

/-- Classes of which green proves the build only. -/
def weakOracleClasses : List String :=
  ["docs.update", "ci.workflow.edit", "infra.helm.edit", "infra.terraform.edit"]

/-- The slots of a class; none for a class the catalogue does not have. -/
def slotsFor (capabilityClass : String) : List Slot :=
  (catalogue.lookup capabilityClass).getD []

lemma slotsFor_ne_nil {capabilityClass : String} :
    slotsFor capabilityClass ≠ [] ↔ capabilityClass ∈ catalogue.map Prod.fst := by
  have hfull : ∀ p ∈ catalogue, p.2 ≠ [] := by decide
  rw [slotsFor]
  generalize catalogue = table at hfull
  induction table with
  | nil => simp
  | cons p table ih =>
    have hrest := ih fun q hq => hfull q (List.mem_cons_of_mem p hq)
    by_cases hp : capabilityClass = p.1
    · simp [List.lookup, hp, hfull p (by simp)]
    · have hb : (capabilityClass == p.1) = false := by simpa using hp
      simpa [List.lookup, hb, hp] using hrest

end Catalogue

section Facts

/-- The pairs of a dictionary, in insertion order. -/
abbrev Facts := List (String × String)

def Facts.has (facts : Facts) (slot : String) : Bool := (facts.lookup slot).isSome

def Facts.setDefault (facts : Facts) (slot text : String) : Facts :=
  if facts.has slot then facts else facts ++ [(slot, text)]

def isSlotChar (c : Char) : Bool := c.isAlphanum || c = '_'

/-- `_FACT_RE.match`: a slot's name, a colon or an equals sign, and a text up to the end of the
line; the two groups. -/
def matchFact (line : Text) : Option (Text × Text) :=
  let start := line.dropWhile isSpace
  match start with
  | [] => none
  | c :: _ =>
    if c.isAlpha then
      let name := start.takeWhile isSlotChar
      match (start.dropWhile isSlotChar).dropWhile isSpace with
      | [] => none
      | sep :: rest =>
        if sep = ':' ∨ sep = '=' then
          let text := rest.dropWhile isSpace
          let first := text.takeWhile (· ≠ '\n')
          if first ≠ [] ∧ text.drop first.length ∈ [[], ['\n']] then some (name, first) else none
        else none
    else none

def parseFacts (lines : List String) : Facts :=
  lines.foldl (fun facts line =>
    match matchFact line.toList with
    | none => facts
    | some (slot, text) => facts.setDefault (.ofList slot) (.ofList (strip text))) []

/-- A person supplied, or revoked, the fact of one slot of one item. -/
structure GapSignoff where
  itemId : String
  slot : String
  answer : String
  kind : SlotKind
  revoked : Bool
deriving DecidableEq

/-- The latest record of each slot of an item, in the order the slots were first signed; a revoked
one is dropped. -/
def activeSignoffs (records : List GapSignoff) (itemId : String) : List GapSignoff :=
  let own := records.filter (·.itemId = itemId)
  ((own.map (·.slot)).eraseDups.filterMap fun slot => own.reverse.find? (·.slot = slot)).filter
    fun r => !r.revoked

end Facts

section Assessment

inductive RouteHint
  | build | testFirst | human
deriving DecidableEq, Repr

def RouteHint.text : RouteHint → String
  | .build => "build"
  | .testFirst => "test_first_authoring"
  | .human => "human"

structure Readiness where
  itemId : String
  capabilityClass : String
  ready : Bool
  gaps : List Slot
  routeHint : RouteHint
  reason : String
  facts : Facts
  signedSlots : List String
  catalogued : Bool
deriving DecidableEq

def Readiness.blockingGaps (r : Readiness) : List Slot := r.gaps.filter (·.kind = .structural)

variable (isPrintable : Char → Bool)

/-- The facts of the ticket, and those a person signed for a slot that may be signed. -/
def mergedFacts (slots : List Slot) (item : BacklogItem) (active : List GapSignoff) : Facts :=
  active.foldl (fun facts r =>
    if ((slots.find? (·.name = r.slot)).map (·.kind)).getD r.kind = .structural then
      facts.setDefault r.slot r.answer
    else facts) (parseFacts item.structuralFacts)

def commaJoined (names : List String) : String := String.intercalate ", " names

def assess (item : BacklogItem) (signoffs : List GapSignoff) : Readiness :=
  let slots := slotsFor item.capabilityClass
  let catalogued := slots ≠ []
  let active := activeSignoffs signoffs item.id
  let facts := mergedFacts slots item active
  let gaps := slots.filter fun slot => !facts.has slot.name
  let blocking := gaps.filter (·.kind = .structural)
  let quoted := String.ofList (reprStr isPrintable item.capabilityClass.toList)
  let routed : RouteHint × String :=
    if item.kind = .operator then
      (.human, "operator-kind work is never delegated to the factory")
    else if ¬ catalogued then
      (.human, "class " ++ quoted ++ " is not in the readiness catalogue — human test-design")
    else if item.capabilityClass ∈ weakOracleClasses then
      (.human, "class " ++ quoted ++ " has a weak oracle (green proves the build only)")
    else if blocking ≠ [] then
      (.human, toString blocking.length ++ " unsigned structural gap(s): " ++
        commaJoined (blocking.map (·.name)))
    else if gaps ≠ [] then
      (.testFirst, "value slot(s) open — the value lives in the test; route to test-first " ++
        "authoring, never blind manufacture: " ++ commaJoined (gaps.map (·.name)))
    else (.build, "every catalogued slot is filled")
  { itemId := item.id
    capabilityClass := item.capabilityClass
    ready := blocking = []
    gaps
    routeHint := routed.1
    reason := routed.2
    facts
    signedSlots := (active.map (·.slot)).insertionSort (· ≤ ·)
    catalogued }

variable {isPrintable}

lemma assess_ready {item : BacklogItem} {signoffs : List GapSignoff} :
    (assess isPrintable item signoffs).ready = true ↔
      (assess isPrintable item signoffs).blockingGaps = [] := by
  simp only [assess, Readiness.blockingGaps, decide_eq_true_eq]

/-- An item that is ready, and that the hint leaves to the factory, is the factory's to build. -/
theorem assess_buildable {item : BacklogItem} {signoffs : List GapSignoff}
    (hready : (assess isPrintable item signoffs).ready = true)
    (hhint : (assess isPrintable item signoffs).routeHint ≠ .human) :
    item.kind ≠ .operator ∧ item.capabilityClass ∈ catalogue.map Prod.fst ∧
      item.capabilityClass ∉ weakOracleClasses ∧
      (assess isPrintable item signoffs).blockingGaps = [] := by
  refine ⟨fun h => ?_, ?_, fun h => ?_, assess_ready.mp hready⟩
  · simp [assess, h] at hhint
  · rw [← slotsFor_ne_nil]
    intro h
    simp only [assess, h, ne_eq, not_true_eq_false, not_false_eq_true, if_true] at hhint
    split_ifs at hhint <;> exact hhint rfl
  · simp only [assess, h, if_true] at hhint
    split_ifs at hhint <;> exact hhint rfl

/-- The structural facts that are open are those no ticket line and no sign-off fills. -/
lemma mem_blockingGaps {item : BacklogItem} {signoffs : List GapSignoff} {slot : Slot} :
    slot ∈ (assess isPrintable item signoffs).blockingGaps ↔
      slot ∈ slotsFor item.capabilityClass ∧ slot.kind = .structural ∧
        (assess isPrintable item signoffs).facts.has slot.name = false := by
  simp only [assess, Readiness.blockingGaps, List.mem_filter, decide_eq_true_eq,
    Bool.not_eq_true', and_assoc]
  tauto

example : (parseFacts ["error_contract = 404 when absent", "free text", " guard : none\n"]) =
    [("error_contract", "404 when absent"), ("guard", "none")] := by rfl

end Assessment

end CommitReplay.SlotReadiness
