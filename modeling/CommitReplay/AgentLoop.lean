import CommitReplay.ToolBudget
import CommitReplay.Postconditions
import CommitReplay.PythonRepr
import CommitReplay.TestRuns
import CommitReplay.GoRuns

/-! The tool loop of a builder over a function-calling model: turn after turn the model is asked with the
whole conversation, and the tools it calls are run, until it stops, a cap is hit or the model fails. What
the model answers, what a tool does to the worktree and what the clock says is up to a world. -/
namespace CommitReplay.AgentLoop

open CommitReplay.PythonText CommitReplay.JsonText CommitReplay.Redaction CommitReplay.RedactedHeads
open CommitReplay.PythonRepr CommitReplay.TestRuns CommitReplay.Interaction
open CommitReplay.Postconditions (catching tried)
open CommitReplay.AttemptOutcomes (StopReason)
open CommitReplay.ToolBudget

section Wire

/-- One function call the model asked for, its arguments decoded; `parseError` says why they are not. -/
structure ToolCall (A : Type) where
  id : Text
  name : Text
  arguments : A
  parseError : Text

structure ModelTurn (A : Type) where
  content : Text
  toolCalls : List (ToolCall A)
  tokensIn : ℤ
  tokensOut : ℤ
  cachedIn : ℤ
  costUsd : Option ℚ

inductive Message (A : Type)
  | system (content : Text)
  | user (content : Text)
  | assistant (content : Text) (toolCalls : List (ToolCall A))
  | tool (callId content : Text)

/-- The assistant's turn as the history has it. -/
def ModelTurn.asMessage {A : Type} (turn : ModelTurn A) : Message A :=
  .assistant
    (if turn.content = [] ∧ turn.toolCalls = [] then "(no tool call emitted)".toList else turn.content)
    turn.toolCalls

/-- What is kept of a turn or a tool; the last of each where the transcript is kept in full. -/
inductive Entry
  | assistant (turn : ℕ) (toolCalls : List Text) (tokensIn tokensOut : ℤ)
      (kept : Option (Text × List Text))
  | tool (name : Text) (ok : Bool) (result : Option Text)

end Wire

section World

/-- Where the clock is read: when the build starts, when its tracker does, for the caps, for a command's
timeout, and at the end. -/
inductive Site
  | started | tracker | caps | remaining | latency
deriving DecidableEq

/-- What a tool that is not the run of the target tests says, and what it records. -/
structure ToolAnswer where
  result : Text
  violations : List Text
  refused : List Text

inductive Op (A : Type)
  | clock (site : Site)
  | runner
  | connect
  | model (messages : List (Message A)) (tools : List Text)
  | tool (call : ToolCall A)
  | targetTests (timeout : ℤ)
  | sourceChanges
  | tampered

variable {A : Type}

abbrev Op.Ans : Op A → Type
  | clock _ => ℚ
  | runner | connect => Unit
  | model .. => ModelTurn A
  | tool _ => ToolAnswer
  | targetTests _ => TestRun
  | sourceChanges | tampered => List Text

/-- An exception: of a missing credential, or of some type, with the status it carries. -/
inductive Fault
  | missingCredential (type text : Text)
  | raised (type text : Text) (status : Option ℤ)

def Fault.shown : Fault → Text
  | .missingCredential type text | .raised type text _ => type ++ ": ".toList ++ text

def authRefused : Text := "authentication failed".toList

/-- `model_error_text`. -/
def modelErrorText (exc : Fault) : Text :=
  "model_error: ".toList ++
    (match exc with
      | .missingCredential .. => authRefused ++ " (no credential) — ".toList
      | .raised _ _ (some status) =>
        if status = 401 ∨ status = 403 then authRefused ++ " (HTTP ".toList ++ intText status ++ ") — ".toList
        else []
      | .raised _ _ none => []) ++ exc.shown

variable (A) in
abbrev face : Interface := ⟨Op A, Op.Ans, Fault⟩

end World

section State

structure AgentBuilder (A : Type) where
  model : Text
  provider : Text
  keepTranscript : Bool
  pricing : Pricing
  /-- `json.dumps` of a call's arguments. -/
  dumps : A → Text

/-- What the loop reads of a brief, of the repository's runner and of the prompts. -/
structure Brief where
  sighted : Bool
  systemPrompt : Text
  task : Text
  defaultTimeout : ℤ

structure BuildOutcome where
  builder : Text
  model : Text
  provider : Text
  sighted : Bool
  done : Bool
  summary : Text
  turns : ℕ
  toolCalls : ℕ
  tokensIn : ℕ
  tokensOut : ℕ
  costUsd : ℚ
  costKnown : Bool
  latencyS : ℚ
  stopReason : StopReason
  errors : List Text
  transcript : List Entry
  budget : Budget
  refused : List Text
  targetGreenClaim : Bool

/-- The variables of a build and of its tools. -/
structure Locals (A : Type) where
  tracker : BudgetTracker
  messages : List (Message A) := []
  nudges : ℕ := 0
  transcript : List Entry := []
  errors : List Text := []
  lastText : Text := []
  refused : List Text := []
  violations : List Text := []
  targetGreen : Bool := false

end State

section Build

variable {A : Type} (isWide isPrintable : Char → Bool) (self : AgentBuilder A) (brief : Brief)
  (budget : Budget)

abbrev Step (A α : Type) := Prog (face A) Empty (Locals A) α

def ask (op : Op A) : Step A op.Ans := Prog.call (I := face A) op

def maxNudges : ℕ := 2

def toolResultCap : ℕ := 12000

def runTargetTestsName : Text := "run_target_tests".toList

/-- The tools whose work on the worktree is left to the world. -/
def plainTools : List Text :=
  ["list_files".toList, "read_file".toList, "search_repo".toList, "apply_edit".toList,
    "write_file".toList, "run_command".toList]

/-- The tools that are offered: the target tests only where they are not held out. -/
def toolSchema : List Text := plainTools ++ if brief.sighted then [runTargetTestsName] else []

/-- The cap that is hit, by the clock. -/
def exceeded : Step A StopReason := do
  let now ← ask (.clock .caps)
  let s ← Prog.get
  pure (s.tracker.exceeded now)

/-- Why a further tool call is refused. -/
def canCallTool : Step A StopReason := do
  let s ← Prog.get
  if s.tracker.budget.maxToolCalls ≤ s.tracker.toolCalls then pure .maxToolCalls else exceeded

def isFailure (result : Text) : Bool :=
  startsWith result "ERROR".toList || startsWith result "REFUSED".toList

/-- `_Tools.run_target_tests`: a green run is what the outcome may claim. -/
def runTargetTests : Step A Text := do
  if brief.sighted then
    let now ← ask (.clock .remaining)
    let s ← Prog.get
    let timeout := max 1 (min ⌊s.tracker.remainingS now⌋ brief.defaultTimeout)
    let run ← ask (.targetTests timeout)
    let tail := redactAndCap isWide 6000 run.tail
    if run.timedOut then
      pure ("TESTS TIMED OUT after ".toList ++ intText timeout ++ "s:\n".toList ++ tail)
    else if run.green then
      Prog.modify fun s => { s with targetGreen := true }
      pure ("ALL TESTS PASS (rc=0):\n".toList ++ tail)
    else
      let failing := ", ".toList.intercalate
        (((GoRuns.sorted (run.failing.image String.ofList)).take 20).map String.toList)
      pure ("TESTS STILL FAILING (rc=".toList ++ intText run.returncode ++ ") failing=".toList ++
        (if failing = [] then "unattributed".toList else failing) ++ ":\n".toList ++ tail)
  else pure "ERROR: the target tests are held out in blind mode".toList

/-- The tool of a name. -/
def runTool (call : ToolCall A) : Step A Text := do
  if call.name ∈ plainTools then
    let answer ← ask (.tool call)
    Prog.modify fun s => { s with
      violations := s.violations ++ answer.violations
      refused := s.refused ++ answer.refused }
    pure answer.result
  else if call.name = runTargetTestsName then runTargetTests isWide brief
  else pure ("ERROR: unknown tool ".toList ++ reprStr isPrintable call.name)

/-- `_Tools.dispatch`: a tool that crashes is an observation. -/
def dispatch (call : ToolCall A) : Step A Text :=
  if call.parseError ≠ [] then pure ("ERROR: ".toList ++ call.parseError)
  else catching (runTool isWide isPrintable brief call) fun exc =>
    pure ("ERROR: tool crashed: ".toList ++ exc.shown)

def appendMessage (m : Message A) : Step A Unit :=
  .modify fun s => { s with messages := s.messages ++ [m] }

def record (entry : Entry) : Step A Unit :=
  .modify fun s => { s with transcript := s.transcript ++ [entry] }

/-- A call within the caps is run and answered. -/
def answerCall (call : ToolCall A) : Step A Unit := do
  Prog.modify fun s => { s with tracker := s.tracker.noteToolCall }
  let result ← dispatch isWide isPrintable brief call
  appendMessage (.tool call.id (redactAndCap isWide toolResultCap result))
  record (.tool call.name (!isFailure result)
    (if self.keepTranscript then some (redactAndCap isWide 2000 result) else none))

/-- The calls of one turn: each is answered, and one that a cap forbids is told so. What comes back is
why the loop stops after them. -/
def answerCalls : List (ToolCall A) → StopReason → Step A StopReason
  | [], stopAfter => pure stopAfter
  | call :: calls, stopAfter => do
    let cap ← canCallTool
    if cap = .none then
      answerCall isWide isPrintable self brief call
      let s ← Prog.get
      answerCalls calls (if call.name = runTargetTestsName ∧ s.targetGreen then .done else stopAfter)
    else
      appendMessage (.tool call.id "BUDGET: tool-call cap reached — stop and summarise.".toList)
      answerCalls calls cap

/-- The end of a build, with what the guard and the tools recorded. -/
def finish (started : ℚ) (done : Bool) (stop : StopReason) : Step A BuildOutcome := do
  let tampered ← ask .tampered
  Prog.modify fun s => { s with
    errors := s.errors ++
      (if tampered = [] then []
        else ["tamper: test files modified: ".toList ++ ", ".toList.intercalate (tampered.take 10)]) ++
      s.violations }
  let s ← Prog.get
  let summary := if strip s.lastText ≠ [] then strip s.lastText
    else if s.targetGreen then "target tests reported green".toList else []
  let now ← ask (.clock .latency)
  pure {
    builder := "openai_agent".toList
    model := self.model
    provider := self.provider
    sighted := brief.sighted
    done := done && tampered.isEmpty
    summary := redactAndCap isWide 4000 summary
    turns := s.tracker.turns
    toolCalls := s.tracker.toolCalls
    tokensIn := s.tracker.meter.tokensIn
    tokensOut := s.tracker.meter.tokensOut
    costUsd := s.tracker.meter.costUsd
    costKnown := s.tracker.meter.costKnown
    latencyS := now - started
    stopReason := stop
    errors := s.errors.map (redactAndCapHead isWide 2000)
    transcript := s.transcript
    budget := budget
    refused := s.refused.take 20
    targetGreenClaim := s.targetGreen }

/-- What the tools have claimed when the build ends. -/
def finishClaimed (started : ℚ) (stop : StopReason) : Step A BuildOutcome := do
  let s ← Prog.get
  finish isWide self brief budget started s.targetGreen stop

def noteError (error : Text) : Step A Unit :=
  .modify fun s => { s with errors := s.errors ++ [error] }

/-- The model is asked: a turn of the budget, whatever comes back. -/
def askModel : Step A (Except Fault (ModelTurn A)) := do
  Prog.modify fun s => { s with tracker := s.tracker.noteTurn }
  let s ← Prog.get
  tried (ask (.model s.messages (toolSchema brief)))

/-- A turn that came back is metered and joins the conversation and the transcript. -/
def noteTurn (turn : ModelTurn A) : Step A Unit := do
  Prog.modify fun s => { s with
    tracker := { s.tracker with
      meter := s.tracker.meter.add turn.tokensIn turn.tokensOut turn.cachedIn turn.costUsd }
    messages := s.messages ++ [turn.asMessage]
    lastText := if strip turn.content ≠ [] then turn.content else s.lastText }
  let s ← Prog.get
  record (.assistant s.tracker.turns (turn.toolCalls.map (·.name)) turn.tokensIn turn.tokensOut
    (if self.keepTranscript then
      some (redactAndCap isWide 4000 turn.content,
        turn.toolCalls.map fun call => redactAndCap isWide 2000 (self.dumps call.arguments))
    else none))

def nudgeText : Text :=
  ("Use a tool: search_repo, read_file, apply_edit or write_file. Keep going until the change is " ++
    "implemented.").toList

/-- The loop, with the turns the budget leaves. With none left a cap is hit, whatever the clock says. -/
def loop (started : ℚ) : ℕ → Step A BuildOutcome
  | 0 => do
    let reason ← exceeded
    finishClaimed isWide self brief budget started reason
  | left + 1 => do
    let reason ← exceeded
    if reason = .none then
      match ← askModel brief with
      | .error exc =>
        noteError (modelErrorText exc)
        finishClaimed isWide self brief budget started .modelError
      | .ok turn =>
        noteTurn isWide self turn
        if turn.toolCalls = [] then
          let changes ← ask .sourceChanges
          let s ← Prog.get
          if changes = [] ∧ s.nudges < maxNudges then
            Prog.modify fun s => { s with
              nudges := s.nudges + 1
              messages := s.messages ++ [.user nudgeText] }
            loop started left
          else
            finish isWide self brief budget started (!changes.isEmpty)
              (if changes = [] then .noToolCall else .done)
        else
          let stopAfter ← answerCalls isWide isPrintable self brief turn.toolCalls .none
          if stopAfter = .done then finish isWide self brief budget started true .done
          else if stopAfter = .none then loop started left
          else finishClaimed isWide self brief budget started stopAfter
    else finishClaimed isWide self brief budget started reason

/-- The first messages. -/
def opening : List (Message A) := [.system brief.systemPrompt, .user brief.task]

/-- `OpenAIAgentBuilder.build`. -/
def build : Step A BuildOutcome := do
  let started ← ask (.clock .started)
  let now ← ask (.clock .tracker)
  Prog.modify fun s => { s with tracker := { s.tracker with started := now } }
  if brief.sighted then ask .runner else pure ()
  match ← tried (ask .connect) with
  | .error exc =>
    noteError (modelErrorText exc)
    finish isWide self brief budget started false .modelError
  | .ok () =>
    Prog.modify fun s => { s with messages := opening brief }
    loop isWide isPrintable self brief budget started budget.maxTurns

/-- The variables a build starts with. -/
def Locals.init : Locals A := { tracker := { budget := budget, meter := { pricing := self.pricing }, started := 0 } }

end Build

end CommitReplay.AgentLoop
