import CommitReplay.AgentLoop
import CommitReplay.CallHistories
import CommitReplay.Postconditions

/-! What a build of the tool loop does in every world: what it had spent at each of its calls, the
conversation it asks the model with, which tools it runs, and what the end of it says of all that. -/
namespace CommitReplay.AgentRuns

open CommitReplay.PythonText CommitReplay.Redaction CommitReplay.RedactedHeads
open CommitReplay.Interaction CommitReplay.Interleavings CommitReplay.Postconditions
open CommitReplay.CallHistories
open CommitReplay.AttemptOutcomes (StopReason)
open CommitReplay.ToolBudget CommitReplay.ToolBudget.BudgetTracker CommitReplay.AgentLoop

section Log

variable {A : Type}

abbrev Log (A : Type) := List (Call (face A))

def turnOf : Call (face A) → Option (ModelTurn A)
  | ⟨.model _ _, .ok turn⟩ => some turn
  | _ => none

def isModel : Call (face A) → Bool
  | ⟨.model _ _, _⟩ => true
  | _ => false

def isTool : Call (face A) → Bool
  | ⟨.tool _, _⟩ | ⟨.targetTests _, _⟩ => true
  | _ => false

/-- A run of the target tests that ended green. -/
def isGreen : Call (face A) → Bool
  | ⟨.targetTests _, .ok run⟩ => !run.timedOut && run.green
  | _ => false

def violationsOf : Call (face A) → List Text
  | ⟨.tool _, .ok answer⟩ => answer.violations
  | _ => []

def changesOf : Call (face A) → Option (List Text)
  | ⟨.sourceChanges, .ok changes⟩ => some changes
  | _ => none

def readingAt (site : Site) : Call (face A) → Option ℚ
  | ⟨.clock s, .ok now⟩ => if s = site then some now else none
  | _ => none

def turnsOf (h : Log A) : List (ModelTurn A) := h.filterMap turnOf

def toolsOf (h : Log A) : Log A := h.filter isTool

/-- The time on the build's clock, where the caps were last looked at. -/
def elapsed (h : Log A) : ℚ :=
  (lastOf (readingAt .caps) h).getD 0 - (lastOf (readingAt .tracker) h).getD 0

def meterOf (pricing : Pricing) (turns : List (ModelTurn A)) : CostMeter :=
  turns.foldl (fun m turn => m.add turn.tokensIn turn.tokensOut turn.cachedIn turn.costUsd)
    { pricing := pricing }

def callsAsked (turns : List (ModelTurn A)) : List (ToolCall A) := turns.flatMap (·.toolCalls)

/-- How many turns came without a call. -/
def idleTurns (turns : List (ModelTurn A)) : ℕ := turns.countP (·.toolCalls.isEmpty)

/-- A tool that runs is what a call asked for. -/
def Carries : Call (face A) → ToolCall A → Prop
  | ⟨.tool c, _⟩, call => c = call
  | ⟨.targetTests _, _⟩, call => call.name = runTargetTestsName
  | _, _ => False

@[simp] lemma turnsOf_snoc (h : Log A) (c : Call (face A)) :
    turnsOf (h ++ [c]) = turnsOf h ++ (turnOf c).toList := by
  cases hc : turnOf c <;> simp [turnsOf, hc]

@[simp] lemma toolsOf_snoc (h : Log A) (c : Call (face A)) :
    toolsOf (h ++ [c]) = toolsOf h ++ if isTool c then [c] else [] := by
  cases hc : isTool c <;> simp [toolsOf, hc]

@[simp] lemma meterOf_snoc (pricing : Pricing) (turns : List (ModelTurn A)) (turn : ModelTurn A) :
    meterOf pricing (turns ++ [turn]) = (meterOf pricing turns).add turn.tokensIn turn.tokensOut
      turn.cachedIn turn.costUsd := by
  simp [meterOf]

@[simp] lemma callsAsked_snoc (turns : List (ModelTurn A)) (turn : ModelTurn A) :
    callsAsked (turns ++ [turn]) = callsAsked turns ++ turn.toolCalls := by
  simp [callsAsked]

@[simp] lemma idleTurns_snoc (turns : List (ModelTurn A)) (turn : ModelTurn A) :
    idleTurns (turns ++ [turn]) = idleTurns turns + if turn.toolCalls.isEmpty then 1 else 0 := by
  simp [idleTurns, List.countP_singleton]

end Log

section Talk

variable {A : Type} (brief : Brief)

def Answers (call : ToolCall A) (message : Message A) : Prop := ∃ content, message = .tool call.id content

/-- A turn with its replies: one to each of its calls, or a nudge. -/
def Replied (turn : ModelTurn A) (round : List (Message A)) : Prop :=
  ∃ replies, round = turn.asMessage :: replies ∧
    if turn.toolCalls = [] then replies = [.user nudgeText]
    else List.Forall₂ Answers turn.toolCalls replies

/-- The opening, and then a round for each turn. -/
def Conversation (turns : List (ModelTurn A)) (messages : List (Message A)) : Prop :=
  ∃ rounds, List.Forall₂ Replied turns rounds ∧ messages = opening brief ++ rounds.flatten

variable {brief} {turns : List (ModelTurn A)} {turn : ModelTurn A} {messages : List (Message A)}

lemma conversation_opening : Conversation brief ([] : List (ModelTurn A)) (opening brief) :=
  ⟨[], .nil, by simp⟩

lemma Conversation.round {round : List (Message A)} (h : Conversation brief turns messages)
    (hround : Replied turn round) : Conversation brief (turns ++ [turn]) (messages ++ round) := by
  obtain ⟨rounds, hrounds, rfl⟩ := h
  exact ⟨rounds ++ [round], List.rel_append hrounds (.cons hround .nil), by simp⟩

end Talk

section Books

variable {A : Type} (agent : AgentBuilder A) (brief : Brief) (budget : Budget)

/-- Every cap has room left. -/
def Spared (h : Log A) : Prop :=
  Under budget (meterOf agent.pricing (turnsOf h)) (elapsed h) (h.countP isModel) (toolsOf h).length

/-- What holds of the calls before a call. -/
def Allowed (h : Log A) (c : Call (face A)) : Prop :=
  match c.op with
  | .model messages tools => Spared agent budget h ∧ h.any isGreen = false ∧ tools = toolSchema brief ∧
      Conversation brief (turnsOf h) messages ∧ idleTurns (turnsOf h) ≤ maxNudges
  | .tool _ => Spared agent budget h ∧ Serves Carries (toolsOf h ++ [c]) (callsAsked (turnsOf h))
  | .targetTests _ => Spared agent budget h ∧ brief.sighted = true ∧
      Serves Carries (toolsOf h ++ [c]) (callsAsked (turnsOf h))
  | _ => True

/-- What the variables of a build say of the calls it made, where it has answered some of the calls it
was asked for. -/
structure Books (asked : List (ToolCall A)) (tracker : BudgetTracker) (green : Bool)
    (violations : List Text) (h : Log A) : Prop where
  caps : tracker.budget = budget
  turns : tracker.turns = h.countP isModel
  turnCap : tracker.turns ≤ budget.maxTurns
  started : tracker.started = (lastOf (readingAt .tracker) h).getD 0
  ran : Serves Carries (toolsOf h) asked
  toolCalls : (toolsOf h).length ≤ tracker.toolCalls
  toolCap : tracker.toolCalls ≤ budget.maxToolCalls
  claimed : green = h.any isGreen
  recorded : violations = h.flatMap violationsOf
  calls : Each (Allowed agent brief budget) h

/-- A call that is none of the model and of a tool, and does not start the clock. -/
structure Still (c : Call (face A)) : Prop where
  turn : turnOf c = none
  model : isModel c = false
  tool : isTool c = false
  green : isGreen c = false
  violations : violationsOf c = []
  tracker : readingAt .tracker c = none

variable {agent brief budget} {asked : List (ToolCall A)} {tracker : BudgetTracker} {green : Bool}
  {violations : List Text} {h : Log A} {c : Call (face A)}

lemma Books.skip (b : Books agent brief budget asked tracker green violations h)
    (more : List (ToolCall A)) : Books agent brief budget (asked ++ more) tracker green violations h :=
  { b with ran := b.ran.skip more }

/-- A call that leaves the books alone. -/
lemma Books.still (b : Books agent brief budget asked tracker green violations h) (hc : Still c)
    (hallowed : Allowed agent brief budget h c) :
    Books agent brief budget asked tracker green violations (h ++ [c]) where
  caps := b.caps
  turns := by simp [b.turns, hc.model]
  turnCap := b.turnCap
  started := by rw [lastOf_snoc_none hc.tracker, b.started]
  ran := by simpa [hc.tool] using b.ran
  toolCalls := by simpa [hc.tool] using b.toolCalls
  toolCap := b.toolCap
  claimed := by simp [b.claimed, hc.green]
  recorded := by simp [b.recorded, hc.violations]
  calls := b.calls.snoc hallowed

/-- A turn is counted before the model is asked. -/
lemma Books.ask (b : Books agent brief budget asked tracker green violations h) (hc : isModel c = true)
    (hturns : tracker.turns < budget.maxTurns) (hallowed : Allowed agent brief budget h c) :
    Books agent brief budget asked tracker.noteTurn green violations (h ++ [c]) := by
  obtain ⟨htool, hgreen, hviolations, htracker⟩ : isTool c = false ∧ isGreen c = false ∧
      violationsOf c = [] ∧ readingAt .tracker c = none := by
    obtain ⟨op, answer⟩ := c
    cases op <;> first | exact ⟨rfl, rfl, rfl, rfl⟩ | cases hc
  exact {
    caps := b.caps
    turns := by simp [b.turns, hc]
    turnCap := hturns
    started := by rw [lastOf_snoc_none htracker, started_noteTurn, b.started]
    ran := by simpa [htool] using b.ran
    toolCalls := by simpa [htool] using b.toolCalls
    toolCap := b.toolCap
    claimed := by simp [b.claimed, hgreen]
    recorded := by simp [b.recorded, hviolations]
    calls := b.calls.snoc hallowed }

/-- A tool that a call asked for runs. -/
lemma Books.run {call : ToolCall A} (b : Books agent brief budget asked tracker green violations h)
    (hc : isTool c = true) (hcall : Carries c call) (hroom : (toolsOf h).length < tracker.toolCalls)
    (hallowed : Allowed agent brief budget h c) :
    Books agent brief budget (asked ++ [call]) tracker (green || isGreen c)
      (violations ++ violationsOf c) (h ++ [c]) := by
  obtain ⟨hmodel, htracker⟩ : isModel c = false ∧ readingAt .tracker c = none := by
    obtain ⟨op, answer⟩ := c
    cases op <;> first | exact ⟨rfl, rfl⟩ | cases hc
  exact {
    caps := b.caps
    turns := by simp [b.turns, hmodel]
    turnCap := b.turnCap
    started := by rw [lastOf_snoc_none htracker, b.started]
    ran := by simpa [hc] using b.ran.serve hcall
    toolCalls := by simpa [hc] using hroom
    toolCap := b.toolCap
    claimed := by simp [b.claimed]
    recorded := by simp [b.recorded]
    calls := b.calls.snoc hallowed }

/-- A tool call is counted before it is answered. -/
lemma Books.note (b : Books agent brief budget asked tracker green violations h)
    (hcap : tracker.toolCalls < budget.maxToolCalls) :
    Books agent brief budget asked tracker.noteToolCall green violations h :=
  { b with toolCalls := b.toolCalls.trans (Nat.le_succ _), toolCap := hcap }

/-- Where no cap is hit at the last look at the clock, every cap has room left. -/
lemma Books.spared (b : Books agent brief budget asked tracker green violations h)
    (hmeter : tracker.meter = meterOf agent.pricing (turnsOf h))
    (hnone : tracker.exceeded ((lastOf (readingAt .caps) h).getD 0) = .none) :
    Spared agent budget h := by
  have hunder := exceeded_eq_none.mp hnone
  rw [b.caps, hmeter, elapsedS, b.started, b.turns] at hunder
  exact { hunder with toolCalls := lt_of_le_of_lt b.toolCalls hunder.toolCalls }

/-- A still call that does not look at the caps. -/
lemma Spared.still (hs : Spared agent budget h) (hc : Still c) (hcaps : readingAt .caps c = none) :
    Spared agent budget (h ++ [c]) := by
  have helapsed : elapsed (h ++ [c]) = elapsed h := by
    rw [elapsed, lastOf_snoc_none hcaps, lastOf_snoc_none hc.tracker, elapsed]
  unfold Spared at hs ⊢
  simpa [helapsed, hc.turn, hc.model, hc.tool] using hs

end Books

section Ask

variable {A : Type} {J E : Locals A → Log A → Prop}

lemma holds_ask {op : Op A} {P : op.Ans → Locals A → Log A → Prop}
    (hok : ∀ s h a, J s h → P a s (h ++ [⟨op, .ok a⟩]))
    (herr : ∀ s h e, J s h → E s (h ++ [⟨op, .error e⟩])) : Holds J (ask op) (Post P E) :=
  holds_call hok herr

end Ask

section Ends

variable {A : Type} (isWide : Char → Bool) (agent : AgentBuilder A) (brief : Brief) (budget : Budget)

/-- What is not asked of the model or a tool: nothing catches what it raises. -/
def Outside : Op A → Prop
  | .clock _ | .runner | .sourceChanges | .tampered => True
  | _ => False

/-- Where a build raises. -/
structure Quit (s : Locals A) (h : Log A) : Prop where
  calls : Each (Allowed agent brief budget) h
  last : ∃ before op exc, h = before ++ [⟨op, .error exc⟩] ∧ Outside op

/-- Before a turn. -/
structure Ready (s : Locals A) (h : Log A) : Prop where
  books : Books agent brief budget (callsAsked (turnsOf h)) s.tracker s.targetGreen s.violations h
  meter : s.tracker.meter = meterOf agent.pricing (turnsOf h)
  quiet : s.targetGreen = false
  messages : Conversation brief (turnsOf h) s.messages
  nudges : s.nudges = idleTurns (turnsOf h)
  nudged : s.nudges ≤ maxNudges

/-- The model has answered with a turn that is not yet in the books. -/
structure Answered (turns : List (ModelTurn A)) (turn : ModelTurn A) (s : Locals A) (h : Log A) :
    Prop where
  log : turnsOf h = turns ++ [turn]
  books : Books agent brief budget (callsAsked turns) s.tracker s.targetGreen s.violations h
  meter : s.tracker.meter = meterOf agent.pricing turns
  quiet : s.targetGreen = false
  messages : Conversation brief turns s.messages
  nudges : s.nudges = idleTurns turns
  nudged : s.nudges ≤ maxNudges

/-- Some calls of the last turn have been taken up, and some are answered. -/
structure Busy (turns : List (ModelTurn A)) (turn : ModelTurn A) (taken answered : List (ToolCall A))
    (left : ℕ) (s : Locals A) (h : Log A) : Prop where
  log : turnsOf h = turns ++ [turn]
  books : Books agent brief budget (callsAsked turns ++ taken) s.tracker s.targetGreen s.violations h
  meter : s.tracker.meter = meterOf agent.pricing (turnsOf h)
  messages : ∃ before replies, Conversation brief turns before ∧
    s.messages = before ++ turn.asMessage :: replies ∧ List.Forall₂ Answers answered replies
  nudges : s.nudges = idleTurns turns
  nudged : s.nudges ≤ maxNudges
  left : s.tracker.turns + left = budget.maxTurns

/-- A build ends. -/
structure Closing (done : Bool) (stop : StopReason) (s : Locals A) (h : Log A) : Prop where
  books : Books agent brief budget (callsAsked (turnsOf h)) s.tracker s.targetGreen s.violations h
  meter : s.tracker.meter = meterOf agent.pricing (turnsOf h)
  stopped : stop ≠ .none
  claim : done = true ↔ s.targetGreen = true ∨ stop = .done
  why : stop = .done → s.targetGreen = true ∨ ∃ changes, lastOf changesOf h = some changes ∧ changes ≠ []

/-- What the outcome of a build says of its calls. -/
structure Ended (o : BuildOutcome) (h : Log A) : Prop where
  calls : Each (Allowed agent brief budget) h
  ran : Serves Carries (toolsOf h) (callsAsked (turnsOf h))
  turns : o.turns = h.countP isModel
  turnCap : o.turns ≤ budget.maxTurns
  toolCalls : (toolsOf h).length ≤ o.toolCalls
  toolCap : o.toolCalls ≤ budget.maxToolCalls
  tokensIn : o.tokensIn = (meterOf agent.pricing (turnsOf h)).tokensIn
  tokensOut : o.tokensOut = (meterOf agent.pricing (turnsOf h)).tokensOut
  cost : o.costUsd = (meterOf agent.pricing (turnsOf h)).costUsd
  stop : o.stopReason ≠ .none
  green : o.targetGreenClaim = h.any isGreen
  why : o.stopReason = .done → h.any isGreen = true ∨
    ∃ changes, lastOf changesOf h = some changes ∧ changes ≠ []
  done : ∃ tampered, ⟨.tampered, .ok tampered⟩ ∈ h ∧
    (o.done = true ↔ tampered = [] ∧ (h.any isGreen = true ∨ o.stopReason = .done)) ∧
    (tampered ≠ [] → redactAndCapHead isWide 2000 ("tamper: test files modified: ".toList ++
      ", ".toList.intercalate (tampered.take 10)) ∈ o.errors)
  violations : ∀ v ∈ h.flatMap violationsOf, redactAndCapHead isWide 2000 v ∈ o.errors

variable {isWide agent brief budget} {asked : List (ToolCall A)} {tracker : BudgetTracker} {green : Bool}
  {violations : List Text} {s : Locals A} {h : Log A} {c : Call (face A)} {op : Op A} {exc : Fault}

lemma allowed_of_outside (hop : Outside c.op) : Allowed agent brief budget h c := by
  obtain ⟨op, answer⟩ := c
  cases op <;> first | exact hop.elim | trivial

lemma still_of_outside (hop : Outside c.op) (hc : c.op ≠ .clock .tracker) : Still c := by
  obtain ⟨op, answer⟩ := c
  cases op with
  | clock site =>
    refine ⟨rfl, rfl, rfl, rfl, rfl, ?_⟩
    cases answer with
    | ok now => exact if_neg fun he => hc (by rw [he])
    | error e => rfl
  | model | tool | targetTests | connect => exact hop.elim
  | runner | sourceChanges | tampered => exact ⟨rfl, rfl, rfl, rfl, rfl, rfl⟩

lemma Books.quit (b : Books agent brief budget asked tracker green violations h) (hop : Outside op) :
    Quit agent brief budget s (h ++ [⟨op, .error exc⟩]) :=
  ⟨b.calls.snoc (allowed_of_outside hop), h, op, exc, rfl, hop⟩

lemma Ready.still (hr : Ready agent brief budget s h) (hc : Still c)
    (hallowed : Allowed agent brief budget h c) : Ready agent brief budget s (h ++ [c]) where
  books := by simpa [hc.turn] using hr.books.still hc hallowed
  meter := by simpa [hc.turn] using hr.meter
  quiet := hr.quiet
  messages := by simpa [hc.turn] using hr.messages
  nudges := by simpa [hc.turn] using hr.nudges
  nudged := hr.nudged

lemma Busy.still {turns : List (ModelTurn A)} {turn : ModelTurn A} {taken answered : List (ToolCall A)}
    {left : ℕ} (hb : Busy agent brief budget turns turn taken answered left s h) (hc : Still c)
    (hallowed : Allowed agent brief budget h c) :
    Busy agent brief budget turns turn taken answered left s (h ++ [c]) where
  log := by simpa [hc.turn] using hb.log
  books := hb.books.still hc hallowed
  meter := by simpa [hc.turn] using hb.meter
  messages := hb.messages
  nudges := hb.nudges
  nudged := hb.nudged
  left := hb.left

lemma Closing.still {done : Bool} {stop : StopReason} (hs : Closing agent brief budget done stop s h)
    (hc : Still c) (hallowed : Allowed agent brief budget h c) (hchanges : changesOf c = none) :
    Closing agent brief budget done stop s (h ++ [c]) where
  books := by simpa [hc.turn] using hs.books.still hc hallowed
  meter := by simpa [hc.turn] using hs.meter
  stopped := hs.stopped
  claim := hs.claim
  why := by simpa [lastOf_snoc_none hchanges] using hs.why

end Ends

section Walk

variable {A : Type} {isWide isPrintable : Char → Bool} {agent : AgentBuilder A} {brief : Brief}
  {budget : Budget}

/-- The clock is read for the caps. -/
lemma holds_exceeded {K : Locals A → Log A → Prop}
    (hK : ∀ s h c, Still c → Allowed agent brief budget h c → K s h → K s (h ++ [c]))
    (hcalls : ∀ s h, K s h → Each (Allowed agent brief budget) h) :
    Holds K AgentLoop.exceeded (Post (fun reason s h => K s h ∧
      reason = s.tracker.exceeded ((lastOf (readingAt .caps) h).getD 0)) (Quit agent brief budget)) := by
  unfold AgentLoop.exceeded
  refine holds_bind (holds_ask (P := fun now s h => K s h ∧ lastOf (readingAt .caps) h = some now) ?_ ?_)
    fun now => holds_get fun s => holds_pure ?_
  · intro s h now hk
    refine ⟨hK s h _ (still_of_outside trivial (by simp)) trivial hk, lastOf_snoc_some rfl⟩
  · intro s h e hk
    exact ⟨(hcalls s h hk).snoc trivial, h, _, e, rfl, trivial⟩
  · rintro s' h ⟨⟨hk, hnow⟩, rfl⟩
    exact ⟨hk, by rw [hnow]; rfl⟩

/-- The end of a build: what the guard and the tools recorded is in the errors. -/
lemma holds_finish {started : ℚ} {done : Bool} {stop : StopReason} :
    Holds (Closing agent brief budget done stop) (finish isWide agent brief budget started done stop)
      (Post (fun o _ h => Ended isWide agent brief budget o h) (Quit agent brief budget)) := by
  unfold finish
  refine holds_bind (holds_ask (P := fun tampered s h => Closing agent brief budget done stop s h ∧
    ⟨.tampered, .ok tampered⟩ ∈ h) ?_ ?_) fun tampered => ?_
  · intro s h tampered hc
    exact ⟨hc.still (still_of_outside trivial (by simp)) trivial rfl, by simp⟩
  · intro s h e hc
    exact hc.books.quit trivial
  refine holds_modify (K := fun s h => (Closing agent brief budget done stop s h ∧
    ⟨.tampered, .ok tampered⟩ ∈ h) ∧ (tampered ≠ [] → ("tamper: test files modified: ".toList ++
      ", ".toList.intercalate (tampered.take 10)) ∈ s.errors) ∧ ∀ v ∈ s.violations, v ∈ s.errors) ?_ ?_
  · rintro s h ⟨hc, hmem⟩
    refine ⟨⟨⟨hc.books, hc.meter, hc.stopped, hc.claim, hc.why⟩, hmem⟩, fun hne => ?_, fun v hv => ?_⟩
    · refine List.mem_append_left _ (List.mem_append_right _ ?_)
      rw [if_neg hne]
      exact List.mem_singleton_self _
    · exact List.mem_append_right _ hv
  refine holds_get fun s => holds_bind (holds_ask (P := fun _ s' h => s' = s ∧
    (Closing agent brief budget done stop s h ∧ ⟨.tampered, .ok tampered⟩ ∈ h) ∧
      (tampered ≠ [] → ("tamper: test files modified: ".toList ++
        ", ".toList.intercalate (tampered.take 10)) ∈ s.errors) ∧ ∀ v ∈ s.violations, v ∈ s.errors)
    ?_ ?_) fun now => holds_pure ?_
  · rintro s' h now ⟨⟨⟨hc, hmem⟩, herrors⟩, rfl⟩
    exact ⟨rfl, ⟨hc.still (still_of_outside trivial (by simp)) trivial rfl,
      List.mem_append_left _ hmem⟩, herrors⟩
  · rintro s' h e ⟨⟨⟨hc, hmem⟩, herrors⟩, rfl⟩
    exact hc.books.quit trivial
  · rintro s' h ⟨rfl, ⟨hc, hmem⟩, htamper, hviolations⟩
    exact {
      calls := hc.books.calls
      ran := hc.books.ran
      turns := hc.books.turns
      turnCap := hc.books.turnCap
      toolCalls := hc.books.toolCalls
      toolCap := hc.books.toolCap
      tokensIn := by rw [← hc.meter]
      tokensOut := by rw [← hc.meter]
      cost := by rw [← hc.meter]
      stop := hc.stopped
      green := hc.books.claimed
      why := by rw [← hc.books.claimed]; exact hc.why
      done := by
        refine ⟨tampered, hmem, ?_, fun hne => List.mem_map_of_mem (htamper hne)⟩
        rw [← hc.books.claimed, ← hc.claim]
        simp [and_comm]
      violations := fun v hv => List.mem_map_of_mem (hviolations v (by rw [hc.books.recorded]; exact hv)) }

/-- An end that claims what the tools claimed, for a reason of its own. -/
lemma holds_finishClaimed {started : ℚ} {stop : StopReason} (hdone : stop ≠ .done) (hnone : stop ≠ .none) :
    Holds (fun s h => Books agent brief budget (callsAsked (turnsOf h)) s.tracker s.targetGreen
        s.violations h ∧ s.tracker.meter = meterOf agent.pricing (turnsOf h))
      (finishClaimed isWide agent brief budget started stop)
      (Post (fun o _ h => Ended isWide agent brief budget o h) (Quit agent brief budget)) := by
  unfold finishClaimed
  refine holds_get fun s => holds_weaken holds_finish ?_
  rintro s' h ⟨⟨hbooks, hmeter⟩, rfl⟩
  exact ⟨hbooks, hmeter, hnone, by simp [hdone], fun he => absurd he hdone⟩

/-- The model is asked. What it raises leaves the build where it was, one turn older. -/
lemma holds_askModel {left : ℕ} {E : Locals A → Log A → Prop} :
    Holds (fun s h => (Ready agent brief budget s h ∧ Spared agent budget h) ∧
        s.tracker.turns + (left + 1) = budget.maxTurns) (askModel brief)
      (Post (Back (fun turn s h => ∃ turns, Answered agent brief budget turns turn s h ∧
          s.tracker.turns + left = budget.maxTurns) fun _ s h =>
        Ready agent brief budget s h ∧ s.tracker.turns + left = budget.maxTurns) E) := by
  unfold askModel
  intro w s h ⟨⟨hr, hspared⟩, hleft⟩
  have hturns : s.tracker.turns < budget.maxTurns := by omega
  have hcall : ∀ answer, Books agent brief budget (callsAsked (turnsOf h)) s.tracker.noteTurn
      s.targetGreen s.violations (h ++ [⟨.model s.messages (toolSchema brief), answer⟩]) := fun answer =>
    hr.books.ask rfl hturns
      ⟨hspared, by rw [← hr.books.claimed, hr.quiet], rfl, hr.messages, hr.nudges ▸ hr.nudged⟩
  have hask : Holds (fun s' h' => s' = { s with tracker := s.tracker.noteTurn } ∧ h' = h)
      (ask (.model s.messages (toolSchema brief)))
      (Raised (fun turn s h => ∃ turns, Answered agent brief budget turns turn s h ∧
          s.tracker.turns + left = budget.maxTurns) fun _ s h =>
        Ready agent brief budget s h ∧ s.tracker.turns + left = budget.maxTurns) := by
    refine Holds.call ?_ ?_
    · intro s' h' turn hstart
      obtain ⟨rfl, rfl⟩ := hstart
      refine ⟨turnsOf h', ⟨by simp [turnOf], hcall (.ok turn), hr.meter, hr.quiet, hr.messages, hr.nudges,
        hr.nudged⟩, ?_⟩
      simp only [turns_noteTurn]
      omega
    · intro s' h' e hstart
      obtain ⟨rfl, rfl⟩ := hstart
      refine ⟨⟨by simpa [turnOf] using hcall (.error e), by simpa [turnOf] using hr.meter, hr.quiet,
        by simpa [turnOf] using hr.messages, by simpa [turnOf] using hr.nudges, hr.nudged⟩, ?_⟩
      simp only [turns_noteTurn]
      omega
  exact holds_tried hask w _ h ⟨rfl, rfl⟩

section Turn

variable {turns : List (ModelTurn A)} {turn : ModelTurn A} {answered : List (ToolCall A)}
  {call : ToolCall A} {left : ℕ} {green : Bool} {s : Locals A} {h : Log A}

/-- A turn joins the books. -/
lemma holds_noteTurn {E : Locals A → Log A → Prop} :
    Holds (fun s h => Answered agent brief budget turns turn s h ∧
        s.tracker.turns + left = budget.maxTurns) (AgentLoop.noteTurn isWide agent turn)
      (Post (fun _ s h => Busy agent brief budget turns turn [] [] left s h ∧ s.targetGreen = false) E) := by
  unfold AgentLoop.noteTurn
  refine holds_modify (K := fun s h => Busy agent brief budget turns turn [] [] left s h ∧
    s.targetGreen = false) ?_ (holds_get fun s => ?_)
  · rintro s h ⟨ha, hleft⟩
    refine ⟨⟨ha.log, ?_, ?_, ⟨s.messages, [], ha.messages, rfl, .nil⟩, ha.nudges, ha.nudged, hleft⟩, ha.quiet⟩
    · rw [List.append_nil]
      exact { ha.books with }
    · simp [ha.log, ha.meter]
  · refine Holds.modify ?_
    rintro s' h ⟨⟨hb, hquiet⟩, rfl⟩
    exact ⟨⟨hb.log, hb.books, hb.meter, hb.messages, hb.nudges, hb.nudged, hb.left⟩, hquiet⟩

variable (agent brief budget turns turn answered call left green) in
/-- A call of the last turn is counted and about to be carried out. -/
structure Engaged (s : Locals A) (h : Log A) : Prop where
  busy : Busy agent brief budget turns turn answered answered left s h
  spared : Spared agent budget h
  room : (toolsOf h).length < s.tracker.toolCalls
  asked : answered ++ [call] <+: turn.toolCalls
  green : s.targetGreen = green

variable (agent brief budget turns turn answered call left green) in
/-- The call has been carried out, and is not yet answered. -/
structure Tried (s : Locals A) (h : Log A) : Prop where
  busy : Busy agent brief budget turns turn (answered ++ [call]) answered left s h
  kept : green = true → s.targetGreen = true
  claimed : s.targetGreen = true → green = true ∨ call.name = runTargetTestsName

/-- A call that needs no tool. -/
lemma Engaged.tried (he : Engaged agent brief budget turns turn answered call left green s h) :
    Tried agent brief budget turns turn answered call left green s h where
  busy := { he.busy with
    books := by rw [← List.append_assoc]; exact he.busy.books.skip [call] }
  kept := fun hgreen => he.green.trans hgreen
  claimed := fun hgreen => .inl (he.green ▸ hgreen)

lemma Engaged.still {c : Call (face A)} (he : Engaged agent brief budget turns turn answered call left green s h)
    (hc : Still c) (hcaps : readingAt .caps c = none) (hallowed : Allowed agent brief budget h c) :
    Engaged agent brief budget turns turn answered call left green s (h ++ [c]) where
  busy := he.busy.still hc hallowed
  spared := he.spared.still hc hcaps
  room := by simpa [hc.tool] using he.room
  asked := he.asked
  green := he.green

lemma Engaged.serves {c : Call (face A)} (he : Engaged agent brief budget turns turn answered call left green s h)
    (hcall : Carries c call) : Serves Carries (toolsOf h ++ [c]) (callsAsked (turnsOf h)) := by
  obtain ⟨rest, hrest⟩ := he.asked
  rw [he.busy.log, callsAsked_snoc, ← hrest]
  simpa using (he.busy.books.ran.serve hcall).skip rest

/-- A tool runs: the variables that record what it left are up to date. -/
lemma Engaged.run {c : Call (face A)} {s' : Locals A}
    (he : Engaged agent brief budget turns turn answered call left green s h) (hc : isTool c = true)
    (hcall : Carries c call) (hallowed : Allowed agent brief budget h c)
    (hname : isGreen c = true → call.name = runTargetTestsName) (htracker : s'.tracker = s.tracker)
    (hmessages : s'.messages = s.messages) (hnudges : s'.nudges = s.nudges)
    (hgreen : s'.targetGreen = (s.targetGreen || isGreen c))
    (hviolations : s'.violations = s.violations ++ violationsOf c) :
    Tried agent brief budget turns turn answered call left green s' (h ++ [c]) := by
  have hturn : turnOf c = none := by
    obtain ⟨op, answer⟩ := c
    cases op <;> first | rfl | cases hc
  refine ⟨⟨by simpa [hturn] using he.busy.log, ?_, by simpa [hturn, htracker] using he.busy.meter,
    hmessages ▸ he.busy.messages, hnudges ▸ he.busy.nudges, hnudges ▸ he.busy.nudged,
    htracker ▸ he.busy.left⟩, ?_, ?_⟩
  · rw [htracker, hgreen, hviolations, ← List.append_assoc]
    exact he.busy.books.run hc hcall he.room hallowed
  · intro hkept
    rw [hgreen, he.green, hkept, Bool.true_or]
  · rw [hgreen, Bool.or_eq_true, he.green]
    exact Or.imp_right hname

/-- The run of the target tests. -/
lemma holds_runTargetTests (hname : call.name = runTargetTestsName) :
    Holds (Engaged agent brief budget turns turn answered call left green) (runTargetTests isWide brief)
      (Post (fun _ => Tried agent brief budget turns turn answered call left green)
        (Tried agent brief budget turns turn answered call left green)) := by
  unfold runTargetTests
  split_ifs with hsighted
  swap
  · exact holds_pure fun s h he => he.tried
  refine holds_bind (holds_ask (P := fun _ =>
    Engaged agent brief budget turns turn answered call left green) ?_ ?_) fun now => holds_get fun s => ?_
  · exact fun s h now he => he.still (still_of_outside trivial (by simp)) rfl trivial
  · exact fun s h e he => Engaged.tried (he.still (still_of_outside trivial (by simp)) rfl trivial)
  refine holds_bind (holds_ask (P := fun (run : TestRuns.TestRun) s h => Tried agent brief budget turns turn
    answered call left green { s with targetGreen := s.targetGreen || (!run.timedOut && run.green) } h) ?_ ?_) fun run => ?_
  · rintro s' h run ⟨he, -⟩
    exact he.run rfl hname ⟨he.spared, hsighted, he.serves hname⟩ (fun _ => hname) rfl rfl rfl rfl
      (by simp [violationsOf])
  · rintro s' h e ⟨he, -⟩
    exact he.run rfl hname ⟨he.spared, hsighted, he.serves hname⟩ (fun _ => hname) rfl rfl rfl
      (by simp [isGreen]) (by simp [violationsOf])
  split_ifs with htimed hgreen
  · exact holds_pure fun s h ht => by simpa [htimed] using ht
  · refine holds_modify (K := Tried agent brief budget turns turn answered call left green) ?_
      (holds_pure fun _ _ ht => ht)
    intro s h ht
    simpa [htimed, hgreen] using ht
  · exact holds_pure fun s h ht => by simpa [hgreen] using ht

lemma holds_runTool :
    Holds (Engaged agent brief budget turns turn answered call left green)
      (runTool isWide isPrintable brief call)
      (Post (fun _ => Tried agent brief budget turns turn answered call left green)
        (Tried agent brief budget turns turn answered call left green)) := by
  unfold runTool
  split_ifs with hplain hname
  · refine holds_bind (holds_ask (P := fun (answer : ToolAnswer) s h => Tried agent brief budget turns turn
      answered call left green { s with
        violations := s.violations ++ answer.violations
        refused := s.refused ++ answer.refused } h) ?_ ?_) fun answer => ?_
    · exact fun s h answer he => he.run rfl rfl ⟨he.spared, he.serves rfl⟩ (fun hg => by cases hg) rfl rfl
        rfl (by simp [isGreen]) rfl
    · exact fun s h e he => he.run rfl rfl ⟨he.spared, he.serves rfl⟩ (fun hg => by cases hg) rfl rfl rfl
        (by simp [isGreen]) (by simp [violationsOf])
    · exact holds_modify (fun s h ht => ht) (holds_pure fun _ _ ht => ht)
  · exact holds_runTargetTests hname
  · exact holds_pure fun s h he => he.tried

/-- A tool that raises is an observation. -/
lemma holds_dispatch {E : Locals A → Log A → Prop} :
    Holds (Engaged agent brief budget turns turn answered call left green)
      (dispatch isWide isPrintable brief call)
      (Post (fun _ => Tried agent brief budget turns turn answered call left green) E) := by
  unfold dispatch
  split_ifs with hparse
  · exact holds_pure fun s h he => he.tried
  · exact holds_catching holds_runTool fun exc => holds_pure fun _ _ ht => ht

lemma Busy.answer {taken : List (ToolCall A)}
    (hb : Busy agent brief budget turns turn taken answered left s h) (call : ToolCall A) (content : Text) :
    Busy agent brief budget turns turn taken (answered ++ [call]) left
      { s with messages := s.messages ++ [.tool call.id content] } h := by
  obtain ⟨before, replies, hbefore, hmessages, hreplies⟩ := hb.messages
  refine { hb with messages := ⟨before, replies ++ [.tool call.id content], hbefore, ?_, ?_⟩ }
  · simp [hmessages]
  · exact List.rel_append hreplies (.cons ⟨content, rfl⟩ .nil)

/-- A call within the caps is carried out and answered. -/
lemma holds_answerCall {E : Locals A → Log A → Prop} (hasked : answered ++ [call] <+: turn.toolCalls) :
    Holds (fun s h => Busy agent brief budget turns turn answered answered left s h ∧
        (Spared agent budget h ∧ s.tracker.toolCalls < budget.maxToolCalls) ∧ s.targetGreen = green)
      (answerCall isWide isPrintable agent brief call)
      (Post (fun _ s h => Busy agent brief budget turns turn (answered ++ [call]) (answered ++ [call]) left s h ∧
        (s.targetGreen = true → green = true ∨ call.name = runTargetTestsName) ∧
        (green = true → s.targetGreen = true)) E) := by
  unfold answerCall appendMessage record
  refine holds_modify (K := Engaged agent brief budget turns turn answered call left green) ?_
    (holds_bind holds_dispatch fun result => ?_)
  · rintro s h ⟨hb, ⟨hspared, hcap⟩, hgreen⟩
    exact ⟨{ hb with books := hb.books.note hcap }, hspared, Nat.lt_succ_of_le hb.books.toolCalls, hasked,
      hgreen⟩
  refine holds_modify (K := fun s h =>
    Busy agent brief budget turns turn (answered ++ [call]) (answered ++ [call]) left s h ∧
      (s.targetGreen = true → green = true ∨ call.name = runTargetTestsName) ∧
      (green = true → s.targetGreen = true)) ?_ (Holds.modify ?_)
  · exact fun s h ht => ⟨ht.busy.answer call _, ht.claimed, ht.kept⟩
  · exact fun s h ⟨hb, hgreen⟩ => ⟨{ hb with }, hgreen⟩

/-- Whether a further call may be carried out. -/
lemma holds_canCallTool {X : Locals A → Prop} :
    Holds (fun s h => Busy agent brief budget turns turn answered answered left s h ∧ X s) canCallTool
      (Post (fun cap s h => (Busy agent brief budget turns turn answered answered left s h ∧ X s) ∧
        cap ≠ .done ∧ (cap = .none → Spared agent budget h ∧ s.tracker.toolCalls < budget.maxToolCalls))
        (Quit agent brief budget)) := by
  unfold canCallTool
  refine holds_get fun s => ?_
  split_ifs with hcap
  · refine holds_pure ?_
    rintro s' h ⟨hbx, rfl⟩
    exact ⟨hbx, by simp, fun he => by cases he⟩
  refine Holds.mono (@holds_exceeded A agent brief budget (fun s' h =>
    (Busy agent brief budget turns turn answered answered left s' h ∧ X s') ∧ s' = s) ?_ ?_)
    (fun _ _ h => h) ?_
  · rintro s' h c hc hallowed ⟨⟨hb, hx⟩, rfl⟩
    exact ⟨⟨hb.still hc hallowed, hx⟩, rfl⟩
  · rintro s' h ⟨⟨hb, -⟩, -⟩
    exact hb.books.calls
  · rintro (e | cap) s' h hpost
    · exact hpost
    · obtain ⟨⟨hbx, rfl⟩, rfl⟩ := hpost
      refine ⟨hbx, exceeded_ne_done, fun hnone => ⟨hbx.1.books.spared hbx.1.meter hnone, ?_⟩⟩
      rw [← hbx.1.books.caps]
      exact not_le.mp hcap

/-- All the calls of a turn. Once the target tests are green there is a reason to stop. -/
lemma holds_answerCalls (calls : List (ToolCall A)) (answered : List (ToolCall A)) (stop : StopReason)
    (hcalls : turn.toolCalls = answered ++ calls) :
    Holds (fun s h => Busy agent brief budget turns turn answered answered left s h ∧
        (s.targetGreen = true → stop ≠ .none) ∧ (stop = .done → s.targetGreen = true))
      (answerCalls isWide isPrintable agent brief calls stop)
      (Post (fun stop s h => Busy agent brief budget turns turn turn.toolCalls turn.toolCalls left s h ∧
        (s.targetGreen = true → stop ≠ .none) ∧ (stop = .done → s.targetGreen = true))
        (Quit agent brief budget)) := by
  induction calls generalizing answered stop with
  | nil =>
    rw [List.append_nil] at hcalls
    subst hcalls
    exact holds_pure fun s h hb => hb
  | cons call calls ih =>
    have hnext : turn.toolCalls = (answered ++ [call]) ++ calls := by simpa using hcalls
    unfold answerCalls
    refine holds_bind (holds_canCallTool (X := fun s =>
      (s.targetGreen = true → stop ≠ .none) ∧ (stop = .done → s.targetGreen = true))) fun cap => ?_
    split_ifs with hcap
    · rintro w s h ⟨⟨hb, hstop⟩, -, hroom⟩
      have hanswer := @holds_answerCall A isWide isPrintable agent brief budget turns turn answered call left
        s.targetGreen (Quit agent brief budget) ⟨calls, hnext.symm⟩
      refine holds_bind hanswer (fun _ => holds_get fun s' => holds_weaken (ih (answered ++ [call])
        (if call.name = runTargetTestsName ∧ s'.targetGreen = true then .done else stop) hnext) ?_) w s h
        ⟨hb, hroom hcap, rfl⟩
      rintro s'' h' ⟨⟨hb', hgreen, hkept⟩, rfl⟩
      refine ⟨hb', fun hg => ?_, fun hdone => ?_⟩
      · split_ifs with hname
        · simp
        · exact hstop.1 ((hgreen hg).resolve_right fun hn => hname ⟨hn, hg⟩)
      · split_ifs at hdone with hname
        · exact hname.2
        · exact hkept (hstop.2 hdone)
    · refine holds_modify (K := fun s h =>
        Busy agent brief budget turns turn (answered ++ [call]) (answered ++ [call]) left s h ∧
          (s.targetGreen = true → cap ≠ .none) ∧ (cap = .done → s.targetGreen = true)) ?_
        (ih (answered ++ [call]) cap hnext)
      rintro s h ⟨⟨hb, _⟩, hdone, _⟩
      have hskip : Busy agent brief budget turns turn (answered ++ [call]) answered left s h :=
        { hb with books := by rw [← List.append_assoc]; exact hb.books.skip [call] }
      exact ⟨hskip.answer call _, fun _ => hcap, fun hd => absurd hd hdone⟩

/-- A turn whose calls are all answered, and that gave no reason to stop. -/
lemma Busy.ready (hb : Busy agent brief budget turns turn turn.toolCalls turn.toolCalls left s h)
    (hcalls : turn.toolCalls ≠ []) (hquiet : s.targetGreen = false) : Ready agent brief budget s h := by
  obtain ⟨before, replies, hbefore, hmessages, hreplies⟩ := hb.messages
  refine ⟨by simpa [hb.log] using hb.books, hb.meter, hquiet, ?_, ?_, hb.nudged⟩
  · rw [hb.log, hmessages]
    exact hbefore.round ⟨replies, rfl, by rw [if_neg hcalls]; exact hreplies⟩
  · simp [hb.log, hb.nudges, hcalls]

/-- A turn without a call is answered with a nudge. -/
lemma Busy.nudged_ready (hb : Busy agent brief budget turns turn [] [] left s h)
    (hcalls : turn.toolCalls = []) (hquiet : s.targetGreen = false) (hnudge : s.nudges < maxNudges) :
    Ready agent brief budget { s with
      nudges := s.nudges + 1
      messages := s.messages ++ [.user nudgeText] } h := by
  obtain ⟨before, replies, hbefore, hmessages, hreplies⟩ := hb.messages
  cases hreplies
  refine ⟨by simpa [hb.log, hcalls] using hb.books, hb.meter, hquiet, ?_, ?_, hnudge⟩
  · simp only [hb.log, hmessages, List.append_assoc]
    exact hbefore.round ⟨[.user nudgeText], rfl, by rw [if_pos hcalls]⟩
  · simp [hb.log, hb.nudges, hcalls]

end Turn

section Build

variable {started : ℚ}

/-- The loop, with any number of turns left. -/
lemma holds_loop (left : ℕ) :
    Holds (fun s h => Ready agent brief budget s h ∧ s.tracker.turns + left = budget.maxTurns)
      (loop isWide isPrintable agent brief budget started left)
      (Post (fun o _ h => Ended isWide agent brief budget o h) (Quit agent brief budget)) := by
  have hexceeded : ∀ left, Holds (fun s h => Ready agent brief budget s h ∧
      s.tracker.turns + left = budget.maxTurns) AgentLoop.exceeded
      (Post (fun reason s h => (Ready agent brief budget s h ∧ s.tracker.turns + left = budget.maxTurns) ∧
        reason = s.tracker.exceeded ((lastOf (readingAt .caps) h).getD 0)) (Quit agent brief budget)) :=
    fun left => holds_exceeded (fun s h c hc hallowed hr => ⟨hr.1.still hc hallowed, hr.2⟩)
      fun s h hr => hr.1.books.calls
  -- a cap is hit, and is the reason
  have hcapped : ∀ left reason, reason ≠ .none →
      Holds (fun s h => (Ready agent brief budget s h ∧ s.tracker.turns + left = budget.maxTurns) ∧
        reason = s.tracker.exceeded ((lastOf (readingAt .caps) h).getD 0))
      (finishClaimed isWide agent brief budget started reason)
      (Post (fun o _ h => Ended isWide agent brief budget o h) (Quit agent brief budget)) := by
    intro left reason hreason w s h ⟨⟨hr, hleft⟩, he⟩
    refine holds_finishClaimed ?_ hreason w s h ⟨hr.books, hr.meter⟩
    rw [he]
    exact exceeded_ne_done
  induction left with
  | zero =>
    unfold loop
    refine holds_bind (hexceeded 0) fun reason w s h hreason => hcapped 0 reason ?_ w s h hreason
    rw [hreason.2]
    refine exceeded_of_turns ?_
    rw [hreason.1.1.books.caps]
    exact hreason.1.2.ge
  | succ left ih =>
    unfold loop
    refine holds_bind (hexceeded (left + 1)) fun reason => ?_
    split_ifs with hnone
    swap
    · exact hcapped (left + 1) reason hnone
    refine holds_bind (holds_weaken (@holds_askModel A agent brief budget left _) ?_) fun answer => ?_
    · rintro s h ⟨⟨hr, hleft⟩, he⟩
      exact ⟨⟨hr, hr.books.spared hr.meter (he.symm.trans hnone)⟩, hleft⟩
    cases answer with
    | error exc =>
      refine holds_modify (K := fun s h => Books agent brief budget (callsAsked (turnsOf h)) s.tracker
        s.targetGreen s.violations h ∧ s.tracker.meter = meterOf agent.pricing (turnsOf h)) ?_
        (holds_finishClaimed (by simp) (by simp))
      exact fun s h hr => ⟨hr.1.books, hr.1.meter⟩
    | ok turn =>
      intro w s h ⟨turns, hanswered⟩
      refine holds_bind holds_noteTurn (fun _ => ?_) w s h hanswered
      split_ifs with hcalls
      · -- no call: the worktree tells whether the model is done or is to be nudged
        refine holds_bind (holds_ask (P := fun changes s h =>
          (Busy agent brief budget turns turn [] [] left s h ∧ s.targetGreen = false) ∧
            lastOf changesOf h = some changes) ?_ ?_) fun changes => holds_get fun s => ?_
        · rintro s h changes ⟨hb, hquiet⟩
          exact ⟨⟨hb.still (still_of_outside trivial (by simp)) trivial, hquiet⟩, lastOf_snoc_some rfl⟩
        · exact fun s h e hb => hb.1.books.quit trivial
        by_cases hnudge : changes = [] ∧ s.nudges < maxNudges
        · rw [if_pos hnudge]
          refine holds_modify ?_ ih
          rintro s' h ⟨⟨⟨hb, hquiet⟩, -⟩, rfl⟩
          exact ⟨hb.nudged_ready hcalls hquiet hnudge.2, hb.left⟩
        · rw [if_neg hnudge]
          refine holds_weaken holds_finish ?_
          rintro s' h ⟨⟨⟨hb, hquiet⟩, hchanges⟩, rfl⟩
          refine ⟨by simpa [hb.log, hcalls] using hb.books, hb.meter, ?_, ?_, fun hdone => ?_⟩
          · split_ifs <;> simp
          · by_cases hempty : changes = [] <;> simp [hempty, hquiet]
          · refine .inr ⟨changes, hchanges, fun hempty => ?_⟩
            rw [if_pos hempty] at hdone
            cases hdone
      · have hall := @holds_answerCalls A isWide isPrintable agent brief budget turns turn left
          turn.toolCalls [] .none rfl
        refine holds_bind (holds_weaken hall ?_) fun stop => ?_
        · rintro s h ⟨hb, hquiet⟩
          exact ⟨hb, fun hg => by simp [hquiet] at hg, fun hdone => by cases hdone⟩
        have hbooks : ∀ s h, Busy agent brief budget turns turn turn.toolCalls turn.toolCalls left s h →
            Books agent brief budget (callsAsked (turnsOf h)) s.tracker s.targetGreen s.violations h := by
          intro s h hb
          rw [hb.log, callsAsked_snoc]
          exact hb.books
        split_ifs with hdone hgo
        · refine holds_weaken holds_finish ?_
          rintro s h ⟨hb, -, hgreen⟩
          exact ⟨hbooks s h hb, hb.meter, by simp, by simp, fun _ => .inl (hgreen hdone)⟩
        · refine holds_weaken ih ?_
          rintro s h ⟨hb, hgreen, -⟩
          refine ⟨hb.ready hcalls ?_, hb.left⟩
          by_contra hg
          exact hgreen (by simpa using hg) hgo
        · refine holds_weaken (holds_finishClaimed hdone hgo) ?_
          exact fun s h hb => ⟨hbooks s h hb.1, hb.1.meter⟩

variable (agent brief budget) in
/-- Before the first turn. -/
structure Starting (s : Locals A) (h : Log A) : Prop where
  books : Books agent brief budget [] s.tracker s.targetGreen s.violations h
  meter : s.tracker.meter = { pricing := agent.pricing }
  quiet : s.targetGreen = false
  log : turnsOf h = []
  nudges : s.nudges = 0
  turns : s.tracker.turns = 0

lemma Starting.still {s : Locals A} {h : Log A} {c : Call (face A)} (hs : Starting agent brief budget s h)
    (hc : Still c) (hallowed : Allowed agent brief budget h c) :
    Starting agent brief budget s (h ++ [c]) :=
  { hs with
    books := hs.books.still hc hallowed
    log := by simpa [hc.turn] using hs.log }

lemma starting_init : Starting agent brief budget (Locals.init agent budget) [] where
  books := ⟨rfl, rfl, Nat.zero_le _, rfl, serves_nil, le_rfl, Nat.zero_le _, rfl, rfl, each_nil⟩
  meter := rfl
  quiet := rfl
  log := rfl
  nudges := rfl
  turns := rfl

/-- A whole build. -/
theorem holds_build :
    Holds (Starting agent brief budget) (build isWide isPrintable agent brief budget)
      (Post (fun o _ h => Ended isWide agent brief budget o h) (Quit agent brief budget)) := by
  unfold build
  refine holds_bind (holds_ask (P := fun _ => Starting agent brief budget) ?_ ?_) fun started => ?_
  · exact fun s h now hs => hs.still (still_of_outside trivial (by simp)) trivial
  · exact fun s h e hs => hs.books.quit trivial
  refine holds_bind (holds_ask (P := fun now s h =>
    Starting agent brief budget { s with tracker := { s.tracker with started := now } } h) ?_ ?_) fun now => ?_
  · intro s h now hs
    have hclock : ∀ c : Call (face A), c = ⟨.clock .tracker, .ok now⟩ → turnOf c = none ∧ isModel c = false ∧
        isTool c = false ∧ isGreen c = false ∧ violationsOf c = [] ∧ readingAt .tracker c = some now := by
      rintro _ rfl
      exact ⟨rfl, rfl, rfl, rfl, rfl, rfl⟩
    obtain ⟨hturn, hmodel, htool, hgreen, hviolations, hreading⟩ := hclock _ rfl
    exact { hs with
      books := {
        caps := hs.books.caps
        turns := by simp [hs.books.turns, hmodel]
        turnCap := hs.books.turnCap
        started := by rw [lastOf_snoc_some hreading]; rfl
        ran := by simpa [htool] using hs.books.ran
        toolCalls := by simpa [htool] using hs.books.toolCalls
        toolCap := hs.books.toolCap
        claimed := by simp [hs.books.claimed, hgreen]
        recorded := by simp [hs.books.recorded, hviolations]
        calls := hs.books.calls.snoc trivial }
      log := by simpa [hturn] using hs.log }
  · exact fun s h e hs => hs.books.quit trivial
  refine holds_modify (fun s h hs => hs) ?_
  extract_lets rest
  have hrest : ∀ u, Holds (Starting agent brief budget) (rest u)
      (Post (fun o _ h => Ended isWide agent brief budget o h) (Quit agent brief budget)) := by
    intro u
    refine holds_bind (holds_tried (P := fun _ => Starting agent brief budget)
      (R := fun _ => Starting agent brief budget) (Holds.call ?_ ?_)) fun answer => ?_
    · exact fun s h _ hs => hs.still ⟨rfl, rfl, rfl, rfl, rfl, rfl⟩ trivial
    · exact fun s h e hs => hs.still ⟨rfl, rfl, rfl, rfl, rfl, rfl⟩ trivial
    cases answer with
    | error exc =>
      refine holds_modify (K := Closing agent brief budget false .modelError) ?_ holds_finish
      intro s h hs
      refine ⟨by simpa [hs.log, callsAsked] using hs.books, by simpa [hs.log, meterOf] using hs.meter,
        by simp, ?_, fun he => by cases he⟩
      simp [hs.quiet]
    | ok =>
      refine holds_modify (K := fun s h => Ready agent brief budget s h ∧
        s.tracker.turns + budget.maxTurns = budget.maxTurns) ?_ (holds_loop budget.maxTurns)
      intro s h hs
      refine ⟨⟨by simpa [hs.log, callsAsked] using hs.books, by simpa [hs.log, meterOf] using hs.meter,
        hs.quiet, by simpa [hs.log] using conversation_opening, by simp [hs.log, hs.nudges, idleTurns],
        by simp [hs.nudges]⟩, by simp [hs.turns]⟩
  split_ifs
  · refine holds_bind (holds_ask (P := fun _ => Starting agent brief budget) ?_ ?_) hrest
    · exact fun s h _ hs => hs.still (still_of_outside trivial (by simp)) trivial
    · exact fun s h e hs => hs.books.quit trivial
  · exact hrest ()

end Build

end Walk

section Results

variable {A : Type} (isWide isPrintable : Char → Bool) (agent : AgentBuilder A) (brief : Brief)
  (budget : Budget) (w : World (face A))

/-- How a build ends in a world. -/
def outcomeOf : Except (Halt (face A) Empty) BuildOutcome :=
  (build isWide isPrintable agent brief budget w (Locals.init agent budget) []).1

/-- The calls a build makes in a world. -/
def logOf : Log A := (build isWide isPrintable agent brief budget w (Locals.init agent budget) []).2.2

variable {isWide isPrintable agent brief budget w}

lemma ended_of_ok {o : BuildOutcome} (h : outcomeOf isWide isPrintable agent brief budget w = .ok o) :
    Ended isWide agent brief budget o (logOf isWide isPrintable agent brief budget w) := by
  have hbuild := @holds_build A isWide isPrintable agent brief budget w _ _ starting_init
  rw [outcomeOf] at h
  rw [h] at hbuild
  exact hbuild

lemma raised_last {e : Halt (face A) Empty}
    (h : outcomeOf isWide isPrintable agent brief budget w = .error e) :
    Each (Allowed agent brief budget) (logOf isWide isPrintable agent brief budget w) ∧
      ∃ before op exc, logOf isWide isPrintable agent brief budget w = before ++ [⟨op, .error exc⟩] ∧
        Outside op := by
  have hbuild := @holds_build A isWide isPrintable agent brief budget w _ _ starting_init
  rw [outcomeOf] at h
  rw [h] at hbuild
  exact ⟨Quit.calls hbuild, Quit.last hbuild⟩

lemma calls_allowed : Each (Allowed agent brief budget) (logOf isWide isPrintable agent brief budget w) := by
  cases h : outcomeOf isWide isPrintable agent brief budget w with
  | ok o => exact (ended_of_ok h).calls
  | error e => exact (raised_last h).1

lemma spared_of_allowed {pre : Log A} {c : Call (face A)} (h : Allowed agent brief budget pre c)
    (hc : isModel c = true ∨ isTool c = true) : Spared agent budget pre := by
  obtain ⟨op, answer⟩ := c
  cases op with
  | model | tool | targetTests => exact h.1
  | clock | runner | connect | sourceChanges | tampered => rcases hc with hc | hc <;> cases hc

variable (isWide isPrintable agent brief budget w)

/-- Each time the model is asked with the opening and a whole round for each of its turns so far, in
order: every call of a turn is answered once, under its id, and a turn without calls is nudged, at most
twice. The tools that run are calls the model has asked for, each at most once and in its order. -/
theorem build_conversation :
    Each (fun pre c => ∀ messages tools, c.op = .model messages tools → tools = toolSchema brief ∧
      Conversation brief (turnsOf pre) messages ∧ idleTurns (turnsOf pre) ≤ maxNudges)
      (logOf isWide isPrintable agent brief budget w) ∧
    Each (fun pre c => isTool c = true → Serves Carries (toolsOf pre ++ [c]) (callsAsked (turnsOf pre)))
      (logOf isWide isPrintable agent brief budget w) := by
  constructor
  · refine calls_allowed.mono fun pre c h messages tools hop => ?_
    rw [Allowed, hop] at h
    exact h.2.2
  · refine calls_allowed.mono fun pre c h hc => ?_
    obtain ⟨op, answer⟩ := c
    cases op with
    | tool => exact h.2
    | targetTests => exact h.2.2
    | clock | runner | connect | model | sourceChanges | tampered => cases hc

/-- The model is never asked again after the target tests have been green, and they run only where they
are not held out. A build is done exactly if no test file was modified and they were green or it stopped
by itself, and it stops so only with them green or with changes in the worktree; no violation is lost.
What the model or a tool raises does not get out. -/
theorem build_claims :
    Each (fun pre c => isModel c = true → pre.any isGreen = false)
      (logOf isWide isPrintable agent brief budget w) ∧
    Each (fun _ c => ∀ timeout, c.op = .targetTests timeout → brief.sighted = true)
      (logOf isWide isPrintable agent brief budget w) ∧
    (∀ o, outcomeOf isWide isPrintable agent brief budget w = .ok o →
      o.targetGreenClaim = (logOf isWide isPrintable agent brief budget w).any isGreen ∧
      (∃ tampered, ⟨.tampered, .ok tampered⟩ ∈ logOf isWide isPrintable agent brief budget w ∧
        (o.done = true ↔ tampered = [] ∧
          ((logOf isWide isPrintable agent brief budget w).any isGreen = true ∨ o.stopReason = .done)) ∧
        (tampered ≠ [] → redactAndCapHead isWide 2000 ("tamper: test files modified: ".toList ++
          ", ".toList.intercalate (tampered.take 10)) ∈ o.errors)) ∧
      (o.stopReason = .done → (logOf isWide isPrintable agent brief budget w).any isGreen = true ∨
        ∃ changes, lastOf changesOf (logOf isWide isPrintable agent brief budget w) = some changes ∧
          changes ≠ []) ∧
      ∀ v ∈ (logOf isWide isPrintable agent brief budget w).flatMap violationsOf,
        redactAndCapHead isWide 2000 v ∈ o.errors) ∧
    ∀ e, outcomeOf isWide isPrintable agent brief budget w = .error e →
      ∃ before op exc, logOf isWide isPrintable agent brief budget w = before ++ [⟨op, .error exc⟩] ∧
        Outside op := by
  refine ⟨?_, ?_, fun o ho => ?_, fun e he => (raised_last he).2⟩
  · refine calls_allowed.mono fun pre c h hc => ?_
    obtain ⟨op, answer⟩ := c
    cases op with
    | model => exact h.2.1
    | clock | runner | connect | tool | targetTests | sourceChanges | tampered => cases hc
  · refine calls_allowed.mono fun pre c h timeout hop => ?_
    rw [Allowed, hop] at h
    exact h.2.1
  · have he := ended_of_ok ho
    exact ⟨he.green, he.done, he.why, he.violations⟩

end Results

end CommitReplay.AgentRuns
