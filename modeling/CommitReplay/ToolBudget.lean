import Mathlib.Algebra.Order.Ring.Rat
import CommitReplay.AttemptOutcomes

/-! What one build may spend and what it has spent: the tokens and the cost of its calls, its turns, its
tool calls and the clock. -/
namespace CommitReplay.ToolBudget

open CommitReplay.AttemptOutcomes

section Meters

/-- Dollars for a million tokens; a price that is not known is a placeholder. -/
structure Pricing where
  inputPerM : ℚ
  outputPerM : ℚ
  known : Bool
  cachedInputPerM : Option ℚ
deriving DecidableEq

/-- Cached input is billed at its own rate where there is one. -/
def Pricing.cost (p : Pricing) (tokensIn tokensOut cachedIn : ℕ) : ℚ :=
  if p.known then
    (tokensIn - cachedIn : ℕ) * p.inputPerM / 1000000 + tokensOut * p.outputPerM / 1000000 +
      cachedIn * p.cachedInputPerM.getD p.inputPerM / 1000000
  else 0

structure CostMeter where
  pricing : Pricing
  tokensIn : ℕ := 0
  tokensOut : ℕ := 0
  cachedIn : ℕ := 0
  calls : ℕ := 0
  reportedCost : ℚ := 0
  anyReported : Bool := false
deriving DecidableEq

namespace CostMeter

variable (m : CostMeter)

/-- One model call; from the first cost a provider reports, the reported ones are what counts. -/
def add (tokensIn tokensOut cachedIn : ℤ) (costUsd : Option ℚ) : CostMeter :=
  { m with
    tokensIn := m.tokensIn + tokensIn.toNat
    tokensOut := m.tokensOut + tokensOut.toNat
    cachedIn := m.cachedIn + cachedIn.toNat
    calls := m.calls + 1
    reportedCost := m.reportedCost + costUsd.getD 0
    anyReported := m.anyReported || costUsd.isSome }

def costKnown : Bool := m.anyReported || m.pricing.known

def costUsd : ℚ :=
  if m.anyReported then m.reportedCost else m.pricing.cost m.tokensIn m.tokensOut m.cachedIn

def totalTokens : ℕ := m.tokensIn + m.tokensOut

@[simp] lemma calls_add (tin tout cached : ℤ) (cost : Option ℚ) :
    (m.add tin tout cached cost).calls = m.calls + 1 := rfl

end CostMeter

end Meters

section Caps

/-- Hard caps for one build: no cap where the tokens or the cost is 0, and the rest always bounded. -/
structure Budget where
  maxTurns : ℕ
  maxToolCalls : ℕ
  maxTokens : ℕ
  maxCostUsd : ℚ
  wallClockS : ℚ
  turns_pos : 0 < maxTurns
  toolCalls_pos : 0 < maxToolCalls
  wallClock_pos : 0 < wallClockS
  cost_nonneg : 0 ≤ maxCostUsd

structure BudgetTracker where
  budget : Budget
  meter : CostMeter
  started : ℚ
  turns : ℕ := 0
  toolCalls : ℕ := 0

namespace BudgetTracker

variable (t : BudgetTracker) (now : ℚ)

def elapsedS : ℚ := now - t.started

def remainingS : ℚ := max 0 (t.budget.wallClockS - t.elapsedS now)

/-- The first cap that is hit, the most external one first. -/
def exceeded : StopReason :=
  if t.budget.wallClockS ≤ t.elapsedS now then .wallClock
  else if t.budget.maxCostUsd ≠ 0 ∧ t.budget.maxCostUsd ≤ t.meter.costUsd then .maxCost
  else if t.budget.maxTokens ≠ 0 ∧ t.budget.maxTokens ≤ t.meter.totalTokens then .maxTokens
  else if t.budget.maxTurns ≤ t.turns then .maxTurns
  else if t.budget.maxToolCalls ≤ t.toolCalls then .maxToolCalls
  else .none

def noteTurn : BudgetTracker := { t with turns := t.turns + 1 }

def noteToolCall : BudgetTracker := { t with toolCalls := t.toolCalls + 1 }

/-- Every count is under its cap. -/
structure Under (b : Budget) (m : CostMeter) (elapsed : ℚ) (turns toolCalls : ℕ) : Prop where
  wallClock : elapsed < b.wallClockS
  cost : b.maxCostUsd = 0 ∨ m.costUsd < b.maxCostUsd
  tokens : b.maxTokens = 0 ∨ m.totalTokens < b.maxTokens
  turns : turns < b.maxTurns
  toolCalls : toolCalls < b.maxToolCalls

variable {t now}

lemma exceeded_eq_none :
    t.exceeded now = .none ↔ Under t.budget t.meter (t.elapsedS now) t.turns t.toolCalls := by
  unfold exceeded
  constructor
  · intro h
    split_ifs at h with hw hc ht hn hk
    refine ⟨not_le.mp hw, ?_, ?_, not_le.mp hn, not_le.mp hk⟩
    · by_cases h0 : t.budget.maxCostUsd = 0
      · exact .inl h0
      · exact .inr (not_le.mp fun hle => hc ⟨h0, hle⟩)
    · by_cases h0 : t.budget.maxTokens = 0
      · exact .inl h0
      · exact .inr (not_le.mp fun hle => ht ⟨h0, hle⟩)
  · rintro ⟨hw, hc, ht, hn, hk⟩
    rw [if_neg (not_le.mpr hw), if_neg, if_neg, if_neg (not_le.mpr hn), if_neg (not_le.mpr hk)]
    · rintro ⟨h0, hle⟩
      exact ht.elim h0 fun hlt => absurd hle (not_le.mpr hlt)
    · rintro ⟨h0, hle⟩
      exact hc.elim h0 fun hlt => absurd hle (not_le.mpr hlt)

/-- A build out of turns has hit a cap. -/
lemma exceeded_of_turns (h : t.budget.maxTurns ≤ t.turns) : t.exceeded now ≠ .none :=
  fun hn => absurd h (not_le.mpr (exceeded_eq_none.mp hn).turns)

lemma exceeded_ne_done : t.exceeded now ≠ .done := by
  unfold exceeded
  split_ifs <;> simp

@[simp] lemma budget_noteTurn : t.noteTurn.budget = t.budget := rfl
@[simp] lemma meter_noteTurn : t.noteTurn.meter = t.meter := rfl
@[simp] lemma started_noteTurn : t.noteTurn.started = t.started := rfl
@[simp] lemma turns_noteTurn : t.noteTurn.turns = t.turns + 1 := rfl
@[simp] lemma toolCalls_noteTurn : t.noteTurn.toolCalls = t.toolCalls := rfl
@[simp] lemma budget_noteToolCall : t.noteToolCall.budget = t.budget := rfl
@[simp] lemma meter_noteToolCall : t.noteToolCall.meter = t.meter := rfl
@[simp] lemma started_noteToolCall : t.noteToolCall.started = t.started := rfl
@[simp] lemma turns_noteToolCall : t.noteToolCall.turns = t.turns := rfl
@[simp] lemma toolCalls_noteToolCall : t.noteToolCall.toolCalls = t.toolCalls + 1 := rfl

end BudgetTracker

end Caps

end CommitReplay.ToolBudget
