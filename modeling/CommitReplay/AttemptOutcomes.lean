import CommitReplay.RedactedHeads
import CommitReplay.JoinedTexts

/-! What a builder reports of one call, and how the calls of one attempt become one outcome: what they
metered is added up, and a repair that only failed to reach the model leaves the first call's word. -/
namespace CommitReplay.AttemptOutcomes

open CommitReplay.PythonText CommitReplay.RedactedHeads CommitReplay.JoinedTexts

variable (isWide : Char → Bool)

inductive StopReason
  | none | done | maxTurns | maxToolCalls | maxTokens | maxCost | wallClock | modelError | noToolCall
deriving DecidableEq, Repr

def StopReason.text : StopReason → String
  | .none => ""
  | .done => "done"
  | .maxTurns => "max_turns"
  | .maxToolCalls => "max_tool_calls"
  | .maxTokens => "max_tokens"
  | .maxCost => "max_cost_usd"
  | .wallClock => "wall_clock"
  | .modelError => "model_error"
  | .noToolCall => "no_tool_call"

/-- `unconfirmed` is the container of the last kill the daemon did not confirm, from `extra`. -/
structure BuildOutcome where
  builder : String
  model : String
  provider : String
  mode : String
  done : Bool
  turns : ℕ
  toolCalls : ℕ
  tokensIn : ℕ
  tokensOut : ℕ
  tokensCached : ℕ
  costUsd : ℚ
  latencyS : ℚ
  attempts : ℕ
  stopReason : StopReason
  errors : List Text
  transcript : List Text
  costKnown : Bool
  unconfirmed : Option Text
deriving DecidableEq

/-- The turns, the tokens in, out and cached, the cost and the latency. -/
abbrev Meter := ℕ × ℕ × ℕ × ℕ × ℚ × ℚ

structure UnconfirmedKill where
  container : Text
  bound : Text
deriving DecidableEq

namespace BuildOutcome

variable (o : BuildOutcome)

def meter : Meter := (o.turns, o.tokensIn, o.tokensOut, o.tokensCached, o.costUsd, o.latencyS)

/-- What constructing or replacing an outcome stores: its errors redacted, and each cut behind its head. -/
def stored : BuildOutcome := { o with errors := o.errors.map (redactAndCapHead isWide 2000) }

def isViolation (error : Text) : Bool := violationPrefixes.any (startsWith error)

/-- Any recorded breach of the protocol. -/
def violated : Bool := o.errors.any isViolation

end BuildOutcome

section Records

def killHead : Text := "container: kill unconfirmed — ".toList

def unconfirmedKillError (kill : UnconfirmedKill) : Text :=
  killHead ++ kill.container ++
    " may still be running (the daemon did not report it stopped within ".toList ++ kill.bound ++
    " s)".toList

def noteUnconfirmedKills (o : BuildOutcome) (kills : List UnconfirmedKill) : BuildOutcome :=
  if kills = [] then o
  else BuildOutcome.stored isWide { o with
    errors := o.errors ++ kills.map unconfirmedKillError
    unconfirmed := kills.getLast?.map (·.container) }

/-- `_repair_errored`: the call ended in a model error and broke no rule. -/
def repairErrored (second : BuildOutcome) : Bool :=
  !second.violated && second.stopReason = .modelError

/-- Two calls as one: what they metered summed, the errors of both, the word of the second. -/
def mergeCalls (first second : BuildOutcome) : BuildOutcome :=
  .stored isWide { first with
    attempts := first.attempts + second.attempts
    turns := first.turns + second.turns
    tokensIn := first.tokensIn + second.tokensIn
    tokensOut := first.tokensOut + second.tokensOut
    tokensCached := first.tokensCached + second.tokensCached
    costUsd := first.costUsd + second.costUsd
    latencyS := first.latencyS + second.latencyS
    errors := first.errors ++ second.errors
    stopReason := if second.stopReason = .none then first.stopReason else second.stopReason
    done := second.done
    transcript := first.transcript ++ second.transcript
    unconfirmed := second.unconfirmed.or first.unconfirmed }

/-- `_merge_outcomes`: a repair that only failed to reach the model leaves the first call's stop reason,
its word and its errors. -/
def mergeOutcomes (first second : BuildOutcome) : BuildOutcome :=
  if repairErrored second then
    .stored isWide
      { mergeCalls isWide first (.stored isWide { second with stopReason := .none, errors := [] }) with
        stopReason := first.stopReason
        done := first.done }
  else mergeCalls isWide first second

/-- A head, and what follows it redacted and cut so that the head stays. -/
def prefixed (head detail : Text) (maxChars : ℕ) : Text :=
  head ++ redactAndCapHead isWide (max 1 (maxChars - head.length)) detail

def lstrip (s : Text) : Text := s.dropWhile isSpace

def protocolHead : Text := "protocol violation: ".toList

def modelErrorHead : Text := "model_error: ".toList

/-- The error of the attempt an outcome makes, empty for an honest one. -/
def attemptError (o : BuildOutcome) : Text :=
  if o.violated then
    prefixed isWide protocolHead ("; ".toList.intercalate (o.errors.filter BuildOutcome.isViolation)) 500
  else if o.stopReason = .modelError then
    let joined := "; ".toList.intercalate o.errors
    let detail := if joined = [] then "builder reported a model error".toList else joined
    let detail := if startsWith detail "model_error:".toList then lstrip (detail.drop 12) else detail
    prefixed isWide modelErrorHead detail 500
  else []

structure BuilderRef where
  name : String
  model : String
  provider : String
  mode : String
  attempts : ℕ
  turns : ℕ
  tokensIn : ℕ
  tokensOut : ℕ
  tokensCached : ℕ
  costUsd : ℚ
  latencyS : ℚ
  transcriptRef : Text
  note : Text
deriving DecidableEq

def costUnknownMark : Text := "cost unknown".toList

def costUnknownPart : Text := "cost unknown (no pricing for model)".toList

/-- The stop reason, how many errors there are, and whether the price was unknown. -/
def noteParts (o : BuildOutcome) : List Text :=
  (if o.stopReason = .none then [] else [o.stopReason.text.toList]) ++
    (if o.errors = [] then [] else [Nat.toDigits 10 o.errors.length ++ " error(s)".toList]) ++
    if o.costKnown then [] else [costUnknownPart]

def builderRef (o : BuildOutcome) (transcriptRef : Text) : BuilderRef where
  name := o.builder
  model := o.model
  provider := o.provider
  mode := o.mode
  attempts := o.attempts
  turns := o.turns
  tokensIn := o.tokensIn
  tokensOut := o.tokensOut
  tokensCached := o.tokensCached
  costUsd := o.costUsd
  latencyS := o.latencyS
  transcriptRef
  note := "; ".toList.intercalate (noteParts o)

/-- What the ledger asks of the note: whether the price of the model was known. -/
def BuilderRef.pricingKnown (r : BuilderRef) : Bool := !contains r.note costUnknownMark

def BuilderRef.meter (r : BuilderRef) : Meter :=
  (r.turns, r.tokensIn, r.tokensOut, r.tokensCached, r.costUsd, r.latencyS)

/-- `notes` is of an unconfirmed kill; `outcome` is the one the attempt reports, which its transcript
records with the count of its tool calls. -/
structure BuildAttempt where
  builder : BuilderRef
  error : Text
  labels : List (Text × Text)
  notes : Option Text
  outcome : Option BuildOutcome
deriving DecidableEq

def BuildAttempt.toolCalls (a : BuildAttempt) : ℕ := (a.outcome.map (·.toolCalls)).getD 0

def BuildAttempt.violation (a : BuildAttempt) : Bool := startsWith a.error "protocol violation:".toList

end Records

section Facts

variable {isWide}

@[simp] lemma meter_stored (o : BuildOutcome) : (o.stored isWide).meter = o.meter := rfl

lemma isViolation_stored (e : Text) :
    BuildOutcome.isViolation (redactAndCapHead isWide 2000 e) = BuildOutcome.isViolation e := by
  rw [Bool.eq_iff_iff]
  simp only [BuildOutcome.isViolation, List.any_eq_true, startsWith, List.isPrefixOf_iff_prefix]
  exact exists_congr fun q => and_congr_right fun hq => prefix_redactAndCapHead hq (by norm_num) e

/-- Storing an outcome keeps its breaches. -/
@[simp] lemma violated_stored (o : BuildOutcome) : (o.stored isWide).violated = o.violated := by
  simp only [BuildOutcome.violated, BuildOutcome.stored, List.any_map, Function.comp_def,
    isViolation_stored]

lemma meter_mergeCalls (f s : BuildOutcome) : (mergeCalls isWide f s).meter = f.meter + s.meter := rfl

lemma violated_mergeCalls (f s : BuildOutcome) :
    (mergeCalls isWide f s).violated = (f.violated || s.violated) := by
  rw [mergeCalls, violated_stored]
  simp [BuildOutcome.violated]

lemma repairErrored_iff {s : BuildOutcome} :
    repairErrored s = true ↔ s.violated = false ∧ s.stopReason = .modelError := by
  simp [repairErrored]

/-- What two calls metered is added up, whichever way they become one. -/
lemma meter_mergeOutcomes (f s : BuildOutcome) :
    (mergeOutcomes isWide f s).meter = f.meter + s.meter := by
  unfold mergeOutcomes
  split_ifs <;> rfl

lemma violated_mergeOutcomes (f s : BuildOutcome) :
    (mergeOutcomes isWide f s).violated = (f.violated || s.violated) := by
  unfold mergeOutcomes
  split_ifs with hs
  · rw [violated_stored, (repairErrored_iff.mp hs).1, Bool.or_false]
    exact (violated_mergeCalls f _).trans (by rw [violated_stored]; simp [BuildOutcome.violated])
  · exact violated_mergeCalls f s

lemma toolCalls_mergeOutcomes (f s : BuildOutcome) :
    (mergeOutcomes isWide f s).toolCalls = f.toolCalls := by
  unfold mergeOutcomes
  split_ifs <;> rfl

lemma costKnown_mergeOutcomes (f s : BuildOutcome) :
    (mergeOutcomes isWide f s).costKnown = f.costKnown := by
  unfold mergeOutcomes
  split_ifs <;> rfl

/-- Only a second call that broke a rule leaves a model error the first had not. -/
lemma stopReason_mergeOutcomes {f s : BuildOutcome}
    (h : (mergeOutcomes isWide f s).stopReason = .modelError) :
    f.stopReason = .modelError ∨ s.violated = true := by
  unfold mergeOutcomes at h
  split_ifs at h with hs
  · exact .inl h
  · simp only [mergeCalls, BuildOutcome.stored] at h
    split_ifs at h
    · exact .inl h
    · refine .inr ?_
      by_contra hno
      exact hs (repairErrored_iff.mpr ⟨by simpa using hno, h⟩)

lemma head?_eq_of_begins {q s : Text} (h : q <+: s) (hne : q ≠ []) : q.head? = s.head? := by
  obtain ⟨x, rfl⟩ := h
  exact (List.head?_append_of_ne_nil _ hne).symm

lemma isViolation_unconfirmedKillError (kill : UnconfirmedKill) :
    BuildOutcome.isViolation (unconfirmedKillError kill) = false := by
  have hhead : killHead.head? = some 'c' := by rfl
  have hmarks : (violationPrefixes.all fun q => q ≠ [] && q.head? != some 'c') = true := by rfl
  have hkill : killHead <+: unconfirmedKillError kill := by
    simp only [unconfirmedKillError, List.append_assoc]
    exact List.prefix_append _ _
  rw [BuildOutcome.isViolation, List.any_eq_false]
  intro q hq
  obtain ⟨hne, hc⟩ : q ≠ [] ∧ q.head? ≠ some 'c' := by simpa using List.all_eq_true.mp hmarks q hq
  rw [startsWith, List.isPrefixOf_iff_prefix]
  intro hpre
  have hk : killHead ≠ [] := fun h => by rw [h] at hhead; cases hhead
  exact hc ((head?_eq_of_begins hpre hne).trans ((head?_eq_of_begins hkill hk).symm.trans hhead))

/-- A kill that went unconfirmed is no breach. -/
lemma violated_noteUnconfirmedKills (o : BuildOutcome) (kills : List UnconfirmedKill) :
    (noteUnconfirmedKills isWide o kills).violated = o.violated := by
  unfold noteUnconfirmedKills
  split_ifs
  · rfl
  · have hkills : (kills.map unconfirmedKillError).any BuildOutcome.isViolation = false := by
      rw [List.any_map, List.any_eq_false]
      exact fun kill _ => by simp [isViolation_unconfirmedKillError]
    rw [violated_stored]
    simp only [BuildOutcome.violated, List.any_append, hkills, Bool.or_false]

lemma prefixed_ne_nil {head detail : Text} (h : head ≠ []) (maxChars : ℕ) :
    prefixed isWide head detail maxChars ≠ [] := by
  simp [prefixed, h]

/-- The attempt carries a violation where its outcome has one. -/
lemma startsWith_attemptError (o : BuildOutcome) :
    startsWith (attemptError isWide o) "protocol violation:".toList = o.violated := by
  have hmark : protocolHead = "protocol violation:".toList ++ [' '] := by rfl
  unfold attemptError
  split_ifs with hv hm
  · rw [hv, prefixed, startsWith, List.isPrefixOf_iff_prefix, hmark, List.append_assoc]
    exact List.prefix_append _ _
  · have hp : "protocol violation:".toList.head? = some 'p' := by rfl
    have hm : modelErrorHead.head? = some 'm' := by rfl
    have hne : "protocol violation:".toList ≠ [] := fun h => by rw [h] at hp; cases hp
    rw [Bool.eq_false_of_not_eq_true hv, startsWith, ← Bool.not_eq_true, List.isPrefixOf_iff_prefix]
    intro hpre
    have hhead := head?_eq_of_begins hpre hne
    rw [hp, prefixed, List.head?_append, hm, Option.some_or] at hhead
    simp at hhead
  · rw [Bool.eq_false_of_not_eq_true hv]
    rfl

lemma attemptError_eq_nil {o : BuildOutcome} :
    attemptError isWide o = [] ↔ o.violated = false ∧ o.stopReason ≠ .modelError := by
  have hp : protocolHead ≠ [] := by decide
  have hm : modelErrorHead ≠ [] := by decide
  unfold attemptError
  split_ifs with hv hs
  · exact iff_of_false (prefixed_ne_nil hp 500) fun h => by rw [h.1] at hv; cases hv
  · exact iff_of_false (prefixed_ne_nil hm 500) fun h => h.2 hs
  · exact iff_of_true rfl ⟨Bool.eq_false_of_not_eq_true hv, hs⟩

/-- Neither letter of the mark is in a count, and one of them is not in the stop reason: the other is only
in the wall clock's. -/
lemma exists_not_mem_noteParts {o : BuildOutcome} (hk : o.costKnown = true) :
    ∃ d ∈ costUnknownMark, d ∉ "; ".toList ∧ ∀ x ∈ noteParts o, d ∉ x := by
  have hmark : 'w' ∈ costUnknownMark ∧ 'n' ∈ costUnknownMark := by decide
  have hsep : 'w' ∉ "; ".toList ∧ 'n' ∉ "; ".toList := by decide
  have hcount : 'w' ∉ " error(s)".toList ∧ 'n' ∉ " error(s)".toList := by decide
  have hdigit : ∀ c ∈ Nat.toDigits 10 o.errors.length, c ≠ 'w' ∧ c ≠ 'n' := fun c hc => by
    have := Nat.isDigit_of_mem_toDigits (by norm_num) (by norm_num) hc
    constructor <;> rintro rfl <;> simp at this
  obtain ⟨d, hd, hstop⟩ : ∃ d, (d = 'w' ∨ d = 'n') ∧ d ∉ o.stopReason.text.toList := by
    cases o.stopReason with
    | wallClock => exact ⟨'n', .inr rfl, by decide⟩
    | _ => exact ⟨'w', .inl rfl, by decide⟩
  have hd' : d ∉ Nat.toDigits 10 o.errors.length ++ " error(s)".toList := by
    rw [List.mem_append]
    rintro (h | h)
    · exact hd.elim (hdigit d h).1 (hdigit d h).2
    · obtain rfl | rfl := hd
      · exact hcount.1 h
      · exact hcount.2 h
  refine ⟨d, ?_, ?_, fun x hx => ?_⟩
  · obtain rfl | rfl := hd
    · exact hmark.1
    · exact hmark.2
  · obtain rfl | rfl := hd
    · exact hsep.1
    · exact hsep.2
  · rw [noteParts, hk, if_pos rfl, List.append_nil, List.mem_append] at hx
    obtain hx | hx := hx
    · split_ifs at hx
      · cases hx
      · exact List.mem_singleton.mp hx ▸ hstop
    · split_ifs at hx
      · cases hx
      · exact List.mem_singleton.mp hx ▸ hd'

/-- The note says that the price was unknown where it was. -/
lemma pricingKnown_builderRef (o : BuildOutcome) (ref : Text) :
    (builderRef o ref).pricingKnown = o.costKnown := by
  rw [BuilderRef.pricingKnown, Bool.eq_iff_iff, Bool.not_eq_true', ← Bool.not_eq_true, contains_iff]
  cases hk : o.costKnown with
  | false =>
    have hunknown : costUnknownMark <+: costUnknownPart := List.isPrefixOf_iff_prefix.mp (by rfl)
    have hpart : costUnknownPart ∈ noteParts o := by
      rw [noteParts, hk]
      exact List.mem_append_right _ (List.mem_singleton_self _)
    exact iff_of_false (fun h => h (hunknown.isInfix.trans (infix_intercalate hpart))) Bool.false_ne_true
  | true =>
    obtain ⟨d, hd, hsep, hparts⟩ := exists_not_mem_noteParts hk
    refine iff_of_true (fun h => ?_) rfl
    obtain h | ⟨x, hx, hdx⟩ := mem_intercalate (h.subset hd)
    · exact hsep h
    · exact hparts x hx hdx

end Facts

end CommitReplay.AttemptOutcomes
