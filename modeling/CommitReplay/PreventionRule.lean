import Mathlib.Algebra.BigOperators.Group.Finset.Defs
import Mathlib.Algebra.Order.Ring.Rat
import Mathlib.Data.List.Basic
import Mathlib.Data.Nat.Choose.Basic

/-! The rule of a prevention lever: what a change is measured on, and the decisions that are due about
it, each look at most once. -/
namespace CommitReplay.PreventionRule

section Arithmetic

/-- The numbers of the machine, with the statistics and the texts the rule takes from them. -/
structure Arithmetic (R : Type) where
  /-- The float nearest to a rational. -/
  lit : ℚ → R
  add : R → R → R
  mul : R → R → R
  binomCdf : ℕ → ℕ → R → R
  binomSf : ℕ → ℕ → R → R
  /-- `wilson_interval(k, n).high`. -/
  wilsonHigh : ℕ → ℕ → R
  round : ℕ → R → R
  fixed : ℕ → R → String
  /-- `ceil(log(ALPHA_LOOK) / log(1 - p0))` and `(1 - p0) ** n`. -/
  logRatio : R → ℕ
  missPow : R → ℕ → R
  /-- The digest of the rows an attempt names. -/
  digest : List String → String

/-- `P(X ≤ k)` over the rationals. -/
def binomCdf (k n : ℕ) (p : ℚ) : ℚ :=
  if n ≤ k then 1
  else min 1 (∑ i ∈ Finset.range (k + 1), n.choose i * p ^ i * (1 - p) ^ (n - i))

/-- The statistics of the looks read over exact rationals. -/
def Arithmetic.exact (ρ : Arithmetic ℚ) : Arithmetic ℚ := { ρ with lit := id, binomCdf := PreventionRule.binomCdf }

def harmAt : ℕ := 10

def decisiveMin : ℕ := 10

def decisiveMax : ℕ := 200

def deterministicN : ℕ := 3

def closeMin : ℕ := 20

variable {R : Type} [LinearOrder R] (ρ : Arithmetic R)

def alphaLook : R := ρ.lit (25 / 1000)

def alphaHarm : R := ρ.lit (1 / 100)

/-- The nudge past a rounding of the logarithms, in so many steps at most. -/
def nudge (p0 : R) : ℕ → ℕ → ℕ
  | 0, n => n
  | fuel + 1, n =>
    if alphaLook ρ < ρ.missPow p0 n ∧ n < decisiveMax then nudge p0 fuel (n + 1) else n

def decisiveN (p0 : R) (deterministic : Bool) : ℕ :=
  if deterministic then deterministicN
  else if p0 ≤ ρ.lit 0 then decisiveMax
  else if ρ.lit (99 / 100) ≤ p0 then decisiveMin
  else max decisiveMin (min decisiveMax (nudge ρ p0 decisiveMax (ρ.logRatio p0)))

/-- The most recurrences in the first `n` attempts that still keep, `-1` for none. -/
def keepBar (p0 : R) (n : ℕ) : ℤ :=
  ((List.range (n + 1)).takeWhile fun k => ρ.binomCdf k n p0 ≤ alphaLook ρ).length - 1

/-- A lever whose effect is read off outcomes needs ten attempts at least. -/
lemma decisiveMin_le_decisiveN (p0 : R) : decisiveMin ≤ decisiveN ρ p0 false := by
  unfold decisiveN
  rw [if_neg Bool.false_ne_true]
  split_ifs
  · decide
  · exact le_rfl
  · exact le_max_left _ _

end Arithmetic

section Measurement

/-- One first attempt that carried the change: whether the class recurred, whether it was clean, its
row and its primary signature. -/
structure Attempt where
  flag : Bool
  clean : Bool
  ref : String
  primary : String
deriving DecidableEq, Repr

/-- What the change froze of the window before it. -/
structure Frozen (R : Type) where
  signature : String
  p0 : R
  decisiveN : ℕ
  deterministic : Bool
  outageShareBefore : R
  cleanBefore : R
  noncleanBefore : R
  nontargetBefore : R
  decisive_pos : 0 < decisiveN

/-- What was shown beside the attempts that count. -/
structure Shown where
  keyMoved : ℕ
  outageKAfter : ℕ
  outageNAfter : ℕ
  withheldK : ℕ
  withheldN : ℕ
deriving DecidableEq, Repr

structure Measurement (R : Type) extends Frozen R, Shown where
  exposed : List Attempt

namespace Measurement

variable {R : Type} (m : Measurement R)

def flags : List Bool := m.exposed.map Attempt.flag

def cleanFlags : List Bool := m.exposed.map Attempt.clean

def noncleanFlags : List Bool := m.exposed.map fun a => !a.clean

def exposedRefs : List String := m.exposed.map Attempt.ref

def exposedPrimary : List String := m.exposed.map Attempt.primary

def exposedN : ℕ := m.flags.length

def closingWindow : ℕ := max closeMin m.decisiveN

variable [LinearOrder R] (ρ : Arithmetic R)

def bar : String :=
  if m.deterministic then
    s!"keep at 0 of the first {m.decisiveN} exposed first attempts (the row " ++
      "records the lever's effect)"
  else
    let k := keepBar ρ m.p0 m.decisiveN
    s!"keep if P(X ≤ k | n = {m.decisiveN}, p0 = " ++ ρ.fixed 3 m.p0 ++ ") ≤ 0.025 — at " ++
      s!"most {max k 0} recurrence(s) in the first {m.decisiveN}; a second look at " ++
      s!"{2 * m.decisiveN}"

end Measurement

end Measurement

section Looks

variable {R : Type} [LinearOrder R] (ρ : Arithmetic R) (m : Measurement R)

structure Stats (R : Type) where
  k1 : ℕ
  n1 : ℕ
  p0 : R
  pKeep : R
  pHarm : R
  cleanK1 : ℕ
  bar : String
  decisiveN : ℕ
  exposedDigest : String

/-- `sum(flags[:n])`. -/
def hits (flags : List Bool) (n : ℕ) : ℕ := (flags.take n).count true

def stats (n : ℕ) : Stats R where
  k1 := hits m.flags n
  n1 := n
  p0 := ρ.round 6 m.p0
  pKeep := ρ.round 6 (ρ.binomCdf (hits m.flags n) n m.p0)
  pHarm := ρ.round 6 (ρ.binomSf (hits m.flags n) n m.p0)
  cleanK1 := hits m.cleanFlags n
  bar := m.bar ρ
  decisiveN := m.decisiveN
  exposedDigest := ρ.digest (m.exposedRefs.take n)

def harmful (n : ℕ) : Bool :=
  (ρ.lit 0 < m.p0 && ρ.binomSf (hits m.flags n) n m.p0 ≤ alphaHarm ρ) ||
    ρ.wilsonHigh (hits m.cleanFlags n) n < m.cleanBefore

def keptAt (n : ℕ) : Bool :=
  if m.deterministic then hits m.flags n = 0
  else ρ.binomCdf (hits m.flags n) n m.p0 ≤ alphaLook ρ

def keyMovedText : String :=
  "the comparability key moved inside the window (a new apparatus, builder or model)"

/-- Why nothing can be read off the window; empty where something can. -/
def inconclusive : String :=
  if 0 < m.keyMoved then keyMovedText
  else if harmAt ≤ m.outageNAfter then
    let after := ρ.lit (m.outageKAfter / m.outageNAfter)
    if ρ.mul (ρ.lit 2) (max m.outageShareBefore (ρ.lit (5 / 100))) < after then
      "the outage share more than doubled (" ++ ρ.fixed 2 m.outageShareBefore ++ " → " ++
        ρ.fixed 2 after ++ ")"
    else ""
  else ""

/-- Why a keep or a close must wait; empty where it need not. -/
def withheld : String :=
  if m.withheldN < harmAt ∨ m.withheldK = 0 then ""
  else
    let rate := ρ.lit (m.withheldK / m.withheldN)
    if rate < m.p0 then ""
    else
      s!"the class recurs on {m.withheldK} of {m.withheldN} first attempts on tasks the " ++
        "change never reached (" ++ ρ.fixed 2 rate ++ " ≥ p0 " ++ ρ.fixed 2 m.p0 ++ ")"

end Looks

section Decisions

inductive Look
  | inconclusive | harm | first | second | reopen | close
deriving DecidableEq, Repr

inductive Verdict
  | keep | continue_ | retire | harm | inconclusive | closed | reopened | displaced
deriving DecidableEq, Repr

/-- What a payload carries beside its statistics. -/
inductive Detail (R : Type)
  | none | why (why : String) | row (row : String) | window (window : ℕ)
  | displaced (window : ℕ) (successor : String) (noncleanAfter noncleanBefore : R)

/-- One `decided` payload. -/
structure Decision (R : Type) where
  changeId : String
  signature : String
  apparatus : String
  stats : Stats R
  look : Look
  verdict : Verdict
  detail : Detail R

structure Change where
  changeId : String
  state : String
  key : String
deriving DecidableEq, Repr

/-- The part of a comparability key before its first bar. -/
def keyApparatus (key : String) : String := .ofList (key.toList.takeWhile (· ≠ '|'))

variable {R : Type} [LinearOrder R] (ρ : Arithmetic R) (change : Change) (signature : String)
  (m : Measurement R)

def decided (n : ℕ) (look : Look) (verdict : Verdict) (detail : Detail R) : Decision R where
  changeId := change.changeId
  signature := signature
  apparatus := keyApparatus change.key
  stats := stats ρ m n
  look := look
  verdict := verdict
  detail := detail

/-- The most frequent other primary signature among the attempts from `start` on. -/
def successor (start : ℕ) : String :=
  let primaries := (m.exposedPrimary.drop start).filter fun p => p ≠ "" && p ≠ m.signature
  let counted := primaries.dedup.map fun p => (primaries.count p, p)
  (counted.foldl (fun best c =>
    match best with
    | none => some c
    | some b => if b.1 < c.1 ∨ b.1 = c.1 ∧ c.2 < b.2 then some c else some b) none).elim "" Prod.snd

def lastEvent (events : List (Decision R)) : Option (Decision R) :=
  (events.filter fun d => d.verdict = .closed || d.verdict = .reopened).getLast?

def isEvent (d : Decision R) : Bool :=
  d.verdict = .closed || d.verdict = .reopened || d.verdict = .displaced

/-- What is due after a keep: closed, displaced, reopened. -/
def afterKeep (done : List (Decision R)) : List (Decision R) :=
  let events := done.filter isEvent
  let last := lastEvent events
  let lastN := last.elim 0 fun d => d.stats.n1
  let n1 := m.exposedN
  if last.any (·.verdict = .closed) then
    match (List.range n1).find? fun i => m.flags.getD i false && lastN ≤ i with
    | some first =>
      [decided ρ change signature m (first + 1) .reopen .reopened
        (.row (m.exposedRefs.getD first ""))]
    | none => []
  else if withheld ρ m ≠ "" then []
  else
    let window := m.closingWindow
    if window ≤ n1 ∧ lastN < n1 ∧ (m.flags.drop (n1 - window)).all (!·) then
      let afterRate := ρ.lit ((m.noncleanFlags.drop (n1 - window)).count true / window)
      if afterRate ≤ ρ.add m.nontargetBefore (ρ.lit (5 / 100)) then
        [decided ρ change signature m n1 .close .closed (.window window)]
      else if events.any fun d => d.verdict = .displaced && lastN ≤ d.stats.n1 then []
      else
        [decided ρ change signature m n1 .close .displaced
          (.displaced window (successor m (n1 - window)) (ρ.round 4 afterRate)
            (ρ.round 4 m.noncleanBefore))]
    else []

/-- Where the looks leave the change: what they decide, and whether it goes on as kept. -/
structure Looked (R : Type) where
  out : List (Decision R)
  kept : Bool

/-- The second look, where it is due. -/
def secondLook (looks : List Look) (out : List (Decision R)) : Looked R :=
  let n := 2 * m.decisiveN
  let due := fun verdict => out ++ [decided ρ change signature m n .second verdict .none]
  if n ≤ m.exposedN ∧ .second ∉ looks then
    if harmful ρ m n then ⟨due .harm, false⟩
    else if keptAt ρ m n then if withheld ρ m ≠ "" then ⟨out, false⟩ else ⟨due .keep, true⟩
    else ⟨due .retire, false⟩
  else ⟨out, false⟩

/-- The looks at a change that is not kept yet, in their fixed order. -/
def look (looks : List Look) : Looked R :=
  let n := m.decisiveN
  let due := fun verdict => [decided ρ change signature m n .first verdict .none]
  if harmAt ≤ m.exposedN ∧ .harm ∉ looks ∧ harmful ρ m harmAt then
    ⟨[decided ρ change signature m harmAt .harm .harm .none], false⟩
  else if n ≤ m.exposedN ∧ .first ∉ looks then
    if harmful ρ m n then ⟨due .harm, false⟩
    else if keptAt ρ m n then if withheld ρ m ≠ "" then ⟨[], false⟩ else ⟨due .keep, true⟩
    else secondLook ρ change signature m looks (due .continue_)
  else secondLook ρ change signature m looks []

/-- A verdict nothing is decided after. -/
def Verdict.ends : Verdict → Bool
  | .retire | .harm | .inconclusive => true
  | _ => false

/-- The payloads due now for one change and class, in order. -/
def dueDecisions (done : List (Decision R)) (capability : Bool) : List (Decision R) :=
  if capability || change.state ≠ "in_force" then []
  else if done.any (·.verdict.ends) then []
  else
    let why := inconclusive ρ m
    if why ≠ "" then
      [decided ρ change signature m m.exposedN .inconclusive .inconclusive (.why why)]
    else
      let looked := if done.any (·.verdict = .keep) then ⟨[], true⟩
        else look ρ change signature m (done.map Decision.look)
      if looked.kept then looked.out ++ afterKeep ρ change signature m (done ++ looked.out)
      else looked.out

end Decisions

section Recorded

variable {R : Type} [LinearOrder R] {ρ : Arithmetic R} {change : Change} {signature : String}
  {m : Measurement R} {d : Decision R}

/-- A decision of the looks harm, 1 or 2. -/
def isLook (d : Decision R) : Bool := d.look = .harm || d.look = .first || d.look = .second

lemma mem_afterKeep {done : List (Decision R)}
    (h : d ∈ afterKeep ρ change signature m done) : isLook d = false ∧ isEvent d = true := by
  simp only [afterKeep] at h
  split at h
  · split at h
    · obtain rfl := List.mem_singleton.mp h
      exact ⟨rfl, rfl⟩
    · exact absurd h List.not_mem_nil
  · split_ifs at h
    · exact absurd h List.not_mem_nil
    · obtain rfl := List.mem_singleton.mp h
      exact ⟨rfl, rfl⟩
    · exact absurd h List.not_mem_nil
    · obtain rfl := List.mem_singleton.mp h
      exact ⟨rfl, rfl⟩
    · exact absurd h List.not_mem_nil

/-- A decision of a look, which keeps only on attempts that were there and keep. -/
structure Fits (ρ : Arithmetic R) (m : Measurement R) (d : Decision R) : Prop where
  isLook : isLook d = true
  kept : d.verdict = .keep →
    ∃ n, (n = m.decisiveN ∨ n = 2 * m.decisiveN) ∧ n ≤ m.exposedN ∧ keptAt ρ m n = true

lemma fits_secondLook {looks : List Look} {out : List (Decision R)} (hout : ∀ d ∈ out, Fits ρ m d) :
    ∀ d ∈ (secondLook ρ change signature m looks out).out, Fits ρ m d := by
  intro d h
  simp only [secondLook] at h
  split_ifs at h with hdue hharm hkept hheld
  · rcases List.mem_append.mp h with h | h
    · exact hout d h
    · obtain rfl := List.mem_singleton.mp h
      exact ⟨rfl, nofun⟩
  · exact hout d h
  · rcases List.mem_append.mp h with h | h
    · exact hout d h
    · obtain rfl := List.mem_singleton.mp h
      exact ⟨rfl, fun _ => ⟨_, .inr rfl, hdue.1, hkept⟩⟩
  · rcases List.mem_append.mp h with h | h
    · exact hout d h
    · obtain rfl := List.mem_singleton.mp h
      exact ⟨rfl, nofun⟩
  · exact hout d h

/-- What the looks decide. -/
lemma fits_look {looks : List Look} : ∀ d ∈ (look ρ change signature m looks).out, Fits ρ m d := by
  intro d h
  simp only [look] at h
  split_ifs at h with hharm hdue hharm' hkept hheld
  · obtain rfl := List.mem_singleton.mp h
    exact ⟨rfl, nofun⟩
  · obtain rfl := List.mem_singleton.mp h
    exact ⟨rfl, nofun⟩
  · exact absurd h List.not_mem_nil
  · obtain rfl := List.mem_singleton.mp h
    exact ⟨rfl, fun _ => ⟨_, .inl rfl, hdue.1, hkept⟩⟩
  · refine fits_secondLook (fun e he => ?_) d h
    obtain rfl := List.mem_singleton.mp he
    exact ⟨rfl, nofun⟩
  · exact fits_secondLook (fun e he => absurd he List.not_mem_nil) d h

/-- A keep is due on attempts that keep. -/
lemma keptAt_of_mem_dueDecisions {done : List (Decision R)} {capability : Bool}
    (h : d ∈ dueDecisions ρ change signature m done capability) (hkeep : d.verdict = .keep) :
    ∃ n, (n = m.decisiveN ∨ n = 2 * m.decisiveN) ∧ n ≤ m.exposedN ∧ keptAt ρ m n = true := by
  have hafter : ∀ done' : List (Decision R), d ∉ afterKeep ρ change signature m done' := fun done' hd => by
    have hevent := (mem_afterKeep hd).2
    simp [isEvent, hkeep] at hevent
  unfold dueDecisions at h
  by_cases hidle : (capability || change.state ≠ "in_force") = true
  · rw [if_pos hidle] at h
    exact absurd h List.not_mem_nil
  by_cases hends : done.any (·.verdict.ends) = true
  · rw [if_neg hidle, if_pos hends] at h
    exact absurd h List.not_mem_nil
  by_cases hwhy : inconclusive ρ m = ""
  · have hlooked : d ∈ (if done.any (·.verdict = .keep) then (⟨[], true⟩ : Looked R)
        else look ρ change signature m (done.map Decision.look)).out := by
      simp only [if_neg hidle, if_neg hends, hwhy, ne_eq, not_true_eq_false, if_false] at h
      split_ifs at h ⊢ <;> first
        | exact h
        | exact (List.mem_append.mp h).resolve_right (hafter _)
    split_ifs at hlooked
    · exact absurd hlooked List.not_mem_nil
    · exact (fits_look d hlooked).kept hkeep
  · simp only [if_neg hidle, if_neg hends, hwhy, ne_eq, not_false_eq_true, if_true] at h
    obtain rfl := List.mem_singleton.mp h
    cases hkeep

end Recorded

section Sample

/-- `P(X ≥ k)` over the rationals. -/
def sampleSf (k n : ℕ) (p : ℚ) : ℚ :=
  if k = 0 then 1 else if n < k then 0
  else min 1 (∑ i ∈ (Finset.range (n + 1)).filter (k ≤ ·), n.choose i * p ^ i * (1 - p) ^ (n - i))

/-- Exact numbers, with an interval that says nothing. -/
def sampleArithmetic : Arithmetic ℚ where
  lit := id
  add := (· + ·)
  mul := (· * ·)
  binomCdf := PreventionRule.binomCdf
  binomSf := sampleSf
  wilsonHigh _ _ := 1
  round _ x := x
  fixed _ _ := ""
  logRatio _ := 0
  missPow p n := (1 - p) ^ n
  digest := String.join

def sampleChange : Change := ⟨"chg", "in_force", "2.4|cli|m"⟩

end Sample

end CommitReplay.PreventionRule
