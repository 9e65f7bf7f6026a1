import CommitReplay.DecimalRounding
import CommitReplay.Redaction
import CommitReplay.WeightedShares
import Mathlib.Data.List.Dedup
import Mathlib.Data.Finset.Dedup
import Mathlib.Data.String.Basic
import Mathlib.Tactic.FieldSimp
import Mathlib.Tactic.Positivity

/-! The cells that organisations share: what one organisation's cell carries, and how the cells of
many are merged into the cells that are released. The floats of the source are elements of an
ordered field. -/
namespace CommitReplay.FederatedCells

open CommitReplay.DecimalRounding CommitReplay.WeightedShares

/-- The seven key fields, what contributions are grouped on. -/
structure AbstractKey where
  processStep : String
  capabilityClass : String
  size : String
  language : String
  builder : String
  model : String
  provider : String
deriving DecidableEq, Repr

def AbstractKey.toList (k : AbstractKey) : List String :=
  [k.processStep, k.capabilityClass, k.size, k.language, k.builder, k.model, k.provider]

/-- One organisation's view of one cell. -/
structure AbstractCell (K : Type) where
  key : AbstractKey
  n : ℕ
  clean : ℕ
  falseQ1 : ℕ
  point : K
  ciLow : K
  ciHigh : K
  costUsdMean : Option K
  latencySMean : Option K
  clean_le : clean ≤ n

/-- What the ledger measures of one cell, as far as it is exported. -/
structure CellStats (K : Type) where
  cell : AbstractKey
  n : ℕ
  clean : ℕ
  falseQ1 : ℕ
  point : K
  ciLow : K
  ciHigh : K
  nCostKnown : ℕ
  costUsdMean : K
  latencySMean : K
  clean_le : clean ≤ n

def AbstractKey.redact (isWide : Char → Bool) (k : AbstractKey) : AbstractKey :=
  ⟨Redaction.redact isWide k.processStep, Redaction.redact isWide k.capabilityClass,
    Redaction.redact isWide k.size, Redaction.redact isWide k.language,
    Redaction.redact isWide k.builder, Redaction.redact isWide k.model,
    Redaction.redact isWide k.provider⟩

/-- A cell as it leaves: its key redacted, a mean that was not measured `none`. -/
def toAbstractCell {K : Type} [Zero K] [LT K] [DecidableLT K] (isWide : Char → Bool)
    (stats : CellStats K) : AbstractCell K where
  key := stats.cell.redact isWide
  n := stats.n
  clean := stats.clean
  falseQ1 := stats.falseQ1
  point := stats.point
  ciLow := stats.ciLow
  ciHigh := stats.ciHigh
  costUsdMean := if stats.nCostKnown = 0 then none else some stats.costUsdMean
  latencySMean := if 0 < stats.latencySMean then some stats.latencySMean else none
  clean_le := stats.clean_le

/-- One organisation's bundle, under an opaque hash. -/
structure OrgContribution (K : Type) where
  orgHash : String
  cells : List (AbstractCell K)
  optedIn : Bool
  named : orgHash ≠ ""

/-- The two accepted shapes: cells by hash, every one opted in, or bundles. -/
inductive Contributions (K : Type)
  | mapping (byHash : List (String × List (AbstractCell K)))
  | bundles (given : List (OrgContribution K))

/-- Why nothing is released. -/
inductive Refusal (K : Type)
  /-- `min_cohort_k must be >= 1, got …` -/
  | minCohort (k : ℕ)
  /-- `dp_epsilon must be > 0 when set, got …` -/
  | dpEpsilon (ε : K)
  /-- `successes must be within [0, n]` -/
  | successes
  /-- `math domain error`, of the logarithm -/
  | mathDomain

/-- A released cell. -/
structure SharedCell (K : Type) where
  key : AbstractKey
  contributorCount : ℕ
  n : ℕ
  clean : ℕ
  falseQ1 : ℕ
  point : K
  ciLow : K
  ciHigh : K
  costUsdMean : Option K
  latencySMean : Option K
  trusted : Bool
  dpEpsilon : Option K

section Statistics

variable {K : Type} [Field K] [LinearOrder K]

/-- What the aggregation takes from elsewhere: two functions of the mathematics library, and the
draws of the generator it is seeded with. -/
structure Env (K : Type) where
  sqrt : K → K
  log : K → K
  random : ℕ → K

/-- The inverse standard normal at 0.975. -/
def z95 : K := 1959963984540054 / 1000000000000000

def wilsonInterval (sqrt : K → K) (successes n : ℕ) : Except (Refusal K) (K × K) :=
  if n = 0 then .ok (0, 1)
  else if n < successes then .error .successes
  else
    let z : K := z95
    let p : K := successes / n
    let denom := 1 + z * z / n
    let centre := (p + z * z / (2 * n)) / denom
    let margin := z * sqrt ((p * (1 - p) + z * z / (4 * n)) / n) / denom
    .ok (max 0 (centre - margin), min 1 (centre + margin))

/-- One Laplace draw, and where the generator then stands. -/
def laplace (env : Env K) (scale : K) (pos : ℕ) : Except (Refusal K) (K × ℕ) :=
  if scale ≤ 0 then .ok (0, pos)
  else
    let u := env.random pos - 1 / 2
    let sign : K := if 0 ≤ u then 1 else -1
    if 1 - 2 * |u| ≤ 0 then .error .mathDomain
    else .ok (-scale * sign * env.log (1 - 2 * |u|), pos + 1)

end Statistics

section Aggregation

variable {K : Type} [Field K] [LinearOrder K] [FloorRing K]

/-- `_normalise`: the bundles by hash, those not opted in dropped. -/
def normalise : Contributions K → List (String × List (AbstractCell K))
  | .mapping byHash => byHash
  | .bundles given => (given.filter (·.optedIn)).map fun c => (c.orgHash, c.cells)

/-- Every cell beside the hash that brought it. -/
def entries (bundles : List (String × List (AbstractCell K))) : List (String × AbstractCell K) :=
  bundles.flatMap fun b => b.2.map fun c => (b.1, c)

/-- `by_key[key]`. -/
def entriesAt (key : AbstractKey) (es : List (String × AbstractCell K)) :
    List (String × AbstractCell K) := es.filter (·.2.key = key)

/-- `sorted(by_key)`. -/
def sortedKeys (es : List (String × AbstractCell K)) : List AbstractKey :=
  (es.map (·.2.key)).dedup.mergeSort fun a b => decide (a.toList ≤ b.toList)

/-- The distinct organisations of some entries. -/
def orgs (es : List (String × AbstractCell K)) : List String := (es.map Prod.fst).dedup

/-- A mean with one draw of noise, never below zero. -/
def noisedMean (env : Env K) (scale : K) (mean : Option K) (pos : ℕ) :
    Except (Refusal K) (Option K × ℕ) :=
  match mean with
  | none => .ok (none, pos)
  | some m => do
    let (draw, pos) ← laplace env scale pos
    return (some (max 0 (m + draw)), pos)

/-- The released numbers of one key: point, clean count, cost and latency, with their noise. -/
def noised (env : Env K) (dpEpsilon : Option K) (n clean : ℕ) (point : K) (cost latency : Option K)
    (pos : ℕ) : Except (Refusal K) (K × ℕ × Option K × Option K × ℕ) :=
  match dpEpsilon with
  | none => .ok (point, clean, cost, latency, pos)
  | some ε => do
    let scale := 1 / ε
    let (draw, pos) ← laplace env scale pos
    let point := min 1 (max 0 (point + draw))
    let clean := min n (roundHalfEven (point * n)).toNat
    let (cost, pos) ← noisedMean env scale cost pos
    let (latency, pos) ← noisedMean env scale latency pos
    return (point, clean, cost, latency, pos)

/-- The cell released for one key. -/
def shareCell (env : Env K) (dpEpsilon : Option K) (key : AbstractKey)
    (es : List (String × AbstractCell K)) (pos : ℕ) : Except (Refusal K) (SharedCell K × ℕ) := do
  let group := es.map Prod.snd
  let n := (group.map (·.n)).sum
  let clean := (group.map (·.clean)).sum
  let fq1 := (group.map (·.falseQ1)).sum
  let cost := weightedMean (group.map fun c => (c.costUsdMean, c.n))
  let latency := weightedMean (group.map fun c => (c.latencySMean, c.n))
  let point : K := if n = 0 then 0 else clean / n
  let (point, clean, cost, latency, pos) ← noised env dpEpsilon n clean point cost latency pos
  let (low, high) ← wilsonInterval env.sqrt clean n
  return (⟨key, (orgs es).length, n, clean, fq1, point, low, high, cost, latency, fq1 = 0,
    dpEpsilon⟩, pos)

/-- The loop over the keys: a key with too few organisations is suppressed. -/
def release (env : Env K) (dpEpsilon : Option K) (minCohortK : ℕ)
    (es : List (String × AbstractCell K)) :
    List AbstractKey → ℕ → Except (Refusal K) (List (SharedCell K))
  | [], _ => .ok []
  | key :: keys, pos =>
    if (orgs (entriesAt key es)).length < minCohortK then
      release env dpEpsilon minCohortK es keys pos
    else do
      let (cell, pos) ← shareCell env dpEpsilon key (entriesAt key es) pos
      let rest ← release env dpEpsilon minCohortK es keys pos
      return cell :: rest

def aggregateAbstractCells (env : Env K) (contributions : Contributions K) (minCohortK : ℕ)
    (dpEpsilon : Option K) : Except (Refusal K) (List (SharedCell K)) :=
  if minCohortK < 1 then .error (.minCohort minCohortK)
  else
    match dpEpsilon.filter (· ≤ 0) with
    | some ε => .error (.dpEpsilon ε)
    | none =>
      let es := entries (normalise contributions)
      release env dpEpsilon minCohortK es (sortedKeys es) 0

end Aggregation

end CommitReplay.FederatedCells
