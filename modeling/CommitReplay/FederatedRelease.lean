import CommitReplay.FederatedCells
import CommitReplay.RowChecks
import Mathlib.Analysis.SpecialFunctions.Log.Basic

/-! When no released number is one organisation's. Every count of a released cell moves with each
organisation of its cohort; a mean moves with those alone whose cell carries it and weighs in it. -/
namespace CommitReplay.FederatedRelease

open CommitReplay.RowChecks (bind_eq_ok)
open CommitReplay.WeightedShares CommitReplay.FederatedCells

section Wilson

variable {K : Type} [Field K] [LinearOrder K] [IsStrictOrderedRing K]

/-- The law of a square root. -/
def IsSqrt (sqrt : K → K) : Prop := ∀ x, 0 ≤ x → 0 ≤ sqrt x ∧ sqrt x * sqrt x = x

lemma z95_pos : (0 : K) < z95 := by
  unfold z95
  positivity

/-- A margin is no more than what it is taken from when its square is not. -/
lemma margin_le {a z s d : K} (hd : 0 < d) (ha : 0 ≤ a) (hz : 0 ≤ z) (hs : 0 ≤ s)
    (h : z * z * (s * s) ≤ a * a) : z * s / d ≤ a / d := by
  refine div_le_div_of_nonneg_right ?_ hd.le
  refine (mul_self_le_mul_self_iff (mul_nonneg hz hs) ha).mpr ?_
  calc z * s * (z * s) = z * z * (s * s) := by ring
    _ ≤ a * a := h

/-- The interval lies within the unit one, around the shrunken proportion. -/
lemma wilsonInterval_sum {sqrt : K → K} (hsqrt : IsSqrt sqrt) {clean n : ℕ} (h : clean ≤ n)
    {low high : K} (hw : wilsonInterval sqrt clean n = .ok (low, high)) :
    low + high = (2 * clean + z95 * z95) / (n + z95 * z95) := by
  have hz : (0 : K) < z95 := z95_pos
  rw [wilsonInterval] at hw
  split_ifs at hw with hn hc
  · obtain ⟨rfl, rfl⟩ := Prod.mk.inj (Except.ok.inj hw)
    obtain rfl : clean = 0 := by omega
    subst hn
    field_simp
    simp
  · obtain ⟨hlow, hhigh⟩ := Prod.mk.inj (Except.ok.inj hw)
    have hN : (0 : K) < n := Nat.cast_pos.mpr (Nat.pos_of_ne_zero hn)
    have hp0 : (0 : K) ≤ clean / n := div_nonneg (Nat.cast_nonneg _) hN.le
    have hp1 : (clean : K) / n ≤ 1 := (div_le_one hN).mpr (Nat.cast_le.mpr h)
    set z : K := z95
    set p : K := clean / n
    set q : K := (p * (1 - p) + z * z / (4 * n)) / n with hq
    have hq0 : 0 ≤ q := div_nonneg (add_nonneg (mul_nonneg hp0 (sub_nonneg.mpr hp1))
      (div_nonneg (mul_self_nonneg z) (by positivity))) hN.le
    obtain ⟨hs0, hss⟩ := hsqrt q hq0
    have hd : 0 < 1 + z * z / n := by positivity
    have hzn : 0 ≤ z * z / (2 * n) := by positivity
    have hbelow : z * sqrt q / (1 + z * z / n) ≤ (p + z * z / (2 * n)) / (1 + z * z / n) := by
      refine margin_le hd (by positivity) hz.le hs0 ?_
      rw [hss, ← sub_nonneg]
      have : (p + z * z / (2 * n)) * (p + z * z / (2 * n)) - z * z * q =
          p * p * (1 + z * z / n) := by
        rw [hq]
        field_simp
        ring
      rw [this]
      positivity
    have habove : z * sqrt q / (1 + z * z / n) ≤
        (1 - p + z * z / (2 * n)) / (1 + z * z / n) := by
      have h1p : 0 ≤ 1 - p := sub_nonneg.mpr hp1
      refine margin_le hd (by positivity) hz.le hs0 ?_
      rw [hss, ← sub_nonneg]
      have : (1 - p + z * z / (2 * n)) * (1 - p + z * z / (2 * n)) - z * z * q =
          (1 - p) * (1 - p) * (1 + z * z / n) := by
        rw [hq]
        field_simp
        ring
      rw [this]
      positivity
    have hone : (1 - p + z * z / (2 * n)) / (1 + z * z / n) =
        1 - (p + z * z / (2 * n)) / (1 + z * z / n) := by
      field_simp
      ring
    rw [← hlow, ← hhigh, max_eq_right (sub_nonneg.mpr hbelow),
      min_eq_right (by linarith [hone ▸ habove])]
    have hpn : p * n = clean := div_mul_cancel₀ _ hN.ne'
    have hsum : ((p + z * z / (2 * n)) / (1 + z * z / n)) * 2 =
        (2 * (p * n) + z * z) / (n + z * z) := by
      field_simp
    rw [← hpn, ← hsum]
    ring

omit [IsStrictOrderedRing K] in
/-- It is found for every count that the cells allow. -/
lemma wilsonInterval_isOk (sqrt : K → K) {clean n : ℕ} (h : clean ≤ n) :
    ∃ low high, wilsonInterval sqrt clean n = .ok (low, high) := by
  rw [wilsonInterval]
  split_ifs with hn hc
  · exact ⟨_, _, rfl⟩
  · omega
  · exact ⟨_, _, rfl⟩

end Wilson

section Exact

variable {K : Type} [Field K] [LinearOrder K] [FloorRing K]

/-- A count pooled over the cells. -/
def pooled (count : AbstractCell K → ℕ) (es : List (String × AbstractCell K)) : ℕ :=
  (es.map fun e => count e.2).sum

/-- A mean over the cells that carry it. -/
def pooledMean (axis : AbstractCell K → Option K) (es : List (String × AbstractCell K)) :
    Option K := weightedMean (es.map fun e => (axis e.2, e.2.n))

def pooledPoint (es : List (String × AbstractCell K)) : K :=
  if pooled (·.n) es = 0 then 0 else (pooled (·.clean) es : K) / (pooled (·.n) es : K)

/-- The interval of the pooled counts. -/
def pooledInterval (env : Env K) (es : List (String × AbstractCell K)) : K × K :=
  (wilsonInterval env.sqrt (pooled (·.clean) es) (pooled (·.n) es)).toOption.getD (0, 1)

/-- The cell released for one key without noise. -/
def exactCell (env : Env K) (key : AbstractKey) (es : List (String × AbstractCell K)) :
    SharedCell K where
  key := key
  contributorCount := (orgs es).length
  n := pooled (·.n) es
  clean := pooled (·.clean) es
  falseQ1 := pooled (·.falseQ1) es
  point := pooledPoint es
  ciLow := (pooledInterval env es).1
  ciHigh := (pooledInterval env es).2
  costUsdMean := pooledMean (·.costUsdMean) es
  latencySMean := pooledMean (·.latencySMean) es
  trusted := pooled (·.falseQ1) es = 0
  dpEpsilon := none

omit [Field K] [LinearOrder K] [FloorRing K] in
lemma pooled_clean_le (es : List (String × AbstractCell K)) :
    pooled (·.clean) es ≤ pooled (·.n) es :=
  List.sum_le_sum fun e _ => e.2.clean_le

variable {env : Env K} {key : AbstractKey} {es : List (String × AbstractCell K)} {k pos : ℕ}

lemma shareCell_none : shareCell env none key es pos = .ok (exactCell env key es, pos) := by
  obtain ⟨low, high, hw⟩ := wilsonInterval_isOk env.sqrt (pooled_clean_le es)
  simp only [shareCell, List.map_map, noised]
  rw [exactCell, pooledInterval, hw]
  simp only [pooled] at hw
  simp only [bind, Except.bind, pure, Except.pure, Function.comp_def, hw]
  rfl

/-- The keys whose cells are released. -/
def releasedKeys (k : ℕ) (es : List (String × AbstractCell K)) (keys : List AbstractKey) :
    List AbstractKey := keys.filter fun key => k ≤ (orgs (entriesAt key es)).length

lemma release_none (keys : List AbstractKey) : release env none k es keys pos =
    .ok ((releasedKeys k es keys).map fun key => exactCell env key (entriesAt key es)) := by
  induction keys with
  | nil => rfl
  | cons key keys ih =>
    rw [release, shareCell_none, releasedKeys, List.filter_cons, ← releasedKeys]
    simp only [ih, bind, Except.bind, pure, Except.pure]
    by_cases hk : (orgs (entriesAt key es)).length < k
    · rw [if_pos hk, if_neg (by simpa using hk)]
    · rw [if_neg hk, if_pos (by simpa using hk)]
      rfl

lemma aggregate_none {c : Contributions K} (hk : 1 ≤ k) :
    aggregateAbstractCells env c k none = .ok
      ((releasedKeys k (entries (normalise c)) (sortedKeys (entries (normalise c)))).map
        fun key => exactCell env key (entriesAt key (entries (normalise c)))) := by
  rw [aggregateAbstractCells, if_neg (by omega)]
  exact release_none _

end Exact

section Claim

variable {K : Type} [Field K] [LinearOrder K] [FloorRing K]

/-- The values of a released cell. -/
inductive Released
  | n
  | clean
  | falseQ1
  | point
  | interval
  | costUsdMean
  | latencySMean
deriving DecidableEq, Repr

/-- A released value, `none` where the cell has none. -/
def Released.of (s : SharedCell K) : Released → Option (List K)
  | .n => some [(s.n : K)]
  | .clean => some [(s.clean : K)]
  | .falseQ1 => some [(s.falseQ1 : K)]
  | .point => some [s.point]
  | .interval => some [s.ciLow, s.ciHigh]
  | .costUsdMean => s.costUsdMean.map ([·])
  | .latencySMean => s.latencySMean.map ([·])

/-- The value released for a key, `none` where no cell is. -/
def valueAt (env : Env K) (c : Contributions K) (k : ℕ) (key : AbstractKey) (r : Released) :
    Option (List K) :=
  match aggregateAbstractCells env c k none with
  | .ok cells => (cells.find? (·.key = key)).bind fun s => r.of s
  | .error _ => none

/-- Two cells that differ in the numbers behind one released value alone: the counts behind a count,
the point or the interval, the mean behind a mean. What is not known stays unknown. -/
def CellVaries (r : Released) (c c' : AbstractCell K) : Prop :=
  match r with
  | .costUsdMean => ∃ v, c' = { c with costUsdMean := v } ∧ v.isSome = c.costUsdMean.isSome
  | .latencySMean => ∃ v, c' = { c with latencySMean := v } ∧ v.isSome = c.latencySMean.isSome
  | _ => c'.key = c.key ∧ c'.costUsdMean = c.costUsdMean ∧ c'.latencySMean = c.latencySMean

/-- Two lists of contributions that differ in such numbers of some organisations alone. -/
def Varies (r : Released) (may : String → Prop) (c c' : Contributions K) : Prop :=
  List.Forall₂ (fun b b' => b'.1 = b.1 ∧ (may b.1 → List.Forall₂ (CellVaries r) b.2 b'.2) ∧
    (¬ may b.1 → b'.2 = b.2)) (normalise c) (normalise c')

/-- A released value is computed from the numbers of an organisation: others of its numbers would
have released another value. -/
def DependsOn (env : Env K) (c : Contributions K) (k : ℕ) (key : AbstractKey) (r : Released)
    (org : String) : Prop :=
  ∃ c', Varies r (· = org) c c' ∧ valueAt env c' k key r ≠ valueAt env c k key r

/-- A released value is one organisation's: whatever the others' numbers are, it is the same. -/
def OwnedBy (env : Env K) (c : Contributions K) (k : ℕ) (key : AbstractKey) (r : Released)
    (org : String) : Prop :=
  ∀ c', Varies r (· ≠ org) c c' → valueAt env c' k key r = valueAt env c k key r

/-- What gates trust in a cell and in its cohort. -/
def SameCounts (s s' : SharedCell K) : Prop :=
  s.key = s'.key ∧ s.n = s'.n ∧ s.falseQ1 = s'.falseQ1 ∧
    s.contributorCount = s'.contributorCount ∧ s.trusted = s'.trusted

/-- No released number is one organisation's, no false Q1 is averaged away, and noise leaves the
counts exact. -/
structure Anonymous (env : Env K) (c : Contributions K) (k : ℕ) : Prop where
  computed : ∀ key r, (valueAt env c k key r).isSome → ∃ cohort : Finset String, k ≤ cohort.card ∧
    ∀ org ∈ cohort, org ∈ (normalise c).map Prod.fst ∧ DependsOn env c k key r org
  shared : ∀ key r, (valueAt env c k key r).isSome → ∀ org, ¬ OwnedBy env c k key r org
  tainted : ∀ cells, aggregateAbstractCells env c k none = .ok cells → ∀ s ∈ cells,
    s.falseQ1 = pooled (·.falseQ1) (entriesAt s.key (entries (normalise c))) ∧
      ((∃ e ∈ entriesAt s.key (entries (normalise c)), 0 < e.2.falseQ1) → s.trusted = false)
  noise : ∀ ε noisy, aggregateAbstractCells env c k (some ε) = .ok noisy →
    ∃ exact, aggregateAbstractCells env c k none = .ok exact ∧ List.Forall₂ SameCounts noisy exact

/-- The entries that carry an axis and weigh in its mean. -/
def carrying (axis : AbstractCell K → Option K) (es : List (String × AbstractCell K)) :
    List (String × AbstractCell K) :=
  es.filter fun e => Weighs (es.map fun e => (axis e.2, e.2.n)) (axis e.2, e.2.n)

/-- Where a key has its cohort, each mean is carried by none of it or by a cohort too. -/
def CarriedByCohort (c : Contributions K) (k : ℕ) : Prop :=
  ∀ key, k ≤ (orgs (entriesAt key (entries (normalise c)))).length →
    ∀ axis ∈ [AbstractCell.costUsdMean, AbstractCell.latencySMean],
      carrying axis (entriesAt key (entries (normalise c))) = [] ∨
        k ≤ (orgs (carrying axis (entriesAt key (entries (normalise c))))).length

section Variation

variable {K : Type} {c c' : Contributions K} {r : Released}

/-- One cell of one organisation beside the same cell with other numbers. -/
def EntryVaries (r : Released) (may : String → Prop) (e e' : String × AbstractCell K) : Prop :=
  e'.1 = e.1 ∧ (may e.1 → CellVaries r e.2 e'.2) ∧ (¬ may e.1 → e'.2 = e.2)

lemma CellVaries.refl (r : Released) (c : AbstractCell K) : CellVaries r c c := by
  cases r with
  | costUsdMean => exact ⟨_, rfl, rfl⟩
  | latencySMean => exact ⟨_, rfl, rfl⟩
  | n | clean | falseQ1 | point | interval => exact ⟨rfl, rfl, rfl⟩

lemma CellVaries.key_eq {c c' : AbstractCell K} (h : CellVaries r c c') : c'.key = c.key := by
  cases r with
  | costUsdMean | latencySMean =>
    obtain ⟨v, rfl, -⟩ := h
    rfl
  | n | clean | falseQ1 | point | interval => exact h.1

lemma EntryVaries.key_eq {may : String → Prop} {e e' : String × AbstractCell K}
    (h : EntryVaries r may e e') : e'.2.key = e.2.key := by
  by_cases hm : may e.1
  · exact (h.2.1 hm).key_eq
  · rw [h.2.2 hm]

lemma entries_varies {may : String → Prop} (h : Varies r may c c') :
    List.Forall₂ (EntryVaries r may) (entries (normalise c)) (entries (normalise c')) := by
  rw [Varies] at h
  generalize normalise c = bs at h
  generalize normalise c' = bs' at h
  induction h with
  | nil => exact .nil
  | @cons b b' bs bs' hb _ ih =>
    obtain ⟨horg, hmay, hnot⟩ := hb
    refine List.rel_append ?_ ih
    rw [List.forall₂_map_left_iff, List.forall₂_map_right_iff]
    by_cases hm : may b.1
    · exact (hmay hm).imp fun c c' hc => ⟨horg, fun _ => hc, fun hn => absurd hm hn⟩
    · rw [hnot hm]
      exact List.forall₂_same.mpr fun c _ => ⟨horg, fun h => absurd h hm, fun _ => rfl⟩

lemma entriesAt_varies {may : String → Prop} (key : AbstractKey) (h : Varies r may c c') :
    List.Forall₂ (EntryVaries r may) (entriesAt key (entries (normalise c)))
      (entriesAt key (entries (normalise c'))) :=
  List.rel_filter (fun _ _ he => by simp [EntryVaries.key_eq he]) (entries_varies h)

lemma orgs_varies {may : String → Prop} {es es' : List (String × AbstractCell K)}
    (h : List.Forall₂ (EntryVaries r may) es es') : orgs es' = orgs es := by
  have hmap : es'.map Prod.fst = es.map Prod.fst := by
    induction h with
    | nil => rfl
    | cons he _ ih => rw [List.map_cons, List.map_cons, he.1, ih]
  rw [orgs, orgs, hmap]

end Variation

section Values

variable {env : Env K} {c c' : Contributions K} {k : ℕ} {key : AbstractKey} {r : Released}

omit [FloorRing K] in
lemma find?_map_exactCell (es : List (String × AbstractCell K)) (keys : List AbstractKey) :
    (keys.map fun key => exactCell env key (entriesAt key es)).find? (·.key = key) =
      if key ∈ keys then some (exactCell env key (entriesAt key es)) else none := by
  induction keys with
  | nil => rfl
  | cons key' keys ih =>
    rw [List.map_cons, List.find?_cons]
    by_cases h : key' = key
    · subst h
      simp [exactCell]
    · rw [ih]
      simp [exactCell, h, Ne.symm h]

omit [Field K] [LinearOrder K] [FloorRing K] in
lemma mem_releasedKeys {es : List (String × AbstractCell K)} (hk : 1 ≤ k) :
    key ∈ releasedKeys k es (sortedKeys es) ↔ k ≤ (orgs (entriesAt key es)).length := by
  rw [releasedKeys, List.mem_filter, decide_eq_true_eq, and_iff_right_iff_imp]
  intro h
  obtain ⟨org, horg⟩ := List.exists_mem_of_length_pos (l := orgs (entriesAt key es)) (by omega)
  obtain ⟨e, he, -⟩ := List.mem_map.mp (List.mem_dedup.mp horg)
  obtain ⟨he, hkey⟩ := List.mem_filter.mp he
  rw [sortedKeys, List.mem_mergeSort, List.mem_dedup, ← of_decide_eq_true hkey]
  exact List.mem_map_of_mem he

/-- The value released for a key is one of its exact cell, when it has its cohort. -/
lemma valueAt_eq (hk : 1 ≤ k) : valueAt env c k key r =
    if k ≤ (orgs (entriesAt key (entries (normalise c)))).length then
      r.of (exactCell env key (entriesAt key (entries (normalise c)))) else none := by
  rw [valueAt, aggregate_none hk]
  simp only [find?_map_exactCell, mem_releasedKeys hk]
  split_ifs <;> rfl

/-- Whom a value may come from is whom it is varied by. -/
lemma dependsOn_iff (hk : 1 ≤ k) (hkey : k ≤ (orgs (entriesAt key (entries (normalise c)))).length)
    {org : String} : DependsOn env c k key r org ↔ ∃ c', Varies r (· = org) c c' ∧
      r.of (exactCell env key (entriesAt key (entries (normalise c')))) ≠
        r.of (exactCell env key (entriesAt key (entries (normalise c)))) := by
  refine exists_congr fun c' => and_congr_right fun h => ?_
  rw [valueAt_eq hk, valueAt_eq hk, orgs_varies (entriesAt_varies key h), if_pos hkey, if_pos hkey]

end Values

end Claim

section Raise

variable {K : Type} [Field K]

/-- One trial more in a cell, clean or not, with a false Q1; for a mean, one more in its value. -/
def raised (r : Released) (alsoClean : Bool) (c : AbstractCell K) : AbstractCell K :=
  match r with
  | .costUsdMean => { c with costUsdMean := c.costUsdMean.map (· + 1) }
  | .latencySMean => { c with latencySMean := c.latencySMean.map (· + 1) }
  | _ => { c with
      n := c.n + 1
      clean := c.clean + alsoClean.toNat
      falseQ1 := c.falseQ1 + 1
      clean_le := Nat.add_le_add c.clean_le (Bool.toNat_le alsoClean) }

lemma cellVaries_raised (r : Released) (alsoClean : Bool) (c : AbstractCell K) :
    CellVaries r c (raised r alsoClean c) := by
  cases r with
  | costUsdMean | latencySMean => exact ⟨_, rfl, by simp⟩
  | n | clean | falseQ1 | point | interval => exact ⟨rfl, rfl, rfl⟩

/-- The raise at the entries of one organisation. -/
def raisedEntry (r : Released) (alsoClean : Bool) (org : String) (e : String × AbstractCell K) :
    String × AbstractCell K := (e.1, if e.1 = org then raised r alsoClean e.2 else e.2)

lemma key_raisedEntry (r : Released) (alsoClean : Bool) (org : String)
    (e : String × AbstractCell K) : (raisedEntry r alsoClean org e).2.key = e.2.key := by
  rw [raisedEntry]
  split_ifs
  · exact (cellVaries_raised r alsoClean e.2).key_eq
  · rfl

/-- The raise at every cell of one organisation. -/
def raisedBy (r : Released) (alsoClean : Bool) (org : String) (c : Contributions K) :
    Contributions K :=
  .mapping ((normalise c).map fun b =>
    (b.1, b.2.map fun cell => if b.1 = org then raised r alsoClean cell else cell))

variable {r : Released} {alsoClean : Bool} {org : String} {c : Contributions K}

lemma varies_raisedBy : Varies r (· = org) c (raisedBy r alsoClean org c) := by
  rw [Varies, raisedBy, normalise, List.forall₂_map_right_iff]
  refine List.forall₂_same.mpr fun b _ => ⟨rfl, fun h => ?_, fun h => ?_⟩
  · rw [List.forall₂_map_right_iff]
    refine List.forall₂_same.mpr fun cell _ => ?_
    rw [if_pos h]
    exact cellVaries_raised r alsoClean cell
  · simp only [if_neg h, List.map_id']

lemma entriesAt_raisedBy (key : AbstractKey) :
    entriesAt key (entries (normalise (raisedBy r alsoClean org c))) =
      (entriesAt key (entries (normalise c))).map (raisedEntry r alsoClean org) := by
  have hes : entries (normalise (raisedBy r alsoClean org c)) =
      (entries (normalise c)).map (raisedEntry r alsoClean org) := by
    rw [raisedBy, normalise, entries, entries, List.flatMap_map, List.map_flatMap]
    refine List.flatMap_congr fun b _ => ?_
    simp only [List.map_map]
    rfl
  rw [hes, entriesAt, entriesAt, List.filter_map]
  simp only [Function.comp_def, key_raisedEntry]

/-- How many entries are of one organisation. -/
def entriesOf (org : String) (es : List (String × AbstractCell K)) : ℕ := es.countP (·.1 = org)

omit [Field K] in
lemma entriesOf_pos {es : List (String × AbstractCell K)} (h : org ∈ orgs es) :
    0 < entriesOf org es := by
  obtain ⟨e, he, horg⟩ := List.mem_map.mp (List.mem_dedup.mp h)
  exact List.countP_pos_iff.mpr ⟨e, he, by simpa using horg⟩

/-- A count that the raise takes up by `d` in each cell. -/
lemma pooled_raisedEntry {count : AbstractCell K → ℕ} {d : ℕ}
    (hd : ∀ cell, count (raised r alsoClean cell) = count cell + d)
    (es : List (String × AbstractCell K)) :
    pooled count (es.map (raisedEntry r alsoClean org)) =
      pooled count es + d * entriesOf org es := by
  induction es with
  | nil => rfl
  | cons e es ih =>
    simp only [pooled, List.map_cons, List.sum_cons, entriesOf, List.countP_cons] at ih ⊢
    rw [ih, raisedEntry]
    by_cases h : e.1 = org
    · simp only [h, if_true, hd, decide_true]
      ring
    · simp only [h, if_false, decide_false, Bool.false_eq_true]
      ring

end Raise

section Dependence

variable {K : Type} [Field K] [LinearOrder K] [IsStrictOrderedRing K] [FloorRing K]
  {env : Env K} {es : List (String × AbstractCell K)} {org : String} {key : AbstractKey}
  {r : Released}

/-- The two means of a cell. -/
def meanAxis : Released → Option (AbstractCell K → Option K)
  | .costUsdMean => some (·.costUsdMean)
  | .latencySMean => some (·.latencySMean)
  | _ => none

/-- The raise that moves a count, the point or the interval. -/
def alsoCleanFor (r : Released) (es : List (String × AbstractCell K)) : Bool :=
  match r with
  | .clean => true
  | .point => pooled (·.clean) es = 0
  | _ => false

omit [LinearOrder K] [IsStrictOrderedRing K] [FloorRing K] in
lemma counts_raisedEntry (es : List (String × AbstractCell K)) (org : String)
    (hr : meanAxis (K := K) r = none) (alsoClean : Bool) :
    pooled (·.n) (es.map (raisedEntry r alsoClean org)) = pooled (·.n) es + entriesOf org es ∧
    pooled (·.clean) (es.map (raisedEntry r alsoClean org)) =
      pooled (·.clean) es + alsoClean.toNat * entriesOf org es ∧
    pooled (·.falseQ1) (es.map (raisedEntry r alsoClean org)) =
      pooled (·.falseQ1) es + entriesOf org es := by
  have hn := @pooled_raisedEntry K _ r alsoClean org (·.n) 1
  have hc := @pooled_raisedEntry K _ r alsoClean org (·.clean) alsoClean.toNat
  have hf := @pooled_raisedEntry K _ r alsoClean org (·.falseQ1) 1
  cases r with
  | costUsdMean | latencySMean => cases hr
  | n | clean | falseQ1 | point | interval =>
    exact ⟨by simpa using hn (fun _ => rfl) es, hc (fun _ => rfl) es,
      by simpa using hf (fun _ => rfl) es⟩

/-- The point moves with every organisation: one trial more, not clean, or a clean one where none
was. -/
lemma pooledPoint_raised (hr : meanAxis (K := K) r = none) (horg : org ∈ orgs es) :
    pooledPoint (es.map (raisedEntry r (pooled (·.clean) es = 0) org)) ≠ pooledPoint es := by
  obtain ⟨hn, hc, -⟩ := counts_raisedEntry es org hr (pooled (·.clean) es = 0)
  have hm := entriesOf_pos horg
  have hle := pooled_clean_le es
  rw [pooledPoint, pooledPoint, hn, hc, if_neg (by omega)]
  set C := pooled (·.clean) es
  set N := pooled (·.n) es
  set m := entriesOf org es
  by_cases hC : C = 0
  · have hpos : (0 : K) < ((0 + 1 * m : ℕ) : K) / ((N + m : ℕ) : K) :=
      div_pos (Nat.cast_pos.mpr (by omega)) (Nat.cast_pos.mpr (by omega))
    simp only [hC, decide_true, Bool.toNat_true, Nat.cast_zero, zero_div, ite_self]
    exact hpos.ne'
  · have hN : (0 : K) < N := Nat.cast_pos.mpr (by omega)
    have hlt : (C : K) / ((N + m : ℕ) : K) < C / N :=
      div_lt_div_of_pos_left (Nat.cast_pos.mpr (by omega)) hN (Nat.cast_lt.mpr (by omega))
    simp only [hC, decide_false, Bool.toNat_false, zero_mul, add_zero]
    rw [if_neg (by omega)]
    exact hlt.ne

/-- The interval moves with every organisation: one trial more, not clean, shifts its centre. -/
lemma pooledInterval_raised (hsqrt : IsSqrt env.sqrt) (hr : meanAxis (K := K) r = none)
    (horg : org ∈ orgs es) :
    pooledInterval env (es.map (raisedEntry r false org)) ≠ pooledInterval env es := by
  obtain ⟨hn, hc, -⟩ := counts_raisedEntry es org hr false
  have hm := entriesOf_pos horg
  have hle := pooled_clean_le es
  rw [pooledInterval, pooledInterval, hn, hc, Bool.toNat_false, zero_mul, add_zero]
  obtain ⟨low, high, hw⟩ := wilsonInterval_isOk env.sqrt hle
  have hle' : pooled (·.clean) es ≤ pooled (·.n) es + entriesOf org es :=
    hle.trans (Nat.le_add_right _ _)
  obtain ⟨low', high', hw'⟩ := wilsonInterval_isOk env.sqrt hle'
  have hsum := wilsonInterval_sum hsqrt hle hw
  have hsum' := wilsonInterval_sum hsqrt hle' hw'
  rw [hw, hw']
  intro heq
  obtain ⟨rfl, rfl⟩ := Prod.mk.inj heq
  have hz : (0 : K) < z95 * z95 := mul_pos z95_pos z95_pos
  have hlt : (2 * (pooled (·.clean) es : K) + z95 * z95) /
      ((pooled (·.n) es + entriesOf org es : ℕ) + z95 * z95) <
        (2 * (pooled (·.clean) es : K) + z95 * z95) / ((pooled (·.n) es : K) + z95 * z95) := by
    refine div_lt_div_of_pos_left (by positivity) (by positivity) ?_
    have hlt : pooled (·.n) es < pooled (·.n) es + entriesOf org es := by omega
    have := (Nat.cast_lt (α := K)).mpr hlt
    linarith
  exact hlt.ne (hsum'.symm.trans hsum)

omit [LinearOrder K] [IsStrictOrderedRing K] [FloorRing K] in
lemma axis_raised {axis : AbstractCell K → Option K} (hr : meanAxis r = some axis)
    (cell : AbstractCell K) : axis (raised r false cell) = (axis cell).map (· + 1) ∧
      (raised r false cell).n = cell.n := by
  cases r with
  | costUsdMean | latencySMean =>
    obtain rfl := Option.some.inj hr
    exact ⟨rfl, rfl⟩
  | n | clean | falseQ1 | point | interval => cases hr

omit [FloorRing K] in
/-- A mean moves with every organisation that weighs in it. -/
lemma pooledMean_raised {axis : AbstractCell K → Option K} (hr : meanAxis r = some axis)
    (horg : org ∈ orgs (carrying axis es)) :
    pooledMean axis (es.map (raisedEntry r false org)) ≠ pooledMean axis es := by
  obtain ⟨e, he, horg⟩ := List.mem_map.mp (List.mem_dedup.mp horg)
  obtain ⟨he, hweighs⟩ := List.mem_filter.mp he
  have hof : ∀ e : String × AbstractCell K, e.1 ≠ org → raisedEntry r false org e = e := by
    intro e h
    rw [raisedEntry, if_neg h]
  have hat : ∀ e : String × AbstractCell K, e.1 = org →
      (raisedEntry r false org e).2 = raised r false e.2 := by
    intro e h
    rw [raisedEntry, if_pos h]
  rw [pooledMean, pooledMean, List.map_map]
  refine (weightedMean_ne_of_lt (fun d _ => ?_) (fun d _ v hv v' hv' => ?_)
    ⟨e, he, of_decide_eq_true hweighs, fun v hv v' hv' => ?_⟩).symm
  · by_cases h : d.1 = org
    · simp only [Function.comp_apply, hat d h, axis_raised hr, SameShape, Option.isSome_map,
        and_self]
    · simp only [Function.comp_apply, hof d h, SameShape, and_self]
  · by_cases h : d.1 = org
    · simp only [Function.comp_apply, hat d h, (axis_raised hr d.2).1, Option.mem_def] at hv hv'
      rw [hv] at hv'
      obtain rfl := Option.some.inj hv'
      linarith
    · simp only [Function.comp_apply, hof d h, Option.mem_def] at hv hv'
      rw [hv] at hv'
      exact (Option.some.inj hv').le
  · simp only [Function.comp_apply, hat e horg, (axis_raised hr e.2).1, Option.mem_def] at hv hv'
    rw [hv] at hv'
    obtain rfl := Option.some.inj hv'
    linarith

omit [LinearOrder K] [IsStrictOrderedRing K] [FloorRing K] in
/-- It moves with nobody else. -/
lemma pooledMean_varies {axis : AbstractCell K → Option K} (hr : meanAxis r = some axis)
    {es' : List (String × AbstractCell K)} (h : List.Forall₂ (EntryVaries r (· = org)) es es')
    (horg : org ∉ orgs (carrying axis es)) : pooledMean axis es' = pooledMean axis es := by
  have hshape : ∀ e e', EntryVaries r (· = org) e e' → e'.2.n = e.2.n ∧
      (axis e'.2).isSome = (axis e.2).isSome := by
    rintro e e' ⟨-, hmay, hnot⟩
    by_cases hm : e.1 = org
    · have hv := hmay hm
      cases r with
      | costUsdMean | latencySMean =>
        obtain rfl := Option.some.inj hr
        obtain ⟨v, he, hsome⟩ := hv
        rw [he]
        exact ⟨rfl, hsome⟩
      | n | clean | falseQ1 | point | interval => cases hr
    · rw [hnot hm]
      exact ⟨rfl, rfl⟩
  refine (weightedMean_congr ?_).symm
  rw [List.forall₂_map_left_iff, List.forall₂_map_right_iff]
  have hmem : List.Forall₂ (fun e e' => e ∈ es ∧ EntryVaries r (· = org) e e') es es' := by
    refine List.forall₂_iff_zip.mpr ⟨h.length_eq, fun {a b} hab => ⟨(List.of_mem_zip hab).1,
      (List.forall₂_iff_zip.mp h).2 hab⟩⟩
  refine hmem.imp fun e e' he => ⟨⟨(hshape e e' he.2).1.symm, (hshape e e' he.2).2.symm⟩,
    fun hweighs => ?_⟩
  have hne : e.1 ≠ org := by
    rintro rfl
    exact horg (List.mem_dedup.mpr (List.mem_map_of_mem
      (List.mem_filter.mpr ⟨he.1, decide_eq_true hweighs⟩)))
  rw [he.2.2.2 hne]

/-- The organisations that a released value comes from. -/
def movers (r : Released) (es : List (String × AbstractCell K)) : List String :=
  match meanAxis r with
  | some axis => orgs (carrying axis es)
  | none => orgs es

omit [Field K] [LinearOrder K] [IsStrictOrderedRing K] [FloorRing K] in
lemma nodup_movers : (movers r es).Nodup := by
  rw [movers]
  split <;> exact List.nodup_dedup _

omit [Field K] [LinearOrder K] [IsStrictOrderedRing K] [FloorRing K] in
lemma movers_subset : movers r es ⊆ orgs es := by
  rw [movers]
  split
  · intro org h
    obtain ⟨e, he, rfl⟩ := List.mem_map.mp (List.mem_dedup.mp h)
    exact List.mem_dedup.mpr (List.mem_map_of_mem (List.mem_of_mem_filter he))
  · exact fun _ h => h

omit [LinearOrder K] [IsStrictOrderedRing K] [FloorRing K] in
lemma carrying_eq_nil_iff {axis : AbstractCell K → Option K} :
    carrying axis es = [] ↔ pooledMean axis es = none := by
  rw [pooledMean, weightedMean_eq_none, carrying, List.filter_eq_nil_iff]
  constructor
  · intro h
    by_contra hne
    obtain ⟨p, hp, hweighs⟩ := exists_weighs hne
    obtain ⟨e, he, rfl⟩ := List.mem_map.mp hp
    exact h e he (decide_eq_true hweighs)
  · intro h e he hweighs
    exact (of_decide_eq_true hweighs).known_ne (List.mem_map_of_mem he) h

omit [IsStrictOrderedRing K] [FloorRing K] in
lemma of_meanAxis {axis : AbstractCell K → Option K} (hr : meanAxis r = some axis)
    (key : AbstractKey) (es : List (String × AbstractCell K)) :
    r.of (exactCell env key es) = (pooledMean axis es).map ([·]) := by
  cases r with
  | costUsdMean | latencySMean =>
    obtain rfl := Option.some.inj hr
    rfl
  | n | clean | falseQ1 | point | interval => cases hr

/-- Each of them moves it. -/
lemma of_raised (key : AbstractKey) (hsqrt : IsSqrt env.sqrt) (horg : org ∈ movers r es) :
    ∃ alsoClean, r.of (exactCell env key (es.map (raisedEntry r alsoClean org))) ≠
      r.of (exactCell env key es) := by
  rw [movers] at horg
  split at horg
  case h_1 axis hr =>
    refine ⟨false, ?_⟩
    rw [of_meanAxis hr, of_meanAxis hr]
    exact fun h => pooledMean_raised hr horg
      (Option.map_injective (fun _ _ h => List.singleton_injective h) h)
  case h_2 hr =>
    have hm := entriesOf_pos horg
    refine ⟨alsoCleanFor r es, ?_⟩
    obtain ⟨hn, hc, hf⟩ := counts_raisedEntry es org hr (alsoCleanFor r es)
    cases r with
    | costUsdMean | latencySMean => cases hr
    | n =>
      simp only [Released.of, exactCell, hn, ne_eq, Option.some.injEq, List.cons.injEq, and_true,
        Nat.cast_inj]
      omega
    | clean =>
      have hcount : (alsoCleanFor .clean es).toNat = 1 := rfl
      simp only [Released.of, exactCell, hc, hcount, ne_eq, Option.some.injEq, List.cons.injEq,
        and_true, Nat.cast_inj]
      omega
    | falseQ1 =>
      simp only [Released.of, exactCell, hf, ne_eq, Option.some.injEq, List.cons.injEq, and_true,
        Nat.cast_inj]
      omega
    | point =>
      simp only [Released.of, exactCell, ne_eq, Option.some.injEq, List.cons.injEq, and_true]
      exact pooledPoint_raised hr horg
    | interval =>
      intro h
      obtain ⟨hlow, hhigh⟩ := List.cons.inj (Option.some.inj h)
      exact pooledInterval_raised hsqrt hr horg (Prod.ext hlow (List.cons.inj hhigh).1)

/-- What a released value is computed from. -/
lemma dependsOn_of_mem {c : Contributions K} {k : ℕ} (hsqrt : IsSqrt env.sqrt) (hk : 1 ≤ k)
    (hkey : k ≤ (orgs (entriesAt key (entries (normalise c)))).length)
    (horg : org ∈ movers r (entriesAt key (entries (normalise c)))) :
    DependsOn env c k key r org := by
  obtain ⟨alsoClean, hne⟩ := of_raised key hsqrt horg
  refine (dependsOn_iff hk hkey).mpr ⟨raisedBy r alsoClean org c, varies_raisedBy, ?_⟩
  rwa [entriesAt_raisedBy]

omit [IsStrictOrderedRing K] in
lemma mem_of_dependsOn {c : Contributions K} {k : ℕ} {axis : AbstractCell K → Option K}
    (hk : 1 ≤ k) (hkey : k ≤ (orgs (entriesAt key (entries (normalise c)))).length)
    (hr : meanAxis r = some axis) (h : DependsOn env c k key r org) :
    org ∈ orgs (carrying axis (entriesAt key (entries (normalise c)))) := by
  obtain ⟨c', hvaries, hne⟩ := (dependsOn_iff hk hkey).mp h
  by_contra horg
  refine hne ?_
  rw [of_meanAxis hr, of_meanAxis hr, pooledMean_varies hr (entriesAt_varies key hvaries) horg]

end Dependence

section Noise

variable {K : Type} [Field K] [LinearOrder K] [FloorRing K] {env : Env K} {k : ℕ}

/-- Noise leaves the counts that gate trust and cohort as they are. -/
lemma sameCounts_shareCell {dp : Option K} {key : AbstractKey}
    {es : List (String × AbstractCell K)} {pos : ℕ} {out : SharedCell K × ℕ}
    (h : shareCell env dp key es pos = .ok out) : SameCounts out.1 (exactCell env key es) := by
  rw [shareCell] at h
  obtain ⟨⟨point, clean, cost, latency, pos'⟩, -, h⟩ := bind_eq_ok.mp h
  obtain ⟨⟨low, high⟩, -, h⟩ := bind_eq_ok.mp h
  obtain rfl := Except.ok.inj h
  simp only [exactCell, pooled, List.map_map]
  exact ⟨rfl, rfl, rfl, rfl, rfl⟩

lemma sameCounts_release {ε : K} {es : List (String × AbstractCell K)} {keys : List AbstractKey}
    {pos : ℕ} {noisy : List (SharedCell K)} (h : release env (some ε) k es keys pos = .ok noisy) :
    List.Forall₂ SameCounts noisy
      ((releasedKeys k es keys).map fun key => exactCell env key (entriesAt key es)) := by
  induction keys generalizing pos noisy with
  | nil =>
    obtain rfl := Except.ok.inj h
    exact .nil
  | cons key keys ih =>
    rw [release] at h
    rw [releasedKeys, List.filter_cons, ← releasedKeys]
    by_cases hk : (orgs (entriesAt key es)).length < k
    · rw [if_pos hk] at h
      rw [if_neg (by simpa using hk)]
      exact ih h
    · rw [if_neg hk] at h
      rw [if_pos (by simpa using hk)]
      obtain ⟨out, hout, h⟩ := bind_eq_ok.mp h
      obtain ⟨rest, hrest, h⟩ := bind_eq_ok.mp h
      obtain rfl := Except.ok.inj h
      exact .cons (sameCounts_shareCell hout) (ih hrest)

lemma sameCounts_aggregate {c : Contributions K} {ε : K} {noisy : List (SharedCell K)}
    (h : aggregateAbstractCells env c k (some ε) = .ok noisy) :
    ∃ exact, aggregateAbstractCells env c k none = .ok exact ∧
      List.Forall₂ SameCounts noisy exact := by
  rw [aggregateAbstractCells] at h
  split_ifs at h with hk
  refine ⟨_, aggregate_none (not_lt.mp hk), ?_⟩
  by_cases hε : ε ≤ 0
  · simp [Option.filter, hε] at h
  · simp only [Option.filter, hε, decide_false] at h
    exact sameCounts_release h

/-- A false Q1 of any contributor is in the sum, and the cell is not trusted. -/
lemma tainted_aggregate {c : Contributions K} {cells : List (SharedCell K)}
    (h : aggregateAbstractCells env c k none = .ok cells) {s : SharedCell K} (hs : s ∈ cells) :
    s.falseQ1 = pooled (·.falseQ1) (entriesAt s.key (entries (normalise c))) ∧
      ((∃ e ∈ entriesAt s.key (entries (normalise c)), 0 < e.2.falseQ1) → s.trusted = false) := by
  have hk : 1 ≤ k := by
    by_contra hk
    rw [aggregateAbstractCells, if_pos (by omega)] at h
    cases h
  rw [aggregate_none hk] at h
  obtain rfl := Except.ok.inj h
  obtain ⟨key, -, rfl⟩ := List.mem_map.mp hs
  refine ⟨rfl, fun ⟨e, he, hpos⟩ => ?_⟩
  have hle : e.2.falseQ1 ≤ pooled (·.falseQ1) (entriesAt key (entries (normalise c))) :=
    List.single_le_sum (by simp) _ (List.mem_map_of_mem he)
  exact decide_eq_false (by omega)

end Noise

section Main

variable {K : Type} [Field K] [LinearOrder K] [IsStrictOrderedRing K] [FloorRing K]
  {env : Env K} {c : Contributions K} {k : ℕ}

omit [IsStrictOrderedRing K] in
/-- Every released key has its cohort. -/
lemma cohort_of_valueAt {key : AbstractKey} {r : Released} (hk : 1 ≤ k)
    (h : (valueAt env c k key r).isSome) :
    k ≤ (orgs (entriesAt key (entries (normalise c)))).length ∧
      (r.of (exactCell env key (entriesAt key (entries (normalise c))))).isSome := by
  rw [valueAt_eq hk] at h
  by_cases hkey : k ≤ (orgs (entriesAt key (entries (normalise c)))).length
  · rw [if_pos hkey] at h
    exact ⟨hkey, h⟩
  · rw [if_neg hkey] at h
    cases h

omit [IsStrictOrderedRing K] [FloorRing K] in
/-- Where the means are carried by a cohort, a cohort moves every value. -/
lemma le_movers {key : AbstractKey} {r : Released} (hcarried : CarriedByCohort c k)
    (hkey : k ≤ (orgs (entriesAt key (entries (normalise c)))).length)
    (hsome : (r.of (exactCell env key (entriesAt key (entries (normalise c))))).isSome) :
    k ≤ (movers r (entriesAt key (entries (normalise c)))).length := by
  rw [movers]
  split
  case h_1 axis hr =>
    have haxis : axis ∈ [AbstractCell.costUsdMean, AbstractCell.latencySMean] := by
      cases r with
      | costUsdMean | latencySMean =>
        obtain rfl := Option.some.inj hr
        simp
      | n | clean | falseQ1 | point | interval => cases hr
    refine (hcarried key hkey axis haxis).resolve_left fun hnil => ?_
    rw [of_meanAxis hr, carrying_eq_nil_iff.mp hnil] at hsome
    cases hsome
  case h_2 => exact hkey

omit [IsStrictOrderedRing K] in
/-- What varies with one organisation's numbers is not another's alone. -/
lemma not_ownedBy {key : AbstractKey} {r : Released} {org other : String} (hne : org ≠ other)
    (h : DependsOn env c k key r org) : ¬ OwnedBy env c k key r other := by
  obtain ⟨c', hvaries, hval⟩ := h
  refine fun howned => hval (howned c' (hvaries.imp fun b b' hb => ?_))
  obtain ⟨horg, hmay, hnot⟩ := hb
  by_cases hb : b.1 = org
  · exact ⟨horg, fun _ => hmay hb, fun h => absurd (hb ▸ hne) h⟩
  · rw [hnot hb]
    exact ⟨horg, fun _ => List.forall₂_same.mpr fun cell _ => .refl r cell, fun _ => rfl⟩

lemma anonymous_of_carried (hsqrt : IsSqrt env.sqrt) (hk : 2 ≤ k) (hcarried : CarriedByCohort c k) :
    Anonymous env c k := by
  have hmoved : ∀ key r, (valueAt env c k key r).isSome →
      k ≤ (movers r (entriesAt key (entries (normalise c)))).length ∧
        ∀ org ∈ movers r (entriesAt key (entries (normalise c))),
          org ∈ (normalise c).map Prod.fst ∧ DependsOn env c k key r org := by
    intro key r h
    obtain ⟨hkey, hsome⟩ := cohort_of_valueAt (by omega) h
    refine ⟨le_movers hcarried hkey hsome, fun org horg => ⟨?_, ?_⟩⟩
    · obtain ⟨e, he, rfl⟩ := List.mem_map.mp (List.mem_dedup.mp (movers_subset horg))
      obtain ⟨b, hb, he⟩ := List.mem_flatMap.mp (List.mem_of_mem_filter he)
      obtain ⟨cell, -, rfl⟩ := List.mem_map.mp he
      exact List.mem_map_of_mem hb
    · exact dependsOn_of_mem hsqrt (by omega) hkey horg
  refine ⟨fun key r h => ?_, fun key r h org => ?_, fun cells h s hs => tainted_aggregate h hs,
    fun ε noisy h => sameCounts_aggregate h⟩
  · obtain ⟨hle, hall⟩ := hmoved key r h
    refine ⟨(movers r (entriesAt key (entries (normalise c)))).toFinset, ?_, fun org horg =>
      hall org (List.mem_toFinset.mp horg)⟩
    rwa [List.toFinset_card_of_nodup nodup_movers]
  · obtain ⟨hle, hall⟩ := hmoved key r h
    obtain ⟨other, hother, hne⟩ : ∃ other ∈ movers r (entriesAt key (entries (normalise c))),
        other ≠ org := by
      by_contra hnone
      push Not at hnone
      have hsub : (movers r (entriesAt key (entries (normalise c)))).toFinset ⊆ {org} :=
        fun other h => Finset.mem_singleton.mpr (hnone other (List.mem_toFinset.mp h))
      have hcard := Finset.card_le_card hsub
      rw [List.toFinset_card_of_nodup nodup_movers, Finset.card_singleton] at hcard
      omega
    exact not_ownedBy hne (hall other hother).2

omit [IsStrictOrderedRing K] in
lemma carried_of_anonymous (hk : 2 ≤ k) (h : Anonymous env c k) : CarriedByCohort c k := by
  intro key hkey axis haxis
  obtain ⟨r, hr⟩ : ∃ r, meanAxis r = some axis := by
    rcases List.mem_pair.mp haxis with rfl | rfl
    · exact ⟨.costUsdMean, rfl⟩
    · exact ⟨.latencySMean, rfl⟩
  refine or_iff_not_imp_left.mpr fun hne => ?_
  have hsome : (valueAt env c k key r).isSome := by
    rw [valueAt_eq (by omega), if_pos hkey, of_meanAxis hr, Option.isSome_map,
      Option.isSome_iff_ne_none]
    exact carrying_eq_nil_iff.not.mp hne
  obtain ⟨cohort, hcard, hall⟩ := h.computed key r hsome
  have hsub : cohort ⊆ (orgs (carrying axis (entriesAt key (entries (normalise c))))).toFinset :=
    fun org horg => List.mem_toFinset.mpr (mem_of_dependsOn (by omega) hkey hr (hall org horg).2)
  calc k ≤ cohort.card := hcard
    _ ≤ _ := Finset.card_le_card hsub
    _ = _ := List.toFinset_card_of_nodup (List.nodup_dedup _)

/-- No released number is one organisation's exactly where every released mean is carried by a
cohort, or by none of it. -/
theorem anonymous_iff (hsqrt : IsSqrt env.sqrt) (hk : 2 ≤ k) :
    Anonymous env c k ↔ CarriedByCohort c k :=
  ⟨carried_of_anonymous hk, anonymous_of_carried hsqrt hk⟩

end Main

section Samples

/-- The mathematics library as the source relies on it. -/
noncomputable def realEnv : Env ℝ := ⟨Real.sqrt, Real.log, fun _ => 0⟩

lemma isSqrt_realEnv : IsSqrt realEnv.sqrt :=
  fun x hx => ⟨Real.sqrt_nonneg x, Real.mul_self_sqrt hx⟩

def sampleKey : AbstractKey :=
  ⟨"build", "test.add", "M", "python", "agentic", "gpt-oss-120b", "cerebras"⟩

lemma sample_clean_le : 9 ≤ 10 := by decide

noncomputable def sampleCell (cost : Option ℝ) : AbstractCell ℝ :=
  ⟨sampleKey, 10, 9, 0, 9 / 10, 1 / 2, 1, cost, none, sample_clean_le⟩

/-- Three organisations, one of which knows what its trials cost. -/
noncomputable def oneKnown : Contributions ℝ :=
  .mapping [("a", [sampleCell (some 3)]), ("b", [sampleCell none]), ("c", [sampleCell none])]

/-- Three organisations that know it. -/
noncomputable def allKnown : Contributions ℝ :=
  .mapping [("a", [sampleCell (some 3)]), ("b", [sampleCell (some 4)]),
    ("c", [sampleCell (some 8)])]

/-- The cost that is released for a cohort of three is the one of the organisation that knows it. -/
theorem not_anonymous_oneKnown : ¬ Anonymous realEnv oneKnown 3 := by
  intro h
  have hcohort : (orgs (entriesAt sampleKey (entries (normalise oneKnown)))).length = 3 := by
    rfl
  have hcarriers : (orgs (carrying AbstractCell.costUsdMean
      (entriesAt sampleKey (entries (normalise oneKnown))))).length = 1 := by
    rfl
  have hcarried := carried_of_anonymous (by decide) h
  rcases hcarried sampleKey hcohort.ge _ List.mem_cons_self with hnil | hle
  · rw [hnil] at hcarriers
    cases hcarriers
  · omega

lemma carried_allKnown : CarriedByCohort allKnown 3 := by
  intro key hkey axis haxis
  by_cases h : sampleKey = key
  · subst h
    rcases List.mem_pair.mp haxis with rfl | rfl
    · exact .inr (by rfl)
    · exact .inl (List.length_eq_zero_iff.mp (by rfl))
  · have hnil : entriesAt key (entries (normalise allKnown)) = [] := by
      refine List.filter_eq_nil_iff.mpr fun e he => ?_
      have hat : e.2.key = sampleKey := by
        simp only [allKnown, normalise, entries, List.flatMap_cons, List.map_cons, List.map_nil,
          List.flatMap_nil, List.append_nil, List.cons_append, List.nil_append, List.mem_cons,
          List.not_mem_nil, or_false] at he
        rcases he with rfl | rfl | rfl <;> rfl
      simpa [hat] using h
    rw [hnil] at hkey
    cases hkey

theorem anonymous_allKnown : Anonymous realEnv allKnown 3 :=
  (anonymous_iff isSqrt_realEnv (by decide)).mpr carried_allKnown

end Samples

end CommitReplay.FederatedRelease
