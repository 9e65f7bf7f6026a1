import Mathlib.Data.List.Basic
import Mathlib.Data.List.Forall2
import Mathlib.Data.Rat.Defs
import Mathlib.Algebra.Order.Ring.Rat
import Mathlib.Tactic.Linarith

/-! The look rules of a reading: the sizes at which the outcomes of an arm are looked at, with the
misses each look allows, and the walk over the outcomes that stops at a decision. -/
namespace CommitReplay.LookRule

/-- What a reading raises beside its refusals. -/
inductive ReadingError
  | unknownRule | noReachableLook | armOutsideGrammar | indexError | keyError
deriving DecidableEq, Repr

inductive ArmState
  | deliver | insufficient | undecided | lookPending | descriptive | stopped | waiting
deriving DecidableEq, Repr

/-- A look's size and the misses it allows, in order of size. -/
abbrev Looks := List (ℕ × ℕ)

def rules : List (String × Looks) :=
  [("look.v1", [(20, 0), (30, 1), (40, 2)]), ("look.v1-strict", [(20, 0), (30, 0), (40, 1)]),
    ("look.v1-late", [(30, 0), (40, 1)])]

def ruleLooks (rule : String) : Except ReadingError Looks :=
  match rules.lookup rule with
  | some looks => .ok looks
  | none => .error .unknownRule

/-- `max(looks)`. -/
def lastLook (looks : Looks) : ℕ := (looks.map Prod.fst).foldl max 0

/-- `looks[max(looks)]`. -/
def lastAllowance (looks : Looks) : ℕ := (looks.lookup (lastLook looks)).getD 0

section Spend

/-- The probability of each number of misses so far, and of having delivered. -/
structure Draws where
  states : List (ℕ × ℚ)
  delivered : ℚ

/-- `nxt[m] = nxt.get(m, 0.0) + x`. -/
def addTo (m : ℕ) (x : ℚ) : List (ℕ × ℚ) → List (ℕ × ℚ)
  | [] => [(m, x)]
  | (j, y) :: rest => if j = m then (j, y + x) :: rest else (j, y) :: addTo m x rest

/-- One more commit on a path with its misses counted: it ends, or it goes on. -/
def Draws.add (looks : Looks) (n misses : ℕ) (x : ℚ) (d : Draws) : Draws :=
  if lastAllowance looks < misses then d
  else if (looks.lookup n).any (misses ≤ ·) then { d with delivered := d.delivered + x }
  else { d with states := addTo misses x d.states }

/-- The `n`-th commit, clean with probability `p`. -/
def Draws.draw (looks : Looks) (p : ℚ) (d : Draws) (n : ℕ) : Draws :=
  d.states.foldl
    (fun e s => (e.add looks n s.1 (s.2 * p)).add looks n (s.1 + 1) (s.2 * (1 - p)))
    ⟨[], d.delivered⟩

def pDeliver (rule : String) (p : ℚ) (pool : Option ℕ) : Except ReadingError ℚ := do
  let looks ← ruleLooks rule
  let draws := (List.range' 1 (pool.getD (lastLook looks))).foldl (Draws.draw looks p) ⟨[(0, 1)], 0⟩
  return draws.delivered

def nullRate : ℚ := 8 / 10

/-- What a reading under the rule spends of its cell's error budget. -/
def ruleSpend (rule : String) : Except ReadingError ℚ := pDeliver rule nullRate none

end Spend

structure LookState where
  state : ArmState
  counted : ℕ
  clean : ℕ
  misses : ℕ
  nextLook : Option ℕ
  needed : ℕ
  decidedAt : Option ℕ
deriving DecidableEq, Repr

/-- Where a walk over the outcomes stops: at a decision, or before a pending commit. -/
inductive Walk
  | decided (state : ArmState) (counted clean misses : ℕ)
  | open_ (counted clean misses : ℕ)
deriving DecidableEq, Repr

def walk (looks : Looks) (k clean misses : ℕ) : List (Option Bool) → Walk
  | [] | none :: _ => .open_ k clean misses
  | some o :: outcomes =>
    let clean := if o then clean + 1 else clean
    let misses := if o then misses else misses + 1
    if lastAllowance looks < misses then .decided .insufficient (k + 1) clean misses
    else if (looks.lookup (k + 1)).any (misses ≤ ·) then .decided .deliver (k + 1) clean misses
    else walk looks (k + 1) clean misses outcomes

/-- The state of an arm from its outcomes in the seeded order, `none` for a pending commit. A pool
that is open is never too small for the next look. -/
def lookState (outcomes : List (Option Bool)) (rule : String) (openPool : Bool) :
    Except ReadingError LookState := do
  let looks ← ruleLooks rule
  match walk looks 0 0 0 outcomes with
  | .decided state k clean misses => return ⟨state, k, clean, misses, none, 0, some k⟩
  | .open_ k clean misses =>
    match looks.find? fun l => k < l.1 && misses ≤ l.2 with
    | none => throw .noReachableLook
    | some (next, _) =>
      let pending := (outcomes.take next).count none
      if openPool then
        return ⟨.lookPending, k, clean, misses, some next, pending + (next - outcomes.length), none⟩
      else if outcomes.length < next then
        return ⟨.undecided, k, clean, misses, some next, next - outcomes.length, none⟩
      else return ⟨.lookPending, k, clean, misses, some next, pending, none⟩

/-- A descriptive arm's tally: no look and no decision. -/
def descriptiveLook (outcomes : List (Option Bool)) (limit : ℤ) : LookState :=
  let resolved := outcomes.filterMap id
  let clean := resolved.count true
  ⟨.descriptive, resolved.length, clean, resolved.length - clean, some limit.toNat,
    outcomes.count none + (limit - outcomes.length).toNat, none⟩

section Decisions

variable {looks : Looks}

lemma lookup_any_le {k m : ℕ} : (looks.lookup k).any (m ≤ ·) = true ↔
    ∃ allowed, looks.lookup k = some allowed ∧ m ≤ allowed := by
  cases looks.lookup k <;> simp

/-- A walk that stopped with a decision read only commits with an outcome, and its counts are of
these. -/
lemma walk_decided {outcomes : List (Option Bool)} {k clean misses k' clean' misses' : ℕ}
    {state : ArmState}
    (h : walk looks k clean misses outcomes = .decided state k' clean' misses') :
    ∃ j ≤ outcomes.length, k' = k + j ∧ none ∉ outcomes.take j ∧
      misses' = misses + (outcomes.take j).count (some false) ∧
      (state = .deliver → ∃ allowed, looks.lookup k' = some allowed ∧ misses' ≤ allowed) := by
  induction outcomes generalizing k clean misses with
  | nil => cases h
  | cons o outcomes ih =>
    cases o with
    | none => cases h
    | some o =>
      have hcount : ∀ j, (List.take (j + 1) (some o :: outcomes)).count (some false) =
          (if o then 0 else 1) + (outcomes.take j).count (some false) := by
        intro j
        cases o <;> simp [Nat.add_comm]
      simp only [walk] at h
      split_ifs at h with ho hlast hlook hlast hlook
      · cases h
        exact ⟨1, by simp, rfl, by simp, by simp [ho], nofun⟩
      · cases h
        exact ⟨1, by simp, rfl, by simp, by simp [ho], fun _ => lookup_any_le.mp hlook⟩
      · obtain ⟨j, hj, hk, hn, hm, hd⟩ := ih h
        refine ⟨j + 1, by simpa using hj, by omega, by simpa using hn, ?_, hd⟩
        rw [hcount, hm, ho]
        simp
      · cases h
        exact ⟨1, by simp, rfl, by simp, by simp [ho], nofun⟩
      · cases h
        exact ⟨1, by simp, rfl, by simp, by simp [ho], fun _ => lookup_any_le.mp hlook⟩
      · obtain ⟨j, hj, hk, hn, hm, hd⟩ := ih h
        refine ⟨j + 1, by simpa using hj, by omega, by simpa using hn, ?_, hd⟩
        rw [hcount, hm, if_neg ho]
        omega

/-- A walk decides on a commit. -/
lemma lt_of_walk_decided {outcomes : List (Option Bool)} {k clean misses k' clean' misses' : ℕ}
    {state : ArmState}
    (h : walk looks k clean misses outcomes = .decided state k' clean' misses') : k < k' := by
  induction outcomes generalizing k clean misses with
  | nil => cases h
  | cons o outcomes ih =>
    cases o with
    | none => cases h
    | some o =>
      simp only [walk] at h
      split_ifs at h
      all_goals first
        | exact (Nat.lt_succ_self k).trans (ih h)
        | injection h
          omega

/-- A walk that decided reads no further than the commits it counted. -/
lemma walk_decided_of_take {outcomes outcomes' : List (Option Bool)}
    {k j clean misses clean' misses' : ℕ} {state : ArmState}
    (h : walk looks k clean misses outcomes = .decided state (k + j) clean' misses')
    (htake : outcomes'.take j = outcomes.take j) :
    walk looks k clean misses outcomes' = .decided state (k + j) clean' misses' := by
  induction outcomes generalizing outcomes' k j clean misses with
  | nil => cases h
  | cons o outcomes ih =>
    cases o with
    | none => cases h
    | some o =>
      obtain ⟨i, rfl⟩ : ∃ i, j = i + 1 := ⟨j - 1, by have := lt_of_walk_decided h; omega⟩
      obtain ⟨rest, rfl, hrest⟩ : ∃ rest, outcomes' = some o :: rest ∧
          rest.take i = outcomes.take i := by
        cases outcomes' with
        | nil => simp at htake
        | cons o' rest =>
          rw [List.take_succ_cons, List.take_succ_cons] at htake
          obtain ⟨rfl, hrest⟩ := List.cons.inj htake
          exact ⟨rest, rfl, hrest⟩
      simp only [walk] at h ⊢
      split_ifs at h ⊢
      all_goals first
        | exact h
        | rw [show k + (i + 1) = k + 1 + i by omega] at h ⊢
          exact ih h hrest

/-- How an outcome may change once it is read: a miss stays a miss, and a hit stays read. -/
def Settles (o o' : Option Bool) : Prop := (o = some false → o' = some false) ∧ (o = some true → o' ≠ none)

/-- A walk that ended insufficient ends so however the outcomes settle. -/
lemma walk_insufficient {outcomes outcomes' : List (Option Bool)}
    (hs : List.Forall₂ Settles outcomes outcomes') {k clean c misses misses₀ k' c' m' : ℕ}
    (hm : misses ≤ misses₀)
    (h : walk looks k clean misses outcomes = .decided .insufficient k' c' m') :
    ∃ k'' c'' m'', walk looks k c misses₀ outcomes' =
      .decided .insufficient k'' c'' m'' := by
  induction hs generalizing k clean c misses misses₀ with
  | nil => cases h
  | @cons o o' outcomes outcomes' ho _ ih =>
    cases o with
    | none => cases h
    | some b =>
      obtain ⟨b', rfl⟩ : ∃ b', o' = some b' := by
        cases b with
        | false => exact ⟨false, ho.1 rfl⟩
        | true => exact Option.ne_none_iff_exists'.mp (ho.2 rfl)
      have hle : (if b then misses else misses + 1) ≤ if b' then misses₀ else misses₀ + 1 := by
        cases b with
        | false =>
          obtain rfl : b' = false := Option.some.inj (ho.1 rfl)
          simpa using hm
        | true => cases b' <;> simp <;> omega
      simp only [walk] at h ⊢
      generalize (if b then misses else misses + 1) = m₁ at h hle
      generalize (if b then clean + 1 else clean) = c₁ at h
      generalize (if b' then misses₀ else misses₀ + 1) = m₂ at hle ⊢
      by_cases hlast₂ : lastAllowance looks < m₂
      · rw [if_pos hlast₂]
        exact ⟨_, _, _, rfl⟩
      · have hlast₁ : ¬ lastAllowance looks < m₁ := fun hlt => hlast₂ (hlt.trans_le hle)
        rw [if_neg hlast₁] at h
        rw [if_neg hlast₂]
        split_ifs at h with hlook₁
        · cases h
        · have hlook₂ : ¬ (looks.lookup (k + 1)).any (m₂ ≤ ·) = true := fun hany => by
            obtain ⟨a, ha, hma⟩ := lookup_any_le.mp hany
            exact hlook₁ (lookup_any_le.mpr ⟨a, ha, hle.trans hma⟩)
          rw [if_neg hlook₂]
          exact ih hle h

/-- A walk that stops before a pending commit stops before the last look, with misses it allows. -/
lemma walk_open {outcomes : List (Option Bool)} {k clean misses k' c' m' : ℕ}
    (hlast : looks.lookup (lastLook looks) = some (lastAllowance looks))
    (hk : k < lastLook looks) (hm : misses ≤ lastAllowance looks)
    (h : walk looks k clean misses outcomes = .open_ k' c' m') :
    k' < lastLook looks ∧ m' ≤ lastAllowance looks := by
  induction outcomes generalizing k clean misses with
  | nil =>
    cases h
    exact ⟨hk, hm⟩
  | cons o outcomes ih =>
    cases o with
    | none =>
      cases h
      exact ⟨hk, hm⟩
    | some o =>
      simp only [walk] at h
      generalize (if o then misses else misses + 1) = m₁ at h
      generalize (if o then clean + 1 else clean) = c₁ at h
      split_ifs at h with h₁ h₂
      have hlt : k + 1 ≠ lastLook looks := fun he => h₂ (by simpa [he, hlast] using h₁)
      exact ih (by omega) (not_lt.mp h₁) h

end Decisions

section Reading

lemma ruleLooks_eq_ok {rule : String} {looks : Looks} (h : ruleLooks rule = .ok looks) :
    (rule, looks) ∈ rules := by
  unfold ruleLooks at h
  split at h
  · rename_i found hfound
    obtain rfl := Except.ok.inj h
    obtain ⟨l₁, l₂, hl, -⟩ := List.lookup_eq_some_iff.mp hfound
    exact hl ▸ List.mem_append_right _ List.mem_cons_self
  · cases h

/-- Every rule of the table has its looks. -/
lemma exists_ruleLooks {rule : String} (h : rule ∈ rules.map Prod.fst) :
    ∃ looks, ruleLooks rule = .ok looks := by
  obtain ⟨⟨r, looks⟩, hmem, rfl⟩ := List.mem_map.mp h
  simp only [rules, List.mem_cons, Prod.mk.injEq, List.not_mem_nil, or_false] at hmem
  obtain ⟨rfl, -⟩ | ⟨rfl, -⟩ | ⟨rfl, -⟩ := hmem <;> exact ⟨_, rfl⟩

/-- Where a look stands is where the walk stopped. -/
lemma lookState_eq {rule : String} {looks : Looks} (h : ruleLooks rule = .ok looks)
    (outcomes : List (Option Bool)) (openPool : Bool) :
    (∀ {state k c m}, walk looks 0 0 0 outcomes = .decided state k c m →
      lookState outcomes rule openPool = .ok ⟨state, k, c, m, none, 0, some k⟩) ∧
    (∀ {k c m}, walk looks 0 0 0 outcomes = .open_ k c m →
      ∀ look, lookState outcomes rule openPool = .ok look →
        look.state = .lookPending ∨ look.state = .undecided) := by
  refine ⟨fun hw => by simp [lookState, h, hw, bind, Except.bind, pure, Except.pure],
    fun hw look hl => ?_⟩
  simp only [lookState, h, hw, bind, Except.bind] at hl
  split at hl
  · cases hl
  · split_ifs at hl <;> obtain rfl := Except.ok.inj hl
    · exact .inl rfl
    · exact .inr rfl
    · exact .inl rfl

/-- A look with a decision is where the walk decided. -/
lemma walk_of_lookState {outcomes : List (Option Bool)} {rule : String} {openPool : Bool}
    {look : LookState} (h : lookState outcomes rule openPool = .ok look)
    (hs : look.state ≠ .lookPending ∧ look.state ≠ .undecided) :
    ∃ looks, ruleLooks rule = .ok looks ∧
      walk looks 0 0 0 outcomes = .decided look.state look.counted look.clean look.misses := by
  cases hr : ruleLooks rule with
  | error e => simp [lookState, hr, bind, Except.bind] at h
  | ok looks =>
    obtain ⟨hdecided, hopen⟩ := lookState_eq hr outcomes openPool
    refine ⟨looks, rfl, ?_⟩
    cases hw : walk looks 0 0 0 outcomes with
    | decided state k c m =>
      rw [hdecided hw] at h
      obtain rfl := Except.ok.inj h
      rfl
    | open_ k c m => exact ((hopen hw look h).elim hs.1 hs.2).elim

/-- A delivering look: at one of the rule's sizes no commit is pending and no more are misses than
it allows. -/
theorem lookState_deliver {outcomes : List (Option Bool)} {rule : String} {openPool : Bool}
    {look : LookState} (h : lookState outcomes rule openPool = .ok look)
    (hd : look.state = .deliver) :
    ∃ looks allowed, ruleLooks rule = .ok looks ∧ looks.lookup look.counted = some allowed ∧
      look.counted ≤ outcomes.length ∧ none ∉ outcomes.take look.counted ∧
      (outcomes.take look.counted).count (some false) ≤ allowed := by
  obtain ⟨looks, hr, hw⟩ := walk_of_lookState h (by rw [hd]; exact ⟨nofun, nofun⟩)
  obtain ⟨j, hj, hk, hn, hm, hallowed⟩ := walk_decided hw
  obtain ⟨allowed, hl, hle⟩ := hallowed hd
  obtain rfl : look.counted = j := hk.trans (Nat.zero_add j)
  exact ⟨looks, allowed, hr, hl, hj, hn, by omega⟩

/-- A look that decided depends on the commits it counted and on no other. -/
theorem lookState_of_take {outcomes outcomes' : List (Option Bool)} {rule : String}
    {openPool : Bool} {look : LookState} (h : lookState outcomes rule openPool = .ok look)
    (hs : look.state ≠ .lookPending ∧ look.state ≠ .undecided)
    (htake : outcomes'.take look.counted = outcomes.take look.counted) :
    lookState outcomes' rule openPool = .ok look ∧
      none ∉ outcomes.take look.counted ∧ look.counted ≤ outcomes.length ∧ 0 < look.counted := by
  obtain ⟨looks, hr, hw⟩ := walk_of_lookState h hs
  obtain ⟨j, hj, hk, hn, -⟩ := walk_decided hw
  obtain rfl : look.counted = j := hk.trans (Nat.zero_add j)
  refine ⟨?_, hn, hj, lt_of_walk_decided hw⟩
  rw [← Nat.zero_add look.counted] at hw
  have hw' := walk_decided_of_take hw htake
  rw [(lookState_eq hr outcomes openPool).1 hw] at h
  rw [(lookState_eq hr outcomes' openPool).1 hw']
  exact h

/-- Once insufficient, always insufficient. -/
theorem lookState_insufficient {outcomes outcomes' : List (Option Bool)} {rule : String}
    {openPool : Bool} {look : LookState} (hs : List.Forall₂ Settles outcomes outcomes')
    (h : lookState outcomes rule openPool = .ok look) (hi : look.state = .insufficient) :
    ∃ look', lookState outcomes' rule openPool = .ok look' ∧ look'.state = .insufficient := by
  obtain ⟨looks, hr, hw⟩ := walk_of_lookState h (by rw [hi]; exact ⟨nofun, nofun⟩)
  rw [hi] at hw
  obtain ⟨k, c, m, hw'⟩ := walk_insufficient (c := 0) hs le_rfl hw
  exact ⟨_, (lookState_eq hr outcomes' openPool).1 hw', rfl⟩

lemma lastLook_of_mem {rule : String} {looks : Looks} (h : (rule, looks) ∈ rules) :
    0 < lastLook looks ∧ looks.lookup (lastLook looks) = some (lastAllowance looks) ∧
      (lastLook looks, lastAllowance looks) ∈ looks := by
  simp only [rules, List.mem_cons, Prod.mk.injEq, List.not_mem_nil, or_false] at h
  obtain ⟨-, rfl⟩ | ⟨-, rfl⟩ | ⟨-, rfl⟩ := h <;> decide

/-- Under a registered rule a look always has a state. -/
theorem lookState_isOk (outcomes : List (Option Bool)) {rule : String} (openPool : Bool)
    {looks : Looks} (h : ruleLooks rule = .ok looks) :
    ∃ look, lookState outcomes rule openPool = .ok look := by
  obtain ⟨hpos, hlast, hmem⟩ := lastLook_of_mem (ruleLooks_eq_ok h)
  cases hw : walk looks 0 0 0 outcomes with
  | decided state k c m => exact ⟨_, (lookState_eq h outcomes openPool).1 hw⟩
  | open_ k c m =>
    obtain ⟨hk, hm⟩ := walk_open hlast hpos (Nat.zero_le _) hw
    obtain ⟨next, hnext⟩ := Option.isSome_iff_exists.mp (List.find?_isSome.mpr
      ⟨_, hmem, by simp [hk, hm]⟩ : (looks.find? fun l => k < l.1 && m ≤ l.2).isSome)
    simp only [lookState, h, hw, hnext, bind, Except.bind]
    split_ifs <;> exact ⟨_, rfl⟩

end Reading

end CommitReplay.LookRule
