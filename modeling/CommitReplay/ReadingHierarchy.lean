import CommitReplay.ReadingReplay
import CommitReplay.ReadingReserved

/-! A reading evaluated over the rows of a ledger: every arm, the chain of arms that deliver, the
standard of the cell, and what the router is told of one arm. -/
namespace CommitReplay.ReadingHierarchy

open CommitReplay.JsonText CommitReplay.ContextArms CommitReplay.RowChecks CommitReplay.LookRule
open CommitReplay.ReadingRows CommitReplay.ReadingRecord CommitReplay.ReadingArms
open CommitReplay.ReadingForward CommitReplay.ReadingReserved CommitReplay.ReadingReplay

/-- The arms read so far, in the order they were first read. -/
abbrev Arms := List (String × ArmReading)

/-- `arms[arm] = a`. -/
def assign (arm : String) (a : ArmReading) : Arms → Arms
  | [] => [(arm, a)]
  | (k, b) :: arms => if k = arm then (k, a) :: arms else (k, b) :: assign arm a arms

/-- `arms[arm]`. -/
def armAt (arms : Arms) (arm : String) : Except ReadingError ArmReading :=
  match arms.lookup arm with
  | some a => .ok a
  | none => .error .keyError

inductive OutcomeState
  | standard | ceiling | ofArm (state : ArmState)
deriving DecidableEq, Repr

structure ReadingOutcome (N : Type) where
  reading : Reading N
  arms : Arms
  chain : List String
  stoppedAt : String
  standard : String
  state : OutcomeState

/-- The hierarchy read so far. -/
structure Climb where
  arms : Arms
  chain : List String
  stoppedAt : String

/-- The state of an arm that stops the arms behind it; behind any other they wait. -/
def stops (state : ArmState) : Bool := state = .insufficient || state = .undecided

def Climb.step (s : Climb) (arm : String) (a : ArmReading) : Except ReadingError Climb :=
  if s.stoppedAt ≠ "" then do
    let blocker ← armAt s.arms s.stoppedAt
    let a := { a with stoppedBy := s.stoppedAt, waiting := !stops blocker.state }
    return { s with arms := assign arm a s.arms }
  else if a.state = .deliver then
    .ok { s with arms := assign arm a s.arms, chain := s.chain ++ [arm] }
  else .ok { s with arms := assign arm a s.arms, stoppedAt := arm }

/-- `parse_arm(a).certifies`. -/
def certifies (arm : String) : Except ReadingError Bool :=
  match parseArm arm with
  | some a => .ok a.certifies
  | none => .error .armOutsideGrammar

section Evaluate

variable (read : String → ℤ → Except ReadingError ArmReading)

def climb (s : Climb) (hierarchy : List String) : Except ReadingError Climb :=
  hierarchy.foldlM (fun s arm => do s.step arm (← read arm 0)) s

def readDescriptive (arms : Arms) (descriptive : List (String × ℤ)) : Except ReadingError Arms :=
  descriptive.foldlM (fun arms d => do return assign d.1 (← read d.1 d.2) arms) arms

/-- The leanest certifying arm of the chain, which is its last. -/
def lastCertifying (chain : List String) : Except ReadingError String :=
  chain.foldlM (fun standard arm => do return if ← certifies arm then arm else standard) ""

/-- What a reading without a standard reads: the state of the arm it stopped at, or a ceiling. -/
def stateAt (arms : Arms) (chain : List String) (stoppedAt : String) :
    Except ReadingError OutcomeState :=
  if stoppedAt = "" then .ok .ceiling
  else do
    let blocked ← armAt arms stoppedAt
    return if chain ≠ [] ∧ stops blocked.state then .ceiling else .ofArm blocked.state

def evaluateWith (r : Reading N) : Except ReadingError (ReadingOutcome N) := do
  let climbed ← climb read ⟨[], [], ""⟩ r.hierarchy
  let arms ← readDescriptive read climbed.arms r.descriptive
  let standard ← lastCertifying climbed.chain
  let outcome := ReadingOutcome.mk r arms climbed.chain climbed.stoppedAt
  if r.poolDrift ≠ [] then return outcome "" (.ofArm .undecided)
  else if standard ≠ "" then return outcome standard .standard
  else return outcome standard (← stateAt arms climbed.chain climbed.stoppedAt)

end Evaluate

section Source

variable {F N : Type} [PyFloat F] (parseTs : String → Option ℤ)

/-- One arm of a reading over the rows of a ledger, in ledger order. -/
def armReading (r : Reading N) (arm : String) (rows : List (Row F)) (limit : ℤ) :
    Except ReadingError ArmReading :=
  if r.reserved then armReserved parseTs r arm rows limit
  else
    let rows := if r.admissionsUnread then [] else rows
    if r.prospective then armForward parseTs r arm rows else armReplay parseTs r arm rows limit

def evaluate (r : Reading N) (rows : List (Row F)) : Except ReadingError (ReadingOutcome N) :=
  evaluateWith (fun arm limit => armReading parseTs r arm rows limit) r

end Source

section Verdict

inductive VerdictState
  | readingUnregistered | ceiling | leanerStandard | ofArm (state : ArmState)
deriving DecidableEq, Repr

/-- What the router reads about one arm of a cell. -/
structure ArmVerdict where
  arm : String
  state : VerdictState
  readingId : String
  rule : String
  counted : ℕ
  clean : ℕ
  needed : ℕ
  nextLook : Option ℕ
  standard : String
  blocking : String
  countedCommits : List String
  poolRemaining : ℕ
  drifted : Bool
deriving DecidableEq, Repr

def verdictFor (outcome : Option (ReadingOutcome N)) (arm : String) : Except ReadingError ArmVerdict :=
  match outcome with
  | none => .ok ⟨arm, .readingUnregistered, "", "", 0, 0, 0, none, "", "", [], 0, false⟩
  | some o =>
    match o.arms.lookup arm with
    | none =>
      .ok ⟨arm, .readingUnregistered, o.reading.readingId, o.reading.rule, 0, 0, 0, none,
        o.standard, "", [], 0, false⟩
    | some a =>
      let verdict (state : VerdictState) (needed : ℕ) (nextLook : Option ℕ) (blocking : String)
          (drifted : Bool) : ArmVerdict :=
        ⟨arm, state, o.reading.readingId, o.reading.rule, a.look.counted, a.look.clean, needed,
          nextLook, o.standard, blocking, a.countedCommits, a.kept.length, drifted⟩
      if o.reading.poolDrift ≠ [] then .ok (verdict (.ofArm .undecided) 0 none "" true)
      else if a.scopeFaults ≠ [] ∧ a.stoppedBy = "" then
        .ok (verdict (.ofArm .undecided) 0 none "" false)
      else if a.descriptive then .ok (verdict (.ofArm .descriptive) 0 none "" false)
      else if a.stoppedBy ≠ "" then do
        let b ← armAt o.arms a.stoppedBy
        let faulted := b.scopeFaults ≠ []
        return verdict (.ofArm b.state) (if faulted then 0 else b.look.needed)
          (if faulted then none else b.look.nextLook) a.stoppedBy false
      else if a.look.state = .deliver then
        match parseArm arm with
        | none => .error .armOutsideGrammar
        | some p =>
          if p.ceiling then .ok (verdict .ceiling 0 none "" false)
          else if arm ≠ o.standard then .ok (verdict .leanerStandard 0 none "" false)
          else .ok (verdict (.ofArm .deliver) 0 none "" false)
      else .ok (verdict (.ofArm a.look.state) a.look.needed a.look.nextLook "" false)

end Verdict

section Arms

lemma lookup_cons_ite (k j : String) (b : ArmReading) (arms : Arms) :
    List.lookup k ((j, b) :: arms) = if k = j then some b else arms.lookup k := by
  by_cases h : k = j
  · simp [h]
  · simp [List.lookup_cons, beq_false_of_ne h, h]

@[simp] lemma lookup_assign (arm k : String) (a : ArmReading) (arms : Arms) :
    (assign arm a arms).lookup k = if k = arm then some a else arms.lookup k := by
  induction arms with
  | nil => simp [assign, lookup_cons_ite]
  | cons p arms ih =>
    obtain ⟨j, b⟩ := p
    simp only [assign]
    by_cases hj : j = arm
    · subst hj
      rw [if_pos rfl, lookup_cons_ite, lookup_cons_ite]
      split_ifs <;> rfl
    · simp only [if_neg hj, lookup_cons_ite, ih]
      split_ifs with hkj hka <;> first | rfl | exact absurd (hkj.symm.trans hka) hj

lemma armAt_eq_ok {arms : Arms} {arm : String} {a : ArmReading} :
    armAt arms arm = .ok a ↔ arms.lookup arm = some a := by
  unfold armAt
  cases arms.lookup arm with
  | none => simp
  | some b => simp

end Arms

section Standing

variable {read : String → ℤ → Except ReadingError ArmReading}

/-- What holds of the hierarchy read so far: the chain is of the arms up to the one it stopped at,
all of them deliver, and that one does not. -/
structure Standing (read : String → ℤ → Except ReadingError ArmReading) (s : Climb)
    (done : List String) : Prop where
  delivers : ∀ arm ∈ s.chain, ∃ a, read arm 0 = .ok a ∧ a.state = .deliver ∧
    (done.Nodup → s.arms.lookup arm = some a)
  order : ∃ before after, done = before ++ after ∧ (∀ b ∈ before, b ≠ "" → b ∈ s.chain) ∧
    (∀ b ∈ s.chain, b ∈ before) ∧ (s.stoppedAt = "" → after = [])
  blocked : s.stoppedAt ≠ "" → ∃ a b, read s.stoppedAt 0 = .ok a ∧ a.state ≠ .deliver ∧
    s.arms.lookup s.stoppedAt = some b ∧ b.state ≠ .deliver
  stoppedBy : ∀ arm a, s.arms.lookup arm = some a → a.stoppedBy ≠ "" → a.stoppedBy = s.stoppedAt

lemma standing_nil : Standing read ⟨[], [], ""⟩ [] where
  delivers := by simp
  order := ⟨[], [], by simp⟩
  blocked := fun h => absurd rfl h
  stoppedBy := by simp

/-- An arm read behind the one the hierarchy stopped at. -/
lemma Standing.behind {s : Climb} {done : List String} (h : Standing read s done)
    (hstop : s.stoppedAt ≠ "") (arm : String) {a : ArmReading} (ha : a.stoppedBy = s.stoppedAt) :
    Standing read { s with arms := assign arm a s.arms } (done ++ [arm]) where
  delivers := fun k hk => by
    obtain ⟨b, hread, hb, hlook⟩ := h.delivers k hk
    refine ⟨b, hread, hb, fun hnd => ?_⟩
    obtain ⟨before, after, hdone, -, hsub, -⟩ := h.order
    have hne : k ≠ arm := fun he => by
      rw [List.nodup_append] at hnd
      exact hnd.2.2 k (hdone ▸ List.mem_append_left _ (hsub k hk)) arm (by simp) he
    simp only [lookup_assign, if_neg hne]
    exact hlook (List.nodup_append.mp hnd).1
  order := by
    obtain ⟨before, after, hdone, hbefore, hsub, -⟩ := h.order
    exact ⟨before, after ++ [arm], by simp [hdone], hbefore, hsub, fun he => absurd he hstop⟩
  blocked := fun _ => by
    obtain ⟨b, c, hread, hb, hlook, hc⟩ := h.blocked hstop
    refine ⟨b, if s.stoppedAt = arm then a else c, hread, hb, ?_, ?_⟩
    · simp only [lookup_assign]
      split_ifs
      · rfl
      · exact hlook
    · split_ifs
      · unfold ArmReading.state
        rw [if_pos (ha ▸ hstop)]
        split_ifs <;> decide
      · exact hc
  stoppedBy := fun k b hk hb => by
    simp only [lookup_assign] at hk
    split_ifs at hk
    · obtain rfl := Option.some.inj hk
      exact ha
    · exact h.stoppedBy k b hk hb

/-- An arm read with no arm stopping it: it joins the chain, or the hierarchy stops at it. -/
lemma Standing.ahead {s : Climb} {done : List String} (h : Standing read s done)
    (hstop : s.stoppedAt = "") {arm : String} {a : ArmReading} (hread : read arm 0 = .ok a)
    (ha : a.stoppedBy = "") :
    Standing read
      (if a.state = .deliver then { s with arms := assign arm a s.arms, chain := s.chain ++ [arm] }
        else { s with arms := assign arm a s.arms, stoppedAt := arm }) (done ++ [arm]) := by
  obtain ⟨before, after, hdone, hbefore, hsub, hafter⟩ := h.order
  obtain rfl := hafter hstop
  rw [List.append_nil] at hdone
  subst hdone
  have hchain : ∀ k ∈ s.chain, ∃ b, read k 0 = .ok b ∧ b.state = .deliver ∧
      ((done ++ [arm]).Nodup → (assign arm a s.arms).lookup k = some b) := fun k hk => by
    obtain ⟨b, hb, hd, hlook⟩ := h.delivers k hk
    refine ⟨b, hb, hd, fun hnd => ?_⟩
    have hne : k ≠ arm := (List.nodup_append.mp hnd).2.2 k (hsub k hk) arm (by simp)
    rw [lookup_assign, if_neg hne]
    exact hlook (List.nodup_append.mp hnd).1
  have hby : ∀ k b, (assign arm a s.arms).lookup k = some b → b.stoppedBy = "" := fun k b hk => by
    rw [lookup_assign] at hk
    split_ifs at hk
    · obtain rfl := Option.some.inj hk
      exact ha
    · exact by_contra fun hb => hb (hstop ▸ h.stoppedBy k b hk hb)
  split_ifs with hd
  · refine ⟨fun k hk => ?_, ⟨done ++ [arm], [], by simp, fun b hb hne => ?_, fun b hb => ?_,
      fun _ => rfl⟩, fun hne => absurd hstop hne, fun k b hk hb => absurd (hby k b hk) hb⟩
    · rcases List.mem_append.mp hk with hk | hk
      · exact hchain k hk
      · obtain rfl := List.mem_singleton.mp hk
        exact ⟨a, hread, hd, fun _ => by simp⟩
    · rcases List.mem_append.mp hb with hb | hb
      · exact List.mem_append_left _ (hbefore b hb hne)
      · exact List.mem_append_right _ hb
    · rcases List.mem_append.mp hb with hb | hb
      · exact List.mem_append_left _ (hsub b hb)
      · exact List.mem_append_right _ hb
  · refine ⟨hchain, ?_, fun hne => ⟨a, a, hread, hd, by simp, hd⟩,
      fun k b hk hb => absurd (hby k b hk) hb⟩
    by_cases harm : arm = ""
    · refine ⟨done ++ [arm], [], by simp, fun b hb hne => ?_, fun b hb => ?_, fun _ => rfl⟩
      · rcases List.mem_append.mp hb with hb | hb
        · exact hbefore b hb hne
        · exact absurd ((List.mem_singleton.mp hb).trans harm) hne
      · exact List.mem_append_left _ (hsub b hb)
    · exact ⟨done, [arm], rfl, hbefore, hsub, fun he => absurd he harm⟩

lemma Standing.step {s s' : Climb} {done : List String} (h : Standing read s done) {arm : String}
    {a : ArmReading} (hread : read arm 0 = .ok a) (ha : a.stoppedBy = "")
    (hs : s.step arm a = .ok s') : Standing read s' (done ++ [arm]) := by
  unfold Climb.step at hs
  by_cases hstop : s.stoppedAt = ""
  · rw [if_neg (not_not.mpr hstop)] at hs
    have hahead := h.ahead hstop hread ha
    split_ifs at hs hahead <;> obtain rfl := Except.ok.inj hs <;> exact hahead
  · rw [if_pos hstop] at hs
    obtain ⟨blocker, -, hret⟩ := bind_eq_ok.mp hs
    obtain rfl := Except.ok.inj hret
    exact h.behind hstop arm rfl

/-- The hierarchy read to its end. -/
lemma Standing.climb (hby : ∀ arm a, read arm 0 = .ok a → a.stoppedBy = "") {s s' : Climb}
    {done hierarchy : List String} (h : Standing read s done)
    (hs : climb read s hierarchy = .ok s') : Standing read s' (done ++ hierarchy) := by
  induction hierarchy generalizing s done with
  | nil =>
    obtain rfl := Except.ok.inj hs
    simpa using h
  | cons arm hierarchy ih =>
    obtain ⟨next, hnext, hs⟩ := bind_eq_ok.mp hs
    obtain ⟨a, ha, hstep⟩ := bind_eq_ok.mp hnext
    simpa using ih (h.step ha (hby arm a ha) hstep) hs

end Standing

section Evaluated

variable {read : String → ℤ → Except ReadingError ArmReading}

lemma lastCertifying_spec {chain : List String} {standard : String}
    (h : lastCertifying chain = .ok standard) (hne : standard ≠ "") :
    standard ∈ chain ∧ certifies standard = .ok true := by
  suffices ∀ start, chain.foldlM (fun standard arm => do
      return if ← certifies arm then arm else standard) start = .ok standard →
      standard = start ∨ standard ∈ chain ∧ certifies standard = .ok true from
    (this "" h).resolve_left hne
  clear h
  induction chain with
  | nil => exact fun start h => .inl (Except.ok.inj h).symm
  | cons arm chain ih =>
    intro start h
    obtain ⟨next, hnext, h⟩ := bind_eq_ok.mp h
    obtain ⟨b, hb, hret⟩ := bind_eq_ok.mp hnext
    obtain rfl := Except.ok.inj hret
    rcases ih _ h with he | ⟨hmem, hc⟩
    · cases b with
      | true =>
        obtain rfl : standard = arm := he
        exact .inr ⟨List.mem_cons_self, hb⟩
      | false => exact .inl he
    · exact .inr ⟨List.mem_cons_of_mem _ hmem, hc⟩

/-- An arm after the descriptive ones are read: as the hierarchy left it, or read as descriptive. -/
lemma lookup_readDescriptive {arms arms' : Arms} {descriptive : List (String × ℤ)}
    (h : readDescriptive read arms descriptive = .ok arms') (arm : String) :
    arms'.lookup arm = arms.lookup arm ∨
      ∃ n a, (arm, n) ∈ descriptive ∧ read arm n = .ok a ∧ arms'.lookup arm = some a := by
  induction descriptive generalizing arms with
  | nil =>
    obtain rfl := Except.ok.inj h
    exact .inl rfl
  | cons d descriptive ih =>
    obtain ⟨next, hnext, h⟩ := bind_eq_ok.mp h
    obtain ⟨a, ha, hret⟩ := bind_eq_ok.mp hnext
    obtain rfl := Except.ok.inj hret
    rcases ih h with he | ⟨n, b, hmem, hb, hlook⟩
    · rw [lookup_assign] at he
      split_ifs at he with hd
      · subst hd
        exact .inr ⟨d.2, a, List.mem_cons_self, ha, he⟩
      · exact .inl he
    · exact .inr ⟨n, b, List.mem_cons_of_mem _ hmem, hb, hlook⟩

/-- What an evaluated reading holds: its hierarchy, its descriptive arms and its standard. -/
lemma evaluateWith_eq_ok {r : Reading N} {o : ReadingOutcome N} (h : evaluateWith read r = .ok o) :
    ∃ climbed standard, climb read ⟨[], [], ""⟩ r.hierarchy = .ok climbed ∧
      readDescriptive read climbed.arms r.descriptive = .ok o.arms ∧
      lastCertifying climbed.chain = .ok standard ∧ o.reading = r ∧ o.chain = climbed.chain ∧
      o.standard = if r.poolDrift ≠ [] then "" else standard := by
  obtain ⟨climbed, hclimbed, h⟩ := bind_eq_ok.mp h
  obtain ⟨arms, harms, h⟩ := bind_eq_ok.mp h
  obtain ⟨standard, hstandard, h⟩ := bind_eq_ok.mp h
  refine ⟨climbed, standard, hclimbed, ?_⟩
  split_ifs at h ⊢
  · obtain rfl := Except.ok.inj h
    exact ⟨harms, hstandard, rfl, rfl, rfl⟩
  · obtain rfl := Except.ok.inj h
    exact ⟨harms, hstandard, rfl, rfl, rfl⟩
  · obtain ⟨state, -, hret⟩ := bind_eq_ok.mp h
    obtain rfl := Except.ok.inj hret
    exact ⟨harms, hstandard, rfl, rfl, rfl⟩

/-- An arm told to deliver: it delivers and is the standard, or it is behind an arm that does. -/
lemma verdictFor_deliver {o : ReadingOutcome N} {arm : String} {v : ArmVerdict}
    (h : verdictFor (some o) arm = .ok v) (hd : v.state = .ofArm .deliver) :
    o.reading.poolDrift = [] ∧ ∃ a, o.arms.lookup arm = some a ∧
      ((a.stoppedBy ≠ "" ∧ ∃ b, o.arms.lookup a.stoppedBy = some b ∧ b.state = .deliver) ∨
        (arm = o.standard ∧ ∃ p, parseArm arm = some p)) := by
  simp only [verdictFor] at h
  split at h
  · obtain rfl := Except.ok.inj h
    cases hd
  · rename_i a ha
    by_cases hdrift : o.reading.poolDrift ≠ []
    · rw [if_pos hdrift] at h
      obtain rfl := Except.ok.inj h
      cases hd
    refine ⟨not_not.mp hdrift, a, ha, ?_⟩
    rw [if_neg hdrift] at h
    split_ifs at h with hfault hdesc hstop hlook hstandard
    · obtain rfl := Except.ok.inj h
      cases hd
    · obtain rfl := Except.ok.inj h
      cases hd
    · obtain ⟨b, hb, hret⟩ := bind_eq_ok.mp h
      obtain rfl := Except.ok.inj hret
      exact .inl ⟨hstop, b, armAt_eq_ok.mp hb, VerdictState.ofArm.inj hd⟩
    · split at h
      · cases h
      · split_ifs at h <;> obtain rfl := Except.ok.inj h <;> cases hd
    · split at h
      · cases h
      · rename_i p hp
        exact .inr ⟨not_not.mp hstandard, p, hp⟩
    · obtain rfl := Except.ok.inj h
      exact absurd (VerdictState.ofArm.inj hd) hlook

/-- The arm named `arm` delivers, and the outcome says so where no arm is named twice. -/
def Delivers (read : String → ℤ → Except ReadingError ArmReading) (o : ReadingOutcome N)
    (arm : String) : Prop :=
  ∃ a, read arm 0 = .ok a ∧ a.state = .deliver ∧
    (o.reading.arms.Nodup → o.arms.lookup arm = some a)

/-- The hierarchy fold: an arm is told to deliver only if it certifies, is the standard, and it and
every arm before it deliver. -/
theorem evaluateWith_deliver
    (hread : ∀ arm n a, read arm n = .ok a → a.stoppedBy = "" ∧ (n ≠ 0 → a.descriptive = true))
    {r : Reading N} {o : ReadingOutcome N} (ho : evaluateWith read r = .ok o) {arm : String}
    {v : ArmVerdict} (hv : verdictFor (some o) arm = .ok v) (hd : v.state = .ofArm .deliver) :
    r.poolDrift = [] ∧ arm = o.standard ∧ certifies arm = .ok true ∧ Delivers read o arm ∧
      ∃ before after, r.hierarchy = before ++ arm :: after ∧
        ∀ b ∈ before, b ≠ "" → Delivers read o b := by
  obtain ⟨climbed, standard, hclimbed, hdesc, hstandard, rfl, -, hos⟩ := evaluateWith_eq_ok ho
  obtain ⟨hdrift, a, ha, hcase⟩ := verdictFor_deliver hv hd
  have hst := standing_nil.climb (fun arm a h => (hread arm 0 a h).1) hclimbed
  rw [List.nil_append] at hst
  rw [if_neg (not_not.mpr hdrift)] at hos
  have hdelivers : ∀ k ∈ climbed.chain, Delivers read o k := fun k hk => by
    obtain ⟨b, hb, hbd, hlook⟩ := hst.delivers k hk
    refine ⟨b, hb, hbd, fun hnd => ?_⟩
    obtain ⟨hnd, -, hdisj⟩ := List.nodup_append.mp hnd
    rcases lookup_readDescriptive hdesc k with he | ⟨n, -, hmem, -⟩
    · exact he.trans (hlook hnd)
    · obtain ⟨before, after, hdone, -, hsub, -⟩ := hst.order
      exact absurd rfl (hdisj k (hdone ▸ List.mem_append_left _ (hsub k hk)) k
        (List.mem_map.mpr ⟨_, hmem, rfl⟩))
  rcases hcase with ⟨hby, b, hb, hbd⟩ | ⟨harm, p, hp⟩
  · exfalso
    -- the arm in front is the one the hierarchy stopped at, and it does not deliver
    have hstop : a.stoppedBy = climbed.stoppedAt := by
      rcases lookup_readDescriptive hdesc arm with he | ⟨n, c, -, hc, hlook⟩
      · exact hst.stoppedBy arm a (he ▸ ha) hby
      · obtain rfl : c = a := Option.some.inj (hlook.symm.trans ha)
        exact absurd (hread arm n c hc).1 hby
    obtain ⟨c, d, hc, hcd, hd', hdd⟩ := hst.blocked (hstop ▸ hby)
    rw [hstop] at hb
    rcases lookup_readDescriptive hdesc climbed.stoppedAt with he | ⟨n, e, -, he, hlook⟩
    · obtain rfl : d = b := Option.some.inj (hd'.symm.trans (he.symm.trans hb))
      exact hdd hbd
    · obtain rfl : e = b := Option.some.inj (hlook.symm.trans hb)
      by_cases hn : n = 0
      · subst hn
        obtain rfl : c = e := Except.ok.inj (hc.symm.trans he)
        exact hcd hbd
      · obtain ⟨hnone, hdescr⟩ := hread _ n e he
        unfold ArmReading.state at hbd
        rw [if_neg (not_not.mpr hnone)] at hbd
        split_ifs at hbd with h₁ h₂
        exact h₂ (hdescr hn)
  · have hne : standard ≠ "" := fun he => by
      rw [harm, hos, he] at hp
      have hempty : parseArm "" = none := by rfl
      exact absurd (hempty.symm.trans hp) nofun
    obtain ⟨hmem, hcert⟩ := lastCertifying_spec hstandard hne
    have harm' : arm = standard := harm.trans hos
    subst harm'
    refine ⟨hdrift, harm, hcert, hdelivers _ hmem, ?_⟩
    obtain ⟨before, after, hdone, hbefore, hsub, -⟩ := hst.order
    obtain ⟨l₁, l₂, rfl⟩ := List.append_of_mem (hsub _ hmem)
    exact ⟨l₁, l₂ ++ after, by simp [hdone], fun b hb hbne =>
      hdelivers b (hbefore b (List.mem_append_left _ hb) hbne)⟩

end Evaluated

end CommitReplay.ReadingHierarchy
