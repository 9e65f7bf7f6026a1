import CommitReplay.ReadingArms

/-! A replayed arm under the first-observed rule: each commit is read by its first observed attempt,
a harness failure is run again, and a commit the instrument cannot grade leaves the pool. -/
namespace CommitReplay.ReadingReplay

open CommitReplay.JsonText CommitReplay.RowChecks CommitReplay.LookRule CommitReplay.ReadingRows
open CommitReplay.ReadingRecord CommitReplay.ReadingArms

variable {F N : Type} [PyFloat F]

/-- The attempts of one commit, read up to the one that decides it. -/
structure Attempts (F : Type) where
  observed : Option (Row F)
  unobserved : List Left
  read : ℕ

def readAttempts (maxReruns : ℤ) (unobserved : List Left) (read : ℕ) : List (Row F) → Attempts F
  | [] => ⟨none, unobserved, read⟩
  | row :: rows =>
    if maxReruns < unobserved.length then ⟨none, unobserved, read⟩
    else if row.goldRed then ⟨none, List.replicate (maxReruns + 1).toNat .goldNotClean, read + 1⟩
    else if row.hasFailureKind "outage" then readAttempts maxReruns unobserved (read + 1) rows
    else if row.hasFailureKind "harness" then
      readAttempts maxReruns (unobserved ++ [.harness]) (read + 1) rows
    else ⟨some row, unobserved, read + 1⟩

lemma observed_readAttempts {maxReruns : ℤ} {unobserved : List Left} {read : ℕ}
    {rows : List (Row F)} {row : Row F}
    (h : (readAttempts maxReruns unobserved read rows).observed = some row) : row ∈ rows := by
  induction rows generalizing unobserved read with
  | nil => cases h
  | cons first rows ih =>
    rw [readAttempts] at h
    split_ifs at h
    · exact List.mem_cons_of_mem _ (ih h)
    · exact List.mem_cons_of_mem _ (ih h)
    · exact List.mem_cons.mpr (.inl (Option.some.inj h).symm)

/-- What the attempts of a commit say of it. -/
def ofAttempts (maxReruns : ℤ) (commit change : String) (a : Attempts F) :
    Except ReadingError CommitReading :=
  match a.observed with
  | some row =>
    if row.lintCouldChange then
      .ok ⟨commit, change, none, some .lintDisabled, row.rowHash, none, none⟩
    else .ok ⟨commit, change, some (row.clean && !row.disqualified), none, row.rowHash, none, none⟩
  | none =>
    if maxReruns < a.unobserved.length then
      match a.unobserved.getLast? with
      | some why => .ok ⟨commit, change, none, some why, "", none, none⟩
      | none => .error .indexError
    else .ok ⟨commit, change, none, none, "", none, none⟩

/-- What is in the result of a map with errors came of one of the elements. -/
lemma mem_of_mapM_ok {α β ε : Type} {f : α → Except ε β} {xs : List α} {ys : List β}
    (h : xs.mapM f = .ok ys) {y : β} (hy : y ∈ ys) : ∃ x ∈ xs, f x = .ok y := by
  induction xs generalizing ys with
  | nil =>
    obtain rfl := Except.ok.inj h
    cases hy
  | cons x xs ih =>
    rw [List.mapM_cons] at h
    obtain ⟨z, hz, h⟩ := bind_eq_ok.mp h
    obtain ⟨zs, hzs, h⟩ := bind_eq_ok.mp h
    obtain rfl := Except.ok.inj h
    rcases List.mem_cons.mp hy with rfl | hy
    · exact ⟨x, List.mem_cons_self, hz⟩
    · obtain ⟨x', hx', hf⟩ := ih hzs hy
      exact ⟨x', List.mem_cons_of_mem _ hx', hf⟩

lemma mapM_isOk {α β ε : Type} {f : α → Except ε β} {xs : List α}
    (h : ∀ x ∈ xs, ∃ y, f x = .ok y) : ∃ ys, xs.mapM f = .ok ys := by
  induction xs with
  | nil => exact ⟨[], rfl⟩
  | cons x xs ih =>
    obtain ⟨y, hy⟩ := h x List.mem_cons_self
    obtain ⟨ys, hys⟩ := ih fun x hx => h x (List.mem_cons_of_mem _ hx)
    exact ⟨y :: ys, by rw [List.mapM_cons, hy, hys]; rfl⟩

lemma exists_of_mapM_ok {α β ε : Type} {f : α → Except ε β} {xs : List α} {ys : List β}
    (h : xs.mapM f = .ok ys) {x : α} (hx : x ∈ xs) : ∃ y ∈ ys, f x = .ok y := by
  induction xs generalizing ys with
  | nil => cases hx
  | cons x' xs ih =>
    rw [List.mapM_cons] at h
    obtain ⟨y, hy, h⟩ := bind_eq_ok.mp h
    obtain ⟨rest, hrest, h⟩ := bind_eq_ok.mp h
    obtain rfl := Except.ok.inj h
    rcases List.mem_cons.mp hx with rfl | hx
    · exact ⟨y, List.mem_cons_self, hy⟩
    · obtain ⟨y', hy', hf⟩ := ih hrest hx
      exact ⟨y', List.mem_cons_of_mem _ hy', hf⟩

variable (parseTs : String → Option ℤ)

/-- The rows of the pool's commits, of admitted runs, each with why the arm does not read it. -/
def eligibleRows (r : Reading N) (arm : String) (rows : List (Row F)) :
    Except ReadingError (List (Row F × Option ScopeMiss)) :=
  (rows.filter fun row => row.str .taskId ∈ r.pool && admittedRun r row).mapM fun row => do
    return (row, ← scopeMiss parseTs r arm row)

def rowsOf (eligible : List (Row F × Option ScopeMiss)) (miss : Option ScopeMiss)
    (commit : String) : List (Row F) :=
  (eligible.filter fun p => p.2 = miss && p.1.str .taskId = commit).map Prod.fst

/-- The recorded change of a commit: the registered one, or the first its rows name. -/
def changeOfRows (r : Reading N) (commit : String) (rows : List (Row F)) : String :=
  if r.changes.get commit ≠ "" then r.changes.get commit
  else ((rows.map Row.changeId).find? (· ≠ "")).getD commit

/-- One commit of the pool whose change is new, with how many of its rows are never read. -/
def readCommit (r : Reading N) (eligible : List (Row F × Option ScopeMiss)) (commit : String) :
    Except ReadingError (CommitReading × ℕ) :=
  let rows := rowsOf eligible none commit
  let change := changeOfRows r commit rows
  match rowsOf eligible (some .unsealed) commit with
  | row :: _ =>
    .ok (⟨commit, change, none, none, row.rowHash, some .scopeFault, some .unsealed⟩, 0)
  | [] => do
    let attempts := readAttempts r.maxReruns [] 0 rows
    return (← ofAttempts r.maxReruns commit change attempts, rows.length - attempts.read)

/-- The pool in order; a commit of a change seen before leaves it. -/
def readPool (r : Reading N) (eligible : List (Row F × Option ScopeMiss)) (seen : List String) :
    List String → Except ReadingError (List (CommitReading × ℕ))
  | [] => .ok []
  | commit :: pool => do
    let change := changeOfRows r commit (rowsOf eligible none commit)
    if change ∈ seen then
      let rest ← readPool r eligible seen pool
      return (⟨commit, change, none, some .sameChange, "", none, none⟩, 0) :: rest
    else
      let first ← readCommit r eligible commit
      let rest ← readPool r eligible (change :: seen) pool
      return first :: rest

def armReplay (r : Reading N) (arm : String) (rows : List (Row F)) (limit : ℤ) :
    Except ReadingError ArmReading := do
  let eligible ← eligibleRows parseTs r arm rows
  let read ← readPool r eligible [] r.pool
  let commits := read.map Prod.fst
  let kept := (commits.filter (·.left = none)).map CommitReading.outcome
  let look ← armLook (if limit ≠ 0 then pyTake limit kept else kept) r.rule limit false
  return { arm, look, commits, descriptive := limit ≠ 0, stoppedBy := "", waiting := false, limit
           scopeFaults := (commits.filter (·.reason = some .scopeFault)).map CommitReading.commit
           unsealedDropped := (eligible.filter (·.2 = some .unsealed)).length
           duplicateCommits := (read.map Prod.snd).sum }

section Pool

variable {parseTs} {r : Reading N} {arm : String} {rows : List (Row F)}
  {eligible : List (Row F × Option ScopeMiss)}

omit [PyFloat F] in
/-- A row with an answer is a row of the input, of an admitted run, with that answer. -/
lemma mem_eligibleRows (h : eligibleRows parseTs r arm rows = .ok eligible)
    {p : Row F × Option ScopeMiss} (hp : p ∈ eligible) :
    p.1 ∈ rows ∧ admittedRun r p.1 = true ∧ scopeMiss parseTs r arm p.1 = .ok p.2 := by
  obtain ⟨row, hrow, hans⟩ := mem_of_mapM_ok h hp
  obtain ⟨miss, hmiss, hret⟩ := bind_eq_ok.mp hans
  obtain rfl := Except.ok.inj hret
  obtain ⟨hmem, hc⟩ := List.mem_filter.mp hrow
  simp only [Bool.and_eq_true, decide_eq_true_eq] at hc
  exact ⟨hmem, hc.2, hmiss⟩

omit [PyFloat F] in
lemma mem_rowsOf {miss : Option ScopeMiss} {commit : String} {row : Row F}
    (h : row ∈ rowsOf eligible miss commit) : (row, miss) ∈ eligible ∧ row.str .taskId = commit := by
  obtain ⟨p, hp, rfl⟩ := List.mem_map.mp h
  obtain ⟨hmem, hc⟩ := List.mem_filter.mp hp
  simp only [Bool.and_eq_true, decide_eq_true_eq] at hc
  exact ⟨hc.1 ▸ hmem, hc.2⟩

/-- A commit read as a hit has a clean row that belt 5 could not have changed. -/
def HitWitnessed (eligible : List (Row F × Option ScopeMiss)) (c : CommitReading) : Prop :=
  c.outcome = some true → ∃ row, (row, none) ∈ eligible ∧ row.str .taskId = c.commit ∧
    row.clean = true ∧ row.disqualified = false ∧ row.lintCouldChange = false

lemma readCommit_spec {commit : String} {c : CommitReading} {d : ℕ}
    (h : readCommit r eligible commit = .ok (c, d)) :
    c.commit = commit ∧ c.change = changeOfRows r commit (rowsOf eligible none commit) ∧
      HitWitnessed eligible c := by
  simp only [readCommit] at h
  split at h
  · obtain ⟨rfl, -⟩ := Prod.mk.inj (Except.ok.inj h)
    exact ⟨rfl, rfl, nofun⟩
  · obtain ⟨read, hread, hret⟩ := bind_eq_ok.mp h
    obtain ⟨rfl, -⟩ := Prod.mk.inj (Except.ok.inj hret)
    unfold ofAttempts at hread
    split at hread
    · rename_i row hobs
      obtain ⟨hmem, htask⟩ := mem_rowsOf (observed_readAttempts hobs)
      split_ifs at hread with hlint <;> obtain rfl := Except.ok.inj hread
      · exact ⟨rfl, rfl, nofun⟩
      · refine ⟨rfl, rfl, fun hhit => ⟨row, hmem, htask, ?_⟩⟩
        have hclean := Option.some.inj hhit
        simp only [Bool.and_eq_true, Bool.not_eq_true'] at hclean
        exact ⟨hclean.1, hclean.2, by simpa using hlint⟩
    · split_ifs at hread
      · split at hread
        · obtain rfl := Except.ok.inj hread
          exact ⟨rfl, rfl, nofun⟩
        · cases hread
      · obtain rfl := Except.ok.inj hread
        exact ⟨rfl, rfl, nofun⟩

/-- The commits kept in the pool have changes not seen before and different from one another, and
each hit among them has its row. -/
lemma readPool_spec {seen pool : List String} {read : List (CommitReading × ℕ)}
    (h : readPool r eligible seen pool = .ok read) :
    ((read.map Prod.fst).filter (·.left = none)).Pairwise (fun c c' => c.change ≠ c'.change) ∧
      ∀ c ∈ (read.map Prod.fst).filter (·.left = none), c.change ∉ seen ∧
        c.change = changeOfRows r c.commit (rowsOf eligible none c.commit) ∧
        HitWitnessed eligible c := by
  induction pool generalizing seen read with
  | nil =>
    obtain rfl := Except.ok.inj h
    simp
  | cons commit pool ih =>
    simp only [readPool] at h
    split_ifs at h with hseen
    · obtain ⟨rest, hrest, hret⟩ := bind_eq_ok.mp h
      obtain rfl := Except.ok.inj hret
      simpa using ih hrest
    · obtain ⟨⟨first, d⟩, hfirst, h'⟩ := bind_eq_ok.mp h
      obtain ⟨rest, hrest, hret⟩ := bind_eq_ok.mp h'
      obtain rfl := Except.ok.inj hret
      obtain ⟨hcommit, hchange, hhit⟩ := readCommit_spec hfirst
      obtain ⟨hpair, hall⟩ := ih hrest
      have hrest' : ∀ c ∈ (rest.map Prod.fst).filter (·.left = none), c.change ∉ seen ∧
          c.change = changeOfRows r c.commit (rowsOf eligible none c.commit) ∧
          HitWitnessed eligible c := fun c hc =>
        ⟨fun hin => (hall c hc).1 (List.mem_cons_of_mem _ hin), (hall c hc).2⟩
      rw [List.map_cons, List.filter_cons]
      split_ifs with hleft
      · refine ⟨List.pairwise_cons.mpr ⟨fun c hc he => (hall c hc).1 ?_, hpair⟩, fun c hc => ?_⟩
        · rw [← he, hchange]
          exact List.mem_cons_self
        · rcases List.mem_cons.mp hc with rfl | hc
          · exact ⟨by rw [hchange]; exact hseen, by rw [hcommit]; exact hchange, hhit⟩
          · exact hrest' c hc
      · exact ⟨hpair, hrest'⟩

/-- The commits of an arm are the pool's, in its order. -/
lemma commit_readPool {seen pool : List String} {read : List (CommitReading × ℕ)}
    (h : readPool r eligible seen pool = .ok read) :
    (read.map Prod.fst).map CommitReading.commit = pool := by
  induction pool generalizing seen read with
  | nil =>
    obtain rfl := Except.ok.inj h
    rfl
  | cons commit pool ih =>
    simp only [readPool] at h
    split_ifs at h
    · obtain ⟨rest, hrest, hret⟩ := bind_eq_ok.mp h
      obtain rfl := Except.ok.inj hret
      simp only [List.map_cons, ih hrest]
    · obtain ⟨⟨first, d⟩, hfirst, h⟩ := bind_eq_ok.mp h
      obtain ⟨rest, hrest, hret⟩ := bind_eq_ok.mp h
      obtain rfl := Except.ok.inj hret
      simp only [List.map_cons, ih hrest, (readCommit_spec hfirst).1]

/-- What an arm is, once read. -/
theorem armReplay_spec {limit : ℤ} {a : ArmReading}
    (h : armReplay parseTs r arm rows limit = .ok a) :
    a.stoppedBy = "" ∧ a.descriptive = decide (limit ≠ 0) ∧ a.limit = limit ∧
      (limit = 0 → lookState (a.kept.map CommitReading.outcome) r.rule false = .ok a.look) ∧
      a.scopeFaults = (a.commits.filter (·.reason = some .scopeFault)).map CommitReading.commit ∧
      ∃ eligible read, eligibleRows parseTs r arm rows = .ok eligible ∧
        readPool r eligible [] r.pool = .ok read ∧ a.commits = read.map Prod.fst := by
  obtain ⟨eligible, heligible, h⟩ := bind_eq_ok.mp h
  obtain ⟨read, hread, h⟩ := bind_eq_ok.mp h
  obtain ⟨look, hlook, h⟩ := bind_eq_ok.mp h
  obtain rfl := Except.ok.inj h
  refine ⟨rfl, rfl, rfl, fun hlimit => ?_, rfl, eligible, read, heligible, hread, rfl⟩
  subst hlimit
  exact hlook

/-- A hierarchy arm is read where its rows, its pool and its look are. -/
lemma armReplay_isOk {read : List (CommitReading × ℕ)} {look : LookState}
    (heligible : eligibleRows parseTs r arm rows = .ok eligible)
    (hread : readPool r eligible [] r.pool = .ok read)
    (hlook : lookState (((read.map Prod.fst).filter (·.left = none)).map CommitReading.outcome)
      r.rule false = .ok look) :
    ∃ a, armReplay parseTs r arm rows 0 = .ok a ∧ a.look = look ∧
      a.commits = read.map Prod.fst := by
  simp only [armReplay, heligible, hread, bind, Except.bind, armLook]
  rw [if_neg (by simp), if_neg (by simp), hlook]
  exact ⟨_, rfl, rfl, rfl⟩

end Pool

end CommitReplay.ReadingReplay
