import CommitReplay.ReadingHierarchy

/-! What rows appended to a ledger can do to a replayed arm that has decided. The commits counted keep
their outcomes, and the arm its state, as long as no row comes that the arm cannot read. -/
namespace CommitReplay.ReplayStability

open CommitReplay.PythonText CommitReplay.JsonText CommitReplay.JsonRoundTrip
open CommitReplay.RowChecks CommitReplay.GradeRows CommitReplay.LookRule
open CommitReplay.ReadingRows CommitReplay.ReadingRecord CommitReplay.ReadingArms
open CommitReplay.ReadingReplay CommitReplay.ReadingHierarchy

variable {F N : Type}

section Attempts

variable [PyFloat F]

/-- Attempts that decided their commit are read no further. -/
lemma readAttempts_append {maxReruns : ℤ} {unobserved : List Left} {read : ℕ}
    {rows added : List (Row F)}
    (h : (readAttempts maxReruns unobserved read rows).observed ≠ none ∨
      maxReruns < (readAttempts maxReruns unobserved read rows).unobserved.length) :
    readAttempts maxReruns unobserved read (rows ++ added) =
      readAttempts maxReruns unobserved read rows := by
  induction rows generalizing unobserved read with
  | nil =>
    have hlt : maxReruns < unobserved.length := h.resolve_left fun hne => hne rfl
    cases added with
    | nil => rfl
    | cons row added => simp only [List.nil_append, readAttempts, if_pos hlt]
  | cons row rows ih =>
    simp only [List.cons_append, readAttempts] at h ⊢
    split_ifs at h ⊢
    · rfl
    · rfl
    · exact ih h
    · exact ih h
    · rfl

lemma readAttempts_of_neg {maxReruns : ℤ} (h : maxReruns < 0) (rows : List (Row F)) :
    readAttempts maxReruns [] 0 rows = ⟨none, [], 0⟩ := by
  cases rows with
  | nil => rfl
  | cons row rows => simp [readAttempts, h]

end Attempts

section Commits

variable [PyFloat F] {r : Reading N} {eligible added : List (Row F × Option ScopeMiss)}
  {commit : String}

omit [PyFloat F] in
lemma rowsOf_append (miss : Option ScopeMiss) (commit : String) :
    rowsOf (eligible ++ added) miss commit =
      rowsOf eligible miss commit ++ rowsOf added miss commit := by
  simp only [rowsOf, List.filter_append, List.map_append]

lemma ofAttempts_isOk {maxReruns : ℤ} (hm : 0 ≤ maxReruns) (commit change : String)
    (a : Attempts F) : ∃ c, ofAttempts maxReruns commit change a = .ok c := by
  unfold ofAttempts
  split
  · split_ifs <;> exact ⟨_, rfl⟩
  · split_ifs with hlt
    · split
      · exact ⟨_, rfl⟩
      · rename_i hnone
        rw [List.getLast?_eq_none_iff.mp hnone] at hlt
        simp at hlt
        omega
    · exact ⟨_, rfl⟩

lemma readCommit_isOk (hm : 0 ≤ r.maxReruns) (eligible : List (Row F × Option ScopeMiss))
    (commit : String) : ∃ c, readCommit r eligible commit = .ok c := by
  simp only [readCommit]
  split
  · exact ⟨_, rfl⟩
  · obtain ⟨c, hc⟩ := ofAttempts_isOk hm commit
      (changeOfRows r commit (rowsOf eligible none commit))
      (readAttempts r.maxReruns [] 0 (rowsOf eligible none commit))
    exact ⟨_, by rw [hc]; rfl⟩

/-- A commit that left or was observed had its attempts read to the one that decided it. -/
lemma readCommit_decided {c : CommitReading} {d : ℕ}
    (h : readCommit r eligible commit = .ok (c, d)) (hc : c.left ≠ none ∨ c.outcome ≠ none) :
    0 ≤ r.maxReruns ∧ rowsOf eligible (some .unsealed) commit = [] ∧
      rowsOf eligible none commit ≠ [] ∧
      ((readAttempts r.maxReruns [] 0 (rowsOf eligible none commit)).observed ≠ none ∨
        r.maxReruns <
          (readAttempts r.maxReruns [] 0 (rowsOf eligible none commit)).unobserved.length) := by
  simp only [readCommit] at h
  split at h
  · obtain ⟨rfl, -⟩ := Prod.mk.inj (Except.ok.inj h)
    simp at hc
  rename_i hunsealed
  obtain ⟨read, hread, hret⟩ := bind_eq_ok.mp h
  obtain ⟨rfl, -⟩ := Prod.mk.inj (Except.ok.inj hret)
  have hdecided : (readAttempts r.maxReruns [] 0 (rowsOf eligible none commit)).observed ≠ none ∨
      r.maxReruns <
        (readAttempts r.maxReruns [] 0 (rowsOf eligible none commit)).unobserved.length := by
    by_contra hn
    push Not at hn
    rw [ofAttempts, hn.1] at hread
    simp only [if_neg (not_lt.mpr hn.2)] at hread
    obtain rfl := Except.ok.inj hread
    simp at hc
  have hm : 0 ≤ r.maxReruns := by
    by_contra hneg
    rw [not_le] at hneg
    rw [readAttempts_of_neg hneg, ofAttempts] at hread
    simp [hneg] at hread
  refine ⟨hm, hunsealed, fun hnil => ?_, hdecided⟩
  rw [hnil] at hdecided
  simp [readAttempts] at hdecided
  omega

end Commits

section Changes

variable [PyFloat F] {r : Reading N} {eligible added : List (Row F × Option ScopeMiss)}

/-- The change of a commit among these rows. -/
def changeIn (r : Reading N) (eligible : List (Row F × Option ScopeMiss)) (commit : String) : String :=
  changeOfRows r commit (rowsOf eligible none commit)

/-- The change of a commit is registered, or one of these rows is of it. -/
def Recorded (r : Reading N) (eligible : List (Row F × Option ScopeMiss)) (commit : String) : Prop :=
  r.changes.get commit ≠ "" ∨ rowsOf eligible none commit ≠ []

/-- The rows name their changes, and no commit's change is another commit that has none. -/
structure ChangesNamed (r : Reading N) (eligible : List (Row F × Option ScopeMiss)) : Prop where
  named : ∀ p ∈ eligible, p.2 = none → p.1.changeId ≠ ""
  apart : ∀ c ∈ r.pool, ∀ d ∈ r.pool, c ≠ d → changeIn r eligible c = d → Recorded r eligible d

omit [PyFloat F] in
lemma changeIn_of_not_recorded {commit : String} (h : ¬ Recorded r eligible commit) :
    changeIn r eligible commit = commit := by
  simp only [Recorded, not_or, not_not] at h
  simp [changeIn, changeOfRows, h.1, h.2]

omit [PyFloat F] in
/-- A recorded change is not moved by more rows. -/
lemma ChangesNamed.changeIn_append (h : ChangesNamed r eligible) {commit : String}
    (hc : Recorded r eligible commit) :
    changeIn r (eligible ++ added) commit = changeIn r eligible commit := by
  unfold changeIn changeOfRows
  split_ifs with hreg
  · rfl
  · rw [rowsOf_append]
    cases hrows : rowsOf eligible none commit with
    | nil => exact absurd (hc.resolve_left (not_not.mpr (not_not.mp hreg))) (not_not.mpr hrows)
    | cons row rows =>
      have hrow := h.named _ (mem_rowsOf (hrows ▸ List.mem_cons_self)).1 rfl
      simp [hrow]

omit [PyFloat F] in
/-- Commits of one change stay commits of one change. -/
lemma ChangesNamed.changeIn_congr (h : ChangesNamed r eligible) {c d : String} (hc : c ∈ r.pool)
    (hd : d ∈ r.pool) (he : changeIn r eligible c = changeIn r eligible d) :
    changeIn r (eligible ++ added) c = changeIn r (eligible ++ added) d := by
  by_cases hcd : c = d
  · rw [hcd]
  by_cases hrc : Recorded r eligible c
  · by_cases hrd : Recorded r eligible d
    · rw [h.changeIn_append hrc, h.changeIn_append hrd, he]
    · rw [changeIn_of_not_recorded hrd] at he
      exact absurd (h.apart c hc d hd hcd he) hrd
  · rw [changeIn_of_not_recorded hrc] at he
    exact absurd (h.apart d hd c hc (Ne.symm hcd) he.symm) hrc

end Changes

section Pool

variable [PyFloat F] {r : Reading N} {eligible added : List (Row F × Option ScopeMiss)}

/-- No commit was read by a row the arm cannot read. -/
def Faultless (read : List (CommitReading × ℕ)) : Prop :=
  ∀ p ∈ read, p.1.reason ≠ some .scopeFault

/-- The commits kept in the pool. -/
def keptOf (read : List (CommitReading × ℕ)) : List CommitReading :=
  (read.map Prod.fst).filter (·.left = none)

lemma reason_readCommit {commit : String} {c : CommitReading} {d : ℕ}
    (h : readCommit r eligible commit = .ok (c, d)) :
    c.reason = some .scopeFault ↔ rowsOf eligible (some .unsealed) commit ≠ [] := by
  simp only [readCommit] at h
  split at h
  · rename_i row rows hrows
    obtain ⟨rfl, -⟩ := Prod.mk.inj (Except.ok.inj h)
    simp [hrows]
  · rename_i hrows
    obtain ⟨read, hread, hret⟩ := bind_eq_ok.mp h
    obtain ⟨rfl, -⟩ := Prod.mk.inj (Except.ok.inj hret)
    have hreason : read.reason = none := by
      unfold ofAttempts at hread
      split at hread
      · split_ifs at hread <;> obtain rfl := Except.ok.inj hread <;> rfl
      · split_ifs at hread
        · split at hread
          · obtain rfl := Except.ok.inj hread
            rfl
          · cases hread
        · obtain rfl := Except.ok.inj hread
          rfl
    simp [hreason, hrows]

/-- A decided commit is read the same among more rows. -/
lemma ChangesNamed.readCommit_append (hn : ChangesNamed r eligible)
    (hsealed : ∀ c, rowsOf added (some .unsealed) c = []) {commit : String} {c : CommitReading}
    {d : ℕ} (h : readCommit r eligible commit = .ok (c, d))
    (hc : c.left ≠ none ∨ c.outcome ≠ none) :
    (∃ d', readCommit r (eligible ++ added) commit = .ok (c, d')) ∧
      changeIn r (eligible ++ added) commit = changeIn r eligible commit := by
  obtain ⟨-, hunsealed, hrows, hdecided⟩ := readCommit_decided h hc
  have hchange : changeIn r (eligible ++ added) commit = changeIn r eligible commit :=
    hn.changeIn_append (.inr hrows)
  refine ⟨?_, hchange⟩
  unfold changeIn at hchange
  simp only [readCommit, rowsOf_append, hsealed, hunsealed, List.append_nil] at h hchange ⊢
  rw [hchange, readAttempts_append hdecided]
  obtain ⟨read, hread, hret⟩ := bind_eq_ok.mp h
  obtain ⟨rfl, -⟩ := Prod.mk.inj (Except.ok.inj hret)
  exact ⟨_, by rw [hread]; rfl⟩

/-- Behind a decision the pool is still read, and no row appears that the arm cannot read. -/
lemma ChangesNamed.readPool_faultless (hn : ChangesNamed r eligible) (hm : 0 ≤ r.maxReruns)
    (hsealed : ∀ c, rowsOf added (some .unsealed) c = []) {seen seen' pool : List String}
    (hpool : ∀ c ∈ pool, c ∈ r.pool)
    (hseen : ∀ c ∈ r.pool, changeIn r eligible c ∈ seen →
      changeIn r (eligible ++ added) c ∈ seen')
    {read : List (CommitReading × ℕ)} (h : readPool r eligible seen pool = .ok read)
    (hf : Faultless read) :
    ∃ read', readPool r (eligible ++ added) seen' pool = .ok read' ∧ Faultless read' := by
  induction pool generalizing seen seen' read with
  | nil => exact ⟨[], rfl, by simp [Faultless]⟩
  | cons commit pool ih =>
    have hcommit : commit ∈ r.pool := hpool commit List.mem_cons_self
    have hpool' : ∀ c ∈ pool, c ∈ r.pool := fun c hc => hpool c (List.mem_cons_of_mem _ hc)
    have hgrow : ∀ {seen'' : List String}, (∀ c ∈ r.pool, changeIn r eligible c ∈ seen →
        changeIn r (eligible ++ added) c ∈ seen'') →
        changeIn r (eligible ++ added) commit ∈ seen'' →
        ∀ c ∈ r.pool, changeIn r eligible c ∈ changeIn r eligible commit :: seen →
          changeIn r (eligible ++ added) c ∈ seen'' := fun hold hnew c hc hin => by
      rcases List.mem_cons.mp hin with he | hin
      · rw [hn.changeIn_congr hc hcommit he]
        exact hnew
      · exact hold c hc hin
    simp only [readPool, ← changeIn.eq_def] at h ⊢
    by_cases hin' : changeIn r (eligible ++ added) commit ∈ seen'
    · rw [if_pos hin']
      have hrest : ∃ rest', readPool r (eligible ++ added) seen' pool = .ok rest' ∧
          Faultless rest' := by
        split_ifs at h
        · obtain ⟨rest, hrest, hret⟩ := bind_eq_ok.mp h
          obtain rfl := Except.ok.inj hret
          exact ih hpool' hseen hrest fun p hp => hf p (List.mem_cons_of_mem _ hp)
        · obtain ⟨first, -, h⟩ := bind_eq_ok.mp h
          obtain ⟨rest, hrest, hret⟩ := bind_eq_ok.mp h
          obtain rfl := Except.ok.inj hret
          exact ih hpool' (hgrow hseen hin') hrest fun p hp => hf p (List.mem_cons_of_mem _ hp)
      obtain ⟨rest', hrest', hf'⟩ := hrest
      refine ⟨_, by rw [hrest']; rfl, fun p hp => ?_⟩
      rcases List.mem_cons.mp hp with rfl | hp
      · intro h
        cases h
      · exact hf' p hp
    · rw [if_neg hin']
      rw [if_neg fun hin => hin' (hseen commit hcommit hin)] at h
      obtain ⟨⟨first, d⟩, hfirst, h⟩ := bind_eq_ok.mp h
      obtain ⟨rest, hrest, hret⟩ := bind_eq_ok.mp h
      obtain rfl := Except.ok.inj hret
      obtain ⟨⟨first', d'⟩, hfirst'⟩ := readCommit_isOk hm (eligible ++ added) commit
      obtain ⟨rest', hrest', hf'⟩ := ih hpool'
        (hgrow (fun c hc hin => List.mem_cons_of_mem _ (hseen c hc hin)) List.mem_cons_self) hrest
        fun p hp => hf p (List.mem_cons_of_mem _ hp)
      refine ⟨(first', d') :: rest', by rw [hfirst']; simp [hrest', bind, Except.bind, pure, Except.pure],
        fun p hp => ?_⟩
      rcases List.mem_cons.mp hp with rfl | hp
      · rw [ne_eq, reason_readCommit hfirst', rowsOf_append, hsealed, List.append_nil,
          ← reason_readCommit hfirst]
        exact hf _ List.mem_cons_self
      · exact hf' p hp

/-- A commit with an outcome has a row. -/
lemma decided_of_readPool {seen pool : List String} {read : List (CommitReading × ℕ)}
    (h : readPool r eligible seen pool = .ok read) {c : CommitReading}
    (hc : c ∈ read.map Prod.fst) (hout : c.outcome ≠ none) :
    0 ≤ r.maxReruns ∧ ∃ commit, rowsOf eligible none commit ≠ [] := by
  induction pool generalizing seen read with
  | nil =>
    obtain rfl := Except.ok.inj h
    cases hc
  | cons commit pool ih =>
    simp only [readPool] at h
    split_ifs at h
    · obtain ⟨rest, hrest, hret⟩ := bind_eq_ok.mp h
      obtain rfl := Except.ok.inj hret
      rcases List.mem_cons.mp hc with rfl | hc
      · exact absurd rfl hout
      · exact ih hrest hc
    · obtain ⟨first, hfirst, h⟩ := bind_eq_ok.mp h
      obtain ⟨rest, hrest, hret⟩ := bind_eq_ok.mp h
      obtain rfl := Except.ok.inj hret
      rcases List.mem_cons.mp hc with rfl | hc
      · obtain ⟨hm, -, hrows, -⟩ := readCommit_decided hfirst (.inr hout)
        exact ⟨hm, commit, hrows⟩
      · exact ih hrest hc

/-- The commits of a decided prefix of the pool are read the same among more rows. -/
lemma ChangesNamed.readPool_first (hn : ChangesNamed r eligible) (hm : 0 ≤ r.maxReruns)
    (hsealed : ∀ c, rowsOf added (some .unsealed) c = []) {seen pool : List String}
    (hpool : ∀ c ∈ pool, c ∈ r.pool)
    (hseen : ∀ c ∈ r.pool, changeIn r eligible c ∈ seen →
      changeIn r (eligible ++ added) c ∈ seen)
    {read : List (CommitReading × ℕ)} (h : readPool r eligible seen pool = .ok read)
    (hf : Faultless read) {j : ℕ}
    (hdecided : none ∉ ((keptOf read).map CommitReading.outcome).take j) :
    ∃ read', readPool r (eligible ++ added) seen pool = .ok read' ∧ Faultless read' ∧
      (keptOf read').take j = (keptOf read).take j := by
  induction pool generalizing seen read j with
  | nil =>
    obtain rfl := Except.ok.inj h
    exact ⟨[], rfl, hf, rfl⟩
  | cons commit pool ih =>
    rcases Nat.eq_zero_or_pos j with rfl | hj
    · obtain ⟨read', hread', hf'⟩ := hn.readPool_faultless hm hsealed hpool hseen h hf
      exact ⟨read', hread', hf', by simp⟩
    have hcommit : commit ∈ r.pool := hpool commit List.mem_cons_self
    have hpool' : ∀ c ∈ pool, c ∈ r.pool := fun c hc => hpool c (List.mem_cons_of_mem _ hc)
    simp only [readPool, ← changeIn.eq_def] at h ⊢
    by_cases hin : changeIn r eligible commit ∈ seen
    · rw [if_pos hin] at h
      rw [if_pos (hseen commit hcommit hin)]
      obtain ⟨rest, hrest, hret⟩ := bind_eq_ok.mp h
      obtain rfl := Except.ok.inj hret
      obtain ⟨rest', hrest', hf', htake⟩ := ih hpool' hseen hrest
        (fun p hp => hf p (List.mem_cons_of_mem _ hp)) hdecided
      refine ⟨(⟨commit, changeIn r (eligible ++ added) commit, none, some .sameChange, "", none,
        none⟩, 0) :: rest', by rw [hrest']; rfl, fun p hp => ?_, by simpa [keptOf] using htake⟩
      rcases List.mem_cons.mp hp with rfl | hp
      · intro h
        cases h
      · exact hf' p hp
    · rw [if_neg hin] at h
      obtain ⟨⟨first, d⟩, hfirst, h⟩ := bind_eq_ok.mp h
      obtain ⟨rest, hrest, hret⟩ := bind_eq_ok.mp h
      obtain rfl := Except.ok.inj hret
      have hout : first.left ≠ none ∨ first.outcome ≠ none := by
        by_contra hn
        push Not at hn
        refine hdecided ?_
        obtain ⟨i, rfl⟩ := Nat.exists_eq_succ_of_ne_zero (Nat.pos_iff_ne_zero.mp hj)
        simp [keptOf, hn.1, hn.2]
      obtain ⟨⟨d', hfirst'⟩, hchange⟩ := hn.readCommit_append hsealed hfirst hout
      rw [hchange, if_neg hin, hfirst']
      have hgrow : ∀ c ∈ r.pool, changeIn r eligible c ∈ changeIn r eligible commit :: seen →
          changeIn r (eligible ++ added) c ∈ changeIn r eligible commit :: seen := fun c hc hmem => by
        rcases List.mem_cons.mp hmem with he | hmem
        · rw [hn.changeIn_congr hc hcommit he, hchange]
          exact List.mem_cons_self
        · exact List.mem_cons_of_mem _ (hseen c hc hmem)
      have hfrest : Faultless rest := fun p hp => hf p (List.mem_cons_of_mem _ hp)
      have hffirst : first.reason ≠ some .scopeFault := hf _ List.mem_cons_self
      have hcons : ∀ {rest' : List (CommitReading × ℕ)}, Faultless rest' →
          Faultless ((first, d') :: rest') := fun hf' p hp => by
        rcases List.mem_cons.mp hp with rfl | hp
        · exact hffirst
        · exact hf' p hp
      by_cases hleft : first.left = none
      · obtain ⟨i, rfl⟩ := Nat.exists_eq_succ_of_ne_zero (Nat.pos_iff_ne_zero.mp hj)
        have hrest_decided : none ∉ ((keptOf rest).map CommitReading.outcome).take i := fun hmem =>
          hdecided (by simpa [keptOf, hleft] using .inr hmem)
        obtain ⟨rest', hrest', hf', htake⟩ := ih hpool' hgrow hrest hfrest hrest_decided
        exact ⟨(first, d') :: rest', by simp [hrest', bind, Except.bind, pure, Except.pure],
          hcons hf', by simpa [keptOf, hleft] using htake⟩
      · have hrest_decided : none ∉ ((keptOf rest).map CommitReading.outcome).take j := by
          simpa [keptOf, hleft] using hdecided
        obtain ⟨rest', hrest', hf', htake⟩ := ih hpool' hgrow hrest hfrest hrest_decided
        exact ⟨(first, d') :: rest', by simp [hrest', bind, Except.bind, pure, Except.pure],
          hcons hf', by simpa [keptOf, hleft] using htake⟩

end Pool

section Arm

variable [PyFloat F] {parseTs : String → Option ℤ} {r : Reading N} {arm : String}
  {rows added : List (Row F)}

/-- The change that the registration, or a row of the arm, names for a commit. -/
def ChangeNamed (parseTs : String → Option ℤ) (r : Reading N) (arm : String) (rows : List (Row F))
    (commit change : String) : Prop :=
  change ≠ "" ∧ (r.changes.get commit = change ∨ r.changes.get commit = "" ∧
    ∃ row ∈ rows, row.str .taskId = commit ∧ admittedRun r row = true ∧
      scopeMiss parseTs r arm row = .ok none ∧ row.changeId = change)

omit [PyFloat F] in
lemma changesNamed_of_rows {eligible : List (Row F × Option ScopeMiss)}
    (he : eligibleRows parseTs r arm rows = .ok eligible)
    (hnamed : ∀ row ∈ rows, scopeMiss parseTs r arm row = .ok none → row.changeId ≠ "")
    (hapart : ∀ c ∈ r.pool, ∀ d ∈ r.pool, c ≠ d → ChangeNamed parseTs r arm rows c d →
      ∃ change, ChangeNamed parseTs r arm rows d change) : ChangesNamed r eligible where
  named := fun p hp hnone => by
    obtain ⟨hmem, -, hmiss⟩ := mem_eligibleRows he hp
    exact hnamed p.1 hmem (hnone ▸ hmiss)
  apart := fun c hc d hd hcd hchange => by
    have hcnamed : ChangeNamed parseTs r arm rows c d := by
      unfold changeIn changeOfRows at hchange
      split_ifs at hchange with hreg
      · exact ⟨hchange ▸ hreg, .inl hchange⟩
      · cases hrows : rowsOf eligible none c with
        | nil =>
          rw [hrows] at hchange
          exact absurd hchange hcd
        | cons row rest =>
          obtain ⟨hmem, htask⟩ := mem_rowsOf (hrows ▸ List.mem_cons_self)
          obtain ⟨hmem, hadm, hmiss⟩ := mem_eligibleRows he hmem
          have hne := hnamed row hmem hmiss
          have hid : row.changeId = d := by simpa [hrows, hne] using hchange
          exact ⟨hid ▸ hne, .inr ⟨not_not.mp hreg, row, hmem, htask, hadm, hmiss, hid⟩⟩
    obtain ⟨change, hne, hreg | ⟨-, row, hmem, htask, hadm, hmiss, -⟩⟩ := hapart c hc d hd hcd hcnamed
    · exact .inl (hreg ▸ hne)
    · refine .inr (List.ne_nil_of_mem (a := row) ?_)
      obtain ⟨p, hp, hret⟩ := exists_of_mapM_ok he
        (List.mem_filter.mpr ⟨hmem, by simp [htask, hd, hadm]⟩)
      rw [hmiss] at hret
      obtain rfl := Except.ok.inj hret
      exact List.mem_map.mpr ⟨(row, none), List.mem_filter.mpr ⟨hp, by simp [htask]⟩, rfl⟩

omit [PyFloat F] in
/-- Rows of which none is unsealed are read beside the others, on an arm of the grammar. -/
lemma eligibleRows_append {eligible : List (Row F × Option ScopeMiss)}
    (he : eligibleRows parseTs r arm rows = .ok eligible)
    (harm : ContextArms.isArm arm = true)
    (hsealed : ∀ row ∈ added, row.str .taskId ∈ r.pool → admittedRun r row = true →
      scopeMiss parseTs r arm row ≠ .ok (some .unsealed)) :
    ∃ more, eligibleRows parseTs r arm (rows ++ added) = .ok (eligible ++ more) ∧
      ∀ c, rowsOf more (some .unsealed) c = [] := by
  obtain ⟨more, hmore⟩ : ∃ more, eligibleRows parseTs r arm added = .ok more := by
    refine mapM_isOk fun row _ => ?_
    obtain ⟨miss, hmiss⟩ := scopeMiss_isOk parseTs r harm row
    exact ⟨(row, miss), by rw [hmiss]; rfl⟩
  refine ⟨more, ?_, fun c => ?_⟩
  · unfold eligibleRows at he hmore ⊢
    rw [List.filter_append, List.mapM_append, he, hmore]
    rfl
  · by_contra hne
    obtain ⟨row, hrow⟩ := List.exists_mem_of_ne_nil _ hne
    obtain ⟨p, hp, hret⟩ := mem_of_mapM_ok hmore (mem_rowsOf hrow).1
    obtain ⟨miss, hmiss, hret⟩ := bind_eq_ok.mp hret
    obtain ⟨rfl, rfl⟩ := Prod.mk.inj (Except.ok.inj hret)
    obtain ⟨hmem, hc⟩ := List.mem_filter.mp hp
    simp only [Bool.and_eq_true, decide_eq_true_eq] at hc
    exact hsealed p hmem hc.1 hc.2 hmiss

lemma armReplay_append {a : ArmReading} (ha : armReplay parseTs r arm rows 0 = .ok a)
    (hd : a.look.state ≠ .lookPending ∧ a.look.state ≠ .undecided) (hfaults : a.scopeFaults = [])
    (hnamed : ∀ row ∈ rows, scopeMiss parseTs r arm row = .ok none → row.changeId ≠ "")
    (hapart : ∀ c ∈ r.pool, ∀ d ∈ r.pool, c ≠ d → ChangeNamed parseTs r arm rows c d →
      ∃ change, ChangeNamed parseTs r arm rows d change)
    (hsealed : ∀ row ∈ added, row.str .taskId ∈ r.pool → admittedRun r row = true →
      scopeMiss parseTs r arm row ≠ .ok (some .unsealed)) :
    ∃ a', armReplay parseTs r arm (rows ++ added) 0 = .ok a' ∧ a'.look = a.look ∧
      a'.scopeFaults = [] ∧ a'.stoppedBy = a.stoppedBy ∧ a'.descriptive = a.descriptive ∧
      a'.limit = a.limit ∧ a'.kept.take a.look.counted = a.kept.take a.look.counted := by
  obtain ⟨hby, hdesc, hlimit, hlook, hfault, eligible, read, he, hread, hcommits⟩ :=
    armReplay_spec ha
  have hkept : a.kept = keptOf read := by rw [ArmReading.kept, hcommits, keptOf]
  rw [hkept] at hlook
  obtain ⟨-, hnone, hsize, hpos⟩ := lookState_of_take (hlook rfl) hd rfl
  have hf : Faultless read := fun p hp hreason => by
    have hmem : p.1.commit ∈ a.scopeFaults := by
      rw [hfault, hcommits]
      exact List.mem_map.mpr ⟨p.1, List.mem_filter.mpr
        ⟨List.mem_map.mpr ⟨p, hp, rfl⟩, by simp [hreason]⟩, rfl⟩
    rw [hfaults] at hmem
    cases hmem
  -- the first commit counted has a row, so the arm is of the grammar and re-runs are allowed
  obtain ⟨o, ho⟩ : ∃ o, o ∈ ((keptOf read).map CommitReading.outcome).take a.look.counted := by
    refine List.exists_mem_of_ne_nil _ fun hnil => ?_
    rw [List.take_eq_nil_iff] at hnil
    rcases hnil with hz | hnil
    · omega
    · rw [hnil] at hsize
      simp at hsize
      omega
  obtain ⟨c, hc, rfl⟩ := List.mem_map.mp (List.mem_of_mem_take ho)
  obtain ⟨hm, commit, hrows⟩ := decided_of_readPool hread (List.mem_of_mem_filter hc)
    fun hne => hnone (hne ▸ ho)
  obtain ⟨row, hrow⟩ := List.exists_mem_of_ne_nil _ hrows
  have harm := isArm_of_scopeMiss (mem_eligibleRows he (mem_rowsOf hrow).1).2.2
  obtain ⟨more, hmore, hunsealed⟩ := eligibleRows_append he harm hsealed
  obtain ⟨read', hread', hf', htake⟩ := (changesNamed_of_rows he hnamed hapart).readPool_first hm
    hunsealed (fun _ h => h) (by simp) hread hf hnone
  have hlook' : lookState ((keptOf read').map CommitReading.outcome) r.rule false = .ok a.look := by
    refine (lookState_of_take (hlook rfl) hd ?_).1
    rw [← List.map_take, htake, List.map_take]
  have hfaults' : ((read'.map Prod.fst).filter (·.reason = some .scopeFault)) = [] := by
    refine List.filter_eq_nil_iff.mpr fun c hc => ?_
    obtain ⟨p, hp, rfl⟩ := List.mem_map.mp hc
    simpa using hf' p hp
  obtain ⟨a', ha', hal, hac⟩ := armReplay_isOk hmore hread' hlook'
  obtain ⟨hby', hdesc', hlimit', -, hfault', -⟩ := armReplay_spec ha'
  refine ⟨a', ha', hal, by rw [hfault', hac, hfaults']; rfl, hby'.trans hby.symm,
    hdesc'.trans hdesc.symm, hlimit'.trans hlimit.symm, ?_⟩
  rw [hkept, ArmReading.kept, hac]
  exact htake

/-- An arm with a decision is a hierarchy arm without a row it cannot read. -/
lemma decided_armReplay {a : ArmReading} {limit : ℤ}
    (ha : armReplay parseTs r arm rows limit = .ok a)
    (hd : a.state = .deliver ∨ a.state = .insufficient) :
    limit = 0 ∧ a.scopeFaults = [] ∧ a.look.state = a.state := by
  obtain ⟨hby, hdesc, -⟩ := armReplay_spec ha
  unfold ArmReading.state at hd ⊢
  rw [if_neg (not_not.mpr hby)] at hd ⊢
  split_ifs at hd ⊢ with hfaults hdescriptive
  · simp at hd
  · simp at hd
  · refine ⟨?_, not_not.mp hfaults, rfl⟩
    rw [hdesc] at hdescriptive
    simpa using hdescriptive

/-- A replayed arm that has decided stays as it is whatever rows come, unless a row comes that is the
arm's but for its executor: its state, its look, the commits it counted and their outcomes. -/
theorem decided_arm_stable (hrule : r.attemptRule = "") (hreplay : r.prospective = false)
    (hnamed : ∀ row ∈ rows, scopeMiss parseTs r arm row = .ok none → row.changeId ≠ "")
    (hapart : ∀ c ∈ r.pool, ∀ d ∈ r.pool, c ≠ d → ChangeNamed parseTs r arm rows c d →
      ∃ change, ChangeNamed parseTs r arm rows d change)
    (hsealed : ∀ row ∈ added, row.str .taskId ∈ r.pool → admittedRun r row = true →
      scopeMiss parseTs r arm row ≠ .ok (some .unsealed))
    {limit : ℤ} {a : ArmReading} (ha : armReading parseTs r arm rows limit = .ok a)
    (hd : a.state = .deliver ∨ a.state = .insufficient) :
    ∃ a', armReading parseTs r arm (rows ++ added) limit = .ok a' ∧ a'.state = a.state ∧
      a'.look = a.look ∧ a'.countedCommits = a.countedCommits ∧
      a'.kept.take a.look.counted = a.kept.take a.look.counted := by
  have hreserved : r.reserved = false := by simp [Reading.reserved, hrule, attemptRuleReserved]
  unfold armReading at ha ⊢
  simp only [hreserved, hreplay, Bool.false_eq_true, if_false] at ha ⊢
  by_cases hunread : r.admissionsUnread = true
  · rw [if_pos hunread] at ha ⊢
    exact ⟨a, ha, rfl, rfl, rfl, rfl⟩
  rw [if_neg hunread] at ha ⊢
  obtain ⟨rfl, hfaults, hstate⟩ := decided_armReplay ha hd
  have hlook : a.look.state ≠ .lookPending ∧ a.look.state ≠ .undecided := by
    rw [hstate]
    rcases hd with hd | hd <;> rw [hd] <;> exact ⟨nofun, nofun⟩
  obtain ⟨a', ha', hal, hfaults', hby, hdesc, hlimit, htake⟩ :=
    armReplay_append ha hlook hfaults hnamed hapart hsealed
  refine ⟨a', ha', ?_, hal, ?_, htake⟩
  · simp only [ArmReading.state, hby, hdesc, hal, hfaults, hfaults']
    obtain ⟨hnone, -⟩ := armReplay_spec ha
    simp [hnone]
  · obtain ⟨-, -, hzero, -⟩ := armReplay_spec ha
    rw [ArmReading.countedCommits, ArmReading.countedCommits, hlimit, hzero, hal, htake]
    rfl

end Arm

section Sample

/-- A clean attempt on the arm `S1@m` that names its change. -/
def namedRow (commit change : String) (clean sealed : Bool) : Row Whole where
  val
    | .clean => .bool clean
    | f => (sampleRow commit).val f
  labels := ("change_id", .str change) ::
    if sealed then (sampleRow commit).labels
    else [("context_arm", .str "S1@m"), ("posture_class", .str "docker/x/sealed")]
  rowHash := commit

/-- A row of every commit of the sample's pool. -/
def namedRows : List (Row Whole) := samplePool.map fun c => namedRow c ("p" ++ c) true true

/-- A pool of one commit more, whose second commit has no row and is the change of the first. -/
def sameReading : Reading ℚ :=
  { sampleReading with pool := samplePool ++ ["u"] }

def sameRows : List (Row Whole) :=
  namedRow "a" "b" true true ::
    (samplePool ++ ["u"]).tail.tail.map fun c => namedRow c ("p" ++ c) true true

theorem decided_arm_stable_namedRows :
    ∃ a a', armReading sampleTs sampleReading "S1@m" namedRows 0 = .ok a ∧ a.state = .deliver ∧
      armReading sampleTs sampleReading "S1@m" (namedRows ++ [namedRow "a" "x" false true]) 0 =
        .ok a' ∧ a'.state = a.state := by
  obtain ⟨a, ha, hd⟩ := exists_ok_of_map_toOption
    (show (armReading sampleTs sampleReading "S1@m" namedRows 0).toOption.map ArmReading.state =
      some .deliver by decide +kernel)
  have hall : ∀ row ∈ namedRows, row.changeId ≠ "" := by decide +kernel
  have hpool : ∀ row ∈ namedRows, ∀ d ∈ sampleReading.pool, row.changeId ≠ d := by decide +kernel
  have hapart : ∀ c ∈ sampleReading.pool, ∀ d ∈ sampleReading.pool, c ≠ d →
      ChangeNamed sampleTs sampleReading "S1@m" namedRows c d →
      ∃ change, ChangeNamed sampleTs sampleReading "S1@m" namedRows d change := by
    rintro c - d hd - ⟨hne, hreg | ⟨-, row, hrow, -, -, -, hid⟩⟩
    · exact absurd hreg.symm hne
    · exact absurd hid (hpool row hrow d hd)
  have hsealed : ∀ row ∈ [namedRow "a" "x" false true], row.str .taskId ∈ sampleReading.pool →
      admittedRun sampleReading row = true →
      scopeMiss sampleTs sampleReading "S1@m" row ≠ .ok (some .unsealed) := by
    intro row hrow _ _
    obtain rfl := List.mem_singleton.mp hrow
    have hscope : scopeMiss sampleTs sampleReading "S1@m" (namedRow "a" "x" false true) =
      .ok none := by decide +kernel
    rw [hscope]
    nofun
  obtain ⟨a', ha', hs, -⟩ := decided_arm_stable rfl rfl (fun row hrow _ => hall row hrow) hapart
    hsealed ha (.inl hd)
  exact ⟨a, a', ha, hd, ha', hs⟩

/-- An unsealed row that comes later makes an arm that delivered undecided; and a first row of a
commit that was left as another's change brings it back, so that the arm counts other commits. -/
theorem decided_arm_moved :
    (∀ row ∈ namedRows ++ sameRows, row.changeId ≠ "") ∧
    (armReading sampleTs sampleReading "S1@m" namedRows 0).toOption.map ArmReading.state =
      some .deliver ∧
    (armReading sampleTs sampleReading "S1@m"
      (namedRows ++ [namedRow "a" "pa" true false]) 0).toOption.map ArmReading.state =
      some .undecided ∧
    (armReading sampleTs sameReading "S1@m" sameRows 0).toOption.map ArmReading.state =
      some .deliver ∧
    (armReading sampleTs sameReading "S1@m"
      (sameRows ++ [namedRow "b" "pb" false true]) 0).toOption.map ArmReading.state =
      some .undecided := by
  decide +kernel

end Sample

end CommitReplay.ReplayStability
