import Mathlib

/-! A worklist over a graph whose edges may have a condition. At each node it keeps the sets of conditions under
which the node is reached, none of them a part of another: a set that contains one that is kept is passed over,
and the sets that contain a new one are dropped. The run ends, and what is kept says of every valuation of the
conditions whether the node is reached along edges that hold. -/
namespace CommitReplay.PathClauses

variable {ν μ κ ε : Type*} [DecidableEq ν] [DecidableEq μ]

section Definitions

/-- A graph as it is read: an edge leads to several nodes under one condition, or it cannot be read. -/
structure Graph (ν μ κ ε : Type*) where
  edges : ν → List κ
  targets : κ → Except ε (List ν × Option μ)
  /-- More sets than these at one node are an error. -/
  limit : ℕ
  tooMany : ν → ε

/-- The nodes in the order they were met, the sets kept at each, and the stack of those to go on from. -/
structure State (ν μ : Type*) where
  seen : List ν
  held : ν → Finset (Finset μ)
  work : List (ν × Finset μ)

def State.empty : State ν μ := ⟨[], fun _ => ∅, []⟩

/-- A set kept at the node is part of this one. -/
def Covered (s : State ν μ) (n : ν) (c : Finset μ) : Prop := ∃ h ∈ s.held n, h ⊆ c

instance decidableCovered (s : State ν μ) (n : ν) (c : Finset μ) : Decidable (Covered s n c) :=
  inferInstanceAs (Decidable (∃ h ∈ s.held n, h ⊆ c))

def meet (seen : List ν) (n : ν) : List ν := if n ∈ seen then seen else seen ++ [n]

/-- The sets kept at a node with one more. -/
def keep (held : Finset (Finset μ)) (c : Finset μ) : Finset (Finset μ) := insert c (held.filter fun h => ¬ c ⊆ h)

variable (g : Graph ν μ κ ε)

/-- A node is reached under a set of conditions. -/
def touch (s : State ν μ) (n : ν) (c : Finset μ) : Except ε (State ν μ) :=
  if Covered s n c then .ok { s with seen := meet s.seen n }
  else if g.limit < (keep (s.held n) c).card then .error (g.tooMany n)
  else .ok ⟨meet s.seen n, Function.update s.held n (keep (s.held n) c), (n, c) :: s.work⟩

/-- A set of conditions with that of an edge. -/
def via (c : Finset μ) (m : Option μ) : Finset μ := m.elim c fun m => insert m c

def touchAll (c : Finset μ) : List ν → State ν μ → Except ε (State ν μ)
  | [], s => .ok s
  | n :: ns, s =>
    match touch g s n c with
    | .error e => .error e
    | .ok s => touchAll c ns s

/-- The edges are followed one after the other. -/
def reachAll (c : Finset μ) : List κ → State ν μ → Except ε (State ν μ)
  | [], s => .ok s
  | e :: es, s =>
    match g.targets e with
    | .error e => .error e
    | .ok (ns, m) =>
      match touchAll g (via c m) ns s with
      | .error e => .error e
      | .ok s => reachAll c es s

/-- The stack is worked off; a set that was dropped since is passed over. `none` when the fuel runs out. -/
def loop : ℕ → State ν μ → Option (Except ε (State ν μ))
  | 0, _ => none
  | k + 1, s =>
    match s.work with
    | [] => some (.ok s)
    | (n, c) :: rest =>
      if c ∈ s.held n then
        match reachAll g c (g.edges n) { s with work := rest } with
        | .error e => some (.error e)
        | .ok s => loop k s
      else loop k { s with work := rest }

def closure (start : List κ) (k : ℕ) : Option (Except ε (State ν μ)) :=
  match reachAll g ∅ start State.empty with
  | .error e => some (.error e)
  | .ok s => loop g k s

/-- The conditions along a way from the start to a node. -/
inductive Path (start : List κ) : ν → Finset μ → Prop
  | start {e : κ} {ns : List ν} {m : Option μ} {n : ν} : e ∈ start → g.targets e = .ok (ns, m) → n ∈ ns →
      Path start n (via ∅ m)
  | step {n n' : ν} {c : Finset μ} {e : κ} {ns : List ν} {m : Option μ} : Path start n c → e ∈ g.edges n →
      g.targets e = .ok (ns, m) → n' ∈ ns → Path start n' (via c m)

end Definitions

section Steps

variable {g : Graph ν μ κ ε} {s s' s'' : State ν μ} {n : ν} {c c' : Finset μ}

omit [DecidableEq ν] [DecidableEq μ] in
lemma Covered.mono (h : Covered s n c) (hc : c ⊆ c') : Covered s n c' := by
  obtain ⟨x, hx, hsub⟩ := h
  exact ⟨x, hx, hsub.trans hc⟩

lemma via_mono (h : c ⊆ c') (m : Option μ) : via c m ⊆ via c' m := by
  cases m with
  | none => exact h
  | some m => exact Finset.insert_subset_insert m h

lemma mem_meet {seen : List ν} {n x : ν} : x ∈ meet seen n ↔ x ∈ seen ∨ x = n := by
  rw [meet]
  split_ifs with h
  · exact ⟨.inl, fun hx => hx.elim id fun he => he ▸ h⟩
  · simp

lemma nodup_meet {seen : List ν} (h : seen.Nodup) (n : ν) : (meet seen n).Nodup := by
  rw [meet]
  split_ifs with hn
  · exact h
  · exact List.nodup_append.mpr ⟨h, List.nodup_singleton n, fun a ha b hb hab =>
      hn (List.mem_singleton.mp hb ▸ hab ▸ ha)⟩

/-- What following edges does to a state: no set loses its cover, and what is new at a node was reached. -/
structure Grows (T : ν → Finset μ → Prop) (s s' : State ν μ) : Prop where
  covered : ∀ n c, Covered s n c → Covered s' n c
  held : ∀ n, ∀ h ∈ s'.held n, h ∈ s.held n ∨ T n h ∧ (n, h) ∈ s'.work
  work : s.work ⊆ s'.work
  seen : (∀ n ∈ s.seen, (s.held n).Nonempty) → ∀ n ∈ s'.seen, (s'.held n).Nonempty
  met : (∀ n, (s.held n).Nonempty → n ∈ s.seen) → ∀ n, (s'.held n).Nonempty → n ∈ s'.seen
  nodup : s.seen.Nodup → s'.seen.Nodup

omit [DecidableEq ν] [DecidableEq μ] in
lemma Grows.refl (T : ν → Finset μ → Prop) (s : State ν μ) : Grows T s s where
  covered _ _ h := h
  held _ _ h := .inl h
  work := List.Subset.refl _
  seen h := h
  met h := h
  nodup h := h

omit [DecidableEq ν] [DecidableEq μ] in
lemma Grows.trans {T : ν → Finset μ → Prop} (h : Grows T s s') (h' : Grows T s' s'') : Grows T s s'' where
  covered n c hc := h'.covered n c (h.covered n c hc)
  held n x hx := by
    rcases h'.held n x hx with hx | hx
    · exact (h.held n x hx).imp_right fun ht => ⟨ht.1, h'.work ht.2⟩
    · exact .inr hx
  work := List.Subset.trans h.work h'.work
  seen hs := h'.seen (h.seen hs)
  met hs := h'.met (h.met hs)
  nodup hs := h'.nodup (h.nodup hs)

omit [DecidableEq ν] [DecidableEq μ] in
lemma Grows.imp {T T' : ν → Finset μ → Prop} (h : Grows T s s') (ht : ∀ n c, T n c → T' n c) : Grows T' s s' :=
  { h with held := fun n x hx => (h.held n x hx).imp_right fun hn => ⟨ht n x hn.1, hn.2⟩ }

/-- A node that is touched is covered there, and nothing else changes. -/
theorem touch_grows (h : touch g s n c = .ok s') :
    Covered s' n c ∧ Grows (fun x y => x = n ∧ y = c) s s' := by
  rw [touch] at h
  split_ifs at h with hcov hlimit
  · obtain rfl := Except.ok.inj h
    refine ⟨hcov, fun _ _ h => h, fun _ _ h => .inl h, List.Subset.refl _, fun hs x hx => ?_, fun hs x hx => ?_,
      fun hs => nodup_meet hs n⟩
    · rcases mem_meet.mp hx with hx | rfl
      · exact hs x hx
      · exact hcov.imp fun _ hy => hy.1
    · exact mem_meet.mpr (.inl (hs x hx))
  · obtain rfl := Except.ok.inj h
    have hnew : (Function.update s.held n (keep (s.held n) c)) n = keep (s.held n) c := Function.update_self ..
    have hold : ∀ x, x ≠ n → (Function.update s.held n (keep (s.held n) c)) x = s.held x := fun x hx =>
      Function.update_of_ne hx ..
    have hmem : c ∈ keep (s.held n) c := Finset.mem_insert_self c _
    refine ⟨⟨c, by simpa [hnew] using hmem, Finset.Subset.refl c⟩, fun x y hy => ?_, fun x y hy => ?_,
      List.subset_cons_self _ _, fun hs x hx => ?_, fun hs x hx => ?_, fun hs => nodup_meet hs n⟩
    · -- a set that is dropped contains the new one
      obtain ⟨z, hz, hzy⟩ := hy
      by_cases hx : x = n
      · subst hx
        by_cases hcz : c ⊆ z
        · exact ⟨c, by simpa [hnew] using hmem, hcz.trans hzy⟩
        · exact ⟨z, by simpa [hnew, keep] using .inr ⟨hz, hcz⟩, hzy⟩
      · exact ⟨z, by simpa [hold x hx] using hz, hzy⟩
    · by_cases hx : x = n
      · subst hx
        have hkept : y ∈ keep (s.held x) c := hnew ▸ (hy : y ∈ Function.update s.held x (keep (s.held x) c) x)
        rcases Finset.mem_insert.mp hkept with rfl | hkept
        · exact .inr ⟨⟨rfl, rfl⟩, List.mem_cons_self⟩
        · exact .inl (Finset.mem_filter.mp hkept).1
      · exact .inl (by simpa [hold x hx] using hy)
    · by_cases hxn : x = n
      · exact ⟨c, by simpa [hxn, hnew] using hmem⟩
      · simp only [hold x hxn]
        exact hs x ((mem_meet.mp hx).resolve_right hxn)
    · by_cases hxn : x = n
      · exact mem_meet.mpr (.inr hxn)
      · simp only [hold x hxn] at hx
        exact mem_meet.mpr (.inl (hs x hx))

lemma touchAll_grows {ns : List ν} (h : touchAll g c ns s = .ok s') :
    (∀ n ∈ ns, Covered s' n c) ∧ Grows (fun x y => x ∈ ns ∧ y = c) s s' := by
  induction ns generalizing s with
  | nil =>
    obtain rfl := Except.ok.inj h
    exact ⟨by simp, .refl _ _⟩
  | cons n ns ih =>
    rw [touchAll] at h
    split at h
    · cases h
    · rename_i s₁ hs₁
      obtain ⟨hn, hgrow⟩ := touch_grows hs₁
      obtain ⟨hns, hgrows⟩ := ih h
      refine ⟨List.forall_mem_cons.mpr ⟨hgrows.covered n c hn, hns⟩, .trans (hgrow.imp ?_) (hgrows.imp ?_)⟩
      · rintro x y ⟨rfl, rfl⟩
        exact ⟨List.mem_cons_self, rfl⟩
      · rintro x y ⟨hx, rfl⟩
        exact ⟨List.mem_cons_of_mem n hx, rfl⟩

/-- What edges lead to from a set of conditions. -/
def Leads (g : Graph ν μ κ ε) (c : Finset μ) (es : List κ) (n : ν) (c' : Finset μ) : Prop :=
  ∃ e ∈ es, ∃ ns m, g.targets e = .ok (ns, m) ∧ n ∈ ns ∧ c' = via c m

/-- Every edge can be read, and all it leads to is covered. -/
def Followed (g : Graph ν μ κ ε) (s : State ν μ) (c : Finset μ) (es : List κ) : Prop :=
  ∀ e ∈ es, ∃ ns m, g.targets e = .ok (ns, m) ∧ ∀ n ∈ ns, Covered s n (via c m)

omit [DecidableEq ν] in
lemma Followed.grow {es : List κ} (h : Followed g s c es) (hs : ∀ n c, Covered s n c → Covered s' n c) :
    Followed g s' c es := by
  intro e he
  obtain ⟨ns, m, ht, hns⟩ := h e he
  exact ⟨ns, m, ht, fun n hn => hs n _ (hns n hn)⟩

theorem reachAll_grows {es : List κ} (h : reachAll g c es s = .ok s') :
    Followed g s' c es ∧ Grows (Leads g c es) s s' := by
  induction es generalizing s with
  | nil =>
    obtain rfl := Except.ok.inj h
    exact ⟨by simp [Followed], .refl _ _⟩
  | cons e es ih =>
    rw [reachAll] at h
    split at h
    · cases h
    · rename_i ns m ht
      split at h
      · cases h
      · rename_i s₁ hs₁
        obtain ⟨hns, hgrow⟩ := touchAll_grows hs₁
        obtain ⟨hes, hgrows⟩ := ih h
        refine ⟨List.forall_mem_cons.mpr ⟨⟨ns, m, ht, fun n hn => hgrows.covered n _ (hns n hn)⟩, hes⟩,
          .trans (hgrow.imp ?_) (hgrows.imp ?_)⟩
        · rintro x y ⟨hx, rfl⟩
          exact ⟨e, List.mem_cons_self, ns, m, ht, hx, rfl⟩
        · rintro x y ⟨e', he', hrest⟩
          exact ⟨e', List.mem_cons_of_mem e he', hrest⟩

end Steps

section Runs

variable {g : Graph ν μ κ ε} {start : List κ} {s s' : State ν μ}

/-- What holds of every state of a run: each set that is kept is that of a way, the start was followed, and what
is kept at a node is on the stack or was followed. -/
structure Inv (g : Graph ν μ κ ε) (start : List κ) (s : State ν μ) : Prop where
  path : ∀ n, ∀ h ∈ s.held n, Path g start n h
  started : Followed g s ∅ start
  followed : ∀ n, ∀ h ∈ s.held n, (n, h) ∈ s.work ∨ Followed g s h (g.edges n)
  seen : ∀ n, n ∈ s.seen ↔ (s.held n).Nonempty
  nodup : s.seen.Nodup

lemma inv_start (h : reachAll g ∅ start State.empty = .ok s) : Inv g start s := by
  obtain ⟨hfollowed, hgrow⟩ := reachAll_grows h
  have hnew : ∀ n, ∀ c ∈ s.held n, Leads g ∅ start n c ∧ (n, c) ∈ s.work := fun n c hc =>
    (hgrow.held n c hc).resolve_left (Finset.notMem_empty c)
  refine ⟨fun n c hc => ?_, hfollowed, fun n c hc => .inl (hnew n c hc).2, fun n => ⟨hgrow.seen ?_ n, hgrow.met ?_ n⟩,
    hgrow.nodup List.nodup_nil⟩
  · obtain ⟨e, he, ns, m, ht, hn, rfl⟩ := (hnew n c hc).1
    exact .start he ht hn
  · intro n hn
    cases hn
  · rintro n ⟨x, hx⟩
    cases hx

omit [DecidableEq ν] in
/-- The top of the stack is passed over where it was dropped. -/
lemma Inv.pop (h : Inv g start s) {n : ν} {c : Finset μ} {rest : List (ν × Finset μ)} (hwork : s.work = (n, c) :: rest)
    (hc : c ∉ s.held n) : Inv g start { s with work := rest } where
  path := h.path
  started := h.started
  followed x y hy := by
    refine (h.followed x y hy).imp_left fun hmem => ?_
    rw [hwork] at hmem
    rcases List.mem_cons.mp hmem with he | hmem
    · obtain ⟨rfl, rfl⟩ := Prod.mk.inj he
      exact absurd hy hc
    · exact hmem
  seen := h.seen
  nodup := h.nodup

/-- The top of the stack is followed. -/
lemma Inv.step (h : Inv g start s) {n : ν} {c : Finset μ} {rest : List (ν × Finset μ)} (hwork : s.work = (n, c) :: rest)
    (hc : c ∈ s.held n) (hs : reachAll g c (g.edges n) { s with work := rest } = .ok s') : Inv g start s' := by
  obtain ⟨hfollowed, hgrow⟩ := reachAll_grows hs
  refine ⟨fun x y hy => ?_, h.started.grow hgrow.covered,
    fun x y hy => ?_, fun x => ⟨hgrow.seen (fun z => (h.seen z).mp) x, hgrow.met (fun z => (h.seen z).mpr) x⟩,
    hgrow.nodup h.nodup⟩
  · rcases hgrow.held x y hy with hy | ⟨⟨e, he, ns, m, ht, hx, rfl⟩, -⟩
    · exact h.path x y hy
    · exact .step (h.path n c hc) he ht hx
  · rcases hgrow.held x y hy with hy | ⟨-, hmem⟩
    · rcases h.followed x y hy with hmem | hold
      · rw [hwork] at hmem
        rcases List.mem_cons.mp hmem with he | hmem
        · obtain ⟨rfl, rfl⟩ := Prod.mk.inj he
          exact .inr hfollowed
        · exact .inl (hgrow.work hmem)
      · exact .inr (hold.grow hgrow.covered)
    · exact .inl hmem

theorem loop_inv {k : ℕ} (h : Inv g start s) (hs : loop g k s = some (.ok s')) : Inv g start s' ∧ s'.work = [] := by
  induction k generalizing s with
  | zero => cases hs
  | succ k ih =>
    rw [loop] at hs
    split at hs
    · rename_i hwork
      obtain rfl : s = s' := by simpa using hs
      exact ⟨h, hwork⟩
    · rename_i n c rest hwork
      split_ifs at hs with hc
      · split at hs
        · cases hs
        · rename_i s₁ hs₁
          exact ih (h.step hwork hc hs₁) hs
      · exact ih (h.pop hwork hc) hs

theorem closure_inv {k : ℕ} (h : closure g start k = some (.ok s)) : Inv g start s ∧ s.work = [] := by
  rw [closure] at h
  split at h
  · cases h
  · rename_i s₁ hs₁
    exact loop_inv (inv_start hs₁) h

omit [DecidableEq ν] in
/-- With the stack worked off, every way to a node is covered there. -/
lemma covered_of_path (h : Inv g start s) (hwork : s.work = []) {n : ν} {c : Finset μ} (hp : Path g start n c) :
    Covered s n c := by
  have hfollowed : ∀ n, ∀ x ∈ s.held n, Followed g s x (g.edges n) := fun n x hx =>
    (h.followed n x hx).resolve_left (by rw [hwork]; exact List.not_mem_nil)
  induction hp with
  | start he ht hn =>
    obtain ⟨ns, m, ht', hns⟩ := h.started _ he
    obtain ⟨rfl, rfl⟩ := Prod.mk.inj (Except.ok.inj (ht.symm.trans ht'))
    exact hns _ hn
  | step _ he ht hn ih =>
    obtain ⟨x, hx, hsub⟩ := ih
    obtain ⟨ns, m, ht', hns⟩ := hfollowed _ x hx _ he
    obtain ⟨rfl, rfl⟩ := Prod.mk.inj (Except.ok.inj (ht.symm.trans ht'))
    exact (hns _ hn).mono (via_mono hsub _)

/-- What is kept at a node holds where the conditions of some way to it do. -/
theorem held_iff_path {k : ℕ} (h : closure g start k = some (.ok s)) (v : μ → Prop) (n : ν) :
    (∃ c ∈ s.held n, ∀ m ∈ c, v m) ↔ ∃ c, Path g start n c ∧ ∀ m ∈ c, v m := by
  obtain ⟨hinv, hwork⟩ := closure_inv h
  constructor
  · rintro ⟨c, hc, hv⟩
    exact ⟨c, hinv.path n c hc, hv⟩
  · rintro ⟨c, hp, hv⟩
    obtain ⟨x, hx, hsub⟩ := covered_of_path hinv hwork hp
    exact ⟨x, hx, fun m hm => hv m (hsub hm)⟩

/-- The nodes that are met are those a way leads to. -/
theorem mem_seen_iff_path {k : ℕ} (h : closure g start k = some (.ok s)) (n : ν) :
    n ∈ s.seen ↔ ∃ c, Path g start n c := by
  obtain ⟨hinv, hwork⟩ := closure_inv h
  rw [hinv.seen]
  constructor
  · rintro ⟨c, hc⟩
    exact ⟨c, hinv.path n c hc⟩
  · rintro ⟨c, hp⟩
    exact (covered_of_path hinv hwork hp).imp fun _ hx => hx.1

/-- Every edge of the start and of a node that is reached was read. -/
theorem targets_ok {k : ℕ} (h : closure g start k = some (.ok s)) {e : κ}
    (he : e ∈ start ∨ ∃ n c, Path g start n c ∧ e ∈ g.edges n) : ∃ t, g.targets e = .ok t := by
  obtain ⟨hinv, hwork⟩ := closure_inv h
  rcases he with he | ⟨n, c, hp, he⟩
  · obtain ⟨ns, m, ht, -⟩ := hinv.started e he
    exact ⟨_, ht⟩
  · obtain ⟨x, hx, -⟩ := covered_of_path hinv hwork hp
    obtain ⟨ns, m, ht, -⟩ := ((hinv.followed n x hx).resolve_left (by rw [hwork]; exact List.not_mem_nil)) e he
    exact ⟨_, ht⟩

end Runs

section Termination

variable {g : Graph ν μ κ ε} {start : List κ} {s s' : State ν μ} (U : Finset (ν × Finset μ))

/-- The pairs of a node and a set that nothing covers yet. -/
def uncovered (s : State ν μ) : Finset (ν × Finset μ) := U.filter fun x => ¬ Covered s x.1 x.2

/-- A push covers a pair, so that it takes away more than the stack gains. -/
def weight (s : State ν μ) : ℕ := 2 * (uncovered U s).card + s.work.length

variable {U}

lemma touch_weight {n : ν} {c : Finset μ} (hU : (n, c) ∈ U) (h : touch g s n c = .ok s') :
    weight U s' ≤ weight U s := by
  obtain ⟨hcov, hgrow⟩ := touch_grows h
  rw [touch] at h
  split_ifs at h with hold hlimit
  · obtain rfl := Except.ok.inj h
    exact le_rfl
  · obtain rfl := Except.ok.inj h
    have hlt : (uncovered U ⟨meet s.seen n, Function.update s.held n (keep (s.held n) c), (n, c) :: s.work⟩).card <
        (uncovered U s).card := by
      refine Finset.card_lt_card (Finset.ssubset_iff_subset_ne.mpr ⟨fun x hx => ?_, fun he => ?_⟩)
      · obtain ⟨hx, hno⟩ := Finset.mem_filter.mp hx
        exact Finset.mem_filter.mpr ⟨hx, fun hc => hno (hgrow.covered x.1 x.2 hc)⟩
      · have hmem : (n, c) ∈ uncovered U s := Finset.mem_filter.mpr ⟨hU, hold⟩
        rw [← he] at hmem
        exact (Finset.mem_filter.mp hmem).2 hcov
    simp only [weight, List.length_cons]
    omega

lemma touchAll_weight {ns : List ν} {c : Finset μ} (hU : ∀ n ∈ ns, (n, c) ∈ U) (h : touchAll g c ns s = .ok s') :
    weight U s' ≤ weight U s := by
  induction ns generalizing s with
  | nil =>
    obtain rfl := Except.ok.inj h
    exact le_rfl
  | cons n ns ih =>
    obtain ⟨hn, hns⟩ := List.forall_mem_cons.mp hU
    rw [touchAll] at h
    split at h
    · cases h
    · rename_i s₁ hs₁
      exact (ih hns h).trans (touch_weight hn hs₁)

lemma reachAll_weight {es : List κ} {c : Finset μ} (hU : ∀ n c', Leads g c es n c' → (n, c') ∈ U)
    (h : reachAll g c es s = .ok s') : weight U s' ≤ weight U s := by
  induction es generalizing s with
  | nil =>
    obtain rfl := Except.ok.inj h
    exact le_rfl
  | cons e es ih =>
    rw [reachAll] at h
    split at h
    · cases h
    · rename_i ns m ht
      split at h
      · cases h
      · rename_i s₁ hs₁
        refine (ih (fun n c' ⟨e', he', hl⟩ => hU n c' ⟨e', List.mem_cons_of_mem e he', hl⟩) h).trans ?_
        exact touchAll_weight (fun n hn => hU n _ ⟨e, List.mem_cons_self, ns, m, ht, hn, rfl⟩) hs₁

lemma loop_total (hU : ∀ n c, Path g start n c → (n, c) ∈ U) {k : ℕ} (h : Inv g start s) (hk : weight U s < k) :
    ∃ r, loop g k s = some r := by
  induction k generalizing s with
  | zero => omega
  | succ k ih =>
    rw [loop]
    split
    · exact ⟨_, rfl⟩
    · rename_i n c rest hwork
      have hpop : weight U { s with work := rest } + 1 = weight U s := by
        rw [weight, weight, hwork, List.length_cons]
        rfl
      split_ifs with hc
      · split
        · exact ⟨_, rfl⟩
        · rename_i s₁ hs₁
          refine ih (h.step hwork hc hs₁) (lt_of_le_of_lt (reachAll_weight ?_ hs₁) (by omega))
          rintro n' c' ⟨e, he, ns, m, ht, hn, rfl⟩
          exact hU n' _ (.step (h.path n c hc) he ht hn)
      · exact ih (h.pop hwork hc) (by omega)

lemma loop_mono {k k' : ℕ} (hk : k ≤ k') {r : Except ε (State ν μ)} (h : loop g k s = some r) :
    loop g k' s = some r := by
  induction k generalizing s k' with
  | zero => cases h
  | succ k ih =>
    obtain ⟨k', rfl⟩ := Nat.exists_eq_succ_of_ne_zero (by omega : k' ≠ 0)
    have hk' : k ≤ k' := by omega
    rw [loop] at h ⊢
    split
    · rename_i hwork
      rw [hwork] at h
      exact h
    · rename_i n c rest hwork
      rw [hwork] at h
      dsimp only at h
      split_ifs at h ⊢ with hc
      · split
        · rename_i e he
          rw [he] at h
          exact h
        · rename_i s₁ hs₁
          rw [hs₁] at h
          exact ih hk' h
      · exact ih hk' h

/-- Over finitely many nodes and conditions the run ends, whatever the ways round the graph. -/
theorem closure_total {N : Finset ν} {A : Finset μ}
    (hread : ∀ e, (e ∈ start ∨ ∃ n, e ∈ g.edges n) → ∀ ns m, g.targets e = .ok (ns, m) →
      (∀ n ∈ ns, n ∈ N) ∧ ∀ a ∈ m, a ∈ A) : ∃ r K, ∀ k, K ≤ k → closure g start k = some r := by
  have hvia : ∀ (c : Finset μ) (m : Option μ), c ⊆ A → (∀ a ∈ m, a ∈ A) → via c m ⊆ A := by
    intro c m hc hm
    cases m with
    | none => exact hc
    | some m => exact Finset.insert_subset (hm m rfl) hc
  have hpath : ∀ n c, Path g start n c → (n, c) ∈ N ×ˢ A.powerset := by
    intro n c hp
    rw [Finset.mem_product, Finset.mem_powerset]
    induction hp with
    | start he ht hn =>
      obtain ⟨hns, hm⟩ := hread _ (.inl he) _ _ ht
      exact ⟨hns _ hn, hvia _ _ (Finset.empty_subset A) hm⟩
    | step _ he ht hn ih =>
      obtain ⟨hns, hm⟩ := hread _ (.inr ⟨_, he⟩) _ _ ht
      exact ⟨hns _ hn, hvia _ _ ih.2 hm⟩
  cases hstart : reachAll g ∅ start State.empty with
  | error e => exact ⟨.error e, 0, fun k _ => by rw [closure, hstart]⟩
  | ok s =>
    obtain ⟨r, hr⟩ := loop_total hpath (inv_start hstart) (Nat.lt_succ_self (weight (N ×ˢ A.powerset) s))
    refine ⟨r, weight (N ×ˢ A.powerset) s + 1, fun k hk => ?_⟩
    rw [closure, hstart]
    exact loop_mono hk hr

end Termination

end CommitReplay.PathClauses
