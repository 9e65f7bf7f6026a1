import CommitReplay.UvLocks

/-! The pins of a uv lock are the packages that are reached, each under the markers of the ways to it: the run of
the reader ends, and nothing it cannot express is left out. -/
namespace CommitReplay.UvClosure

open CommitReplay.PythonText CommitReplay.LockPins CommitReplay.PathClauses CommitReplay.UvLocks

section Ways

variable (py : Unicode) (lock : UvLock) (root : UvPackage) (start : List UvEdge)

/-- What an edge leads to: the one package it means, and each of the extras it names. An edge to the project leads
to the extras only. -/
def Leads (e : UvEdge) (n : UvNode) : Prop :=
  ∃ p, candidates py lock e = [(p, n.1)] ∧ (n.2 = none ∧ isProject p = false ∨ ∃ x ∈ e.extra, n.2 = some x)

/-- The markers along a way from the start to a package or to an extra of it. -/
inductive Way : UvNode → Finset Text → Prop
  | start {e : UvEdge} {n : UvNode} : e ∈ start → Leads py lock e n → Way n (via ∅ e.condition)
  | step {n n' : UvNode} {c : Finset Text} {e : UvEdge} : Way n c → e ∈ lock.edgesOf n → Leads py lock e n' →
      Way n' (via c e.condition)

/-- The edge means one package, the project has the extras it asks of it, and its marker can be written. -/
def Expressed (e : UvEdge) : Prop :=
  ∃ c, candidates py lock e = [c] ∧
    (isProject c.1 = true → ∀ x ∈ e.extra, (root.optionalDependencies.lookup x).isSome = true) ∧
    (isProject c.1 = true ∧ e.extra = [] ∨ ∀ m ∈ e.condition, safeMarker m = true)

variable {py lock root start} {norm : Text}

lemma resolve_ok {e : UvEdge} {c : UvPackage × ℕ} (h : resolve py norm lock e = .ok c) :
    candidates py lock e = [c] := by
  rw [resolve] at h
  split at h
  · rename_i hc
    rw [hc, Except.ok.inj h]
  · cases h

lemma mem_nodesOf {project : Bool} {extra : List Extra} {x : Option Extra} :
    x ∈ nodesOf project extra ↔ x = none ∧ project = false ∨ ∃ y ∈ extra, x = some y := by
  rw [nodesOf]
  cases project <;> simp [eq_comm]

/-- What is read of an edge that can be read. -/
theorem targets_ok_iff {e : UvEdge} {ns : List UvNode} {m : Option Text}
    (h : targets py norm lock root e = .ok (ns, m)) :
    Expressed py lock root e ∧ (∀ n, n ∈ ns ↔ Leads py lock e n) ∧ (ns = [] ∧ m = none ∨ m = e.condition) := by
  rw [targets] at h
  split at h
  · cases h
  · rename_i p i hresolve
    have hc := resolve_ok hresolve
    have hleads : ∀ n, Leads py lock e n ↔ n.1 = i ∧
        (n.2 = none ∧ isProject p = false ∨ ∃ x ∈ e.extra, n.2 = some x) := by
      intro n
      rw [Leads, hc]
      constructor
      · rintro ⟨p', hp, hn⟩
        obtain ⟨rfl, rfl⟩ := Prod.mk.inj (List.cons.inj hp).1
        exact ⟨rfl, hn⟩
      · rintro ⟨rfl, hn⟩
        exact ⟨p, rfl, hn⟩
    split at h
    · cases h
    · rename_i hmissing
      have hextras : isProject p = true → ∀ x ∈ e.extra, (root.optionalDependencies.lookup x).isSome = true := by
        intro hproject x hx
        cases hnone : root.optionalDependencies.lookup x with
        | some es => rfl
        | none =>
          have hmem : x ∈ e.extra.filter fun y => (root.optionalDependencies.lookup y).isNone :=
            List.mem_filter.mpr ⟨hx, by rw [hnone]; rfl⟩
          obtain ⟨y, ys, hys⟩ := List.exists_cons_of_ne_nil (List.ne_nil_of_mem hmem)
          exact absurd hys (fun hys => hmissing y ys hys hproject)
      split_ifs at h with hback hsafe
      · obtain ⟨rfl, rfl⟩ := Prod.mk.inj (Except.ok.inj h)
        refine ⟨⟨_, hc, hextras, .inl hback⟩, fun n => ?_, .inl ⟨rfl, rfl⟩⟩
        rw [hleads, hback.1, hback.2]
        simp
      · obtain ⟨rfl, rfl⟩ := Prod.mk.inj (Except.ok.inj h)
        rw [Bool.not_eq_false, Option.all_eq_true] at hsafe
        refine ⟨⟨_, hc, hextras, .inr hsafe⟩, fun n => ?_, .inr rfl⟩
        rw [hleads]
        rw [List.mem_map, ← mem_nodesOf]
        exact ⟨fun ⟨x, hx, he⟩ => he ▸ ⟨rfl, hx⟩, fun ⟨hi, hx⟩ => ⟨n.2, hx, Prod.ext hi.symm rfl⟩⟩

lemma targets_leads {e : UvEdge} {ns : List UvNode} {m : Option Text} {n : UvNode}
    (h : targets py norm lock root e = .ok (ns, m)) : n ∈ ns ↔ Leads py lock e n ∧ m = e.condition := by
  obtain ⟨-, hns, hm⟩ := targets_ok_iff h
  refine ⟨fun hn => ⟨(hns n).mp hn, hm.resolve_left ?_⟩, fun hl => (hns n).mpr hl.1⟩
  rintro ⟨rfl, -⟩
  cases hn

lemma way_of_path {n : UvNode} {c : Finset Text} (h : Path (graph py norm lock root) start n c) :
    Way py lock start n c := by
  induction h with
  | start he ht hn =>
    obtain ⟨hl, rfl⟩ := (targets_leads ht).mp hn
    exact .start he hl
  | step _ he ht hn ih =>
    obtain ⟨hl, rfl⟩ := (targets_leads ht).mp hn
    exact .step ih he hl

/-- Where every edge that is reached could be read, the ways are the paths of the reader's graph. -/
lemma path_of_way (hok : ∀ e, (e ∈ start ∨ ∃ n c, Path (graph py norm lock root) start n c ∧ e ∈ lock.edgesOf n) →
      ∃ t, targets py norm lock root e = .ok t) {n : UvNode} {c : Finset Text} (h : Way py lock start n c) :
    Path (graph py norm lock root) start n c := by
  have hread : ∀ {e : UvEdge} {n : UvNode} {t : List UvNode × Option Text},
      targets py norm lock root e = .ok t → Leads py lock e n → n ∈ t.1 ∧ t.2 = e.condition := by
    intro e n t ht hl
    obtain ⟨-, hns, hm⟩ := targets_ok_iff ht
    have hn := (hns n).mpr hl
    exact ⟨hn, hm.resolve_left fun he => List.ne_nil_of_mem hn he.1⟩
  induction h with
  | start he hl =>
    obtain ⟨t, ht⟩ := hok _ (.inl he)
    obtain ⟨hn, hm⟩ := hread ht hl
    exact hm ▸ .start he ht hn
  | step _ he hl ih =>
    obtain ⟨t, ht⟩ := hok _ (.inr ⟨_, _, ih, he⟩)
    obtain ⟨hn, hm⟩ := hread ht hl
    exact hm ▸ .step ih he ht hn

lemma mem_package_of_candidates {e : UvEdge} {p : UvPackage} {i : ℕ} (h : candidates py lock e = [(p, i)]) :
    lock.package[i]? = some p := by
  have hmem : (p, i) ∈ lock.package.zipIdx.filter fun c => normName py.lower c.1.name = normName py.lower e.name := by
    have hin : (p, i) ∈ candidates py lock e := h ▸ List.mem_cons_self
    rw [candidates] at hin
    split at hin <;> split at hin <;> try split_ifs at hin
    all_goals first
      | exact hin
      | exact (List.mem_filter.mp hin).1
      | exact (List.mem_filter.mp (List.mem_filter.mp hin).1).1
  exact List.mk_mem_zipIdx_iff_getElem?.mp (List.mem_filter.mp hmem).1

/-- The last edge of a way. -/
lemma Way.last {n : UvNode} {c : Finset Text} (h : Way py lock start n c) : ∃ e, Leads py lock e n ∧
    ∀ n', Leads py lock e n' → Way py lock start n' c := by
  cases h with
  | start he hl => exact ⟨_, hl, fun _ hl' => .start he hl'⟩
  | step hw he hl => exact ⟨_, hl, fun _ hl' => .step hw he hl'⟩

/-- A way to a package leads to one of the lock, and not to the project. -/
lemma Way.package {i : ℕ} {c : Finset Text} (h : Way py lock start (i, none) c) :
    ∃ p, lock.package[i]? = some p ∧ isProject p = false := by
  obtain ⟨e, ⟨p, hc, hn⟩, -⟩ := h.last
  refine ⟨p, mem_package_of_candidates hc, ?_⟩
  rcases hn with hn | ⟨x, -, hx⟩
  · exact hn.2
  · cases hx

/-- A way to an extra of another package leads to the package as well. -/
lemma Way.of_extra {i : ℕ} {x : Option Extra} {c : Finset Text} (h : Way py lock start (i, x) c) {p : UvPackage}
    (hp : lock.package[i]? = some p) (hproject : isProject p = false) : Way py lock start (i, none) c := by
  obtain ⟨e, ⟨p', hc, -⟩, hway⟩ := h.last
  obtain rfl : p = p' := Option.some.inj (hp.symm.trans (mem_package_of_candidates hc))
  exact hway (i, none) ⟨p, hc, .inl ⟨rfl, hproject⟩⟩

end Ways

section Markers

lemma mem_sort_iff {c : Finset Text} {m : Text} : m ∈ c.sort (· ≤ ·) ↔ m ∈ c := Finset.mem_sort ..

variable (E : Environment)

lemma conj_spec {c : Finset Text} (hne : c ≠ ∅) (h : ∀ m ∈ c, E.isMarker m) :
    E.isMarker (conj c) ∧ (E.holds (conj c) ↔ ∀ m ∈ c, E.holds m) := by
  have hmem : ∀ m, m ∈ c.sort (· ≤ ·) ↔ m ∈ c := fun m => mem_sort_iff
  have hmarker : ∀ m ∈ c.sort (· ≤ ·), E.isMarker m := fun m hm => h m ((hmem m).mp hm)
  have hall : (∀ m ∈ c, E.holds m) ↔ ∀ m ∈ c.sort (· ≤ ·), E.holds m := by simp only [hmem]
  rw [hall, conj]
  generalize hparts : c.sort (· ≤ ·) = parts at hmarker hmem
  match parts with
  | [] =>
    obtain ⟨m, hm⟩ := Finset.nonempty_iff_ne_empty.mpr hne
    exact absurd ((hmem m).mpr hm) List.not_mem_nil
  | [m] => exact ⟨hmarker m List.mem_cons_self, by simp⟩
  | m :: m' :: ms => exact ⟨E.isMarker_and _ (by simp) hmarker, E.holds_and _ (by simp) hmarker⟩

/-- The marker of a pin is on where the conditions of one of the sets hold. -/
theorem onPin_uvMarker {clauses : Finset (Finset Text)} (hne : clauses ≠ ∅)
    (h : ∀ c ∈ clauses, ∀ m ∈ c, E.isMarker m) :
    E.OnPin (uvMarker clauses) ↔ ∃ c ∈ clauses, ∀ m ∈ c, E.holds m := by
  rw [uvMarker]
  split_ifs with hempty
  · exact iff_of_true (.inl rfl) ⟨∅, hempty.resolve_left hne, by simp⟩
  · rw [or_iff_right hne] at hempty
    have hterm : ∀ t, t ∈ uvTerms clauses ↔ ∃ c ∈ clauses, conj c = t := by
      intro t
      rw [uvTerms, Multiset.mem_sort, Multiset.mem_map]
      rfl
    have hspec : ∀ c ∈ clauses, E.isMarker (conj c) ∧ (E.holds (conj c) ↔ ∀ m ∈ c, E.holds m) := fun c hc =>
      conj_spec E (fun he => hempty (he ▸ hc)) (h c hc)
    have hmarker : ∀ t ∈ uvTerms clauses, E.isMarker t := by
      intro t ht
      obtain ⟨c, hc, rfl⟩ := (hterm t).mp ht
      exact (hspec c hc).1
    have hsome : (∃ c ∈ clauses, ∀ m ∈ c, E.holds m) ↔ ∃ t ∈ uvTerms clauses, E.holds t := by
      constructor
      · rintro ⟨c, hc, hall⟩
        exact ⟨conj c, (hterm _).mpr ⟨c, hc, rfl⟩, (hspec c hc).2.mpr hall⟩
      · rintro ⟨t, ht, hholds⟩
        obtain ⟨c, hc, rfl⟩ := (hterm t).mp ht
        exact ⟨c, hc, (hspec c hc).2.mp hholds⟩
    have honpin : ∀ t, E.OnPin ("; ".toList ++ t) ↔ E.holds t := by simp [Environment.OnPin]
    rw [honpin, hsome]
    generalize huv : uvTerms clauses = terms at hterm hmarker
    rcases terms with _ | ⟨t, _ | ⟨t', ts⟩⟩
    · obtain ⟨c, hc⟩ := Finset.nonempty_iff_ne_empty.mpr hne
      exact absurd ((hterm _).mpr ⟨c, hc, rfl⟩) List.not_mem_nil
    · simp
    · exact E.holds_or _ (by simp) hmarker

end Markers

section Edges

variable {py : Unicode} {lock : UvLock} {root : UvPackage} {start : List UvEdge} {norm : Text}

lemma mem_of_lookup {α β : Type} [BEq α] [LawfulBEq α] {a : α} {b : β} {l : List (α × β)}
    (h : l.lookup a = some b) : (a, b) ∈ l := by
  obtain ⟨l₁, l₂, rfl, -⟩ := List.lookup_eq_some_iff.mp h
  simp

/-- Every edge of the lock. -/
def allEdges (lock : UvLock) : List UvEdge := lock.package.flatMap fun p =>
  p.dependencies ++ p.optionalDependencies.flatMap Prod.snd ++ p.devDependencies.flatMap Prod.snd

lemma edgesOf_subset (n : UvNode) : lock.edgesOf n ⊆ allEdges lock := by
  intro e he
  rw [UvLock.edgesOf] at he
  cases hp : lock.package[n.1]? with
  | none => rw [hp] at he; cases he
  | some p =>
    rw [hp] at he
    refine List.mem_flatMap.mpr ⟨p, List.mem_of_getElem? hp, List.mem_append_left _ ?_⟩
    cases hx : n.2 with
    | none => exact List.mem_append_left _ (by simpa [edges, hx] using he)
    | some x =>
      have hlookup : e ∈ (p.optionalDependencies.lookup x).getD [] := by simpa [edges, hx] using he
      cases hes : p.optionalDependencies.lookup x with
      | none => rw [hes] at hlookup; cases hlookup
      | some es =>
        rw [hes] at hlookup
        exact List.mem_append_right _ (List.mem_flatMap.mpr ⟨(x, es), mem_of_lookup hes, hlookup⟩)

lemma groupEdges_ok {groups : List Text} {es : List UvEdge} (h : groupEdges py norm root groups = .ok es) :
    (∀ g ∈ groups, (groupTable root g).isSome = true) ∧
      es = groups.flatMap fun g => (groupTable root g).getD [] := by
  induction groups generalizing es with
  | nil =>
    obtain rfl := Except.ok.inj h
    exact ⟨by simp, rfl⟩
  | cons g gs ih =>
    rw [groupEdges] at h
    split at h
    · cases h
    · rename_i table htable
      cases hgs : groupEdges py norm root gs with
      | error why => rw [hgs] at h; cases h
      | ok es' =>
        rw [hgs] at h
        obtain rfl := Except.ok.inj h
        obtain ⟨hall, rfl⟩ := ih hgs
        exact ⟨List.forall_mem_cons.mpr ⟨by rw [htable]; rfl, hall⟩, by rw [List.flatMap_cons, htable]; rfl⟩

lemma groupTable_subset (hroot : root ∈ lock.package) {g : Text} {es : List UvEdge} (h : groupTable root g = some es) :
    es ⊆ allEdges lock := by
  intro e he
  refine List.mem_flatMap.mpr ⟨root, hroot, ?_⟩
  rw [groupTable] at h
  cases hdev : root.devDependencies.lookup g with
  | some table =>
    rw [hdev] at h
    obtain rfl := Option.some.inj h
    exact List.mem_append_right _ (List.mem_flatMap.mpr ⟨(g, table), mem_of_lookup hdev, he⟩)
  | none =>
    rw [hdev, Option.none_or, Option.map_eq_some_iff] at h
    obtain ⟨x, hx, rfl⟩ := h
    exact List.mem_append_left _ (List.mem_append_right _ (List.mem_flatMap.mpr ⟨x, List.mem_of_find?_eq_some hx, he⟩))

/-- The edges of the start: the project's own dependencies and the tables of the groups. -/
lemma startEdges_ok {groups : List Text} (h : startEdges py norm root groups = .ok start) :
    (∀ g ∈ groups, (groupTable root g).isSome = true) ∧
      start = root.dependencies ++ groups.flatMap fun g => (groupTable root g).getD [] := by
  rw [startEdges] at h
  cases hes : groupEdges py norm root groups with
  | error why => rw [hes] at h; cases h
  | ok es =>
    rw [hes] at h
    obtain rfl := Except.ok.inj h
    obtain ⟨hall, rfl⟩ := groupEdges_ok hes
    exact ⟨hall, rfl⟩

lemma startEdges_subset (hroot : root ∈ lock.package) {groups : List Text}
    (h : startEdges py norm root groups = .ok start) : start ⊆ allEdges lock := by
  obtain ⟨hall, rfl⟩ := startEdges_ok h
  intro e he
  rcases List.mem_append.mp he with he | he
  · exact List.mem_flatMap.mpr ⟨root, hroot, List.mem_append_left _ (List.mem_append_left _ he)⟩
  · obtain ⟨g, hg, he⟩ := List.mem_flatMap.mp he
    obtain ⟨es, hes⟩ := Option.isSome_iff_exists.mp (hall g hg)
    rw [hes] at he
    exact groupTable_subset hroot hes he

/-- The conditions of a way are those of edges of the lock. -/
lemma Way.conditions (hstart : start ⊆ allEdges lock) {n : UvNode} {c : Finset Text} (h : Way py lock start n c) :
    ∀ m ∈ c, ∃ e ∈ allEdges lock, m ∈ e.condition := by
  have hvia : ∀ {c : Finset Text} {e : UvEdge}, e ∈ allEdges lock → (∀ m ∈ c, ∃ e ∈ allEdges lock, m ∈ e.condition) →
      ∀ m ∈ via c e.condition, ∃ e ∈ allEdges lock, m ∈ e.condition := by
    intro c e he hc m hm
    cases hcond : e.condition with
    | none =>
      rw [hcond] at hm
      exact hc m hm
    | some m' =>
      rw [hcond] at hm
      rcases Finset.mem_insert.mp hm with rfl | hm
      · exact ⟨e, he, hcond⟩
      · exact hc m hm
  induction h with
  | start he _ => exact hvia (hstart he) (by simp)
  | step _ he _ ih => exact hvia (edgesOf_subset _ he) ih

/-- The reader's loop ends. -/
theorem closure_ends (hstart : start ⊆ allEdges lock) :
    ∃ r K, ∀ k, K ≤ k → closure (graph py norm lock root) start k = some r := by
  let extras : Finset (Option Extra) := insert none (((allEdges lock).flatMap UvEdge.extra).map some).toFinset
  let conditions : Finset Text := ((allEdges lock).filterMap UvEdge.condition).toFinset
  refine closure_total (N := Finset.range lock.package.length ×ˢ extras) (A := conditions) ?_
  intro e he ns m ht
  have hedge : e ∈ allEdges lock := he.elim (fun he => hstart he) fun ⟨n, he⟩ => edgesOf_subset n he
  obtain ⟨-, hns, hm⟩ := targets_ok_iff ht
  refine ⟨fun n hn => ?_, fun a ha => ?_⟩
  · obtain ⟨p, hc, hx⟩ := (hns n).mp hn
    obtain ⟨hlt, -⟩ := List.getElem?_eq_some_iff.mp (mem_package_of_candidates hc)
    refine Finset.mem_product.mpr ⟨Finset.mem_range.mpr hlt, ?_⟩
    rcases hx with ⟨hx, -⟩ | ⟨x, hmem, hx⟩
    · rw [hx]
      exact Finset.mem_insert_self _ _
    · rw [hx]
      exact Finset.mem_insert_of_mem (List.mem_toFinset.mpr (List.mem_map_of_mem (List.mem_flatMap.mpr ⟨e, hedge, hmem⟩)))
  · rcases hm with ⟨-, rfl⟩ | rfl
    · cases ha
    · exact List.mem_toFinset.mpr (List.mem_filterMap.mpr ⟨e, hedge, ha⟩)

end Edges

section Pins

variable (py : Unicode) (lock : UvLock) (start : List UvEdge)

/-- The pin of a package of the lock: its name, its version, its hashes, and a marker that holds exactly where the
markers of some way to the package do. -/
structure UvPinned (i : ℕ) (q : PyPin) : Prop where
  package : ∃ p, lock.package[i]? = some p ∧ isProject p = false ∧ isPublic p.source = true ∧ q.name = p.name ∧
    p.version = some q.version ∧
      q.hashes = if p.wheels = [] then (p.sdist.map (·.getD [])).toList else p.wheels.map (·.getD [])
  written : isName q.name = true ∧ isVersion q.version = true ∧ q.hashes ≠ [] ∧ ∀ h ∈ q.hashes, isHash h = true
  marker : ∃ clauses, q.marker = uvMarker clauses ∧ ∀ v : Text → Prop,
    (∃ c ∈ clauses, ∀ m ∈ c, v m) ↔ ∃ c, Way py lock start (i, none) c ∧ ∀ m ∈ c, v m
  on : ∀ E : Environment, (∀ e ∈ allEdges lock, ∀ m ∈ e.condition, E.isMarker m) →
    (E.OnPin q.marker ↔ ∃ c, Way py lock start (i, none) c ∧ ∀ m ∈ c, E.holds m)

variable {py lock start} {norm : Text} {root : UvPackage}

lemma uvPin_ok {p : UvPackage} {clauses : Finset (Finset Text)} {q : PyPin} (h : uvPin py norm p clauses = .ok q) :
    isPublic p.source = true ∧ q.name = p.name ∧ p.version = some q.version ∧
      (q.hashes = if p.wheels = [] then (p.sdist.map (·.getD [])).toList else p.wheels.map (·.getD [])) ∧
      (isName q.name = true ∧ isVersion q.version = true ∧ q.hashes ≠ [] ∧ ∀ h ∈ q.hashes, isHash h = true) ∧
      q.marker = uvMarker clauses := by
  rw [uvPin] at h
  simp only [List.map_eq_nil_iff] at h
  generalize hhashes : (if p.wheels = [] then (p.sdist.map (·.getD [])).toList else p.wheels.map (·.getD [])) = hashes
    at h ⊢
  split_ifs at h with hversion hname hpublic hbuild hhash
  obtain rfl := Except.ok.inj h
  rw [not_or, Bool.not_eq_false, Bool.not_eq_false] at hname
  rw [Bool.not_eq_false] at hpublic
  rw [not_or, Bool.not_eq_false, List.all_eq_true] at hhash
  refine ⟨hpublic, rfl, ?_, rfl, ⟨hname.1, hname.2, hhash.1, hhash.2⟩, rfl⟩
  cases hv : p.version with
  | none => rw [hv] at hversion; exact absurd rfl hversion
  | some v => rfl

/-- A package of the lock that is not its project. -/
def other (lock : UvLock) (i : ℕ) : Bool := ((lock.package[i]?).filter (!isProject ·)).isSome

lemma uvPins_ok {held : UvNode → Finset (Finset Text)} {is : List ℕ} {qs : List PyPin}
    (h : uvPins py norm lock held is = .ok qs) : List.Forall₂ (fun i q => i ∈ is ∧ ∃ p,
      lock.package[i]? = some p ∧ isProject p = false ∧ uvPin py norm p (held (i, none)) = .ok q)
        (is.filter (other lock)) qs := by
  induction is generalizing qs with
  | nil =>
    obtain rfl := Except.ok.inj h
    exact .nil
  | cons i is ih =>
    rw [uvPins] at h
    split at h
    · rename_i hp
      rw [List.filter_cons_of_neg (by simp [other, hp])]
      exact (ih h).imp fun _ _ hpin => ⟨List.mem_cons_of_mem i hpin.1, hpin.2⟩
    · rename_i p hp
      split at h
      · cases h
      · rename_i q hq
        cases hqs : uvPins py norm lock held is with
        | error why => rw [hqs] at h; cases h
        | ok qs' =>
          rw [hqs] at h
          obtain rfl := Except.ok.inj h
          obtain ⟨hget, hproject⟩ := Option.filter_eq_some_iff.mp hp
          rw [List.filter_cons_of_pos (by simp [other, hp])]
          exact .cons ⟨List.mem_cons_self, p, hget, by simpa using hproject, hq⟩
            ((ih hqs).imp fun _ _ hpin => ⟨List.mem_cons_of_mem i hpin.1, hpin.2⟩)

lemma packagesOf_spec (seen : List UvNode) :
    (packagesOf seen).Nodup ∧ ∀ i, i ∈ packagesOf seen ↔ ∃ x, (i, x) ∈ seen := by
  have hfold : ∀ (is acc : List ℕ), acc.Nodup →
      (is.foldl meet acc).Nodup ∧ ∀ i, i ∈ is.foldl meet acc ↔ i ∈ acc ∨ i ∈ is := by
    intro is
    induction is with
    | nil => exact fun acc h => ⟨h, by simp⟩
    | cons j is ih =>
      intro acc h
      obtain ⟨hnodup, hmem⟩ := ih (meet acc j) (nodup_meet h j)
      refine ⟨hnodup, fun i => ?_⟩
      rw [List.foldl_cons, hmem, mem_meet, List.mem_cons, or_assoc]
  obtain ⟨hnodup, hmem⟩ := hfold (seen.map Prod.fst) [] List.nodup_nil
  refine ⟨hnodup, fun i => ?_⟩
  rw [packagesOf, hmem]
  simp

/-- What is read once the loop has ended: every edge that is reached is expressed, and the pins are those of the
packages that are reached. -/
theorem closePins_ok (hstart : start ⊆ allEdges lock) {k : ℕ} {pins : List PyPin}
    (h : closePins py norm lock root start k = some (.ok pins)) :
    (∀ e, (e ∈ start ∨ ∃ n c, Way py lock start n c ∧ e ∈ lock.edgesOf n) → Expressed py lock root e) ∧
      ∃ (is : List ℕ) (qs : List PyPin), is.Nodup ∧ (∀ i, i ∈ is ↔ ∃ c, Way py lock start (i, none) c) ∧
        List.Forall₂ (UvPinned py lock start) is qs ∧ pins.Perm qs := by
  rw [closePins, Option.map_eq_some_iff] at h
  obtain ⟨r, hr, h⟩ := h
  cases r with
  | error why => cases h
  | ok s =>
    dsimp only at h
    cases hqs : uvPins py norm lock s.held (packagesOf s.seen) with
    | error why => rw [hqs] at h; cases h
    | ok qs =>
      rw [hqs] at h
      obtain rfl := Except.ok.inj h
      have hok : ∀ e, (e ∈ start ∨ ∃ n c, Path (graph py norm lock root) start n c ∧ e ∈ lock.edgesOf n) →
          ∃ t, targets py norm lock root e = .ok t := fun e he => targets_ok hr he
      have hways : ∀ n c, Path (graph py norm lock root) start n c ↔ Way py lock start n c := fun n c =>
        ⟨way_of_path, path_of_way hok⟩
      have hheld : ∀ (v : Text → Prop) i, (∃ c ∈ s.held (i, none), ∀ m ∈ c, v m) ↔
          ∃ c, Way py lock start (i, none) c ∧ ∀ m ∈ c, v m := by
        intro v i
        rw [held_iff_path hr]
        simp only [hways]
      obtain ⟨hnodup, hmem⟩ := packagesOf_spec s.seen
      have hreached : ∀ i ∈ packagesOf s.seen, ∀ p, lock.package[i]? = some p → isProject p = false →
          ∃ c, Way py lock start (i, none) c := by
        intro i hi p hget hproject
        obtain ⟨x, hx⟩ := (hmem i).mp hi
        obtain ⟨c, hp⟩ := (mem_seen_iff_path hr (i, x)).mp hx
        exact ⟨c, (way_of_path hp).of_extra hget hproject⟩
      refine ⟨fun e he => ?_, (packagesOf s.seen).filter (other lock), qs, hnodup.filter _, fun i => ?_, ?_,
        List.perm_insertionSort _ _⟩
      · simp only [← hways] at he
        obtain ⟨t, ht⟩ := hok e he
        exact (targets_ok_iff ht).1
      · rw [List.mem_filter]
        constructor
        · rintro ⟨hi, hother⟩
          obtain ⟨p, hp⟩ := Option.isSome_iff_exists.mp hother
          obtain ⟨hget, hproject⟩ := Option.filter_eq_some_iff.mp hp
          exact hreached i hi p hget (by simpa using hproject)
        · rintro ⟨c, hw⟩
          obtain ⟨p, hget, hproject⟩ := hw.package
          refine ⟨(hmem i).mpr ⟨none, (mem_seen_iff_path hr (i, none)).mpr ⟨c, (hways _ _).mpr hw⟩⟩, ?_⟩
          simp [other, hget, hproject]
      · refine (uvPins_ok hqs).imp fun i q hpin => ?_
        obtain ⟨hi, p, hget, hproject, hpin⟩ := hpin
        obtain ⟨hpublic, hname, hversion, hhashes, hwritten, hmarker⟩ := uvPin_ok hpin
        refine ⟨⟨p, hget, hproject, hpublic, hname, hversion, hhashes⟩, hwritten, ⟨_, hmarker, fun v => hheld v i⟩,
          fun E hE => ?_⟩
        obtain ⟨c, hw⟩ := hreached i hi p hget hproject
        obtain ⟨x, hx, -⟩ := (hheld (fun _ => True) i).mpr ⟨c, hw, fun _ _ => trivial⟩
        rw [← hheld, hmarker]
        refine onPin_uvMarker E (Finset.ne_empty_of_mem hx) fun y hy m hm => ?_
        have hpath : Path (graph py norm lock root) start (i, none) y := (closure_inv hr).1.path (i, none) y hy
        obtain ⟨e, he, hcond⟩ := (way_of_path hpath).conditions hstart m hm
        exact hE e he m hcond

/-- The reader ends on every lock. What it accepts is closed exactly: every edge that is reached means one package
and has a marker that can be written, and the pins are those of the packages that are reached, each once, with a
marker that holds where the markers of some way to the package do. -/
theorem uv_lock_closed (py : Unicode) (loads : Bytes → Except Text UvLock) (blob : Text → Option Bytes) (path : Text)
    (groups : List Text) :
    (∃ r K, ∀ k, K ≤ k → parseUvLock py loads blob path groups k = some r) ∧
    ∀ k file pins, parseUvLock py loads blob path groups k = some (.ok (file, pins)) →
      ∃ lock root start, loads file.2 = .ok lock ∧ lock.package.filter isProject = [root] ∧
        (∀ g ∈ groups, (groupTable root g).isSome = true) ∧
        (start = root.dependencies ++ groups.flatMap fun g => (groupTable root g).getD []) ∧
        (∀ e, (e ∈ start ∨ ∃ n c, Way py lock start n c ∧ e ∈ lock.edgesOf n) → Expressed py lock root e) ∧
        ∃ (is : List ℕ) (qs : List PyPin), is.Nodup ∧ (∀ i, i ∈ is ↔ ∃ c, Way py lock start (i, none) c) ∧
          List.Forall₂ (UvPinned py lock start) is qs ∧ pins.Perm qs := by
  have hroot : ∀ {norm : Text} {lock : UvLock} {root : UvPackage}, uvRoot norm lock = .ok root →
      lock.package.filter isProject = [root] := by
    intro norm lock root h
    rw [uvRoot] at h
    split_ifs at h
    split at h
    · rename_i hfilter
      rw [hfilter, Except.ok.inj h]
    · cases h
    · cases h
  have hmem : ∀ {lock : UvLock} {root : UvPackage}, lock.package.filter isProject = [root] → root ∈ lock.package :=
    fun h => (List.mem_filter.mp (h ▸ List.mem_cons_self)).1
  refine ⟨?_, fun k file pins h => ?_⟩
  · have hconst : ∀ r : Except ProvisionRefused ((Text × Bytes) × List PyPin), ∃ r' K, ∀ k : ℕ, K ≤ k → some r = some r' :=
      fun r => ⟨r, 0, fun _ _ => rfl⟩
    simp only [parseUvLock]
    split_ifs
    · exact hconst _
    · split
      · exact hconst _
      · split
        · exact hconst _
        · rename_i lock _
          split
          · exact hconst _
          · rename_i root hr
            split
            · exact hconst _
            · rename_i start hs
              obtain ⟨r, K, hK⟩ : ∃ r K, ∀ k, K ≤ k →
                  closure (graph py (StagedEdits.normpath path) lock root) start k = some r :=
                closure_ends (startEdges_subset (hmem (hroot hr)) hs)
              exact ⟨_, K, fun k hk => by rw [closePins, hK k hk]; rfl⟩
  · rw [parseUvLock] at h
    split_ifs at h
    · cases h
    · split at h
      · cases h
      · rename_i data hdata
        split at h
        · cases h
        · rename_i lock hlock
          split at h
          · cases h
          · rename_i root hr
            split at h
            · cases h
            · rename_i start hs
              rw [Option.map_eq_some_iff] at h
              obtain ⟨r, hclose, h⟩ := h
              cases r with
              | error why => cases h
              | ok pins' =>
                obtain ⟨rfl, rfl⟩ := Prod.mk.inj (Except.ok.inj h)
                obtain ⟨hgroups, hstart⟩ := startEdges_ok hs
                obtain ⟨hexpressed, hpins⟩ := closePins_ok (startEdges_subset (hmem (hroot hr)) hs) hclose
                exact ⟨lock, root, start, hlock, hroot hr, hgroups, hstart, hexpressed, hpins⟩

end Pins

section Samples

def ascii : Unicode := ⟨id, fun _ => false⟩

def sampleHash : Text := "sha256:".toList ++ List.replicate 64 'a'

def needs (name : String) (marker : Option String) : UvEdge :=
  ⟨name.toList, none, none, [], marker.map String.toList⟩

def published (name : String) (dependencies : List UvEdge) : UvPackage :=
  ⟨name.toList, some "1.0".toList, some [("registry".toList, "https://pypi.org/simple".toList)], dependencies, [], [],
    [some sampleHash], none⟩

/-- The project needs one package, and that one needs itself under a marker. -/
def sampleLock : UvLock := ⟨some 1,
  [⟨"proj".toList, some "0".toList, some [("editable".toList, ['.'])], [needs "left" none], [], [], [], none⟩,
    published "left" [needs "left" (some "os_name == 'nt'")]]⟩

def sampleRead (k : ℕ) : Option (Except ProvisionRefused ((Text × Bytes) × List PyPin)) :=
  parseUvLock ascii (fun _ => .ok sampleLock) (fun _ => some []) "uv.lock".toList [] k

def samplePins : List PyPin := [⟨"left".toList, "1.0".toList, [sampleHash], [], "uv.lock:left".toList⟩]

lemma sampleRead_three : sampleRead 3 = some (.ok (("uv.lock".toList, []), samplePins)) := by decide

theorem uv_lock_closed_sample : ∃ lock root start, Except.ok (ε := Text) sampleLock = .ok lock ∧
    lock.package.filter isProject = [root] ∧ ∃ (is : List ℕ) (qs : List PyPin),
      List.Forall₂ (UvPinned ascii lock start) is qs ∧ samplePins.Perm qs := by
  obtain ⟨lock, root, start, hl, hr, -, -, -, is, qs, -, -, hq, hp⟩ :=
    (uv_lock_closed ascii (fun _ => .ok sampleLock) (fun _ => some []) "uv.lock".toList []).2 3 _ _ sampleRead_three
  exact ⟨lock, root, start, hl, hr, is, qs, hq, hp⟩

end Samples

end CommitReplay.UvClosure
