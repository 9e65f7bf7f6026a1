import CommitReplay.BacklogRecord

/-! Reading a backlog: what stands for an item and the order by dependencies are found exactly where no
evolutions supersede each other in a circle. -/
namespace CommitReplay.BacklogOrder

open CommitReplay.PointerChains CommitReplay.BacklogRecord CommitReplay.DepthFirst

section Ids

variable (b : Backlog)

lemma nodup_allItems : (b.allItems.map (·.id)).Nodup := by
  rw [Backlog.allItems, List.map_append]
  refine b.itemsChecked.nodup.append b.evolutionsChecked.nodup fun k hk hk' => ?_
  obtain ⟨e, he, rfl⟩ := List.mem_map.mp hk'
  exact b.evolutionsChecked.fresh e he hk

variable {b}

lemma eq_of_id {i j : BacklogItem} (hi : i ∈ b.allItems) (hj : j ∈ b.allItems) (h : i.id = j.id) : i = j :=
  List.inj_on_of_nodup_map (nodup_allItems b) hi hj h

lemma mem_activeItems {i : BacklogItem} : i ∈ b.activeItems ↔ i ∈ b.allItems ∧ i.id ∉ b.supersededIds := by
  rw [Backlog.activeItems, List.mem_filter, decide_eq_true_eq]

lemma nodup_activeItems : (b.activeItems.map (·.id)).Nodup :=
  (nodup_allItems b).sublist (List.filter_sublist.map _)

lemma mem_supersededIds {k : String} :
    k ∈ b.supersededIds ↔ ∃ e ∈ b.evolutions, e.supersedes ≠ "" ∧ e.supersedes = k := by
  simp only [Backlog.supersededIds, List.mem_map, List.mem_filter, decide_eq_true_eq, and_assoc]

/-- The evolution that supersedes an id last. -/
def supersededBy (evolutions : List BacklogItem) (k : String) : Option String :=
  ((evolutions.filter fun e => e.supersedes ≠ "" ∧ e.supersedes = k).getLast?).map (·.id)

lemma supersededBy_concat (es : List BacklogItem) (e : BacklogItem) (k : String) :
    supersededBy (es ++ [e]) k =
      if e.supersedes ≠ "" ∧ e.supersedes = k then some e.id else supersededBy es k := by
  rw [supersededBy, List.filter_append]
  split_ifs with h
  · rw [List.filter_cons_of_pos (by simpa only [decide_eq_true_eq] using h), List.filter_nil, List.getLast?_concat, Option.map_some]
  · rw [List.filter_cons_of_neg (by simpa only [decide_eq_true_eq] using h), List.filter_nil, List.append_nil,
      supersededBy]

lemma lookup_superseding (k : String) : b.superseding.lookup k = supersededBy b.evolutions k := by
  rw [Backlog.superseding]
  induction b.evolutions using List.reverseRecOn with
  | nil => rfl
  | append_singleton es e ih =>
    rw [List.foldl_append, List.foldl_cons, List.foldl_nil, supersededBy_concat]
    by_cases he : e.supersedes ≠ ""
    · rw [if_pos he, lookup_put, ih]
      by_cases hk : k = e.supersedes
      · rw [if_pos hk, if_pos ⟨he, hk.symm⟩]
      · rw [if_neg hk, if_neg fun h => hk h.2.symm]
    · rw [if_neg he, if_neg fun h => he h.1, ih]

lemma supersededBy_isSome {es : List BacklogItem} {k : String} :
    (∃ v, supersededBy es k = some v) ↔ ∃ e ∈ es, e.supersedes ≠ "" ∧ e.supersedes = k := by
  induction es using List.reverseRecOn with
  | nil => simp [supersededBy]
  | append_singleton es e ih =>
    rw [supersededBy_concat]
    split_ifs with h
    · exact ⟨fun _ => ⟨e, by simp, h⟩, fun _ => ⟨_, rfl⟩⟩
    · rw [ih]
      constructor
      · rintro ⟨e', he', hk⟩
        exact ⟨e', List.mem_append_left _ he', hk⟩
      · rintro ⟨e', he', hk⟩
        obtain he' | he' := List.mem_append.mp he'
        · exact ⟨e', he', hk⟩
        · exact absurd (List.mem_singleton.mp he' ▸ hk) h

lemma mem_keys_superseding {k : String} : k ∈ keys b.superseding ↔ k ∈ b.supersededIds := by
  rw [mem_keys_iff, mem_supersededIds, ← supersededBy_isSome]
  simp only [lookup_superseding]

end Ids

section Known

variable {b : Backlog}

lemma dependsOn_known {i : BacklogItem} (hi : i ∈ b.allItems) {d : String} (hd : d ∈ i.dependsOn) :
    d ∈ b.allItems.map (·.id) := by
  rw [Backlog.allItems, List.map_append, List.mem_append]
  obtain hi | hi := List.mem_append.mp hi
  · obtain hk | hk := (b.itemsChecked.targets i hi).1 d hd
    · cases hk
    · exact .inl hk
  · exact (b.evolutionsChecked.targets i hi).1 d hd

lemma supersededIds_known {k : String} (hk : k ∈ b.supersededIds) : k ∈ b.allItems.map (·.id) := by
  obtain ⟨e, he, hne, rfl⟩ := mem_supersededIds.mp hk
  rw [Backlog.allItems, List.map_append, List.mem_append]
  exact (b.evolutionsChecked.targets e he).2 hne

lemma supersededBy_known {k v : String} (h : supersededBy b.evolutions k = some v) : v ∈ b.allItems.map (·.id) := by
  obtain ⟨e, he, rfl⟩ := Option.map_eq_some_iff.mp h
  have hmem := (List.mem_filter.mp (List.mem_of_getLast? he)).1
  exact List.mem_map_of_mem (List.mem_append_right _ hmem)

end Known

section Standing

variable {b : Backlog} {fuel : ℕ} {m : List (String × String)}

/-- The id at the end of the supersessions of an id. -/
def Stands (b : Backlog) (k t : String) : Prop :=
  Relation.ReflTransGen (Points b.superseding) k t ∧ t ∉ b.supersededIds

lemma Stands.unique {k t t' : String} (h : Stands b k t) (h' : Stands b k t') : t = t' := by
  have hright : Relator.RightUnique (Points b.superseding) := fun _ _ _ h1 h2 => Option.some.inj (h1.symm.trans h2)
  have hstop : ∀ {s u}, s ∉ b.supersededIds → Relation.ReflTransGen (Points b.superseding) s u → s = u := by
    intro s u hs hsu
    obtain rfl | ⟨c, hc, -⟩ := hsu.cases_head
    · rfl
    · exact absurd (mem_keys_superseding.mp (mem_keys_iff.mpr ⟨c, hc⟩)) hs
  obtain h1 | h1 := Relation.ReflTransGen.total_of_right_unique hright h.1 h'.1
  · exact hstop h.2 h1
  · exact (hstop h'.2 h1).symm

lemma lookup_latest (h : b.latest fuel = some m) (k : String) : Stands b k ((m.lookup k).getD k) := by
  obtain ⟨hkeys, hall⟩ := compress_keys h
  by_cases hk : k ∈ keys b.superseding
  · obtain ⟨t, ht, hkt, hno⟩ := hall k hk
    rw [ht, Option.getD_some]
    exact ⟨hkt.to_reflTransGen, fun hin => hno (mem_keys_superseding.mpr hin)⟩
  · have hnone : m.lookup k = none := by
      cases hl : m.lookup k with
      | none => rfl
      | some v => exact absurd ((hkeys k).mp (mem_keys_iff.mpr ⟨v, hl⟩)) hk
    rw [hnone, Option.getD_none]
    exact ⟨.refl, fun hin => hk (mem_keys_superseding.mpr hin)⟩

lemma resolve_stands {k t : String} (h : b.resolve fuel k = some t) : Stands b k t := by
  obtain ⟨m, hm, rfl⟩ := Option.map_eq_some_iff.mp h
  exact lookup_latest hm k

lemma Stands.known {k t : String} (h : Stands b k t) (hk : k ∈ b.allItems.map (·.id)) : t ∈ b.allItems.map (·.id) := by
  obtain rfl | ⟨c, -, hc⟩ := h.1.cases_tail
  · exact hk
  · exact supersededBy_known ((lookup_superseding c).symm.trans hc)

end Standing

section Graph

variable {b : Backlog} {fuel : ℕ} {m : List (String × String)}

lemma mem_deps {i j : BacklogItem} :
    j ∈ b.deps m i ↔ j ∈ b.activeItems ∧ ∃ d ∈ i.dependsOn, j.id = (m.lookup d).getD d := by
  rw [Backlog.deps, List.mem_filterMap]
  constructor
  · rintro ⟨d, hd, hj⟩
    exact ⟨List.mem_of_find?_eq_some hj, d, hd, by simpa using List.find?_some hj⟩
  · rintro ⟨hj, d, hd, he⟩
    refine ⟨d, hd, ?_⟩
    obtain ⟨j', hj'⟩ := Option.isSome_iff_exists.mp
      (List.find?_isSome.mpr ⟨j, hj, by simpa using he⟩ :
        (b.activeItems.find? fun j => j.id = (m.lookup d).getD d).isSome)
    have hid : j'.id = (m.lookup d).getD d := by simpa using List.find?_some hj'
    rw [hj', eq_of_id (mem_activeItems.mp (List.mem_of_find?_eq_some hj')).1 (mem_activeItems.mp hj).1
      (hid.trans he.symm)]

lemma closed_active : Closed (fun i => i.id) (b.deps m) b.activeItems where
  inj _ hi _ hj he := eq_of_id (mem_activeItems.mp hi).1 (mem_activeItems.mp hj).1 he
  next _ _ _ hj := (mem_deps.mp hj).1

/-- One active item depends on another, or on what the other stands for. -/
def Needs (b : Backlog) (i j : BacklogItem) : Prop :=
  j ∈ b.activeItems ∧ ∃ d ∈ i.dependsOn, Stands b d j.id

lemma edge_iff (h : b.latest fuel = some m) {i j : BacklogItem} : Edge (b.deps m) i j ↔ Needs b i j := by
  rw [Edge, mem_deps, Needs]
  refine and_congr_right fun _ => exists_congr fun d => and_congr_right fun _ => ?_
  exact ⟨fun he => he ▸ lookup_latest h d, fun hs => hs.unique (lookup_latest h d)⟩

lemma edge_eq (h : b.latest fuel = some m) : Edge (b.deps m) = Needs b :=
  funext fun _ => funext fun _ => propext (edge_iff h)

lemma ordered_ok {l : List BacklogItem} (h : b.ordered fuel = some (.ok l)) :
    ∃ m walk, b.latest fuel = some m ∧ order (fun i => i.id) (b.deps m) b.activeItems fuel = some (.ok walk) ∧
      walk.done = l := by
  unfold Backlog.ordered at h
  split at h
  · cases h
  · rename_i m hm
    split at h
    · cases h
    · simp at h
    · rename_i walk hw
      exact ⟨m, walk, hm, hw, by simpa using h⟩

end Graph

section Reading

variable {b : Backlog} {fuel : ℕ}

/-- A backlog can be read: what stands for an id and the order are found, and are what they are to be. -/
structure Readable (b : Backlog) : Prop where
  resolves : ∀ id, ∃ fuel t, b.resolve fuel id = some t
  orders : ∃ fuel r, b.ordered fuel = some r
  resolved : ∀ fuel id t, b.resolve fuel id = some t → t = id ∨ t ∉ b.supersededIds
  once : ∀ fuel l, b.ordered fuel = some (.ok l) → l.Nodup ∧ ∀ i, i ∈ l ↔ i ∈ b.activeItems
  before : ∀ fuel l, b.ordered fuel = some (.ok l) → ∀ pre i post, l = pre ++ i :: post →
    ∀ d ∈ i.dependsOn, ∀ fuel' t, b.resolve fuel' d = some t → ∀ j ∈ b.activeItems, j.id = t → j ∈ pre

/-- No evolutions supersede each other in a circle. -/
def Unlooped (b : Backlog) : Prop :=
  ∀ id, ¬ Relation.TransGen (fun old new => supersededBy b.evolutions old = some new) id id

lemma unlooped_iff : Unlooped b ↔ Ends b.superseding := by
  have h : (fun old new => supersededBy b.evolutions old = some new) = Points b.superseding := by
    funext old new
    rw [Points, lookup_superseding]
  rw [Unlooped, h, Ends]

lemma latest_isSome (h : Unlooped b) (hn : (keys b.superseding).length < fuel) : (b.latest fuel).isSome = true :=
  compress_isSome (unlooped_iff.mp h) Shortcut.refl (fun _ hk => hk) hn

lemma unlooped_of_latest {m : List (String × String)} (h : b.latest fuel = some m) : Unlooped b :=
  unlooped_iff.mpr (ends_of_compress h)

lemma ordered_isSome (h : Unlooped b) (hn : (keys b.superseding).length < fuel)
    (hn' : b.activeItems.length < fuel) : (b.ordered fuel).isSome = true := by
  obtain ⟨m, hm⟩ := Option.isSome_iff_exists.mp (latest_isSome h hn)
  obtain ⟨r, hr⟩ := Option.isSome_iff_exists.mp (order_isSome (closed_active (b := b) (m := m)) hn')
  simp only [Backlog.ordered, hm, hr]
  cases r <;> rfl

lemma ordered_once {l : List BacklogItem} (h : b.ordered fuel = some (.ok l)) :
    l.Nodup ∧ ∀ i, i ∈ l ↔ i ∈ b.activeItems := by
  obtain ⟨m, walk, -, hw, rfl⟩ := ordered_ok h
  obtain ⟨hnodup, hall, -⟩ := order_ok closed_active hw
  exact ⟨hnodup.of_map _, hall⟩

lemma ordered_before {l : List BacklogItem} (h : b.ordered fuel = some (.ok l)) {pre post : List BacklogItem}
    {i j : BacklogItem} (hl : l = pre ++ i :: post) (hij : Needs b i j) : j ∈ pre := by
  obtain ⟨m, walk, hm, hw, rfl⟩ := ordered_ok h
  obtain ⟨-, -, hbefore⟩ := order_ok closed_active hw
  exact hbefore pre i post hl j ((edge_iff hm).mpr hij)

lemma Readable.unlooped (h : Readable b) : Unlooped b := by
  obtain ⟨fuel, t, ht⟩ := h.resolves ""
  obtain ⟨m, hm, -⟩ := Option.map_eq_some_iff.mp ht
  exact unlooped_of_latest hm

/-- The active items can be put in an order. -/
def Orders (b : Backlog) : Prop := ∃ fuel l, b.ordered fuel = some (.ok l)

/-- An active item depends on another. -/
def Leads (b : Backlog) (i j : BacklogItem) : Prop := i ∈ b.activeItems ∧ Needs b i j

/-- There is an order exactly where neither evolutions nor dependencies run in a circle. -/
lemma orders_iff : Orders b ↔ Unlooped b ∧ ∀ i, ¬ Relation.TransGen (Leads b) i i := by
  have hleads : ∀ i j, Relation.TransGen (Leads b) i j → Relation.TransGen (Needs b) i j ∧ i ∈ b.activeItems := by
    intro i j h
    induction h with
    | single h => exact ⟨.single h.2, h.1⟩
    | tail _ h ih => exact ⟨ih.1.tail h.2, ih.2⟩
  have hdepends : ∀ i ∈ b.activeItems, ∀ j, Relation.TransGen (Needs b) i j → Relation.TransGen (Leads b) i j := by
    intro i hi j h
    have hboth : Relation.TransGen (Leads b) i j ∧ j ∈ b.activeItems := by
      induction h with
      | single h => exact ⟨.single ⟨hi, h⟩, h.1⟩
      | tail _ h ih => exact ⟨ih.1.tail ⟨ih.2, h⟩, h.1⟩
    exact hboth.1
  constructor
  · rintro ⟨fuel, l, hl⟩
    obtain ⟨m, walk, hm, hw, -⟩ := ordered_ok hl
    refine ⟨unlooped_of_latest hm, fun i hii => ?_⟩
    obtain ⟨hdep, hi⟩ := hleads i i hii
    exact acyclic_of_order closed_active hw i hi (edge_eq hm ▸ hdep)
  · rintro ⟨hloop, hacyclic⟩
    have hn := Nat.lt_succ_self (max (keys b.superseding).length b.activeItems.length)
    obtain ⟨m, hm⟩ := Option.isSome_iff_exists.mp (latest_isSome hloop ((le_max_left _ _).trans_lt hn))
    obtain ⟨r, hr⟩ := Option.isSome_iff_exists.mp
      (order_isSome (closed_active (b := b) (m := m)) ((le_max_right _ _).trans_lt hn))
    cases r with
    | ok walk =>
      refine ⟨(max (keys b.superseding).length b.activeItems.length).succ, walk.done, ?_⟩
      simp only [Backlog.ordered, hm, hr]
    | error k =>
      obtain ⟨i, hi, -, hii⟩ := cycle_of_order closed_active hr
      exact absurd (hdepends i hi i (edge_eq hm ▸ hii)) (hacyclic i)

/-- A backlog can be read exactly where no evolutions supersede each other in a circle. -/
theorem readable_iff (b : Backlog) : Readable b ↔ Unlooped b := by
  constructor
  · exact Readable.unlooped
  · intro h
    obtain ⟨m, hm⟩ := Option.isSome_iff_exists.mp (latest_isSome h (Nat.lt_succ_self _))
    refine ⟨fun id => ⟨_, (m.lookup id).getD id, by rw [Backlog.resolve, hm, Option.map_some]⟩, ?_, ?_, ?_, ?_⟩
    · have hn := Nat.lt_succ_self (max (keys b.superseding).length b.activeItems.length)
      obtain ⟨r, hr⟩ := Option.isSome_iff_exists.mp
        (ordered_isSome h ((le_max_left _ _).trans_lt hn) ((le_max_right _ _).trans_lt hn))
      exact ⟨_, r, hr⟩
    · intro fuel id t ht
      exact .inr (resolve_stands ht).2
    · intro fuel l hl
      exact ordered_once hl
    · intro fuel l hl pre i post he d hd fuel' t ht j hj hid
      exact ordered_before hl he ⟨hj, d, hd, hid ▸ resolve_stands ht⟩

end Reading

section Loop

def plainItem (id supersedes : String) (dependsOn : List String) : ItemFields where
  id := id
  title := id
  kind := .code
  dependsOn := dependsOn
  supersedes := supersedes
  registered := ""

def itemA : BacklogItem := ⟨plainItem "a" "" [], rfl⟩

/-- Two evolutions that supersede each other. -/
def loopOne : BacklogItem := ⟨plainItem "b" "c" [], rfl⟩

def loopTwo : BacklogItem := ⟨plainItem "c" "b" [], rfl⟩

lemma itemA_checked : Checked [itemA] [] := checked_of_checkItems rfl

lemma loop_checked : Checked [loopOne, loopTwo] ([itemA].map (·.id)) := checked_of_checkItems rfl

lemma frozen_mark : "h" ≠ "" := by decide

def loopedBacklog : Backlog :=
  ⟨[itemA], "", "", "h", [loopOne, loopTwo], "", "crb.backlog.v1", itemA_checked, loop_checked, fun _ => frozen_mark⟩

theorem not_readable_looped :
    Backlog.make [itemA] "" "" "h" [loopOne, loopTwo] "" "crb.backlog.v1" = .ok loopedBacklog ∧
      (∀ fuel id, loopedBacklog.resolve fuel id = none) ∧ ¬ Readable loopedBacklog := by
  have hloop : ¬ Unlooped loopedBacklog := by
    intro h
    have hbc : supersededBy loopedBacklog.evolutions "b" = some "c" := rfl
    have hcb : supersededBy loopedBacklog.evolutions "c" = some "b" := rfl
    exact h "b" (.tail (.single hbc) hcb)
  refine ⟨rfl, fun fuel id => ?_, fun h => hloop h.unlooped⟩
  rw [Backlog.resolve, Option.map_eq_none_iff, Option.eq_none_iff_forall_not_mem]
  exact fun m hm => hloop (unlooped_of_latest hm)

end Loop

end CommitReplay.BacklogOrder
