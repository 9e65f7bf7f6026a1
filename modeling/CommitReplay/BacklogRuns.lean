import CommitReplay.BacklogOrder

/-! Runs of evolutions of a frozen backlog: what is frozen stays, and the order stays as long as no evolution
depends on what it supersedes. -/
namespace CommitReplay.BacklogRuns

open Relation CommitReplay.RowChecks CommitReplay.GradeRows CommitReplay.PointerChains CommitReplay.BacklogRecord
open CommitReplay.BacklogOrder CommitReplay.DepthFirst

section Redirect

variable {α : Type*} {E E' : α → α → Prop} {old new : α}

/-- A path to itself that a graph did not have before goes through the new node. -/
lemma transGen_new (hkeep : ∀ a c, a ≠ new → c ≠ new → E' a c → E a c) {a c : α} (h : TransGen E' a c) :
    TransGen E a c ∨ ReflTransGen E' a new ∧ ReflTransGen E' new c := by
  induction h with
  | @single c hc =>
    by_cases ha : a = new
    · exact .inr ⟨ha ▸ .refl, ha ▸ .single hc⟩
    by_cases hcn : c = new
    · exact .inr ⟨hcn ▸ .single hc, hcn ▸ .refl⟩
    · exact .inl (.single (hkeep a c ha hcn hc))
  | @tail c d hac hd ih =>
    obtain hac' | ⟨h1, h2⟩ := ih
    · by_cases hc : c = new
      · exact .inr ⟨hc ▸ hac.to_reflTransGen, hc ▸ .single hd⟩
      by_cases hdn : d = new
      · exact .inr ⟨hdn ▸ hac.to_reflTransGen.tail hd, hdn ▸ .refl⟩
      · exact .inl (hac'.tail (hkeep c d hc hdn hd))
    · exact .inr ⟨h1, h2.tail hd⟩

/-- A graph without circles has one after a node is added only through that node. -/
lemma acyclic_iff_new (new : α) (hkeep : ∀ a c, a ≠ new → c ≠ new → E' a c → E a c) (h : ∀ a, ¬ TransGen E a a) :
    (∀ a, ¬ TransGen E' a a) ↔ ¬ TransGen E' new new := by
  refine ⟨fun hall => hall new, fun hnew a ha => ?_⟩
  obtain haa | ⟨h1, h2⟩ := transGen_new hkeep ha
  · exact h a haa
  · refine hnew (TransGen.trans_right h2 ?_)
    exact (ha.trans_left h1)

open Classical in
/-- Where a node takes the place of another, it leads back to itself exactly when it leads to the other. -/
lemma transGen_replaced (old : α) (first : α → Prop)
    (hkeep : ∀ a c, a ≠ new → c ≠ new → (E' a c ↔ E a c ∧ a ≠ old ∧ c ≠ old))
    (hinto : ∀ a, a ≠ new → (E' a new ↔ E a old ∧ a ≠ old)) (hfresh : ∀ a c, E a c → a ≠ new ∧ c ≠ new)
    (hfrom : ∀ c, c ≠ new → (E' new c ↔ first c ∧ c ≠ old)) (hself : E' new new ↔ first old)
    (hfirst : ¬ first new) : TransGen E' new new ↔ ∃ c, first c ∧ ReflTransGen E c old := by
  constructor
  · intro h
    obtain ⟨x, hx, hback⟩ := TransGen.head'_iff.mp h
    have hpath : ReflTransGen E (if x = new then old else x) old := by
      clear hx h
      induction hback using ReflTransGen.head_induction_on with
      | refl => rw [if_pos rfl]
      | @head a c hac _ ih =>
        by_cases ha : a = new
        · rw [if_pos ha]
        rw [if_neg ha]
        by_cases hc : c = new
        · exact .single ((hinto a ha).mp (hc ▸ hac)).1
        · rw [if_neg hc] at ih
          exact .head ((hkeep a c ha hc).mp hac).1 ih
    by_cases hxn : x = new
    · exact ⟨old, hself.mp (hxn ▸ hx), .refl⟩
    · rw [if_neg hxn] at hpath
      exact ⟨x, ((hfrom x hxn).mp hx).1, hpath⟩
  · rintro ⟨c, hc, hpath⟩
    have hback : ReflTransGen E' (if c = old then new else c) new := by
      clear hc
      induction hpath using ReflTransGen.head_induction_on with
      | refl => rw [if_pos rfl]
      | @head a c hac _ ih =>
        obtain ⟨han, hcn⟩ := hfresh a c hac
        by_cases ha : a = old
        · rw [if_pos ha]
        rw [if_neg ha]
        by_cases hco : c = old
        · exact .single ((hinto a han).mpr ⟨hco ▸ hac, ha⟩)
        · rw [if_neg hco] at ih
          exact .head ((hkeep a c han hcn).mpr ⟨hac, ha, hco⟩) ih
    by_cases hco : c = old
    · exact .single (hself.mpr (hco ▸ hc))
    · rw [if_neg hco] at hback
      exact TransGen.head' ((hfrom c fun he => hfirst (he ▸ hc)).mpr ⟨hc, hco⟩) hback

end Redirect

section Steps

variable {sha256 : Sha256} {b b' : Backlog} {item : BacklogItem}

lemma mem_allItems_of_get {id : String} {i : BacklogItem} (h : b.get id = some i) : i ∈ b.allItems ∧ i.id = id :=
  ⟨List.mem_of_find?_eq_some h, by simpa using List.find?_some h⟩

lemma get_eq_none {id : String} : b.get id = none ↔ ∀ i ∈ b.allItems, i.id ≠ id := by
  simp [Backlog.get, List.find?_eq_none]

/-- What an accepted evolution has asked of the record, and what it made of it. -/
structure Evolved (sha256 : Sha256) (b : Backlog) (item : BacklogItem) (b' : Backlog) : Prop where
  frozen : b.frozen = true
  new : ∀ i ∈ b.allItems, i.id ≠ item.id
  old : item.supersedes ≠ "" → ∃ old ∈ b.allItems, old.id = item.supersedes ∧ old.id ∉ b.supersededIds
  items : b'.items = b.items
  backlogHash : b'.backlogHash = b.backlogHash
  evolutions : b'.evolutions = b.evolutions ++ [item]
  evolutionsHash : b'.evolutionsHash = Backlog.evolutionsChain sha256 b'.backlogHash b'.evolutions

lemma evolved_of_evolve (h : b.evolve sha256 item = .ok b') : Evolved sha256 b item b' := by
  unfold Backlog.evolve at h
  split_ifs at h with hf hget
  obtain ⟨u, hold, h⟩ := bind_eq_ok.mp h
  obtain ⟨new, hmake, h⟩ := bind_eq_ok.mp h
  obtain rfl := Except.ok.inj h
  obtain ⟨hitems, hhash, hevolutions⟩ := Backlog.make_ok hmake
  refine ⟨by simpa using hf, get_eq_none.mp (Option.not_isSome_iff_eq_none.mp hget), fun hne => ?_, hitems, hhash,
    hevolutions, rfl⟩
  rw [Backlog.mayBeSuperseded, if_neg hne] at hold
  split at hold
  · cases hold
  · rename_i old hgot
    split_ifs at hold with hany
    obtain ⟨hmem, hid⟩ := mem_allItems_of_get hgot
    refine ⟨old, hmem, hid, fun hin => ?_⟩
    obtain ⟨e, he, -, hs⟩ := mem_supersededIds.mp hin
    exact hany (List.any_eq_true.mpr ⟨e, he, by simpa using hs⟩)

namespace Evolved

variable (h : Evolved sha256 b item b')
include h

lemma allItems : b'.allItems = b.allItems ++ [item] := by
  rw [Backlog.allItems, h.items, h.evolutions, ← List.append_assoc, Backlog.allItems]

lemma mem_supersededIds_iff {k : String} :
    k ∈ b'.supersededIds ↔ k ∈ b.supersededIds ∨ item.supersedes ≠ "" ∧ k = item.supersedes := by
  simp only [mem_supersededIds, h.evolutions, List.mem_append, List.mem_singleton, or_and_right, exists_or,
    exists_eq_left, @eq_comm _ k]

/-- Every id that is named in the record is the id of an item of it. -/
lemma item_not_superseded : item.id ∉ b'.supersededIds := by
  rw [h.mem_supersededIds_iff]
  rintro (hin | ⟨-, he⟩)
  · obtain ⟨e, he, hne, hs⟩ := mem_supersededIds.mp hin
    obtain hk | hk := (b.evolutionsChecked.targets e he).2 hne
    · obtain ⟨i, hi, hid⟩ := List.mem_map.mp hk
      exact h.new i (List.mem_append_left _ hi) (hid.trans hs)
    · obtain ⟨i, hi, hid⟩ := List.mem_map.mp hk
      exact h.new i (List.mem_append_right _ hi) (hid.trans hs)
  · exact item.supersedes_ne_id he.symm

lemma mem_activeItems_iff {i : BacklogItem} :
    i ∈ b'.activeItems ↔ i = item ∨ i ∈ b.activeItems ∧ (item.supersedes = "" ∨ i.id ≠ item.supersedes) := by
  rw [mem_activeItems, mem_activeItems, h.allItems, List.mem_append, List.mem_singleton, h.mem_supersededIds_iff]
  have hitem : i = item → i.id ∉ b.supersededIds ∧ ¬ (item.supersedes ≠ "" ∧ i.id = item.supersedes) := by
    rintro rfl
    have := h.item_not_superseded
    rw [h.mem_supersededIds_iff, not_or] at this
    exact this
  tauto

lemma points_iff {k v : String} : Points b'.superseding k v ↔
    Points b.superseding k v ∨ item.supersedes ≠ "" ∧ k = item.supersedes ∧ v = item.id := by
  rw [Points, Points, lookup_superseding, lookup_superseding, h.evolutions, supersededBy_concat]
  split_ifs with hk
  · obtain ⟨hne, rfl⟩ := hk
    obtain ⟨old, -, hid, hno⟩ := h.old hne
    have hnone : ¬ supersededBy b.evolutions item.supersedes = some v := fun hv =>
      hno (hid ▸ mem_supersededIds.mpr (supersededBy_isSome.mp ⟨v, hv⟩))
    simp only [hnone, false_or, ne_eq, hne, not_false_eq_true, true_and, Option.some.injEq]
    exact eq_comm
  · constructor
    · exact .inl
    · rintro (hv | ⟨hne, hkk, -⟩)
      · exact hv
      · exact absurd ⟨hne, hkk.symm⟩ hk

lemma points_le : Points b.superseding ≤ Points b'.superseding := fun _ _ hp => h.points_iff.mpr (.inl hp)

/-- What stood for an id stands for it still, or the new item does where it supersedes that. -/
lemma stands {k t : String} (hs : Stands b k t) :
    Stands b' k (if item.supersedes ≠ "" ∧ t = item.supersedes then item.id else t) := by
  have hpath : ReflTransGen (Points b'.superseding) k t :=
    ReflTransGen.mono h.points_le _ _ hs.1
  split_ifs with ht
  · exact ⟨hpath.tail (h.points_iff.mpr (.inr ⟨ht.1, ht.2, rfl⟩)), h.item_not_superseded⟩
  · refine ⟨hpath, fun hin => ?_⟩
    obtain hin | hin := h.mem_supersededIds_iff.mp hin
    · exact hs.2 hin
    · exact ht hin

lemma stands_iff {fuel : ℕ} {m : List (String × String)} (hm : b.latest fuel = some m) {k u : String} :
    Stands b' k u ↔ ∃ t, Stands b k t ∧ u = if item.supersedes ≠ "" ∧ t = item.supersedes then item.id else t := by
  constructor
  · intro hu
    exact ⟨_, lookup_latest hm k, hu.unique (h.stands (lookup_latest hm k))⟩
  · rintro ⟨t, ht, rfl⟩
    exact h.stands ht

lemma unlooped_iff : Unlooped b' ↔ Unlooped b := by
  rw [BacklogOrder.unlooped_iff, BacklogOrder.unlooped_iff]
  constructor
  · exact fun hall k hk => hall k (TransGen.mono h.points_le _ _ hk)
  · intro hall
    refine (acyclic_iff_new item.id (fun k v _ hv hp => ?_) hall).mpr fun hk => ?_
    · obtain hp | ⟨-, -, he⟩ := h.points_iff.mp hp
      · exact hp
      · exact absurd he hv
    · obtain ⟨c, hc, -⟩ := TransGen.head'_iff.mp hk
      exact h.item_not_superseded (mem_keys_superseding.mp (mem_keys_iff.mpr ⟨c, hc⟩))

/-- The dependencies of the record and of the new item name what was in the record before. -/
lemma dependsOn_known {i : BacklogItem} (hi : i = item ∨ i ∈ b.allItems) {d : String} (hd : d ∈ i.dependsOn) :
    d ∈ b.allItems.map (·.id) := by
  obtain rfl | hi := hi
  · have hin : i ∈ b'.allItems := by simp [h.allItems]
    have hk := BacklogOrder.dependsOn_known hin hd
    rw [h.allItems, List.map_append, List.mem_append] at hk
    obtain hk | hk := hk
    · exact hk
    · obtain rfl : d = i.id := by simpa using hk
      exact absurd hd i.id_not_mem_dependsOn
  · exact BacklogOrder.dependsOn_known hi hd

section Leading

variable {fuel : ℕ} {m : List (String × String)} (hm : b.latest fuel = some m)
include hm

lemma needs_iff {i j : BacklogItem} (hj : j ≠ item) :
    Needs b' i j ↔ Needs b i j ∧ (item.supersedes = "" ∨ j.id ≠ item.supersedes) := by
  rw [Needs, Needs, h.mem_activeItems_iff]
  simp only [hj, false_or]
  have hstands : j ∈ b.activeItems → (item.supersedes = "" ∨ j.id ≠ item.supersedes) →
      ∀ d, (Stands b' d j.id ↔ Stands b d j.id) := by
    intro hact hno d
    rw [h.stands_iff hm]
    constructor
    · rintro ⟨t, ht, he⟩
      split_ifs at he with hif
      · exact absurd he (h.new j (mem_activeItems.mp hact).1)
      · exact he ▸ ht
    · intro hs
      refine ⟨j.id, hs, ?_⟩
      rw [if_neg]
      tauto
  constructor
  · rintro ⟨⟨hact, hno⟩, d, hd, hs⟩
    exact ⟨⟨hact, d, hd, (hstands hact hno d).mp hs⟩, hno⟩
  · rintro ⟨⟨hact, d, hd, hs⟩, hno⟩
    exact ⟨⟨hact, hno⟩, d, hd, (hstands hact hno d).mpr hs⟩

/-- The new item is depended on where what it supersedes was. -/
lemma needs_item {i : BacklogItem} (hi : i = item ∨ i ∈ b.allItems) :
    Needs b' i item ↔ item.supersedes ≠ "" ∧ ∃ d ∈ i.dependsOn, Stands b d item.supersedes := by
  have hactive : item ∈ b'.activeItems := h.mem_activeItems_iff.mpr (.inl rfl)
  rw [Needs]
  simp only [hactive, true_and]
  constructor
  · rintro ⟨d, hd, hs⟩
    obtain ⟨t, ht, he⟩ := (h.stands_iff hm).mp hs
    split_ifs at he with hif
    · exact ⟨hif.1, d, hd, hif.2 ▸ ht⟩
    · obtain ⟨j, hj, hid⟩ := List.mem_map.mp (ht.known (h.dependsOn_known hi hd))
      exact absurd (hid.trans he.symm) (h.new j hj)
  · rintro ⟨hne, d, hd, hs⟩
    refine ⟨d, hd, ?_⟩
    have := h.stands hs
    rwa [if_pos ⟨hne, rfl⟩] at this

end Leading

/-- The active items once an item is superseded. -/
lemma mem_activeItems_old {old : BacklogItem} (hold : old ∈ b.allItems) (hid : old.id = item.supersedes)
    {i : BacklogItem} (hi : i ≠ item) : i ∈ b'.activeItems ↔ i ∈ b.activeItems ∧ i ≠ old := by
  have hne : item.supersedes ≠ "" := hid ▸ old.id_ne_empty
  rw [h.mem_activeItems_iff]
  simp only [hi, false_or, hne]
  refine and_congr_right fun hact => not_congr ⟨fun he => ?_, fun he => he ▸ hid⟩
  exact eq_of_id (mem_activeItems.mp hact).1 hold (he.trans hid.symm)

end Evolved

/-- A dependency of the item leads to the item it supersedes. -/
def WaitsForOld (b : Backlog) (item : BacklogItem) : Prop :=
  ∃ i old, Needs b item i ∧ ReflTransGen (Leads b) i old ∧ old.id = item.supersedes

/-- An accepted evolution leaves the order there exactly where no dependency of the new item leads to the item
it supersedes. -/
theorem Evolved.orders_iff (h : Evolved sha256 b item b') (ho : Orders b) : Orders b' ↔ ¬ WaitsForOld b item := by
  obtain ⟨hloop, hacyclic⟩ := BacklogOrder.orders_iff.mp ho
  obtain ⟨m, hm⟩ := Option.isSome_iff_exists.mp (latest_isSome hloop (Nat.lt_succ_self _))
  have hitem : ∀ {i : BacklogItem}, i ∈ b.allItems → i ≠ item := fun hi he => h.new _ hi (he ▸ rfl)
  have hkeep : ∀ a c, a ≠ item → c ≠ item → Leads b' a c → Leads b a c := by
    intro a c ha hc hac
    exact ⟨(h.mem_activeItems_iff.mp hac.1).resolve_left ha |>.1, ((h.needs_iff hm hc).mp hac.2).1⟩
  rw [BacklogOrder.orders_iff, and_iff_right (h.unlooped_iff.mpr hloop), acyclic_iff_new _ hkeep hacyclic, not_iff_not]
  by_cases hne : item.supersedes = ""
  · refine iff_of_false (fun hback => ?_) ?_
    · obtain ⟨i, -, hi⟩ := TransGen.tail'_iff.mp hback
      have hmem : i = item ∨ i ∈ b.allItems :=
        (h.mem_activeItems_iff.mp hi.1).imp_right fun hact => (mem_activeItems.mp hact.1).1
      exact ((h.needs_item hm hmem).mp hi.2).1 hne
    · rintro ⟨i, old, -, -, hid⟩
      exact old.id_ne_empty (hid.trans hne)
  · obtain ⟨old, hold, hid, hlast⟩ := h.old hne
    have hactive : old ∈ b.activeItems := mem_activeItems.mpr ⟨hold, hlast⟩
    have hstands : ∀ i, (∃ d ∈ i.dependsOn, Stands b d item.supersedes) ↔ Needs b i old := by
      intro i
      rw [Needs, and_iff_right hactive, hid]
    rw [transGen_replaced old (Needs b item)]
    · constructor
      · rintro ⟨i, hi, hpath⟩
        exact ⟨i, old, hi, hpath, hid⟩
      · rintro ⟨i, old', hi, hpath, hid'⟩
        have hold' : old' ∈ b.allItems := by
          obtain rfl | ⟨c, -, hc⟩ := hpath.cases_tail
          · exact (mem_activeItems.mp hi.1).1
          · exact (mem_activeItems.mp hc.2.1).1
        exact ⟨i, hi, eq_of_id hold' hold (hid'.trans hid.symm) ▸ hpath⟩
    · intro a c ha hc
      rw [Leads, Leads, h.mem_activeItems_old hold hid ha, h.needs_iff hm hc]
      have hold_iff : c ∈ b.activeItems → (item.supersedes = "" ∨ c.id ≠ item.supersedes ↔ c ≠ old) := by
        intro hact
        rw [or_iff_right hne]
        exact not_congr ⟨fun he => eq_of_id (mem_activeItems.mp hact).1 hold (he.trans hid.symm), fun he => he ▸ hid⟩
      constructor
      · rintro ⟨⟨hact, hao⟩, hneed, hco⟩
        exact ⟨⟨hact, hneed⟩, hao, (hold_iff hneed.1).mp hco⟩
      · rintro ⟨⟨hact, hneed⟩, hao, hco⟩
        exact ⟨⟨hact, hao⟩, hneed, (hold_iff hneed.1).mpr hco⟩
    · intro a ha
      rw [Leads, Leads, h.mem_activeItems_old hold hid ha, ← hstands]
      constructor
      · rintro ⟨⟨hact, hao⟩, hneed⟩
        exact ⟨⟨hact, ((h.needs_item hm (.inr (mem_activeItems.mp hact).1)).mp hneed).2⟩, hao⟩
      · rintro ⟨⟨hact, hneed⟩, hao⟩
        exact ⟨⟨hact, hao⟩, (h.needs_item hm (.inr (mem_activeItems.mp hact).1)).mpr ⟨hne, hneed⟩⟩
    · intro a c hac
      exact ⟨hitem (mem_activeItems.mp hac.1).1, hitem (mem_activeItems.mp hac.2.1).1⟩
    · intro c hc
      rw [Leads, and_iff_right (h.mem_activeItems_iff.mpr (.inl rfl)), h.needs_iff hm hc, or_iff_right hne]
      refine and_congr_right fun hneed => not_congr ⟨fun he => ?_, fun he => he ▸ hid⟩
      exact eq_of_id (mem_activeItems.mp hneed.1).1 hold (he.trans hid.symm)
    · rw [Leads, and_iff_right (h.mem_activeItems_iff.mpr (.inl rfl)), h.needs_item hm (.inl rfl), and_iff_right hne,
        hstands]
    · intro hneed
      exact hitem (mem_activeItems.mp hneed.1).1 rfl

end Steps

section Runs

variable (sha256 : Sha256)

/-- The records reached from one by accepted evolutions of a kind. -/
inductive Evolves (allowed : Backlog → BacklogItem → Prop) (b₀ : Backlog) : Backlog → Prop
  | start : Evolves allowed b₀ b₀
  | evolve {b b' : Backlog} {item : BacklogItem} : Evolves allowed b₀ b → allowed b item →
      b.evolve sha256 item = .ok b' → Evolves allowed b₀ b'

/-- No two evolutions supersede one item. -/
def SupersededOnce (b : Backlog) : Prop :=
  b.evolutions.Pairwise fun e e' => e.supersedes ≠ "" → e.supersedes ≠ e'.supersedes

/-- What every run keeps of a frozen record. -/
structure Kept (b₀ b : Backlog) : Prop where
  items : b.items = b₀.items
  backlogHash : b.backlogHash = b₀.backlogHash
  verifies : b₀.verify sha256 "" = true → b.verify sha256 b₀.backlogHash = true
  once : SupersededOnce b₀ → SupersededOnce b

variable {sha256} {b₀ b b' : Backlog} {item : BacklogItem} {allowed : Backlog → BacklogItem → Prop}

lemma verify_iff {expected : String} : b.verify sha256 expected = true ↔
    b.frozen = true ∧ Backlog.hashOf sha256 b.items = b.backlogHash ∧ (expected ≠ "" → expected = b.backlogHash) ∧
      Backlog.evolutionsChain sha256 b.backlogHash b.evolutions = b.evolutionsHash := by
  unfold Backlog.verify
  split_ifs with h1 h2 h3
  · simp [h1]
  · simp [h2]
  · simp [h3]
  · have hf : b.frozen = true := by simpa using h1
    have hexp : expected ≠ "" → expected = b.backlogHash := fun hne => by_contra fun hn => h3 ⟨hne, hn⟩
    simp only [decide_eq_true_eq, hf, not_not.mp h2, true_and]
    exact ⟨fun hc => ⟨hexp, hc⟩, And.right⟩

lemma Evolved.once (h : Evolved sha256 b item b') (ho : SupersededOnce b) : SupersededOnce b' := by
  rw [SupersededOnce, h.evolutions, List.pairwise_append]
  refine ⟨ho, List.pairwise_singleton _ _, fun e he e' he' hne => ?_⟩
  obtain rfl := List.mem_singleton.mp he'
  intro heq
  obtain ⟨old, -, hid, hno⟩ := h.old (heq ▸ hne)
  exact hno (mem_supersededIds.mpr ⟨e, he, hne, heq.trans hid.symm⟩)

lemma Kept.evolve (hk : Kept sha256 b₀ b) (h : Evolved sha256 b item b') : Kept sha256 b₀ b' where
  items := h.items.trans hk.items
  backlogHash := h.backlogHash.trans hk.backlogHash
  verifies hv := by
    obtain ⟨hf, hhash, -, -⟩ := verify_iff.mp (hk.verifies hv)
    refine verify_iff.mpr ⟨?_, ?_, fun _ => (h.backlogHash.trans hk.backlogHash).symm, h.evolutionsHash.symm⟩
    · rw [Backlog.frozen, h.backlogHash]
      exact hf
    · rw [h.items, h.backlogHash, hhash]
  once ho := h.once (hk.once ho)

lemma kept_of_evolves (h : Evolves sha256 allowed b₀ b) : Kept sha256 b₀ b := by
  induction h with
  | start =>
    refine ⟨rfl, rfl, fun hv => ?_, id⟩
    obtain ⟨hf, hhash, -, hchain⟩ := verify_iff.mp hv
    exact verify_iff.mpr ⟨hf, hhash, fun _ => rfl, hchain⟩
  | evolve _ _ he ih => exact ih.evolve (evolved_of_evolve he)

/-- Every run keeps what is frozen; an evolution leaves the order there exactly where none of its dependencies
leads to what it supersedes, and a run of such evolutions never loses it. -/
theorem evolves_keeps (h : Evolves sha256 allowed b₀ b) :
    Kept sha256 b₀ b ∧
      (∀ item b', b.evolve sha256 item = .ok b' → Orders b → (Orders b' ↔ ¬ WaitsForOld b item)) ∧
      ((∀ b item, allowed b item → ¬ WaitsForOld b item) → Orders b₀ → Orders b) := by
  refine ⟨kept_of_evolves h, fun item b' he ho => (evolved_of_evolve he).orders_iff ho, fun hallowed ho => ?_⟩
  induction h with
  | start => exact ho
  | evolve _ ha he ih => exact ((evolved_of_evolve he).orders_iff ih).mpr (hallowed _ _ ha)

end Runs

section Wedge

variable (sha256 : Sha256)

/-- An item that depends on the first. -/
def itemB : BacklogItem := ⟨plainItem "b" "" ["a"], rfl⟩

lemma pair_checked : Checked [itemA, itemB] [] := checked_of_checkItems rfl

lemma none_checked : Checked [] ([itemA, itemB].map (·.id)) := checked_of_checkItems rfl

/-- A fresh frozen record of the two. -/
def pairBacklog : Backlog :=
  ⟨[itemA, itemB], "", "t", Backlog.hashOf sha256 [itemA, itemB], [], "", "crb.backlog.v1", pair_checked, none_checked,
    fun h => absurd rfl h⟩

/-- An evolution of the first that depends on the second. -/
def itemA2 : BacklogItem := ⟨plainItem "a2" "a" ["b"], rfl⟩

lemma hashOf_ne_empty (items : List BacklogItem) : Backlog.hashOf sha256 items ≠ "" := by
  intro h
  have hlen := (sha256.isHex (GradeRows.canonicalJson (.arr (items.map (·.toDict))))).1
  rw [show sha256.hex _ = "" from h] at hlen
  cases hlen

lemma frozen_pair : (pairBacklog sha256).frozen = true :=
  decide_eq_true (hashOf_ne_empty sha256 [itemA, itemB])

lemma make_isOk {items evolutions : List BacklogItem} {repo frozenAt backlogHash evolutionsHash schema : String}
    (h : Backlog.postInit items evolutions backlogHash = .ok ()) :
    ∃ b, Backlog.make items repo frozenAt backlogHash evolutions evolutionsHash schema = .ok b := by
  unfold Backlog.make
  split
  · rename_i he
    rw [h] at he
    cases he
  · exact ⟨_, rfl⟩

lemma evolve_pair : ∃ b', (pairBacklog sha256).evolve sha256 itemA2 = .ok b' := by
  have hpost : Backlog.postInit [itemA, itemB] ([] ++ [itemA2]) (Backlog.hashOf sha256 [itemA, itemB]) = .ok () := by
    have hitems : checkItems [itemA, itemB] [] = .ok () := rfl
    have hevolutions : checkItems [itemA2] ([itemA, itemB].map (·.id)) = .ok () := rfl
    simp only [Backlog.postInit, hitems, List.nil_append, hevolutions, bind, Except.bind]
    rw [if_neg fun h => hashOf_ne_empty sha256 _ h.2]
  obtain ⟨new, hnew⟩ := make_isOk hpost
  have hget : (pairBacklog sha256).get itemA2.id = none := rfl
  have hmay : (pairBacklog sha256).mayBeSuperseded itemA2.supersedes = .ok () := rfl
  refine ⟨{ new with evolutionsHash := Backlog.evolutionsChain sha256 new.backlogHash new.evolutions }, ?_⟩
  rw [Backlog.evolve, if_neg (by rw [frozen_pair]; simp), if_neg (by rw [hget]; simp), hmay]
  exact bind_eq_ok.mpr ⟨(), rfl, bind_eq_ok.mpr ⟨new, hnew, rfl⟩⟩

lemma orders_pair : Orders (pairBacklog sha256) := ⟨5, [itemA, itemB], rfl⟩

lemma waits_pair : WaitsForOld (pairBacklog sha256) itemA2 := by
  have hstands : ∀ k, Stands (pairBacklog sha256) k k := fun k => ⟨.refl, fun hin => by cases hin⟩
  have hactive : ∀ i ∈ [itemA, itemB], i ∈ (pairBacklog sha256).activeItems := fun i hi =>
    mem_activeItems.mpr ⟨List.mem_append_left _ hi, fun hin => by cases hin⟩
  refine ⟨itemB, itemA, ⟨hactive _ (by simp), "b", by simp [itemA2, plainItem], hstands _⟩, .single ⟨hactive _ (by simp),
    hactive _ (by simp), "a", by simp [itemB, plainItem], hstands _⟩, rfl⟩

/-- The record before the freeze. -/
def pairDraft : Backlog :=
  ⟨[itemA, itemB], "", "", "", [], "", "crb.backlog.v1", pair_checked, none_checked, fun h => absurd rfl h⟩

/-- A frozen record in order, and an evolution it accepts, after which there is no order. -/
theorem wedged_pair : pairDraft.freeze (markDigest []) "t" "" = .ok (pairBacklog (markDigest [])) ∧
    Orders (pairBacklog (markDigest [])) ∧
    ∃ b', (pairBacklog (markDigest [])).evolve (markDigest []) itemA2 = .ok b' ∧ ¬ Orders b' := by
  refine ⟨rfl, orders_pair _, ?_⟩
  obtain ⟨b', hb'⟩ := evolve_pair (markDigest [])
  exact ⟨b', hb', fun h => ((evolved_of_evolve hb').orders_iff (orders_pair _)).mp h (waits_pair _)⟩

theorem evolves_keeps_pair : ∃ b', (pairBacklog (markDigest [])).evolve (markDigest []) itemA2 = .ok b' ∧
    Kept (markDigest []) (pairBacklog (markDigest [])) b' := by
  obtain ⟨b', hb'⟩ := evolve_pair (markDigest [])
  have hrun : Evolves (markDigest []) (fun _ _ => True) (pairBacklog (markDigest [])) b' := .evolve .start trivial hb'
  exact ⟨b', hb', (evolves_keeps hrun).1⟩

end Wedge

end CommitReplay.BacklogRuns
