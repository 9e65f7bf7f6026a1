import Mathlib.Data.List.Basic
import Mathlib.Data.List.Nodup

/-! A table whose rows are found by a primary key. Rows are added and changed, never removed, and
no change touches a key. -/
namespace CommitReplay.KeyedTable

variable {K V : Type*} [DecidableEq K]

/-- Rows with pairwise different keys, in the order they were inserted. -/
structure Table (key : V → K) where
  rows : List V
  nodup : (rows.map key).Nodup

namespace Table

variable {key : V → K} (t : Table key)

def empty : Table key := ⟨[], List.nodup_nil⟩

/-- The row with this key. -/
def get? (k : K) : Option V := t.rows.find? fun v => key v = k

/-- A change of every row. -/
def mapRows (f : V → V) (hf : ∀ v, key (f v) = key v) : Table key where
  rows := t.rows.map f
  nodup := by
    have : key ∘ f = key := funext hf
    rw [List.map_map, this]
    exact t.nodup

/-- A change of the row with this key. -/
def modify (k : K) (f : V → V) (hf : ∀ v, key (f v) = key v) : Table key :=
  t.mapRows (fun v => if key v = k then f v else v) fun v => by
    split_ifs
    · exact hf v
    · rfl

/-- A new row, unless its key is taken. -/
def insert? (v : V) : Option (Table key) :=
  if h : key v ∈ t.rows.map key then none
  else some ⟨t.rows ++ [v], by
    rw [List.map_append]
    exact t.nodup.append (List.nodup_singleton _) (List.disjoint_singleton.mpr h)⟩

variable {t}

@[simp] lemma get?_empty (k : K) : (empty : Table key).get? k = none := rfl

lemma get?_eq_some {k : K} {v : V} : t.get? k = some v ↔ v ∈ t.rows ∧ key v = k := by
  refine ⟨fun h => ⟨List.mem_of_find?_eq_some h, ?_⟩, fun ⟨hv, hk⟩ => ?_⟩
  · simpa using List.find?_some h
  · obtain ⟨w, hw⟩ := Option.isSome_iff_exists.mp
      (List.find?_isSome.mpr ⟨v, hv, by simpa using hk⟩ : (t.get? k).isSome)
    have hkw : key w = k := by simpa using List.find?_some hw
    rw [List.inj_on_of_nodup_map t.nodup hv (List.mem_of_find?_eq_some hw) (hk.trans hkw.symm)]
    exact hw

lemma get?_mapRows (f : V → V) (hf : ∀ v, key (f v) = key v) (k : K) :
    (t.mapRows f hf).get? k = (t.get? k).map f := by
  rw [get?, mapRows, List.find?_map]
  simp only [Function.comp_def, hf]
  rfl

lemma get?_modify (k : K) (f : V → V) (hf : ∀ v, key (f v) = key v) (j : K) :
    (t.modify k f hf).get? j = if j = k then (t.get? j).map f else t.get? j := by
  rw [modify, get?_mapRows]
  cases h : t.get? j with
  | none => simp
  | some v =>
    have hv : key v = j := (get?_eq_some.mp h).2
    simp only [Option.map_some, hv]
    split_ifs <;> rfl

lemma rows_insert? {v : V} {t' : Table key} (h : t.insert? v = some t') :
    t'.rows = t.rows ++ [v] := by
  unfold insert? at h
  split_ifs at h
  obtain rfl := Option.some.inj h
  rfl

/-- Whatever was found before an insert is found after it. -/
lemma get?_insert? {v : V} {t' : Table key} (h : t.insert? v = some t') {k : K} {w : V}
    (hw : t.get? k = some w) : t'.get? k = some w := by
  rw [get?_eq_some] at hw ⊢
  exact ⟨rows_insert? h ▸ List.mem_append_left _ hw.1, hw.2⟩

lemma rows_modify (k : K) (f : V → V) (hf : ∀ v, key (f v) = key v) :
    (t.modify k f hf).rows = t.rows.map fun v => if key v = k then f v else v := rfl

lemma mem_insert? {v w : V} {t' : Table key} (h : t.insert? v = some t') :
    w ∈ t'.rows ↔ w ∈ t.rows ∨ w = v := by
  simp [rows_insert? h]

end Table

end CommitReplay.KeyedTable
