import CommitReplay.PythonText

/-! JSON values. An object is the list of its items in key order, so equal dictionaries are
equal values; `ofPairs` builds one from any list of pairs. -/
namespace CommitReplay.JsonValue

open CommitReplay.PythonText

section Items

variable {α : Type}

/-- `d[k] = v` on items in key order. -/
def insertKey (k : String) (v : α) : List (String × α) → List (String × α)
  | [] => [(k, v)]
  | p :: ps =>
    if k < p.1 then (k, v) :: p :: ps
    else if k = p.1 then (k, v) :: ps
    else p :: insertKey k v ps

/-- The dictionary a list of pairs builds: the last value of a key stands. -/
def ofPairs (ps : List (String × α)) : List (String × α) :=
  ps.foldl (fun d p => insertKey p.1 p.2 d) []

def KeySorted (ps : List (String × α)) : Prop := ps.Pairwise fun p q => p.1 < q.1

lemma mem_insertKey {k : String} {v : α} {ps : List (String × α)} {q : String × α}
    (h : q ∈ insertKey k v ps) : q = (k, v) ∨ q ∈ ps := by
  induction ps with
  | nil => simpa [insertKey] using h
  | cons p ps ih =>
    rw [insertKey] at h
    split_ifs at h
    · simpa using h
    · rcases List.mem_cons.mp h with h | h
      · exact .inl h
      · exact .inr (List.mem_cons_of_mem _ h)
    · rcases List.mem_cons.mp h with h | h
      · exact .inr (h ▸ List.mem_cons_self)
      · exact (ih h).imp id (List.mem_cons_of_mem _)

lemma keySorted_insertKey (k : String) (v : α) {ps : List (String × α)} (h : KeySorted ps) :
    KeySorted (insertKey k v ps) := by
  induction ps with
  | nil => simp [insertKey, KeySorted]
  | cons p ps ih =>
    obtain ⟨hp, hps⟩ := List.pairwise_cons.mp h
    rw [insertKey]
    split_ifs with h1 h2
    · refine List.pairwise_cons.mpr ⟨fun q hq => ?_, h⟩
      rcases List.mem_cons.mp hq with rfl | hq
      · exact h1
      · exact h1.trans (hp q hq)
    · exact List.pairwise_cons.mpr ⟨fun q hq => h2 ▸ hp q hq, hps⟩
    · refine List.pairwise_cons.mpr ⟨fun q hq => ?_, ih hps⟩
      rcases mem_insertKey hq with rfl | hq
      · exact lt_of_le_of_ne (not_lt.mp h1) (Ne.symm h2)
      · exact hp q hq

lemma keySorted_ofPairs (ps : List (String × α)) : KeySorted (ofPairs ps) := by
  suffices h : ∀ d, KeySorted d → KeySorted (ps.foldl (fun d p => insertKey p.1 p.2 d) d) from
    h [] List.Pairwise.nil
  induction ps with
  | nil => exact fun d hd => hd
  | cons p ps ih => exact fun d hd => ih _ (keySorted_insertKey _ _ hd)

lemma insertKey_append {k : String} {v : α} {d : List (String × α)} (h : ∀ p ∈ d, p.1 < k) :
    insertKey k v d = d ++ [(k, v)] := by
  induction d with
  | nil => rfl
  | cons p d ih =>
    have hp := h p (by simp)
    rw [insertKey, if_neg hp.asymm, if_neg hp.ne', ih fun q hq => h q (by simp [hq])]
    rfl

/-- Items already in key order are the dictionary they build. -/
theorem ofPairs_of_sorted {ps : List (String × α)} (h : KeySorted ps) : ofPairs ps = ps := by
  suffices hf : ∀ d, KeySorted (d ++ ps) →
      ps.foldl (fun d p => insertKey p.1 p.2 d) d = d ++ ps from hf [] h
  clear h
  induction ps with
  | nil => simp
  | cons p ps ih =>
    intro d hd
    have hlt : ∀ q ∈ d, q.1 < p.1 := fun q hq =>
      (List.pairwise_append.mp hd).2.2 q hq p (by simp)
    rw [List.foldl_cons, insertKey_append hlt, ih _ (by simpa using hd)]
    simp

lemma lookup_cons_ite (p : String × α) (d : List (String × α)) (j : String) :
    (p :: d).lookup j = if j = p.1 then some p.2 else d.lookup j := by
  obtain ⟨k, v⟩ := p
  by_cases h : j = k
  · simp [h]
  · have hb : (j == k) = false := by simpa using h
    simp [List.lookup, hb, h]

lemma lookup_insertKey (k j : String) (v : α) (d : List (String × α)) :
    (insertKey k v d).lookup j = if j = k then some v else d.lookup j := by
  induction d with
  | nil => simp [insertKey, lookup_cons_ite]
  | cons p d ih =>
    rw [insertKey]
    split_ifs with h1 h2 h3 <;> simp only [lookup_cons_ite, ih] <;> split_ifs <;> simp_all

/-- Reading a dictionary built from pairs finds the last value given for the key. -/
theorem lookup_ofPairs (ps : List (String × α)) (j : String) :
    (ofPairs ps).lookup j = ps.reverse.lookup j := by
  induction ps using List.reverseRecOn with
  | nil => rfl
  | append_singleton ps p ih =>
    rw [ofPairs] at ih ⊢
    rw [List.foldl_append, List.foldl_cons, List.foldl_nil, lookup_insertKey, ih,
      List.reverse_append, List.reverse_singleton, List.singleton_append, lookup_cons_ite]

lemma lookup_of_mem {ps : List (String × α)} (hn : (ps.map Prod.fst).Nodup) {p : String × α}
    (hp : p ∈ ps) : ps.lookup p.1 = some p.2 := by
  induction ps with
  | nil => simp at hp
  | cons q ps ih =>
    rw [List.map_cons, List.nodup_cons] at hn
    rw [lookup_cons_ite]
    rcases List.mem_cons.mp hp with rfl | hp
    · simp
    · have hne : p.1 ≠ q.1 := fun he => hn.1 (he ▸ List.mem_map_of_mem hp)
      rw [if_neg hne, ih hn.2 hp]

/-- A dictionary built from pairs of distinct keys holds each of them. -/
theorem lookup_ofPairs_of_mem {ps : List (String × α)} (hn : (ps.map Prod.fst).Nodup)
    {p : String × α} (hp : p ∈ ps) : (ofPairs ps).lookup p.1 = some p.2 := by
  rw [lookup_ofPairs]
  exact lookup_of_mem (by rwa [List.map_reverse, List.nodup_reverse]) (List.mem_reverse.mpr hp)

lemma lookup_ofPairs_eq_none {ps : List (String × α)} {k : String} (h : k ∉ ps.map Prod.fst) :
    (ofPairs ps).lookup k = none := by
  rw [lookup_ofPairs, List.lookup_eq_none_iff]
  intro p hp
  have hne : k ≠ p.1 := by
    rintro rfl
    exact h (List.mem_map_of_mem (List.mem_reverse.mp hp))
  simpa using hne

end Items

/-- A JSON value whose floating point numbers are taken from `F`. -/
inductive Json (F : Type) where
  | null
  | bool (b : Bool)
  | int (n : ℤ)
  | float (x : F)
  | str (s : String)
  | arr (xs : List (Json F))
  | obj (fields : List (String × Json F))

/-- Induction over a value through the elements of its arrays and objects. -/
@[elab_as_elim, induction_eliminator]
theorem Json.induct {F : Type} {P : Json F → Prop} (null : P .null) (bool : ∀ b, P (.bool b))
    (int : ∀ n, P (.int n)) (float : ∀ x, P (.float x)) (str : ∀ s, P (.str s))
    (arr : ∀ xs, (∀ v ∈ xs, P v) → P (.arr xs))
    (obj : ∀ fields, (∀ p ∈ fields, P p.2) → P (.obj fields)) : ∀ v, P v := by
  intro v
  refine @Json.rec F P (fun xs => ∀ v ∈ xs, P v) (fun fields => ∀ p ∈ fields, P p.2)
    (fun p => P p.2) null bool int float str arr obj ?_ ?_ ?_ ?_ ?_ v
  · simp
  · intro v xs hv hxs
    exact List.forall_mem_cons.mpr ⟨hv, hxs⟩
  · simp
  · intro p ps hp hps
    exact List.forall_mem_cons.mpr ⟨hp, hps⟩
  · intro k v hv
    exact hv

section Values

variable {F : Type}

/-- A value whose dictionaries are all in key order, as the printer writes them. -/
inductive Canonical : Json F → Prop where
  | null : Canonical .null
  | bool (b : Bool) : Canonical (.bool b)
  | int (n : ℤ) : Canonical (.int n)
  | float (x : F) : Canonical (.float x)
  | str (s : String) : Canonical (.str s)
  | arr {xs : List (Json F)} : (∀ v ∈ xs, Canonical v) → Canonical (.arr xs)
  | obj {ps : List (String × Json F)} :
      KeySorted ps → (∀ p ∈ ps, Canonical p.2) → Canonical (.obj ps)

mutual

/-- The characters of the strings and keys of a value, in the order they are written. -/
def chars : Json F → Text
  | .str s => s.toList
  | .arr xs => charsAll xs
  | .obj ps => charsFields ps
  | _ => []
termination_by structural v => v

def charsAll : List (Json F) → Text
  | [] => []
  | v :: vs => chars v ++ charsAll vs
termination_by structural vs => vs

def charsFields : List (String × Json F) → Text
  | [] => []
  | p :: ps => charsField p ++ charsFields ps
termination_by structural ps => ps

def charsField : String × Json F → Text
  | (k, v) => k.toList ++ chars v
termination_by structural p => p

end

@[simp] lemma charsAll_eq (vs : List (Json F)) : charsAll vs = vs.flatMap chars := by
  induction vs with
  | nil => rfl
  | cons v vs ih => rw [charsAll, ih, List.flatMap_cons]

@[simp] lemma charsFields_eq (ps : List (String × Json F)) :
    charsFields ps = ps.flatMap fun p => p.1.toList ++ chars p.2 := by
  induction ps with
  | nil => rfl
  | cons p ps ih => rw [charsFields, ih, List.flatMap_cons, charsField]

mutual

/-- The same value with every dictionary in key order. -/
def normal : Json F → Json F
  | .arr xs => .arr (normalAll xs)
  | .obj ps => .obj (ofPairs (normalFields ps))
  | v => v
termination_by structural v => v

def normalAll : List (Json F) → List (Json F)
  | [] => []
  | v :: vs => normal v :: normalAll vs
termination_by structural vs => vs

def normalFields : List (String × Json F) → List (String × Json F)
  | [] => []
  | p :: ps => normalField p :: normalFields ps
termination_by structural ps => ps

def normalField : String × Json F → String × Json F
  | (k, v) => (k, normal v)
termination_by structural p => p

end

mutual

/-- The same value with every string in it, but no key, replaced. -/
def mapStrings (f : String → String) : Json F → Json F
  | .str s => .str (f s)
  | .arr xs => .arr (mapStringsAll f xs)
  | .obj ps => .obj (mapStringsFields f ps)
  | v => v
termination_by structural v => v

def mapStringsAll (f : String → String) : List (Json F) → List (Json F)
  | [] => []
  | v :: vs => mapStrings f v :: mapStringsAll f vs
termination_by structural vs => vs

def mapStringsFields (f : String → String) : List (String × Json F) → List (String × Json F)
  | [] => []
  | p :: ps => mapStringsField f p :: mapStringsFields f ps
termination_by structural ps => ps

def mapStringsField (f : String → String) : String × Json F → String × Json F
  | (k, v) => (k, mapStrings f v)
termination_by structural p => p

end

@[simp] lemma mapStringsAll_eq (f : String → String) (vs : List (Json F)) :
    mapStringsAll f vs = vs.map (mapStrings f) := by
  induction vs with
  | nil => rfl
  | cons v vs ih => rw [mapStringsAll, ih, List.map_cons]

@[simp] lemma mapStringsFields_eq (f : String → String) (ps : List (String × Json F)) :
    mapStringsFields f ps = ps.map fun p => (p.1, mapStrings f p.2) := by
  induction ps with
  | nil => rfl
  | cons p ps ih => rw [mapStringsFields, ih, List.map_cons, mapStringsField]

lemma keySorted_mapStrings {ps : List (String × Json F)} (f : String → String) (h : KeySorted ps) :
    KeySorted (ps.map fun p => (p.1, mapStrings f p.2)) := by
  rw [KeySorted, List.pairwise_map]
  exact h

theorem canonical_mapStrings (f : String → String) {v : Json F} (h : Canonical v) :
    Canonical (mapStrings f v) := by
  induction h with
  | null => exact .null
  | bool b => exact .bool b
  | int n => exact .int n
  | float x => exact .float x
  | str s => exact .str _
  | arr _ ih =>
    rw [mapStrings, mapStringsAll_eq]
    refine .arr fun w hw => ?_
    obtain ⟨v, hv, rfl⟩ := List.mem_map.mp hw
    exact ih v hv
  | obj hs _ ih =>
    rw [mapStrings, mapStringsFields_eq]
    refine .obj (keySorted_mapStrings f hs) fun q hq => ?_
    obtain ⟨p, hp, rfl⟩ := List.mem_map.mp hq
    exact ih p hp

lemma mem_ofPairs {α : Type} {ps : List (String × α)} {p : String × α} (h : p ∈ ofPairs ps) :
    p ∈ ps := by
  induction ps using List.reverseRecOn with
  | nil => simp [ofPairs] at h
  | append_singleton ps q ih =>
    rw [ofPairs, List.foldl_append, List.foldl_cons, List.foldl_nil] at h
    rcases mem_insertKey h with rfl | h
    · simp
    · exact List.mem_append_left _ (ih h)

@[simp] lemma normalAll_eq (vs : List (Json F)) : normalAll vs = vs.map normal := by
  induction vs with
  | nil => rfl
  | cons v vs ih => rw [normalAll, ih, List.map_cons]

@[simp] lemma normalFields_eq (ps : List (String × Json F)) :
    normalFields ps = ps.map fun p => (p.1, normal p.2) := by
  induction ps with
  | nil => rfl
  | cons p ps ih => rw [normalFields, ih, List.map_cons, normalField]

theorem canonical_normal (v : Json F) : Canonical (normal v) := by
  induction v with
  | null => exact .null
  | bool b => exact .bool b
  | int n => exact .int n
  | float x => exact .float x
  | str s => exact .str s
  | arr xs ih =>
    rw [normal, normalAll_eq]
    refine .arr fun w hw => ?_
    obtain ⟨v, hv, rfl⟩ := List.mem_map.mp hw
    exact ih v hv
  | obj ps ih =>
    rw [normal, normalFields_eq]
    refine .obj (keySorted_ofPairs _) fun q hq => ?_
    obtain ⟨p, hp, rfl⟩ := List.mem_map.mp (mem_ofPairs hq)
    exact ih p hp

theorem normal_of_canonical {v : Json F} (h : Canonical v) : normal v = v := by
  induction h with
  | @arr xs _ ih =>
    rw [normal, normalAll_eq, List.map_congr_left ih, List.map_id']
  | @obj ps hs _ ih =>
    have hm : ps.map (fun p => (p.1, normal p.2)) = ps := by
      conv_rhs => rw [← List.map_id ps]
      exact List.map_congr_left fun p hp => by rw [ih p hp]; rfl
    rw [normal, normalFields_eq, hm, ofPairs_of_sorted hs]
  | _ => rfl

end Values

end CommitReplay.JsonValue
