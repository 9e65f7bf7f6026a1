import CommitReplay.PythonText

/-! The labels of an escalation ladder and the index that resolves them. A rung's label is the first
of its spellings that no earlier rung was given, and the index keeps of each spelling the first rung
that enters it; so an earlier rung's alias can hold a later rung's label. -/
namespace CommitReplay.RungLabels

open CommitReplay.PythonText

section Ladder

/-- A step of a ladder, with whatever configuration it carries. -/
structure Rung (C : Type) where
  builder : Text
  model : Text
  provider : Text
  config : C
  builder_ne : builder ≠ []
  model_ne : model ≠ []

structure EscalationLadder (C : Type) where
  rungs : List (Rung C)
  rungs_ne : rungs ≠ []

variable {C : Type}

def Rung.label (r : Rung C) : Text := r.builder ++ ':' :: r.model

/-- The spellings of a rung that name its provider. -/
def providerAliases (r : Rung C) : List Text :=
  if r.provider = [] then [] else [r.label ++ '@' :: r.provider, r.label ++ ':' :: r.provider]

/-- `_aliases`: every spelling the index resolves. -/
def aliases (r : Rung C) : List Text := r.label :: providerAliases r

/-- The labels tried for the rung of an index, in order. -/
def candidates (r : Rung C) (i : ℕ) : List Text :=
  r.label :: (if r.provider = [] then [] else [r.label ++ '@' :: r.provider]) ++
    [r.label ++ '#' :: Nat.toDigits 10 i]

/-- The loop of `ladder_labels`; there is no value when no candidate is left, and `next` raises. -/
def labelsFrom : ℕ → List Text → List (Rung C) → Option (List Text)
  | _, _, [] => some []
  | i, seen, r :: rs =>
    ((candidates r i).find? (· ∉ seen)).bind fun label =>
      (labelsFrom (i + 1) (seen ++ [label]) rs).map (label :: ·)

def ladderLabels (ladder : EscalationLadder C) : Option (List Text) := labelsFrom 0 [] ladder.rungs

/-- `index.setdefault`. -/
def setDefault (index : List (Text × Rung C)) (key : Text) (r : Rung C) : List (Text × Rung C) :=
  if (index.lookup key).isSome then index else index ++ [(key, r)]

/-- A rung enters its label, then its aliases. -/
def enter (index : List (Text × Rung C)) (p : Text × Rung C) : List (Text × Rung C) :=
  (p.1 :: aliases p.2).foldl (fun d key => setDefault d key p.2) index

def rungIndex (ladder : EscalationLadder C) : Option (List (Text × Rung C)) :=
  (ladderLabels ladder).map fun labels => (labels.zip ladder.rungs).foldl enter []

end Ladder

section Lookup

variable {C : Type} {r : Rung C} {t : Text}

lemma lookup_setDefault (index : List (Text × Rung C)) (key : Text) :
    (setDefault index key r).lookup t = (index.lookup t).or (if t = key then some r else none) := by
  rw [setDefault]
  by_cases ht : t = key
  · subst ht
    cases h : index.lookup t with
    | some s => simp [h]
    | none => simp [h, List.lookup_append]
  · rw [if_neg ht, Option.or_none]
    split_ifs
    · rfl
    · simp [List.lookup_append, List.lookup_cons, beq_eq_false_iff_ne.mpr ht]

lemma lookup_foldl_setDefault (keys : List Text) (index : List (Text × Rung C)) :
    (keys.foldl (fun d key => setDefault d key r) index).lookup t =
      (index.lookup t).or (if t ∈ keys then some r else none) := by
  induction keys generalizing index with
  | nil => simp
  | cons k ks ih =>
    rw [List.foldl_cons, ih, lookup_setDefault]
    cases index.lookup t with
    | some s => rfl
    | none => by_cases hk : t = k <;> simp [hk]

/-- A spelling resolves to the first rung that enters it. -/
lemma lookup_foldl_enter (ps : List (Text × Rung C)) (index : List (Text × Rung C)) :
    (ps.foldl enter index).lookup t = (index.lookup t).or
      ((ps.find? fun p => t ∈ p.1 :: aliases p.2).map (·.2)) := by
  induction ps generalizing index with
  | nil => simp
  | cons p ps ih =>
    rw [List.foldl_cons, ih, enter, lookup_foldl_setDefault, List.find?_cons]
    cases index.lookup t with
    | some s => rfl
    | none => by_cases ht : t ∈ p.1 :: aliases p.2 <;> simp [ht]

end Lookup

section Labels

variable {C : Type}

lemma labelsFrom_spec {i : ℕ} {seen labels : List Text} {rungs : List (Rung C)}
    (h : labelsFrom i seen rungs = some labels) :
    labels.length = rungs.length ∧ labels.Nodup ∧ ∀ l ∈ labels, l ∉ seen := by
  induction rungs generalizing i seen labels with
  | nil =>
    obtain rfl := Option.some.inj h
    simp
  | cons r rs ih =>
    obtain ⟨label, hlabel, hrest⟩ := Option.bind_eq_some_iff.mp h
    obtain ⟨ls, hls, rfl⟩ := Option.map_eq_some_iff.mp hrest
    obtain ⟨hlen, hnodup, hnew⟩ := ih hls
    have hfree : label ∉ seen := by simpa using List.find?_some hlabel
    refine ⟨by simp [hlen], List.nodup_cons.mpr ⟨fun hm => hnew label hm (by simp), hnodup⟩, ?_⟩
    exact List.forall_mem_cons.mpr ⟨hfree, fun l hl hs => hnew l hl (List.mem_append_left _ hs)⟩

/-- A rung's own `builder:model` is a label, its own or an earlier one. -/
lemma label_mem_labelsFrom {i : ℕ} {seen labels : List Text} {rungs : List (Rung C)}
    (h : labelsFrom i seen rungs = some labels) : ∀ r ∈ rungs, r.label ∈ seen ++ labels := by
  induction rungs generalizing i seen labels with
  | nil => simp
  | cons r rs ih =>
    obtain ⟨t, ht, hrest⟩ := Option.bind_eq_some_iff.mp h
    obtain ⟨ls, hls, rfl⟩ := Option.map_eq_some_iff.mp hrest
    have htail := ih hls
    rw [List.append_assoc, List.singleton_append] at htail
    refine List.forall_mem_cons.mpr ⟨?_, htail⟩
    by_cases hseen : r.label ∈ seen
    · exact List.mem_append_left _ hseen
    · have hfirst : (candidates r i).find? (· ∉ seen) = some r.label :=
        List.find?_cons_of_pos (by simpa using hseen)
      obtain rfl := Option.some.inj (ht.symm.trans hfirst)
      exact List.mem_append_right _ List.mem_cons_self

/-- The first earlier rung a text is a spelling of, if there is one, is the rung. -/
def SpeltBy (earlier : List (Rung C)) (t : Text) (r : Rung C) : Prop :=
  ∀ s ∈ earlier.find? (t ∈ aliases ·), s = r

/-- Each labelled rung has a label that no other rung before it spells. -/
def Owned : List (Rung C) → List (Text × Rung C) → Prop
  | _, [] => True
  | earlier, p :: ps => SpeltBy earlier p.1 p.2 ∧ Owned (earlier ++ [p.2]) ps

/-- Each rung, after the rungs before it and the labels they were given, has a candidate left, and
the first left is no spelling of another rung before it. -/
def Clear : List (Rung C) → List Text → List (Rung C) → Prop
  | _, _, [] => True
  | earlier, seen, r :: rs => ∃ t, (candidates r earlier.length).find? (· ∉ seen) = some t ∧
      SpeltBy earlier t r ∧ Clear (earlier ++ [r]) (seen ++ [t]) rs

lemma clear_iff {earlier : List (Rung C)} {seen : List Text} {rungs : List (Rung C)} :
    Clear earlier seen rungs ↔ ∃ labels, labelsFrom earlier.length seen rungs = some labels ∧
      Owned earlier (labels.zip rungs) := by
  induction rungs generalizing earlier seen with
  | nil => simp [Clear, labelsFrom, Owned]
  | cons r rs ih =>
    rw [Clear, labelsFrom]
    constructor
    · rintro ⟨t, ht, hspelt, hrest⟩
      obtain ⟨labels, hl, howned⟩ := ih.mp hrest
      rw [List.length_append, List.length_singleton] at hl
      exact ⟨t :: labels, by rw [ht, Option.bind_some, hl, Option.map_some], hspelt, howned⟩
    · rintro ⟨labels, hl, howned⟩
      obtain ⟨t, ht, hrest⟩ := Option.bind_eq_some_iff.mp hl
      obtain ⟨ls, hls, rfl⟩ := Option.map_eq_some_iff.mp hrest
      refine ⟨t, ht, howned.1, ih.mpr ⟨ls, ?_, howned.2⟩⟩
      rw [List.length_append, List.length_singleton, hls]

/-- The index resolves the labels of some rungs, after those before them, exactly when they own
them. -/
lemma lookup_iff_owned {pre ps : List (Text × Rung C)} (hnodup : ((pre ++ ps).map (·.1)).Nodup) :
    (∀ p ∈ ps, ((pre ++ ps).foldl enter []).lookup p.1 = some p.2) ↔ Owned (pre.map (·.2)) ps := by
  induction ps generalizing pre with
  | nil => simp [Owned]
  | cons p ps ih =>
    have hnew : ∀ q ∈ pre, q.1 ≠ p.1 := by
      intro q hq he
      rw [List.map_append, List.nodup_append] at hnodup
      exact hnodup.2.2 q.1 (List.mem_map_of_mem hq) p.1 (by simp) he
    have hpre : pre.find? (fun q => p.1 ∈ q.1 :: aliases q.2) = pre.find? (p.1 ∈ aliases ·.2) := by
      refine List.find?_congr fun q hq => ?_
      simp [(hnew q hq).symm]
    have hfirst : ((pre ++ p :: ps).foldl enter []).lookup p.1 = some p.2 ↔
        SpeltBy (pre.map (·.2)) p.1 p.2 := by
      rw [lookup_foldl_enter, List.find?_append, hpre, SpeltBy, List.find?_map]
      have hself : (p :: ps).find? (fun q => p.1 ∈ q.1 :: aliases q.2) = some p :=
        List.find?_cons_of_pos (by simp)
      rw [hself]
      change ((pre.find? fun q => p.1 ∈ aliases q.2).or (some p)).map (·.2) = some p.2 ↔
        ∀ s ∈ (pre.find? fun q => p.1 ∈ aliases q.2).map (·.2), s = p.2
      cases pre.find? fun q => p.1 ∈ aliases q.2 with
      | none => simp
      | some q => simp
    rw [List.forall_mem_cons, hfirst, Owned]
    refine and_congr_right fun _ => ?_
    have hsplit : pre ++ p :: ps = (pre ++ [p]) ++ ps := by simp
    rw [hsplit] at hnodup ⊢
    rw [ih hnodup, List.map_append]
    rfl

end Labels

section Resolves

variable {C : Type} (ladder : EscalationLadder C)

/-- Every rung has a label of its own, the index resolves it to the rung, and any other spelling
that names a provider to the first rung it spells. -/
def Resolves : Prop := ∃ labels index, ladderLabels ladder = some labels ∧ rungIndex ladder = some index ∧
  labels.length = ladder.rungs.length ∧ labels.Nodup ∧
  (∀ p ∈ labels.zip ladder.rungs, index.lookup p.1 = some p.2) ∧
  ∀ r ∈ ladder.rungs, ∀ t ∈ providerAliases r, t ∉ labels →
    index.lookup t = ladder.rungs.find? (t ∈ providerAliases ·)

variable {ladder}

/-- A spelling that is no rung's label is found where it was entered as an alias. -/
lemma lookup_alias {labels : List Text} (h : ladderLabels ladder = some labels) {t : Text}
    (ht : t ∉ labels) : ((labels.zip ladder.rungs).foldl enter []).lookup t =
      ladder.rungs.find? (t ∈ providerAliases ·) := by
  obtain ⟨hlen, -, -⟩ := labelsFrom_spec h
  have hkey : ∀ p ∈ labels.zip ladder.rungs,
      decide (t ∈ p.1 :: aliases p.2) = decide (t ∈ providerAliases p.2) := by
    intro p hp
    obtain ⟨hl, hr⟩ := List.of_mem_zip hp
    have h1 : t ≠ p.1 := fun he => ht (he ▸ hl)
    have h2 : t ≠ p.2.label := fun he => ht (he ▸ label_mem_labelsFrom h p.2 hr)
    simp [aliases, h1, h2]
  rw [lookup_foldl_enter, List.find?_congr hkey]
  have hmap : ((labels.zip ladder.rungs).map Prod.snd).find? (t ∈ providerAliases ·) =
      ((labels.zip ladder.rungs).find? fun p => t ∈ providerAliases p.2).map (·.2) := List.find?_map ..
  rw [List.map_snd_zip hlen.ge] at hmap
  exact hmap.symm

end Resolves

section Sample

def sampleRung (model provider : String) (config : ℕ) : Rung ℕ :=
  ⟨"fake".toList, 'm' :: model.toList, provider.toList, config, by simp, by simp⟩

/-- A rung whose `builder:model#2` is the third rung's last candidate. -/
example : ladderLabels ⟨[sampleRung "" "" 0, sampleRung "#2" "" 0, sampleRung "" "" 1], by simp⟩ = none := by
  rfl

/-- Two rungs of one builder, model and provider that differ in their configuration. -/
def repeatedLadder : EscalationLadder ℕ := ⟨[sampleRung "" "b" 0, sampleRung "" "b" 1], by simp⟩

end Sample

end CommitReplay.RungLabels
