import CommitReplay.TicketItems

/-! The ids of tickets: each is legal on the backlog, and two of them are the same where the slugs of their keys,
or what was shortened of these, read the same with their revisions behind. -/
namespace CommitReplay.TicketNames

open CommitReplay.PythonText CommitReplay.Slugs CommitReplay.GradeRows CommitReplay.BacklogRecord
open CommitReplay.TicketItems

section Sanitised

lemma legal_dash : isLegal '-' = true := rfl

lemma legal_dot : isLegal '.' = true := rfl

lemma isIdChar_of_isLegal {c : Char} (h : isLegal c = true) : isIdChar c = true := by
  simp only [isLegal, Bool.or_eq_true, decide_eq_true_eq] at h
  simp only [isIdChar, Char.isAlphanum, Char.isAlpha, Bool.or_eq_true, decide_eq_true_eq]
  tauto

lemma all_legal_collapse (inRun : Bool) (s : Text) : ∀ c ∈ collapse isLegal '-' inRun s, isLegal c = true := by
  induction s generalizing inRun with
  | nil => exact List.forall_mem_nil _
  | cons c cs ih =>
    rw [collapse]
    split_ifs with hc hrun
    · exact List.forall_mem_cons.mpr ⟨hc, ih false⟩
    · exact ih true
    · exact List.forall_mem_cons.mpr ⟨legal_dash, ih true⟩

/-- A legal character ends a run, -/
lemma collapse_append_legal (inRun : Bool) (s : Text) {c : Char} (hc : isLegal c = true) (t : Text) :
    collapse isLegal '-' inRun (s ++ c :: t) =
      collapse isLegal '-' inRun s ++ c :: collapse isLegal '-' false t := by
  induction s generalizing inRun with
  | nil => rw [List.nil_append, collapse.eq_2, if_pos hc, collapse.eq_1, List.nil_append]
  | cons d s ih =>
    rw [List.cons_append, collapse, collapse]
    split_ifs <;> simp only [ih, List.cons_append]

/-- and a legal text is kept. -/
lemma collapse_of_legal {s : Text} (h : ∀ c ∈ s, isLegal c = true) : collapse isLegal '-' false s = s := by
  induction s with
  | nil => rfl
  | cons c s ih =>
    obtain ⟨hc, hs⟩ := List.forall_mem_cons.mp h
    rw [collapse, if_pos hc, ih hs]

lemma lower_append (s t : Text) : lower (s ++ t) = lower s ++ lower t := List.flatMap_append

lemma toLower_of_isLegal {c : Char} (h : isLegal c = true) : c.toLower = c := by
  refine dif_neg fun hupper => ?_
  have hlow : 65 ≤ c.val.toNat := UInt32.le_iff_toNat_le.mp hupper.1
  have hhigh : c.val.toNat ≤ 90 := UInt32.le_iff_toNat_le.mp hupper.2
  simp only [isLegal, Char.isLower, Char.isDigit, Bool.or_eq_true, Bool.and_eq_true, decide_eq_true_eq,
    ge_iff_le, UInt32.le_iff_toNat_le] at h
  rcases h with (((h | h) | rfl) | rfl) | rfl
  · have : 97 ≤ c.val.toNat := h.1
    omega
  · have : c.val.toNat ≤ 57 := h.2
    omega
  all_goals revert hlow hhigh; decide

lemma toNat_of_isLegal {c : Char} (h : isLegal c = true) : c.toNat < 123 := by
  simp only [isLegal, Char.isLower, Char.isDigit, Bool.or_eq_true, Bool.and_eq_true, decide_eq_true_eq,
    ge_iff_le, UInt32.le_iff_toNat_le] at h
  rcases h with (((h | h) | rfl) | rfl) | rfl
  · exact Nat.lt_succ_of_le h.2
  · exact Nat.lt_of_le_of_lt h.2 (by decide)
  all_goals decide

lemma lower_of_legal {s : Text} (h : ∀ c ∈ s, isLegal c = true) : lower s = s := by
  induction s with
  | nil => rfl
  | cons c s ih =>
    obtain ⟨hc, hs⟩ := List.forall_mem_cons.mp h
    have hn := toNat_of_isLegal hc
    rw [lower, List.flatMap_cons, if_neg (by omega), if_neg (by omega), toLower_of_isLegal hc]
    exact congrArg (c :: ·) (ih hs)

lemma all_legal_sanitise (s : Text) : ∀ c ∈ sanitise s, isLegal c = true := all_legal_collapse false _

lemma mem_of_mem_stripEdges {s : Text} {c : Char} (h : c ∈ stripEdges s) : c ∈ s :=
  (List.dropWhile_sublist _).mem ((List.rdropWhile_prefix _ _).sublist.mem h)

lemma all_legal_keySlug (key : Text) : ∀ c ∈ keySlug key, isLegal c = true :=
  fun c hc => all_legal_sanitise key c (mem_of_mem_stripEdges hc)

end Sanitised

section Edges

/-- A text that `strip` leaves as it is, and that is not empty. -/
def Trimmed (s : Text) : Prop :=
  s ≠ [] ∧ (∀ c ∈ s.head?, isEdge c = false) ∧ ∀ c ∈ s.getLast?, isEdge c = false

lemma trimmed_stripEdges {s : Text} (h : stripEdges s ≠ []) : Trimmed (stripEdges s) := by
  refine ⟨h, fun c hc => ?_, fun c hc => ?_⟩
  · obtain ⟨t, ht⟩ := List.rdropWhile_prefix isEdge (s.dropWhile isEdge)
    have hhead : (s.dropWhile isEdge).head? = some c := by
      have hc' : ((s.dropWhile isEdge).rdropWhile isEdge).head? = some c := hc
      rw [← ht, List.head?_append, hc', Option.some_or]
    have hnot := List.head?_dropWhile_not isEdge s
    rwa [hhead] at hnot
  · have hlast := List.rdropWhile_last_not isEdge (s.dropWhile isEdge) h
    rw [List.getLast?_eq_some_getLast h, Option.mem_some_iff] at hc
    exact Bool.eq_false_iff.mpr (hc ▸ hlast)

lemma rdropWhile_append_trimmed (t : Text) {s : Text} (h : Trimmed s) :
    (t ++ s).rdropWhile isEdge = t ++ s := by
  refine List.rdropWhile_eq_self_iff.mpr fun hne => ?_
  rw [List.getLast_append_of_ne_nil hne h.1]
  exact Bool.eq_false_iff.mp (h.2.2 _ (List.getLast?_eq_some_getLast h.1))

lemma dropWhile_append_trimmed (t : Text) {s : Text} (h : Trimmed s) :
    (t ++ s).dropWhile isEdge = t.dropWhile isEdge ++ s := by
  obtain ⟨c, s, rfl⟩ := List.exists_cons_of_ne_nil h.1
  have hc : isEdge c = false := h.2.1 c rfl
  rw [List.dropWhile_append]
  split_ifs with ht
  · rw [List.isEmpty_iff.mp ht, List.nil_append, List.dropWhile_cons_of_neg (Bool.eq_false_iff.mp hc)]
  · rfl

lemma rdropWhile_cons {c : Char} (hc : isEdge c = false) (s : Text) :
    (c :: s).rdropWhile isEdge = c :: s.rdropWhile isEdge := by
  induction s using List.reverseRecOn with
  | nil => rw [List.rdropWhile_singleton, if_neg (Bool.eq_false_iff.mp hc), List.rdropWhile_nil]
  | append_singleton s d ih =>
    rw [← List.cons_append, List.rdropWhile_concat, List.rdropWhile_concat, ih]
    split_ifs <;> rfl

end Edges

section Slugs

/-- What of a tracker stands before every key's slug. -/
def lead (tracker : Text) : Text := (sanitise tracker ++ ['-']).dropWhile isEdge

lemma all_legal_lead (tracker : Text) : ∀ c ∈ lead tracker, isLegal c = true := by
  intro c hc
  obtain hc | hc := List.mem_append.mp ((List.dropWhile_sublist _).mem hc)
  · exact all_legal_sanitise tracker c hc
  · exact List.mem_singleton.mp hc ▸ legal_dash

lemma slugOf_eq (tracker : Text) {key : Text} (h : keySlug key ≠ []) :
    slugOf tracker (keySlug key) = lead tracker ++ keySlug key := by
  have hsan : sanitise (tracker ++ '-' :: keySlug key) = sanitise tracker ++ ['-'] ++ keySlug key := by
    have hlow : lower ('-' :: keySlug key) = '-' :: keySlug key :=
      lower_of_legal (List.forall_mem_cons.mpr ⟨legal_dash, all_legal_keySlug key⟩)
    rw [sanitise, lower_append, hlow, collapse_append_legal _ _ legal_dash,
      collapse_of_legal (all_legal_keySlug key), sanitise, List.append_assoc, List.singleton_append]
  have htrim : Trimmed (keySlug key) := trimmed_stripEdges h
  rw [slugOf, stripEdges, hsan, dropWhile_append_trimmed _ htrim, rdropWhile_append_trimmed _ htrim, lead]

lemma all_legal_slugOf (tracker s : Text) : ∀ c ∈ slugOf tracker s, isLegal c = true :=
  fun c hc => all_legal_sanitise _ c (mem_of_mem_stripEdges hc)

end Slugs

section Ids

variable (sha256 : Sha256) (tracker key : Text)

/-- A key that an id can be made of. -/
def Usable : Prop :=
  keySlug key ≠ [] ∧ (slugOf tracker (keySlug key)).head?.any Char.isAlphanum = true

instance : Decidable (Usable tracker key) := inferInstanceAs (Decidable (_ ∧ _))

/-- The slug of a key fits into an id as it is. -/
def Short : Prop := (slugOf tracker (keySlug key)).length ≤ idMaxLen

instance : Decidable (Short tracker key) := inferInstanceAs (Decidable (_ ≤ _))

/-- What stands for a key in an id. -/
def stem : Text :=
  if Short tracker key then slugOf tracker (keySlug key)
  else shortened sha256 tracker key (slugOf tracker (keySlug key))

lemma itemIdFor_of_usable (h : Usable tracker key) :
    itemIdFor sha256 tracker key = .ok (stem sha256 tracker key) := by
  simp only [itemIdFor, if_neg h.1, h.2, not_true_eq_false, if_false]
  by_cases hs : Short tracker key
  · rw [stem, if_pos hs]
    exact if_pos hs
  · rw [stem, if_neg hs]
    exact if_neg hs

lemma itemIdFor_of_not_usable (h : ¬ Usable tracker key) :
    ∃ e, itemIdFor sha256 tracker key = .error e := by
  by_cases hkey : keySlug key = []
  · exact ⟨_, if_pos hkey⟩
  · have hhead : ¬ (slugOf tracker (keySlug key)).head?.any Char.isAlphanum = true := fun h' => h ⟨hkey, h'⟩
    exact ⟨_, (if_neg hkey).trans (if_pos hhead)⟩

lemma length_hexdigest {n : ℕ} (hn : n ≤ 64) (t : Text) : (hexdigest sha256 n t).length = n := by
  rw [hexdigest, List.length_take, (sha256.isHex t).1]
  omega

lemma legal_of_hex : ∀ c ∈ hexDigits.toList, isLegal c = true := by
  have hall : hexDigits.toList.all isLegal = true := rfl
  exact List.all_eq_true.mp hall

lemma all_legal_hexdigest (n : ℕ) (t : Text) : ∀ c ∈ hexdigest sha256 n t, isLegal c = true :=
  fun c hc => legal_of_hex c ((sha256.isHex t).2 c (List.mem_of_mem_take hc))

lemma all_legal_stem : ∀ c ∈ stem sha256 tracker key, isLegal c = true := by
  rw [stem]
  split_ifs
  · exact all_legal_slugOf tracker _
  · intro c hc
    obtain hc | hc := List.mem_append.mp hc
    · exact all_legal_slugOf _ _ c (List.mem_of_mem_take ((List.rdropWhile_prefix _ _).sublist.mem hc))
    · obtain rfl | hc := List.mem_cons.mp hc
      · exact legal_dash
      · exact all_legal_hexdigest _ _ _ c hc

lemma not_edge_of_alphanum {c : Char} (h : c.isAlphanum = true) : isEdge c = false := by
  by_contra hc
  simp only [isEdge, Bool.or_eq_false_iff, decide_eq_false_iff_not, not_and_or, not_not] at hc
  obtain rfl | rfl := hc <;> exact absurd h (by decide)

variable {tracker key}

lemma head_stem (h : Usable tracker key) :
    (stem sha256 tracker key).head?.any Char.isAlphanum = true := by
  have hhead := h.2
  rw [stem]
  split_ifs
  · exact hhead
  · cases hs : slugOf tracker (keySlug key) with
    | nil => simp [hs] at hhead
    | cons c s =>
      rw [hs] at hhead
      have hc : c.isAlphanum = true := hhead
      have htake : (c :: s).take (idMaxLen - 9) = c :: s.take 54 := rfl
      rw [shortened, htake, rdropWhile_cons (not_edge_of_alphanum hc)]
      exact hc

variable (tracker key)

lemma length_stem : (stem sha256 tracker key).length ≤ idMaxLen := by
  rw [stem]
  split_ifs with h
  · exact h
  · have hcut := (List.rdropWhile_prefix isEdge
      ((slugOf tracker (keySlug key)).take (idMaxLen - 9))).length_le
    have htake := List.length_take_le (idMaxLen - 9) (slugOf tracker (keySlug key))
    rw [shortened, List.length_append, List.length_cons, length_hexdigest _ (by norm_num)]
    simp only [idMaxLen] at hcut htake ⊢
    omega

lemma idMatches_iff {t : Text} (hlegal : ∀ c ∈ t, isLegal c = true)
    (hhead : t.head?.any Char.isAlphanum = true) : idMatches t = true ↔ t.length ≤ idMaxLen := by
  cases t with
  | nil => cases hhead
  | cons c cs =>
    have hc : isIdStart c = true := hhead
    have hcs : cs.all isIdChar = true :=
      List.all_eq_true.mpr fun d hd => isIdChar_of_isLegal (hlegal d (List.mem_cons_of_mem c hd))
    simp [idMatches, hc, hcs, idMaxLen, Nat.lt_succ_iff]

end Ids

section Clashes

variable (sha256 : Sha256) (tracker : Text)

/-- What an id has behind what stands for its key: nothing, or the revision it was evolved at. -/
def tail (revision : Option Text) : Text := revision.elim [] suffix

/-- Two keys read the same in an id, with the revisions behind them. Where both are shortened and neither is
evolved, their digests tell them apart. -/
def Clash (key : Text) (revision : Option Text) (key' : Text) (revision' : Option Text) : Prop :=
  let slug := slugOf tracker (keySlug key)
  let slug' := slugOf tracker (keySlug key')
  if Short tracker key then
    if Short tracker key' then keySlug key ++ tail revision = keySlug key' ++ tail revision'
    else slug ++ tail revision = shortened sha256 tracker key' slug' ++ tail revision'
  else if Short tracker key' then shortened sha256 tracker key slug ++ tail revision = slug' ++ tail revision'
  else (revision ≠ none ∨ revision' ≠ none) ∧
    shortened sha256 tracker key slug ++ tail revision = shortened sha256 tracker key' slug' ++ tail revision'

variable {sha256 tracker}

/-- A shortened id ends in the digest of its whole key. -/
lemma hexdigest_of_shortened {key key' slug slug' : Text}
    (h : shortened sha256 tracker key slug = shortened sha256 tracker key' slug') :
    hexdigest sha256 8 (tracker ++ '-' :: key) = hexdigest sha256 8 (tracker ++ '-' :: key') := by
  have hlen : ∀ t, (hexdigest sha256 8 t).length = 8 := length_hexdigest sha256 (by norm_num)
  have hends := List.append_inj_right' h (by rw [List.length_cons, List.length_cons, hlen, hlen])
  exact (List.cons.inj hends).2

/-- Two ids are the same exactly where their keys clash. -/
lemma clash_iff {key key' : Text} {revision revision' : Option Text} (hkey : Usable tracker key)
    (hkey' : Usable tracker key')
    (hne : hexdigest sha256 8 (tracker ++ '-' :: key) ≠ hexdigest sha256 8 (tracker ++ '-' :: key')) :
    Clash sha256 tracker key revision key' revision' ↔
      stem sha256 tracker key ++ tail revision = stem sha256 tracker key' ++ tail revision' := by
  by_cases hs : Short tracker key <;> by_cases hs' : Short tracker key' <;>
    simp only [Clash, stem, hs, hs', if_true, if_false]
  · rw [slugOf_eq tracker hkey.1, slugOf_eq tracker hkey'.1, List.append_assoc, List.append_assoc,
      List.append_cancel_left_eq]
  · refine ⟨fun h => h.2, fun h => ⟨?_, h⟩⟩
    by_contra hplain
    obtain ⟨hr, hr'⟩ := not_or.mp hplain
    rw [not_not.mp hr, not_not.mp hr'] at h
    simp only [tail, Option.elim_none, List.append_nil] at h
    exact hne (hexdigest_of_shortened h)

lemma all_legal_tail (revision : Option Text) : ∀ c ∈ tail revision, isLegal c = true := by
  cases revision with
  | none => exact List.forall_mem_nil _
  | some r =>
    exact List.forall_mem_cons.mpr ⟨legal_dot, List.forall_mem_cons.mpr ⟨rfl, all_legal_sanitise r⟩⟩

variable (sha256)

/-- An id is taken by the backlog as long as it is not too long. -/
lemma idMatches_stem_tail {key : Text} (h : Usable tracker key) (revision : Option Text) :
    idMatches (stem sha256 tracker key ++ tail revision) = true ↔
      (stem sha256 tracker key).length + (tail revision).length ≤ idMaxLen := by
  rw [← List.length_append]
  refine idMatches_iff (fun c hc => ?_) ?_
  · obtain hc | hc := List.mem_append.mp hc
    · exact all_legal_stem sha256 tracker key c hc
    · exact all_legal_tail revision c hc
  · have hhead := head_stem sha256 h
    cases hstem : stem sha256 tracker key with
    | nil => simp [hstem] at hhead
    | cons c s =>
      rw [hstem] at hhead
      exact hhead

end Clashes

end CommitReplay.TicketNames
