import CommitReplay.ModelNames
import CommitReplay.StrippedText

/-! Spellings of one model id: other case, space around it, a provider or a context suffix behind it, a vendor in front,
or a suffix behind the key of a table; none of them changes which models the id is the same as. -/
namespace CommitReplay.ModelSpellings

open CommitReplay.PythonText hiding lower
open CommitReplay.StrippedText CommitReplay.LowerCase CommitReplay.ModelNames

section Cores

variable {d : Deployment} {m m' : Text}

lemma splitHead_eq_self {c : Char} {s : Text} (h : c ∉ s) : splitHead c s = s :=
  List.takeWhile_eq_self_iff.mpr fun d hd => by simpa using fun he : d = c => h (he ▸ hd)

lemma splitHead_append_of_mem {c : Char} {s : Text} (h : c ∈ s) (x : Text) : splitHead c (s ++ x) = splitHead c s := by
  rw [splitHead, List.takeWhile_append, if_neg, splitHead]
  intro hlen
  have hall := (List.takeWhile_prefix (· ≠ c)).eq_of_length hlen
  have hc := List.mem_takeWhile_imp (hall.symm ▸ h : c ∈ s.takeWhile (· ≠ c))
  simp at hc

lemma splitHead_append (c : Char) (s x : Text) : splitHead c (s ++ c :: x) = splitHead c s := by
  by_cases h : c ∈ s
  · exact splitHead_append_of_mem h _
  · have hpass : ∀ d ∈ s, decide (d ≠ c) = true := fun d hd => by simpa using fun he : d = c => h (he ▸ hd)
    rw [splitHead_eq_self h, splitHead, List.takeWhile_append_of_pos hpass, List.takeWhile_cons_of_neg (by simp),
      List.append_nil]

/-- Spaces around a text come around what stands before a separator. -/
lemma strip_splitHead {c : Char} (hc : isSpace c = false) {ws ws' : Text} (hws : ∀ c ∈ ws, isSpace c = true)
    (hws' : ∀ c ∈ ws', isSpace c = true) (s : Text) :
    strip (splitHead c (ws ++ s ++ ws')) = strip (splitHead c s) := by
  have hpass : ∀ e ∈ ws, decide (e ≠ c) = true := fun e he => by
    simpa using fun heq : e = c => absurd (hws e he) (by simp [heq, hc])
  have hnot : c ∉ ws' := fun h => absurd (hws' c h) (by simp [hc])
  rw [List.append_assoc, splitHead, List.takeWhile_append_of_pos hpass, strip_spaces_append hws]
  change strip (splitHead c (s ++ ws')) = _
  by_cases h : c ∈ s
  · rw [splitHead_append_of_mem h]
  · rw [splitHead_eq_self h, splitHead_eq_self (fun hmem => (List.mem_append.mp hmem).elim h hnot),
      strip_append_spaces hws']

variable {d : Deployment} {m m' : Text}

/-- What stands before the provider. -/
def named (d : Deployment) (m : Text) : Text := strip (splitHead '@' (lower d.cases m))

lemma core_eq (d : Deployment) (m : Text) : core d m = dropVendor (strip (dropContext (named d m))) := by
  obtain ⟨ws, ws', hws, hws', hm⟩ := exists_strip m
  have hlow : lower d.cases m = ws ++ lower d.cases (strip m) ++ ws' := by
    conv_lhs => rw [hm]
    rw [lower_append_spaces hws', lower_spaces_append hws]
  rw [core, named, hlow, strip_splitHead rfl hws hws']

/-- The case of an id, -/
lemma named_of_case (h : lower d.cases m' = lower d.cases m) : named d m' = named d m := by
  rw [named, named, h]

/-- space around it, -/
lemma named_of_space {ws ws' : Text} (hws : ∀ c ∈ ws, isSpace c = true) (hws' : ∀ c ∈ ws', isSpace c = true)
    (m : Text) : named d (ws ++ m ++ ws') = named d m := by
  rw [named, lower_append_spaces hws', lower_spaces_append hws, strip_splitHead rfl hws hws', named]

/-- and a provider do not count. -/
lemma named_of_provider (m p : Text) : named d (m ++ '@' :: p) = named d m := by
  rw [named, lower_append_neutral rfl, splitHead_append, named]

/-- An id that leaves no bracket open. -/
def Closed (s : Text) : Prop := '[' ∉ s.rtakeWhile (· ≠ ']')

lemma dropContext_of_closed {s : Text} (h : '[' ∉ s.dropLast.rtakeWhile (· ≠ ']')) : dropContext s = s := by
  rw [dropContext, if_neg h, ite_self]

lemma dropContext_bracketed {x s : Text} (hx : Closed x) (hs : ']' ∉ s) :
    dropContext (x ++ '[' :: s ++ [']']) = x := by
  have hpass : ∀ c ∈ '[' :: s, decide (c ≠ ']') = true := by
    refine List.forall_mem_cons.mpr ⟨by decide, fun c hc => ?_⟩
    simpa using fun he : c = ']' => hs (he ▸ hc)
  have hlast : (x ++ '[' :: s ++ [']']).getLast? = some ']' := List.getLast?_concat
  have htake : (x.rtakeWhile (· ≠ ']') ++ '[' :: s).takeWhile (· ≠ '[') = x.rtakeWhile (· ≠ ']') :=
    (splitHead_append '[' _ s).trans (splitHead_eq_self hx)
  rw [dropContext, if_pos hlast, List.dropLast_concat, rtakeWhile_append_of_pos _ hpass,
    rdropWhile_append_of_pos _ hpass, if_pos (by simp), htake, List.rdropWhile_append_rtakeWhile]

/-- A context suffix does not count for an id that has none and leaves no bracket open. -/
lemma strip_of_context {s : Text} (h : '@' ∈ m ∨ '@' ∉ s ∧ ']' ∉ s ∧ Closed (named d m) ∧
    dropContext (named d m) = named d m) :
    strip (dropContext (named d (m ++ '[' :: s ++ [']']))) = strip (dropContext (named d m)) := by
  have hlow : lower d.cases (m ++ '[' :: s ++ [']']) = lower d.cases m ++ '[' :: lower d.cases s ++ [']'] := by
    have hclose : lower d.cases (s ++ [']']) = lower d.cases s ++ [']'] := lower_append_neutral rfl s []
    rw [List.append_assoc, List.cons_append, lower_append_neutral rfl, hclose, List.append_assoc, List.cons_append]
  by_cases hm : '@' ∈ m
  · have hmem : '@' ∈ lower d.cases m := (mem_lower rfl).mpr hm
    rw [named, hlow, List.append_assoc, splitHead_append_of_mem hmem, named]
  · obtain ⟨hs, hclose, hopen, hown⟩ := h.resolve_left hm
    have hmem : '@' ∉ lower d.cases m := fun h => hm ((mem_lower rfl).mp h)
    have hall : '@' ∉ lower d.cases m ++ '[' :: lower d.cases s ++ [']'] := by
      simp [hmem, (mem_lower (t := d.cases) (s := s) (rfl : isNeutral '@' = true)), hs]
    have hname : named d m = strip (lower d.cases m) := by rw [named, splitHead_eq_self hmem]
    have hbracket : named d (m ++ '[' :: s ++ [']']) =
        (lower d.cases m).dropWhile isSpace ++ '[' :: lower d.cases s ++ [']'] := by
      rw [named, hlow, splitHead_eq_self hall, List.append_assoc, List.cons_append, strip_append_cons rfl,
        List.rdropWhile_concat_neg _ _ _ (by decide), List.append_assoc, List.cons_append]
    have hends : (lower d.cases m).dropWhile isSpace =
        named d m ++ ((lower d.cases m).dropWhile isSpace).rtakeWhile isSpace := by
      rw [hname, strip, List.rdropWhile_append_rtakeWhile]
    have hopen' : Closed ((lower d.cases m).dropWhile isSpace) := by
      have hspace : ∀ c ∈ ((lower d.cases m).dropWhile isSpace).rtakeWhile isSpace, isSpace c = true :=
        fun c hc => List.mem_rtakeWhile_imp hc
      have hpass : ∀ c ∈ ((lower d.cases m).dropWhile isSpace).rtakeWhile isSpace, decide (c ≠ ']') = true :=
        fun c hc => by simpa using fun h : c = ']' => absurd (hspace c hc) (by rw [h]; decide)
      rw [Closed, hends, rtakeWhile_append_of_pos _ hpass]
      exact fun h => (List.mem_append.mp h).elim hopen fun h => absurd (hspace _ h) (by decide)
    rw [hbracket, dropContext_bracketed hopen' (fun h => hclose ((mem_lower rfl).mp h)), hown, hname,
      strip_dropWhile, strip_strip]

lemma dropContext_append {x : Text} (hx : Closed x) (y : Text) :
    dropContext (x ++ '/' :: y) = x ++ '/' :: dropContext y := by
  cases y using List.reverseRecOn with
  | nil => simp [dropContext]
  | append_singleton y c =>
    by_cases hc : c = ']'
    · subst hc
      have hlast : (x ++ '/' :: (y ++ [']'])).getLast? = some ']' := by
        rw [← List.cons_append, ← List.append_assoc, List.getLast?_concat]
      have hinit : (x ++ '/' :: (y ++ [']'])).dropLast = x ++ ['/'] ++ y := by
        rw [← List.cons_append, ← List.append_assoc, List.dropLast_concat, List.append_assoc, List.singleton_append]
      rw [dropContext, dropContext, if_pos hlast, if_pos List.getLast?_concat, hinit, List.dropLast_concat]
      by_cases hy : ']' ∈ y
      · obtain ⟨htake, hdrop⟩ := @rtakeWhile_append_of_mem (· ≠ ']') (x ++ ['/']) ']' y (by decide) hy
        rw [htake, hdrop]
        dsimp only
        split_ifs <;> simp
      · have hpass : ∀ c ∈ y, decide (c ≠ ']') = true := fun c hc => by simpa using fun he : c = ']' => hy (he ▸ hc)
        have hpass' : ∀ c ∈ '/' :: y, decide (c ≠ ']') = true := List.forall_mem_cons.mpr ⟨by decide, hpass⟩
        have hself : y.rtakeWhile (· ≠ ']') = y := List.rtakeWhile_eq_self_iff.mpr hpass
        have hnil : y.rdropWhile (· ≠ ']') = [] := List.rdropWhile_eq_nil_iff.mpr hpass
        have hfront : ∀ c ∈ x.rtakeWhile (· ≠ ']') ++ ['/'], decide (c ≠ '[') = true := fun c hc => by
          obtain hc | hc := List.mem_append.mp hc
          · simpa using fun he : c = '[' => hx (he ▸ hc)
          · rw [List.mem_singleton.mp hc]
            decide
        have hmem : '[' ∈ x.rtakeWhile (· ≠ ']') ++ ['/'] ++ y ↔ '[' ∈ y := by
          refine ⟨fun h => (List.mem_append.mp h).resolve_left fun h => ?_, fun h => List.mem_append_right _ h⟩
          exact absurd (hfront _ h) (by decide)
        rw [List.append_assoc x, List.singleton_append, rtakeWhile_append_of_pos _ hpass',
          rdropWhile_append_of_pos _ hpass', hself, hnil, ← List.singleton_append, ← List.append_assoc]
        simp only [hmem]
        split_ifs
        · rw [List.takeWhile_append_of_pos hfront, List.nil_append, ← List.append_assoc, ← List.append_assoc,
            List.rdropWhile_append_rtakeWhile, List.append_assoc, List.singleton_append]
        · simp
    · have hlast : (x ++ '/' :: (y ++ [c])).getLast? ≠ some ']' := by
        rw [← List.cons_append, ← List.append_assoc, List.getLast?_concat]
        simpa using hc
      have hlast' : (y ++ [c]).getLast? ≠ some ']' := by
        rw [List.getLast?_concat]
        simpa using hc
      rw [dropContext, dropContext, if_neg hlast, if_neg hlast']

lemma prefix_dropContext (s : Text) : dropContext s <+: s := by
  rw [dropContext]
  dsimp only
  split_ifs
  · refine List.IsPrefix.trans ?_ (List.dropLast_prefix s)
    conv_rhs => rw [← List.rdropWhile_append_rtakeWhile (p := (· ≠ ']')) (l := s.dropLast)]
    exact (List.prefix_append_right_inj _).mpr (List.takeWhile_prefix _)
  · exact List.prefix_refl _
  · exact List.prefix_refl _

lemma head_of_prefix {x y : Text} (h : x <+: y) (hy : ∀ c ∈ y.head?, isSpace c = false) :
    ∀ c ∈ x.head?, isSpace c = false := by
  cases x with
  | nil => simp
  | cons c x =>
    obtain ⟨z, rfl⟩ := h
    exact hy

/-- Nor does a vendor in front of an id that does not begin with white space. -/
lemma core_of_vendor {v : Text} (hv : '@' ∉ v) (hopen : Closed (lower d.cases v))
    (hm : ∀ c ∈ m.head?, isSpace c = false) : core d (v ++ '/' :: m) = core d m := by
  have hhead : ∀ c ∈ (splitHead '@' (lower d.cases m)).head?, isSpace c = false := by
    refine head_of_prefix (List.takeWhile_prefix _) ?_
    cases m with
    | nil => exact fun c hc => nomatch hc
    | cons c m => exact head_lower (hm c rfl) m
  have hpass : ∀ c ∈ lower d.cases v ++ ['/'], decide (c ≠ '@') = true := fun c hc => by
    obtain hc | hc := List.mem_append.mp hc
    · simpa using fun he : c = '@' => hv ((mem_lower rfl).mp (he ▸ hc))
    · rw [List.mem_singleton.mp hc]
      decide
  have hsplit : splitHead '@' (lower d.cases (v ++ '/' :: m)) =
      lower d.cases v ++ '/' :: splitHead '@' (lower d.cases m) := by
    rw [lower_append_neutral rfl, ← List.singleton_append, ← List.append_assoc, splitHead,
      List.takeWhile_append_of_pos hpass, List.append_assoc, List.singleton_append, splitHead]
  have hname : named d m = (splitHead '@' (lower d.cases m)).rdropWhile isSpace := by
    rw [named, strip, dropWhile_of_head hhead]
  have hopen' : Closed ((lower d.cases v).dropWhile isSpace) := by
    intro h
    refine hopen ?_
    rw [← List.takeWhile_append_dropWhile (p := isSpace) (l := lower d.cases v)]
    exact mem_rtakeWhile_append h
  have hcontext : ∀ c ∈ (dropContext (named d m)).head?, isSpace c = false := by
    refine head_of_prefix ((prefix_dropContext _).trans ?_) hhead
    rw [hname]
    exact List.rdropWhile_prefix _ _
  rw [core_eq, core_eq, named, hsplit, strip_append_cons rfl, ← hname, dropContext_append hopen',
    strip_append_cons rfl, dropVendor, rtakeWhile_append_cons _ (by decide), dropVendor, strip,
    dropWhile_of_head hcontext]

end Cores

section Keys

variable {d : Deployment} {table : Option (List Text)} {m x key : Text}

lemma sorted_sortedKeys : (sortedKeys d table).Pairwise fun a b => b.length ≤ a.length := by
  have hsorted : (sortedKeys d table).Pairwise fun a b => decide (b.length ≤ a.length) = true :=
    List.pairwise_mergeSort (by simp only [decide_eq_true_eq]; omega)
      (by simp only [Bool.or_eq_true, decide_eq_true_eq]; omega) _
  exact hsorted.imp fun h => of_decide_eq_true h

lemma isPrefix_of_keyMatches (h : keyMatches x key = true) : key <+: x := by
  rw [keyMatches, Bool.or_eq_true, Bool.and_eq_true, decide_eq_true_eq] at h
  obtain rfl | h := h
  · exact List.prefix_refl _
  · exact List.isPrefixOf_iff_prefix.mp h.1

/-- The longest key that matches is found. -/
lemma find_longest (hkey : key ∈ sortedKeys d table) (hmatch : keyMatches x key = true)
    (hlongest : ∀ k ∈ sortedKeys d table, keyMatches x k = true → k.length ≤ key.length) :
    (sortedKeys d table).find? (keyMatches x) = some key := by
  obtain ⟨k, hk⟩ : ∃ k, (sortedKeys d table).find? (keyMatches x) = some k :=
    Option.isSome_iff_exists.mp (List.find?_isSome.mpr ⟨key, hkey, hmatch⟩)
  obtain ⟨hkmatch, before, after, hlist, hbefore⟩ := List.find?_eq_some_iff_append.mp hk
  have hsorted := @sorted_sortedKeys d table
  rw [hlist] at hkey hsorted
  have hle : key.length ≤ k.length := by
    obtain hmem | hmem := List.mem_append.mp hkey
    · have hnot := hbefore key hmem
      rw [hmatch] at hnot
      cases hnot
    · obtain rfl | hmem := List.mem_cons.mp hmem
      · exact le_rfl
      · exact List.rel_of_pairwise_cons (List.pairwise_append.mp hsorted).2.1 hmem
  have hge := hlongest k (List.mem_of_find?_eq_some hk) hkmatch
  have hsame : k = key :=
    (List.prefix_of_prefix_length_le (isPrefix_of_keyMatches hkmatch) (isPrefix_of_keyMatches hmatch) hge).eq_of_length
      (le_antisymm hge hle)
  rw [hk, hsame]

lemma canonicalModel_of_key (halias : x ∉ familyAliases) (hcore : core d m = x) (hkey : key ∈ sortedKeys d table)
    (hmatch : keyMatches x key = true)
    (hlongest : ∀ k ∈ sortedKeys d table, keyMatches x k = true → k.length ≤ key.length) :
    canonicalModel d table m = key := by
  rw [canonicalModel, hcore, if_neg halias, find_longest hkey hmatch hlongest]
  rfl

lemma canonicalModel_congr {m' : Text} (h : core d m' = core d m) :
    canonicalModel d table m' = canonicalModel d table m := by
  rw [canonicalModel, canonicalModel, h]

/-- A plain id with nothing around it is its own core, -/
lemma core_of_plain (hstrip : strip (lower d.cases m) = lower d.cases m)
    (hplain : '@' ∉ m ∧ '/' ∉ m ∧ '[' ∉ m) : core d m = lower d.cases m := by
  have hat : '@' ∉ lower d.cases m := fun h => hplain.1 ((mem_lower rfl).mp h)
  have hslash : '/' ∉ lower d.cases m := fun h => hplain.2.1 ((mem_lower rfl).mp h)
  have hopen : '[' ∉ lower d.cases m := fun h => hplain.2.2 ((mem_lower rfl).mp h)
  have hcontext : dropContext (lower d.cases m) = lower d.cases m := dropContext_of_closed fun h =>
    hopen ((List.dropLast_prefix _).subset ((List.rtakeWhile_suffix _ _).subset h))
  rw [core_eq, named, splitHead_eq_self hat, hstrip, hcontext, hstrip, dropVendor]
  exact List.rtakeWhile_eq_self_iff.mpr fun c hc => by simpa using fun he : c = '/' => hslash (he ▸ hc)

/-- and with a plain suffix behind it, at an id boundary, it is followed by that boundary. -/
lemma core_of_suffix {c : Char} {s : Text} (hstrip : strip (lower d.cases m) = lower d.cases m)
    (hplain : '@' ∉ m ∧ '/' ∉ m ∧ '[' ∉ m) (hsigma : capitalSigma ∉ m) (hc : isIdBoundary c = true)
    (hs : '@' ∉ s ∧ '/' ∉ s ∧ '[' ∉ s) : ∃ r, core d (m ++ c :: s) = lower d.cases m ++ c :: r := by
  have hboundary : c = '-' ∨ c = '_' ∨ c = '.' ∨ c = ':' := by simpa [isIdBoundary] using hc
  have hself : d.cases.lowerChar c = [c] := by
    rcases hboundary with rfl | rfl | rfl | rfl
    · exact d.cases.lowerChar_neutral _ rfl
    · exact d.cases.lowerChar_neutral _ rfl
    · exact d.cases.lowerChar_stop _ (by simp)
    · exact d.cases.lowerChar_stop _ (by simp)
  have hnot : c ≠ capitalSigma ∧ isSpace c = false ∧ c ≠ '@' ∧ c ≠ '/' ∧ c ≠ '[' := by
    rcases hboundary with rfl | rfl | rfl | rfl <;> decide
  obtain ⟨r, hr, hmem⟩ : ∃ r, lower d.cases (m ++ c :: s) = lower d.cases m ++ c :: r ∧
      ∀ e, isNeutral e = true → e ∈ r → e ∈ s := by
    refine ⟨lowerFrom d.cases (c :: m.reverse) s, ?_, fun e he h => mem_of_mem_lowerFrom he h⟩
    rw [lower, lowerFrom_append [] hsigma, List.append_nil, lowerFrom.eq_2, lowerAt, if_neg hnot.1, hself]
    rfl
  have hfront : ∀ e, isNeutral e = true → e ≠ c → e ∉ m → e ∉ s → ∀ r', (∀ x ∈ r', x ∈ r) →
      e ∉ lower d.cases m ++ c :: r' := by
    intro e he hec hem hes r' hr' h
    obtain h | h := List.mem_append.mp h
    · exact hem ((mem_lower he).mp h)
    · exact (List.mem_cons.mp h).elim hec fun h => hes (hmem e he (hr' e h))
  have hstart : (lower d.cases m).dropWhile isSpace = lower d.cases m := dropWhile_of_strip hstrip
  have hsub : ∀ x ∈ r.rdropWhile isSpace, x ∈ r := fun x hx => (List.rdropWhile_prefix _ _).subset hx
  have hname : named d (m ++ c :: s) = lower d.cases m ++ c :: r.rdropWhile isSpace := by
    rw [named, hr, splitHead_eq_self (hfront '@' rfl hnot.2.2.1.symm hplain.1 hs.1 r fun x hx => hx),
      strip_append_cons hnot.2.1, hstart]
  have hcontext : dropContext (named d (m ++ c :: s)) = named d (m ++ c :: s) := by
    refine dropContext_of_closed fun h => ?_
    rw [hname] at h
    refine hfront '[' rfl hnot.2.2.2.2.symm hplain.2.2 hs.2.2 _ hsub ?_
    exact (List.dropLast_prefix _).subset ((List.rtakeWhile_suffix _ _).subset h)
  refine ⟨(r.rdropWhile isSpace).rdropWhile isSpace, ?_⟩
  rw [core_eq, hcontext, hname, strip_append_cons hnot.2.1, hstart, dropVendor]
  refine List.rtakeWhile_eq_self_iff.mpr fun e he => ?_
  have hslash := hfront '/' rfl hnot.2.2.2.1.symm hplain.2.1 hs.2.1 ((r.rdropWhile isSpace).rdropWhile isSpace)
    fun x hx => hsub x ((List.rdropWhile_prefix _ _).subset hx)
  simpa using fun heq : e = '/' => hslash (heq ▸ he)

/-- An id that equals a key of the table has that key's name with a suffix behind it, as long as no longer key
reads further. -/
lemma canonicalModel_of_suffix {c : Char} {s : Text} (hstrip : strip (lower d.cases m) = lower d.cases m)
    (hplain : '@' ∉ m ∧ '/' ∉ m ∧ '[' ∉ m) (hsigma : capitalSigma ∉ m) (hc : isIdBoundary c = true)
    (hs : '@' ∉ s ∧ '/' ∉ s ∧ '[' ∉ s) (hkey : lower d.cases m ∈ sortedKeys d table)
    (halias : lower d.cases m ∉ familyAliases) (hlongest : ∀ k ∈ sortedKeys d table,
      keyMatches (core d (m ++ c :: s)) k = true → k.length ≤ (lower d.cases m).length) :
    canonicalModel d table (m ++ c :: s) = canonicalModel d table m := by
  obtain ⟨r, hr⟩ := core_of_suffix hstrip hplain hsigma hc hs
  have hboundary : familyAliases.all (fun a => a.all fun e => !isIdBoundary e) = true := rfl
  have hmatch : keyMatches (lower d.cases m ++ c :: r) (lower d.cases m) = true := by
    simp [keyMatches, hc]
  rw [hr] at hlongest
  have hnot : lower d.cases m ++ c :: r ∉ familyAliases := fun h => by
    have hfalse := List.all_eq_true.mp (List.all_eq_true.mp hboundary _ h) c (by simp)
    rw [hc] at hfalse
    cases hfalse
  rw [canonicalModel_of_key hnot hr hkey hmatch hlongest,
    canonicalModel_of_key halias (core_of_plain hstrip hplain) hkey (by simp [keyMatches])
      fun k _ hk => (isPrefix_of_keyMatches hk).length_le]

end Keys

section Spellings

variable (d : Deployment) (table : Option (List Text))

/-- What the spelling of an id may be changed by. -/
inductive Respelled (m : Text) : Text → Prop
  | case {m' : Text} : lower d.cases m' = lower d.cases m → Respelled m m'
  | space {ws ws' : Text} : (∀ c ∈ ws, isSpace c = true) → (∀ c ∈ ws', isSpace c = true) →
      Respelled m (ws ++ m ++ ws')
  | provider (p : Text) : Respelled m (m ++ '@' :: p)
  | context {s : Text} : ('@' ∈ m ∨ '@' ∉ s ∧ ']' ∉ s ∧ Closed (named d m) ∧
      dropContext (named d m) = named d m) → Respelled m (m ++ '[' :: s ++ [']'])
  | vendor {v : Text} : '@' ∉ v → Closed (lower d.cases v) → (∀ c ∈ m.head?, isSpace c = false) →
      Respelled m (v ++ '/' :: m)
  | suffix {c : Char} {s : Text} : strip (lower d.cases m) = lower d.cases m → '@' ∉ m ∧ '/' ∉ m ∧ '[' ∉ m →
      capitalSigma ∉ m → isIdBoundary c = true → '@' ∉ s ∧ '/' ∉ s ∧ '[' ∉ s →
      lower d.cases m ∈ sortedKeys d table → lower d.cases m ∉ familyAliases →
      (∀ k ∈ sortedKeys d table, keyMatches (core d (m ++ c :: s)) k = true →
        k.length ≤ (lower d.cases m).length) → Respelled m (m ++ c :: s)

variable {d table} {m m' : Text}

/-- One change of the spelling keeps the name. -/
lemma canonicalModel_of_respelled (h : Respelled d table m m') :
    canonicalModel d table m' = canonicalModel d table m := by
  cases h with
  | case h => exact canonicalModel_congr (by rw [core_eq, core_eq, named_of_case h])
  | space hws hws' => exact canonicalModel_congr (by rw [core_eq, core_eq, named_of_space hws hws'])
  | provider p => exact canonicalModel_congr (by rw [core_eq, core_eq, named_of_provider])
  | context h => exact canonicalModel_congr (by rw [core_eq, core_eq, strip_of_context h])
  | vendor hv hopen hm => exact canonicalModel_congr (core_of_vendor hv hopen hm)
  | suffix hstrip hplain hsigma hc hs hkey halias hlongest =>
    exact canonicalModel_of_suffix hstrip hplain hsigma hc hs hkey halias hlongest

/-- And so does any sequence of them. -/
lemma canonicalModel_of_spellings (h : Relation.ReflTransGen (Respelled d table) m m') :
    canonicalModel d table m' = canonicalModel d table m := by
  induction h with
  | refl => rfl
  | tail _ hstep ih => rw [canonicalModel_of_respelled hstep, ih]

lemma sameModel_congr {x : Text} (h : canonicalModel d table m' = canonicalModel d table m) :
    sameModel d table m' x = sameModel d table m x := by
  simp only [sameModel, h]

lemma sameModel_comm (a b : Text) : sameModel d table a b = sameModel d table b a := by
  have hsame : decide (canonicalModel d table a = canonicalModel d table b) =
      decide (canonicalModel d table b = canonicalModel d table a) := decide_eq_decide.mpr eq_comm
  by_cases ha : canonicalModel d table a = []
  · simp [sameModel, ha]
  · by_cases hb : canonicalModel d table b = []
    · simp [sameModel, hb]
    · rw [sameModel, sameModel, if_neg (not_or.mpr ⟨ha, hb⟩), if_neg (not_or.mpr ⟨hb, ha⟩), hsame,
        Bool.or_assoc, Bool.or_assoc, Bool.or_comm (inFamily _ _)]

lemma sameModel_self (hne : canonicalModel d table m ≠ []) : sameModel d table m m = true := by
  simp [sameModel, hne]

lemma canonicalModel_of_blank (h : strip m = []) : canonicalModel d table m = [] := by
  have hcore : core d m = [] := by
    rw [core, h]
    rfl
  have hnil : ∀ k, keyMatches [] k = true → k = [] := by
    intro k hk
    cases k with
    | nil => rfl
    | cons c k => simp [keyMatches] at hk
  have halias : ([] : Text) ∉ familyAliases := by decide
  rw [canonicalModel, hcore, if_neg halias]
  cases hfind : (sortedKeys d table).find? (keyMatches []) with
  | none => rfl
  | some k => exact hnil k (List.find?_some hfind)

/-- A name is empty where nothing is left of the id, or an empty key is asked for. -/
lemma canonicalModel_eq_nil_iff (hkeys : [] ∉ sortedKeys d table) :
    canonicalModel d table m = [] ↔ core d m = [] := by
  rw [canonicalModel]
  split_ifs with halias
  · have hne : ([] : Text) ∉ familyAliases := by decide
    have hprefix : familyPrefix ≠ [] := by decide
    rw [List.append_eq_nil_iff]
    refine ⟨fun h => absurd h.1 hprefix, fun h => ?_⟩
    rw [h] at halias
    exact absurd halias hne
  · cases hfind : (sortedKeys d table).find? (keyMatches (core d m)) with
    | none => rw [Option.getD_none]
    | some k =>
      have hk : k ≠ [] := fun h => hkeys (h ▸ List.mem_of_find?_eq_some hfind)
      refine ⟨fun h => absurd h hk, fun h => ?_⟩
      have hprefix := isPrefix_of_keyMatches (List.find?_some hfind)
      rw [h] at hprefix
      exact List.prefix_nil.mp hprefix

end Spellings

section Labels

variable {d : Deployment} {b m : Text}

/-- A label is a person's. -/
def isOperator (d : Deployment) (label : Text) : Bool :=
  operatorAuthorPrefix.isPrefixOf (lower d.cases (strip label))

lemma modelHalf_label (hb : ':' ∉ b) (hop : isOperator d (b ++ ':' :: m) = false) :
    modelHalf d (b ++ ':' :: m) = strip m := by
  have hstrip : strip (b ++ ':' :: m) = b.dropWhile isSpace ++ ':' :: m.rdropWhile isSpace := strip_append_cons rfl b m
  have hpass : ∀ c ∈ b.dropWhile isSpace, decide (c ≠ ':') = true := fun c hc => by
    simpa using fun h : c = ':' => hb (h ▸ (List.dropWhile_sublist _).mem hc)
  have hspaces : ∀ c ∈ m.rtakeWhile isSpace, isSpace c = true := fun c hc => List.mem_rtakeWhile_imp hc
  have hrest : strip (m.rdropWhile isSpace) = strip m := by
    conv_rhs => rw [← List.rdropWhile_append_rtakeWhile (p := isSpace) (l := m)]
    rw [strip_append_spaces hspaces]
  rw [isOperator] at hop
  rw [modelHalf, hop, hstrip, Bool.false_or, if_neg (by simp), List.dropWhile_append_of_pos hpass,
    List.dropWhile_cons_of_neg (by simp), List.drop_one, List.tail_cons, hrest]

/-- Two labels whose models have one name are refused. -/
lemma refused_of_canonicalModel {b' m' role : Text} (hb : ':' ∉ b) (hb' : ':' ∉ b')
    (hop : isOperator d (b ++ ':' :: m) = false) (hop' : isOperator d (b' ++ ':' :: m') = false)
    (hname : canonicalModel d none m' = canonicalModel d none m) (hne : canonicalModel d none m ≠ []) :
    ∃ e, assertDistinctIdentity d (b ++ ':' :: m) (b' ++ ':' :: m') role = .error e := by
  have hstripped : ∀ x, canonicalModel d none (strip x) = canonicalModel d none x := fun x =>
    canonicalModel_congr (by rw [core, core, strip_strip])
  have hm : strip m ≠ [] := fun h => hne (canonicalModel_of_blank h)
  have hm' : strip m' ≠ [] := fun h => hne (hname ▸ canonicalModel_of_blank h)
  have hsame : sameModel d none (strip m) (strip m') = true := by
    rw [sameModel_congr (hstripped m), sameModel_comm, sameModel_congr ((hstripped m').trans hname),
      sameModel_self hne]
  rw [assertDistinctIdentity]
  dsimp only
  rw [modelHalf_label hb hop, modelHalf_label hb' hop']
  split_ifs with h1 h2 h3
  · exact ⟨_, rfl⟩
  · exact ⟨_, rfl⟩
  · exact ⟨_, rfl⟩
  · exact absurd ⟨hm, hm', hsame⟩ h3

end Labels

section Results

/-- A model is the same as itself, being the same goes both ways and does not depend on the spelling, and two labels
that differ in the spelling only are refused. -/
theorem sameModel_respelled (d : Deployment) (table : Option (List Text)) :
    (∀ a b, sameModel d table a b = sameModel d table b a) ∧
    ([] ∉ sortedKeys d table → ∀ m, sameModel d table m m = true ↔ core d m ≠ []) ∧
    (∀ m m' x, Relation.ReflTransGen (Respelled d table) m m' → sameModel d table m' x = sameModel d table m x) ∧
    ∀ b b' m m' role, ':' ∉ b → ':' ∉ b' → isOperator d (b ++ ':' :: m) = false →
      isOperator d (b' ++ ':' :: m') = false → Relation.ReflTransGen (Respelled d none) m m' →
      sameModel d none m m = true → ∃ e, assertDistinctIdentity d (b ++ ':' :: m) (b' ++ ':' :: m') role = .error e := by
  refine ⟨sameModel_comm, fun hkeys m => ?_, fun m m' x h => sameModel_congr (canonicalModel_of_spellings h),
    fun b b' m m' role hb hb' hop hop' h hself => ?_⟩
  · rw [Ne, ← canonicalModel_eq_nil_iff hkeys]
    refine ⟨fun h he => ?_, sameModel_self⟩
    rw [sameModel, he, if_pos (.inl rfl)] at h
    cases h
  · refine refused_of_canonicalModel hb hb' hop hop' (canonicalModel_of_spellings h) fun he => ?_
    rw [sameModel, he, if_pos (.inl rfl)] at hself
    cases hself

lemma toLower_of_not_upper {c : Char} (h : c.toNat < 65 ∨ 90 < c.toNat) : c.toLower = c := by
  refine dif_neg fun hupper => ?_
  have hlow : 65 ≤ c.toNat := UInt32.le_iff_toNat_le.mp hupper.1
  have hhigh : c.toNat ≤ 90 := UInt32.le_iff_toNat_le.mp hupper.2
  omega

lemma toNat_toLower {c : Char} (h : 65 ≤ c.toNat ∧ c.toNat ≤ 90) : c.toLower.toNat = c.toNat + 32 := by
  have hupper : c.val ≥ 'A'.val ∧ c.val ≤ 'Z'.val :=
    ⟨UInt32.le_iff_toNat_le.mpr h.1, UInt32.le_iff_toNat_le.mpr h.2⟩
  have hlow : c.val.toNat ≤ 90 := h.2
  rw [Char.toLower, dif_pos hupper]
  change (c.val + ('a'.val - 'A'.val)).toNat = c.val.toNat + 32
  rw [UInt32.toNat_add, show ('a'.val - 'A'.val).toNat = 32 from rfl]
  omega

lemma isNeutral_toNat {c : Char} (h : isNeutral c = true) :
    c.toNat < 65 ∨ 90 < c.toNat ∧ c.toNat < 97 ∨ 122 < c.toNat := by
  simp only [isNeutral, isSpace, Bool.or_eq_true, Bool.and_eq_true, decide_eq_true_eq, beq_iff_eq, List.mem_cons,
    List.not_mem_nil, or_false] at h
  rcases h with h | rfl | rfl | rfl | rfl | rfl | rfl
  · omega
  all_goals decide

lemma not_alpha {c : Char} (h : c.toNat < 65 ∨ 90 < c.toNat ∧ c.toNat < 97 ∨ 122 < c.toNat) : c.isAlpha = false := by
  have hn : c.val.toNat < 65 ∨ 90 < c.val.toNat ∧ c.val.toNat < 97 ∨ 122 < c.val.toNat := h
  by_contra halpha
  simp only [Char.isAlpha, Char.isUpper, Char.isLower, Bool.not_eq_false, Bool.or_eq_true, Bool.and_eq_true,
    decide_eq_true_eq, ge_iff_le, UInt32.le_iff_toNat_le] at halpha
  rcases halpha with h | h
  · have : 65 ≤ c.val.toNat ∧ c.val.toNat ≤ 90 := h
    omega
  · have : 97 ≤ c.val.toNat ∧ c.val.toNat ≤ 122 := h
    omega

/-- The case of ASCII letters alone. -/
def asciiCases : CaseTable where
  lowerChar c := [c.toLower]
  isCased c := c.isAlpha
  isIgnorable c := c ∈ ['.', ':']
  lowerChar_ne _ := List.cons_ne_nil _ _
  lowerChar_neutral c h := by
    have hn := isNeutral_toNat h
    rw [toLower_of_not_upper (by omega)]
  lowerChar_stop c h := by
    have hn : c = '.' ∨ c = ':' := by simpa using h
    rcases hn with rfl | rfl <;> rfl
  not_cased c h := not_alpha (isNeutral_toNat h)
  not_ignorable c h := by
    have hne : c ≠ '.' ∧ c ≠ ':' := by
      constructor <;> rintro rfl <;> exact absurd h (by decide)
    simp [hne]
  own c d h hd := by
    obtain rfl := List.mem_singleton.mp h
    by_cases hupper : 65 ≤ c.toNat ∧ c.toNat ≤ 90
    · have hn := isNeutral_toNat hd
      rw [toNat_toLower hupper] at hn
      omega
    · exact toLower_of_not_upper (by omega)

def pricedIds : List Text := [['g', '-', '5'], ['g', '-', '5', '-', 'm']]

def priced : Deployment := ⟨asciiCases, none, pricedIds⟩

lemma sortedKeys_priced : ∀ k, k ∈ sortedKeys priced none ↔ k ∈ pricedIds := by
  intro k
  have hlower : ((none : Option (List Text)).getD (priced.loaded.getD priced.shipped)).map (lower priced.cases) =
      pricedIds := by decide
  rw [sortedKeys, hlower, List.mem_mergeSort]

theorem sameModel_respelled_provider : sameModel priced none ['g', '-', '5', '@', 'p'] ['g', '-', '5'] =
    sameModel priced none ['g', '-', '5'] ['g', '-', '5'] :=
  (sameModel_respelled priced none).2.2.1 ['g', '-', '5'] _ _ (.single (.provider ['p']))

/-- A suffix at an id boundary can make an id another key's: the longest key names it. -/
theorem not_invariant_suffix : ['g', '-', '5'] ∈ sortedKeys priced none ∧ isIdBoundary '-' = true ∧
    sameModel priced none ['g', '-', '5'] ['g', '-', '5'] = true ∧
    sameModel priced none (['g', '-', '5'] ++ ['-', 'm']) ['g', '-', '5'] = false := by
  have hbase : canonicalModel priced none ['g', '-', '5'] = ['g', '-', '5'] := by
    refine @canonicalModel_of_key _ _ _ ['g', '-', '5'] _ (by decide) (by decide)
      ((sortedKeys_priced _).mpr (by decide)) (by decide) fun k hk h => (isPrefix_of_keyMatches h).length_le
  have hmini : canonicalModel priced none ['g', '-', '5', '-', 'm'] = ['g', '-', '5', '-', 'm'] := by
    refine @canonicalModel_of_key _ _ _ ['g', '-', '5', '-', 'm'] _ (by decide) (by decide)
      ((sortedKeys_priced _).mpr (by decide)) (by decide) fun k hk h => (isPrefix_of_keyMatches h).length_le
  refine ⟨(sortedKeys_priced _).mpr (by decide), rfl, ?_, ?_⟩
  · rw [sameModel, hbase]
    decide
  · rw [List.cons_append, List.cons_append, List.cons_append, List.nil_append, sameModel, hbase, hmini]
    decide

end Results

end CommitReplay.ModelSpellings
