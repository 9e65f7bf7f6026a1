import CommitReplay.PriorityRegex

/-! The tokens of a source text that may give a commit away: its longer identifiers, its quoted
strings and its numbers. Each is found by a regular expression, so each stands in the text. -/
namespace CommitReplay.CodeTokens

open CommitReplay.PythonText CommitReplay.PriorityRegex

section Finditer

variable {β : Type*} (step : Option Char → Text → Option (β × ℕ))

/-- What is found from the left, each match after the last; the text's length bounds the rounds. No
match is of an empty text. -/
def findFrom : ℕ → Option Char → Text → List β
  | _, _, [] => []
  | 0, _, _ => []
  | fuel + 1, prev, c :: cs =>
    match step prev (c :: cs) with
    | some (b, n) => b :: findFrom fuel (((c :: cs).take n).getLast?.or prev) ((c :: cs).drop n)
    | none => findFrom fuel (some c) cs

def finditer (s : Text) : List β := findFrom step s.length none s

/-- An expression's first match at a place, by the text and the groups it matched. -/
def ofRx (r : Rx) (out : Text → List (ℕ × Text) → β) (prev : Option Char) (s : Text) :
    Option (β × ℕ) :=
  (run r ⟨prev, s, []⟩).head?.map fun t =>
    (out (s.take (s.length - t.rest.length)) t.groups, s.length - t.rest.length)

variable {step}

lemma mem_findFrom {P : β → Prop} {s₀ : Text}
    (hstep : ∀ prev s b n, s <:+ s₀ → step prev s = some (b, n) → P b) {fuel : ℕ}
    {prev : Option Char} {s : Text} (hs : s <:+ s₀) : ∀ b ∈ findFrom step fuel prev s, P b := by
  induction fuel generalizing prev s with
  | zero => cases s <;> simp [findFrom]
  | succ fuel ih =>
    cases s with
    | nil => simp [findFrom]
    | cons c cs =>
      rw [findFrom]
      split
      · rename_i b n hb
        exact List.forall_mem_cons.mpr
          ⟨hstep _ _ _ _ hs hb, ih ((List.drop_suffix n _).trans hs)⟩
      · exact ih ((List.suffix_cons c cs).trans hs)

/-- The rest of a match and the texts of its groups are of the text it began in. -/
lemma rest_suffix {r : Rx} {s t : At} (h : t ∈ run r s) :
    t.rest <:+ s.rest ∧ ∀ g ∈ t.groups, g ∈ s.groups ∨ g.2 <:+: s.rest := by
  have hadvance : ∀ (s : At) k, (s.advance k).rest <:+ s.rest ∧
      ∀ g ∈ (s.advance k).groups, g ∈ s.groups ∨ g.2 <:+: s.rest :=
    fun s k => ⟨List.drop_suffix k s.rest, fun g hg => .inl hg⟩
  induction r generalizing s t with
  | lit fold w =>
    rw [run] at h
    split_ifs at h
    · exact List.mem_singleton.mp h ▸ hadvance s _
    · cases h
  | one p =>
    rw [run] at h
    split_ifs at h
    · exact List.mem_singleton.mp h ▸ hadvance s _
    · cases h
  | many min max p =>
    obtain ⟨k, -, rfl⟩ := List.mem_map.mp h
    exact hadvance s k
  | fewest p =>
    obtain ⟨k, -, rfl⟩ := List.mem_map.mp h
    exact hadvance s k
  | bound isWord =>
    rw [run] at h
    split_ifs at h
    · obtain rfl := List.mem_singleton.mp h
      exact ⟨List.suffix_rfl, fun g hg => .inl hg⟩
    · cases h
  | seq a b iha ihb =>
    obtain ⟨u, hu, ht⟩ := List.mem_flatMap.mp h
    obtain ⟨hrest, hgroups⟩ := iha hu
    obtain ⟨hrest', hgroups'⟩ := ihb ht
    refine ⟨hrest'.trans hrest, fun g hg => ?_⟩
    rcases hgroups' g hg with hg | hg
    · exact hgroups g hg
    · exact .inr (hg.trans hrest.isInfix)
  | alt a b iha ihb => exact (List.mem_append.mp h).elim (fun h => iha h) fun h => ihb h
  | group i a iha =>
    obtain ⟨u, hu, rfl⟩ := List.mem_map.mp h
    obtain ⟨hrest, hgroups⟩ := iha hu
    refine ⟨hrest, fun g hg => ?_⟩
    rcases List.mem_cons.mp hg with rfl | hg
    · exact .inr (List.take_prefix _ _).isInfix
    · exact hgroups g hg

lemma groupText_part {r : Rx} {s t : At} (h : t ∈ run r s) (hs : s.groups = []) (i : ℕ) :
    groupText t.groups i <:+: s.rest := by
  rw [groupText]
  cases hl : t.groups.lookup i with
  | none => exact List.nil_infix
  | some w =>
    obtain ⟨g, hg, rfl⟩ : ∃ g ∈ t.groups, g.2 = w := by
      obtain ⟨l₁, l₂, hl, -⟩ := List.lookup_eq_some_iff.mp hl
      exact ⟨(i, w), by simp [hl], rfl⟩
    rcases (rest_suffix h).2 g hg with hg | hg
    · rw [hs] at hg
      cases hg
    · exact hg

end Finditer

section Words

def isIdentHead (c : Char) : Bool := c.isAlpha || c = '_'

def isIdentPart (c : Char) : Bool := c.isAlphanum || c = '_'

/-- `_IDENT_RE`. -/
def identRx : Rx := .seq (.one isIdentHead) (.many 0 none isIdentPart)

/-- `_IDENT_RE.findall`. -/
def identifiers (s : Text) : List Text := finditer (ofRx identRx fun w _ => w) s

lemma isIdentPart_of_isIdentHead {c : Char} (h : isIdentHead c = true) : isIdentPart c = true := by
  rw [isIdentHead, Bool.or_eq_true] at h
  rw [isIdentPart, Bool.or_eq_true, Char.isAlphanum, Bool.or_eq_true]
  exact h.imp_left .inl

/-- An identifier is as long as it can be. -/
lemma ofRx_identRx (prev : Option Char) (c : Char) (cs : Text) :
    ofRx identRx (fun w _ => w) prev (c :: cs) =
      if isIdentHead c then some (c :: cs.takeWhile isIdentPart, (cs.takeWhile isIdentPart).length + 1)
      else none := by
  by_cases h : isIdentHead c = true
  · have hlen := (List.takeWhile_prefix isIdentPart (l := cs)).length_le
    have hrun : (run identRx ⟨prev, c :: cs, []⟩).head? =
        some ((At.advance ⟨prev, c :: cs, []⟩ 1).advance (cs.takeWhile isIdentPart).length) := by
      simp [identRx, run, h, At.advance, List.range'_concat]
    have hn : (c :: cs).length - (cs.drop (cs.takeWhile isIdentPart).length).length =
        (cs.takeWhile isIdentPart).length + 1 := by
      rw [List.length_drop, List.length_cons]
      omega
    rw [if_pos h, ofRx, hrun, Option.map_some]
    simp only [At.advance, List.drop_succ_cons, List.drop_zero, hn]
    rw [List.take_succ_cons, List.prefix_iff_eq_take.mp (List.takeWhile_prefix isIdentPart)]
    simp
  · simp [ofRx, identRx, run, h]

/-- What `_IDENT_RE` matches. -/
def IsIdent (w : Text) : Prop := ∃ c cs, w = c :: cs ∧ isIdentHead c = true ∧
  ∀ d ∈ cs, isIdentPart d = true

/-- It stands in the line between characters that cannot extend it. -/
def StandsIn (w line : Text) : Prop := ∃ a b, line = a ++ w ++ b ∧
  (∀ c ∈ a.getLast?, isIdentPart c = false) ∧ ∀ c ∈ b.head?, isIdentPart c = false

lemma isIdent_of_mem {s w : Text} (h : w ∈ identifiers s) : IsIdent w ∧ w <:+: s := by
  refine mem_findFrom (P := fun w => IsIdent w ∧ w <:+: s) (fun prev s' w n hs hw => ?_)
    List.suffix_rfl w h
  cases s' with
  | nil => simp [ofRx, identRx, run] at hw
  | cons c cs =>
    rw [ofRx_identRx] at hw
    split_ifs at hw with hc
    obtain ⟨rfl, -⟩ := Prod.mk.inj (Option.some.inj hw)
    refine ⟨⟨c, _, rfl, hc, fun d hd => List.mem_takeWhile_imp hd⟩, ?_⟩
    exact (List.prefix_cons_inj c |>.mpr (List.takeWhile_prefix _)).isInfix.trans hs.isInfix

lemma takeWhile_append {p : Char → Bool} {a b : Text} (ha : a ≠ [])
    (hlast : ∀ c ∈ a.getLast?, p c = false) :
    (a ++ b).takeWhile p = a.takeWhile p ∧ a.takeWhile p ≠ a := by
  have hstop : ¬ ∀ c ∈ a, p c = true := by
    intro h
    have hc := hlast _ (List.getLast?_eq_some_getLast ha)
    rw [h _ (List.getLast_mem ha)] at hc
    cases hc
  have hne : a.takeWhile p ≠ a := fun h => hstop (List.takeWhile_eq_self_iff.mp h)
  refine ⟨?_, hne⟩
  rw [List.takeWhile_append, if_neg]
  exact fun hlen => hne ((List.takeWhile_prefix p).eq_of_length hlen)

/-- Where an identifier stands in a line, the line's words have it. -/
lemma mem_findFrom_word {w b : Text} (hw : IsIdent w) (hb : ∀ c ∈ b.head?, isIdentPart c = false)
    {fuel : ℕ} {prev : Option Char} {a : Text} (ha : ∀ c ∈ a.getLast?, isIdentPart c = false)
    (hfuel : (a ++ w ++ b).length ≤ fuel) :
    w ∈ findFrom (ofRx identRx fun w _ => w) fuel prev (a ++ w ++ b) := by
  obtain ⟨d, ds, rfl, hd, hds⟩ := hw
  induction fuel generalizing prev a with
  | zero => simp at hfuel
  | succ fuel ih =>
    cases a with
    | nil =>
      have htake : (ds ++ b).takeWhile isIdentPart = ds := by
        rw [List.takeWhile_append_of_pos hds]
        cases b with
        | nil => simp
        | cons c b => simp [hb c rfl]
      rw [List.nil_append, List.cons_append, findFrom, ofRx_identRx, if_pos hd, htake]
      exact List.mem_cons_self
    | cons c a =>
      rw [List.cons_append, List.cons_append, findFrom, ofRx_identRx]
      by_cases hc : isIdentHead c = true
      · have hne : a ≠ [] := by
          rintro rfl
          have hpart := ha c rfl
          rw [isIdentPart_of_isIdentHead hc] at hpart
          cases hpart
        have hlast : ∀ x ∈ a.getLast?, isIdentPart x = false := by
          rwa [List.getLast?_cons_of_ne_nil hne] at ha
        obtain ⟨htake, -⟩ := takeWhile_append (b := d :: ds ++ b) hne hlast
        have hle := (List.takeWhile_prefix isIdentPart (l := a)).length_le
        have hdrop : (c :: (a ++ (d :: ds ++ b))).drop ((a.takeWhile isIdentPart).length + 1) =
            a.drop (a.takeWhile isIdentPart).length ++ (d :: ds) ++ b := by
          rw [List.drop_succ_cons, List.drop_append_of_le_length hle, List.append_assoc]
        rw [if_pos hc, List.append_assoc, htake]
        refine List.mem_cons_of_mem _ ?_
        rw [hdrop]
        refine ih ?_ ?_
        · intro x hx
          refine hlast x ?_
          rw [List.getLast?_drop] at hx
          split_ifs at hx
          · cases hx
          · exact hx
        · simp only [List.length_append, List.length_cons, List.length_drop] at hfuel ⊢
          omega
      · rw [if_neg hc]
        refine ih ?_ ?_
        · intro x hx
          refine ha x ?_
          cases a with
          | nil => cases hx
          | cons e a => rwa [List.getLast?_cons_cons]
        · simpa using hfuel

theorem mem_identifiers {w line : Text} (hw : IsIdent w) (h : StandsIn w line) :
    w ∈ identifiers line := by
  obtain ⟨a, b, rfl, ha, hb⟩ := h
  exact mem_findFrom_word hw hb ha le_rfl

end Words

section Tokens

def novelMin : ℕ := 4

def doubleQuote : Char := Char.ofNat 34
def singleQuote : Char := Char.ofNat 39

/-- One alternative of `_STRING_RE`: a string without an escape, on one line. -/
def quotedRx (q : Char) (i : ℕ) : Rx :=
  .concat [.one (· = q), .group i (.many 3 (some 200) fun c => c ≠ q ∧ c ≠ '\\' ∧ c ≠ '\n'),
    .one (· = q)]

/-- `_STRING_RE`. -/
def stringRx : Rx := .alt (quotedRx doubleQuote 1) (quotedRx singleQuote 2)

/-- `m.group(1) or m.group(2)`. -/
def firstGroup (groups : List (ℕ × Text)) : Text :=
  if groupText groups 1 ≠ [] then groupText groups 1 else groupText groups 2

def isDigit (c : Char) : Bool := (decimalDigit c).isSome

/-- `_NUMBER_RE`, at a place: two digits or more, as many as there are, no character of a word or a
point before them and none of a word after. -/
def numberAt (prev : Option Char) (s : Text) : Option (Text × ℕ) :=
  if prev.any fun c => isIdentPart c || c = '.' then none
  else
    let n := (s.takeWhile isDigit).length
    ((List.range' 2 (n + 1 - 2)).reverse.find? fun k => !(s.drop k).head?.any isIdentPart).map
      fun k => (s.take k, k)

/-- `_code_tokens`: the identifiers and the literals. -/
def codeTokens (s : Text) : List Text × List Text :=
  ((identifiers s).filter fun w => novelMin ≤ w.length,
    finditer (ofRx stringRx fun _ groups => firstGroup groups) s ++ finditer numberAt s)

/-- A literal stands in the text it is of. -/
lemma infix_of_mem_literals {s w : Text} (h : w ∈ (codeTokens s).2) : w <:+: s := by
  rcases List.mem_append.mp h with h | h
  · refine mem_findFrom (P := (· <:+: s)) (fun prev s' w n hs hw => ?_) List.suffix_rfl w h
    obtain ⟨t, ht, hw⟩ := Option.map_eq_some_iff.mp hw
    obtain ⟨rfl, -⟩ := Prod.mk.inj hw
    have hgroup := groupText_part (List.mem_of_mem_head? ht) rfl
    simp only [firstGroup]
    split_ifs
    · exact (hgroup 1).trans hs.isInfix
    · exact (hgroup 2).trans hs.isInfix
  · refine mem_findFrom (P := (· <:+: s)) (fun prev s' w n hs hw => ?_) List.suffix_rfl w h
    rw [numberAt] at hw
    split_ifs at hw
    obtain ⟨k, -, hw⟩ := Option.map_eq_some_iff.mp hw
    obtain ⟨rfl, -⟩ := Prod.mk.inj hw
    exact (List.take_prefix k s').isInfix.trans hs.isInfix

lemma infix_of_mem_idents {s w : Text} (h : w ∈ (codeTokens s).1) : w <:+: s :=
  (isIdent_of_mem (List.mem_of_mem_filter h)).2

end Tokens

end CommitReplay.CodeTokens
