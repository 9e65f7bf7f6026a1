import CommitReplay.Redaction

/-! What a reader takes off the head of a stored error is the head it had: no credential begins as the
mark of a broken rule does, and none of their replacements. -/
namespace CommitReplay.RedactedHeads

open CommitReplay.PythonText CommitReplay.PriorityRegex CommitReplay.Redaction

variable (isWide : Char → Bool)

/-- `_VIOLATION_PREFIXES`. -/
def violationPrefixes : List Text := ["tamper:".toList, "archaeology:".toList, "network:".toList]

def rstrip (s : Text) : Text := s.rdropWhile isSpace

/-- `redact_and_cap_head`: the text redacted, and cut behind its first characters where it is long. -/
def redactAndCapHead (maxChars : ℕ) (text : Text) : Text :=
  let out := redactText isWide text
  if maxChars < out.length then rstrip (out.take (max 1 (maxChars - 2))) ++ " …".toList else out

section Beginnings

/-- What is left of a mark, from each of its characters on. -/
def ends : List Text := (violationPrefixes.flatMap List.tails).filter (· ≠ [])

lemma mem_ends {p q : Text} (hp : p ∈ violationPrefixes) (hq : q <:+ p) (hne : q ≠ []) : q ∈ ends := by
  simp only [ends, List.mem_filter, List.mem_flatMap, decide_eq_true_eq]
  exact ⟨⟨p, hp, (List.mem_tails _ _).mpr hq⟩, hne⟩

/-- What a marker stands for is not how a mark goes on. -/
lemma not_agree_bracket {q : Text} (hq : q ∈ ends) (x : Text) : ¬ Agree ('[' :: x) q := by
  have hall : (ends.all fun q => q ≠ [] && q.head? != some '[') = true := by rfl
  obtain ⟨hne, hhead⟩ : q ≠ [] ∧ q.head? ≠ some '[' := by simpa using List.all_eq_true.mp hall q hq
  cases q with
  | nil => exact absurd rfl hne
  | cons c q =>
    simp only [Agree, List.cons_prefix_cons]
    have hc : c ≠ '[' := fun h => hhead (by simp [h])
    exact fun h => h.elim (fun h => hc h.1.symm) fun h => hc h.1

end Beginnings

section Patterns

variable {isWide} {q : Text}

/-- No word of the list begins as what is left of a mark. -/
def Foreign (fold : Char → Char) (ws : List Text) : Prop := ∀ q ∈ ends, ∀ w ∈ ws, ¬ Agree w (q.map fold)

instance decidableForeign (fold : Char → Char) (ws : List Text) : Decidable (Foreign fold ws) :=
  inferInstanceAs (Decidable (∀ q ∈ ends, ∀ w ∈ ws, ¬ Agree w (q.map fold)))

/-- The beginnings of the keys, and of the two shapes that are read in either case. -/
def keyHeads : List Text := ["sk-", "rk-", "pk-", "gh", "github_pat", "xox", "AKIA", "AIza", "eyJ",
  "-----BEGIN "].map String.toList

def foldedHeads : List Text := ["authorization", "http"].map String.toList

lemma foreign_keyHeads : Foreign id keyHeads := by decide

lemma foreign_foldedHeads : Foreign foldCase foldedHeads := by decide

lemma avoids_marked {r : Rx} {ws : List Text} {mark : Text} (hq : q ∈ ends) (hr : Begins id r ws)
    (hws : ∀ w ∈ ws, w ∈ keyHeads) : Avoids r (fun _ => '[' :: mark) q :=
  avoids_of_begins hr (fun w hw => foreign_keyHeads q hq w (hws w hw)) fun _ _ _ =>
    not_agree_bracket hq mark

lemma begins_authorization : Begins foldCase authorization ["authorization".toList] :=
  begins_seq (begins_group (begins_seq (begins_lit _ _)))

lemma groupText_authorization {m : Text} {g : List (ℕ × Text)} (h : Matched authorization m g) :
    ∃ m₁, m₁ <+: groupText g 1 ∧ m₁.map foldCase = "authorization".toList := by
  simp only [authorization, Rx.concat, anyOf, anyCase, spaces, oneOf, Matched] at h
  obtain ⟨a, b, g₁, g₂, -, rfl, ⟨g', rfl, u, v, h₁, h₂, rfl, -, ⟨hu, -⟩, -⟩, c, d, g₃, g₄, -, rfl,
    ⟨g'', rfl, hbasic⟩, e, f, g₅, g₆, -, rfl, ⟨-, rfl⟩, -, rfl⟩ := h
  have hg'' : g'' = [] := hbasic.elim And.right And.right
  subst hg''
  exact ⟨u, by simp [groupText, List.lookup], hu⟩

lemma avoids_authorization (hq : q ∈ ends) : Avoids authorization
    (fun g => groupText g 1 ++ groupText g 2 ++ " [REDACTED]".toList) q := by
  have hforeign := foreign_foldedHeads q hq "authorization".toList (by simp [foldedHeads])
  refine avoids_of_begins begins_authorization (by simpa using hforeign) fun m g h => ?_
  obtain ⟨m₁, hm₁, hw⟩ := groupText_authorization h
  refine not_agree (hm₁.trans ?_) hw hforeign
  rw [List.append_assoc]
  exact List.prefix_append _ _

lemma begins_userInfo : Begins foldCase userInfo ["http".toList] :=
  begins_seq (begins_group (begins_seq (begins_lit _ _)))

lemma groupText_userInfo {m : Text} {g : List (ℕ × Text)} (h : Matched userInfo m g) :
    ∃ m₁, m₁ <+: groupText g 1 ∧ m₁.map foldCase = "http".toList := by
  simp only [userInfo, Rx.concat, Rx.opt, anyCase, exact, Matched] at h
  obtain ⟨a, b, g₁, g₂, -, rfl, ⟨g', rfl, u, v, h₁, h₂, rfl, -, ⟨hu, -⟩, -⟩, c, d, g₃, g₄, -, rfl,
    ⟨-, rfl⟩, g'', rfl, -, rfl⟩ := h
  exact ⟨u, by simp [groupText, List.lookup], hu⟩

lemma avoids_userInfo (hq : q ∈ ends) : Avoids userInfo
    (fun g => groupText g 1 ++ "[REDACTED]".toList ++ groupText g 2) q := by
  have hforeign := foreign_foldedHeads q hq "http".toList (by simp [foldedHeads])
  refine avoids_of_begins begins_userInfo (by simpa using hforeign) fun m g h => ?_
  obtain ⟨m₁, hm₁, hw⟩ := groupText_userInfo h
  refine not_agree (hm₁.trans ?_) hw hforeign
  rw [List.append_assoc]
  exact List.prefix_append _ _

/-- A character of a secret's name, the dash of one included. -/
def ofName (c : Char) : Bool := isAlnumOr "_-" (foldCase c)

lemma ofName_of_isSpace {c : Char} (h : isSpace c = true) : ofName c = false := by
  by_cases hc : c.toNat < 128
  · have hall : ∀ n < 128, isSpace (Char.ofNat n) = true → ofName (Char.ofNat n) = false := by
      decide
    have := hall c.toNat hc
    rw [Char.ofNat_toNat] at this
    exact this h
  · simp only [isSpace, Bool.or_eq_true, Bool.and_eq_true, decide_eq_true_eq, beq_iff_eq] at h
    have hbound : ∀ d : Char, c.val ≤ d.val → c.toNat ≤ d.toNat := fun d => UInt32.le_iff_toNat_le.mp
    have hlower : c.toLower = c := by
      rw [Char.toLower, dif_neg]
      intro hup
      have : c.toNat ≤ 'Z'.toNat := hbound 'Z' hup.2
      rw [show 'Z'.toNat = 90 from rfl] at this
      omega
    have hz : ¬ c.toNat ≤ 'z'.toNat := by rw [show 'z'.toNat = 122 from rfl]; omega
    have hZ : ¬ c.toNat ≤ 'Z'.toNat := by rw [show 'Z'.toNat = 90 from rfl]; omega
    have h9 : ¬ c.toNat ≤ '9'.toNat := by rw [show '9'.toNat = 57 from rfl]; omega
    have hmark : c ≠ '_' ∧ c ≠ '-' := by
      constructor <;> rintro rfl <;> exact hc (by decide)
    have hfold : foldCase c = c := by
      unfold foldCase
      rw [if_neg (by omega), if_neg (by omega), if_neg (by omega), hlower]
    rw [ofName, hfold, isAlnumOr, Char.isAlphanum, Char.isAlpha, Char.isUpper, Char.isLower,
      Char.isDigit]
    have hZ' : 90 < c.val := UInt32.not_le.mp fun h => hZ (hbound 'Z' h)
    have hz' : 122 < c.val := UInt32.not_le.mp fun h => hz (hbound 'z' h)
    have h9' : 57 < c.val := UInt32.not_le.mp fun h => h9 (hbound '9' h)
    simp [hZ', hz', h9', hmark]

/-- The words a secret's name holds one of. -/
def secretWords : List Text := ["secret", "token", "password", "passwd", "apikey", "api_key", "api-key",
  "accesskey", "access_key", "access-key"].map String.toList

/-- A word, one of the two marks or nothing, and a key. -/
lemma keyWord_matched {w m : Text} {g : List (ℕ × Text)}
    (h : Matched (.concat [.lit foldCase w, .opt (oneOf "_-"), anyCase "key"]) m g)
    (hw : ∀ mid ∈ [[], ['_'], ['-']], w ++ (mid ++ "key".toList) ∈ secretWords) :
    m.map foldCase ∈ secretWords ∧ g = [] := by
  simp only [Rx.concat, Rx.opt, oneOf, anyCase, Matched] at h
  obtain ⟨a, b, g₁, g₂, rfl, rfl, ⟨ha, rfl⟩, c, d, g₃, g₄, rfl, rfl, hmid, hd, rfl⟩ := h
  have hmid' : c.map foldCase ∈ [[], ['_'], ['-']] ∧ g₃ = [] := by
    obtain ⟨⟨x, rfl, hx⟩, rfl⟩ | ⟨hc, rfl⟩ := hmid
    · simp only [decide_eq_true_eq] at hx
      obtain rfl | rfl : x = '_' ∨ x = '-' := by simpa using hx
      · simp [foldCase]
      · simp [foldCase]
    · rw [List.map_id] at hc
      simp [hc]
  rw [List.map_append, List.map_append, ha, hd, hmid'.2]
  exact ⟨hw _ hmid'.1, rfl⟩

lemma secretName_matched {m : Text} {g : List (ℕ × Text)} (h : Matched secretName m g) :
    m.map foldCase ∈ secretWords ∧ g = [] := by
  simp only [secretName, anyOf, anyCase, Rx.concat, Rx.opt, oneOf, Matched] at h
  obtain h | h | h | h | h | h := h
  · exact ⟨by simp [h.1, secretWords], h.2⟩
  · exact ⟨by simp [h.1, secretWords], h.2⟩
  · exact ⟨by simp [h.1, secretWords], h.2⟩
  · exact ⟨by simp [h.1, secretWords], h.2⟩
  · exact keyWord_matched h (by simp [secretWords])
  · exact keyWord_matched h (by simp [secretWords])

lemma ofName_secret {m : Text} (h : m.map foldCase ∈ secretWords) : ∀ c ∈ m, ofName c = true := by
  have hall : (secretWords.all fun w => w.all fun c => isAlnumOr "_-" c) = true := by rfl
  intro c hc
  exact List.all_eq_true.mp (List.all_eq_true.mp hall _ h) _ (List.mem_map_of_mem hc)

lemma ofName_nameChars {m : Text} (h : ∀ c ∈ m, isAlnumOr "_" (foldCase c) = true) :
    ∀ c ∈ m, ofName c = true := by
  intro c hc
  have := h c hc
  simp only [isAlnumOr, Bool.or_eq_true, decide_eq_true_eq] at this
  simp only [ofName, isAlnumOr, Bool.or_eq_true, decide_eq_true_eq]
  exact this.imp_right fun h => by
    obtain h | h : foldCase c = '_' ∨ False := by simpa using h
    · simp [h]
    · exact h.elim

/-- The name of a secret, and what follows it. -/
lemma keyValue_matched {m : Text} {g : List (ℕ × Text)} (h : Matched (keyValue isWide) m g) :
    ∃ n c r, m = n ++ c :: r ∧ groupText g 1 = n ∧ (∀ d ∈ n, ofName d = true) ∧ ofName c = false ∧
      ∃ s ∈ secretWords, s <:+: n.map foldCase := by
  simp only [keyValue, nameChars, spaces, wordBound, oneOf, Rx.concat, Rx.opt, Matched] at h
  obtain ⟨_, _, _, g₁, rfl, rfl, ⟨rfl, rfl⟩, n, _, g₂, g₃, rfl, rfl,
    ⟨g₄, rfl, a, _, _, _, rfl, rfl, ⟨ha, rfl⟩, b, c, _, _, rfl, rfl, hb, hc, rfl⟩, sp, _, _, _, rfl, rfl,
    ⟨hsp, rfl⟩, _, r, _, _, rfl, rfl, ⟨⟨d, rfl, hd⟩, rfl⟩, _, _, _, _, -, rfl, ⟨-, rfl⟩, _, _, _, _, -,
    rfl, hquote, _, rfl, -, rfl⟩ := h
  obtain rfl := hquote.elim And.right And.right
  obtain ⟨hsecret, rfl⟩ := secretName_matched hb
  have hname : ∀ e ∈ a ++ (b ++ c), ofName e = true := by
    simp only [List.mem_append]
    rintro e (he | he | he)
    · exact ofName_nameChars ha e he
    · exact ofName_secret hsecret e he
    · exact ofName_nameChars hc e he
  have hword : ∃ s ∈ secretWords, s <:+: (a ++ (b ++ c)).map foldCase := by
    refine ⟨_, hsecret, (List.infix_append a b c).map foldCase |>.trans ?_⟩
    rw [List.append_assoc]
  have hsep : ofName d = false := by
    obtain rfl | rfl : d = '=' ∨ d = ':' := by simpa using hd
    · rfl
    · rfl
  -- the name ends at its first blank, or at the sign
  cases sp with
  | nil => exact ⟨_, d, r, rfl, by simp [groupText, List.lookup], hname, hsep, hword⟩
  | cons e sp =>
    refine ⟨_, e, sp ++ [d] ++ r, by simp, by simp [groupText, List.lookup], hname, ?_, hword⟩
    exact ofName_of_isSpace (hsp e (by simp))

/-- A name and what ends it, beside a mark: the name is the mark's word. -/
lemma name_of_agree {n w x : Text} {c : Char} (hn : ∀ d ∈ n, ofName d = true) (hc : ofName c = false)
    (hw : ∀ d ∈ w, ofName d = true) (h : Agree (n ++ c :: x) (w ++ [':'])) : n = w := by
  have htake : ∀ (a b : Text) (d : Char), (∀ e ∈ a, ofName e = true) → ofName d = false →
      (a ++ d :: b).takeWhile ofName = a := fun a b d ha hd => by
    rw [List.takeWhile_append_of_pos ha, List.takeWhile_cons_of_neg (by simp [hd]), List.append_nil]
  have hcolon : ofName ':' = false := rfl
  obtain ⟨z, hz⟩ | ⟨z, hz⟩ := h
  · rw [List.append_assoc, List.cons_append] at hz
    rw [← htake n _ c hn hc, hz, htake w [] ':' hw hcolon]
  · rw [List.append_assoc, List.singleton_append] at hz
    rw [← htake w _ ':' hw hcolon, hz, htake n _ c hn hc]

lemma avoids_keyValue (hq : q ∈ ends) : Avoids (keyValue isWide)
    (fun g => groupText g 1 ++ "=[REDACTED]".toList) q := by
  have hcolon : (ends.all fun q => q = q.dropLast ++ [':'] && q.dropLast.all ofName) = true := by
    rfl
  have hsecret : (ends.all fun q => secretWords.all fun s =>
      !decide (s <:+: q.dropLast.map foldCase)) = true := by rfl
  obtain ⟨hq', hname⟩ : q = q.dropLast ++ [':'] ∧ ∀ c ∈ q.dropLast, ofName c = true := by
    simpa using List.all_eq_true.mp hcolon q hq
  intro m g h
  obtain ⟨n, c, r, rfl, hg, hn, hc, s, hs, hin⟩ := keyValue_matched h
  have hno : n ≠ q.dropLast := fun heq => by
    have := List.all_eq_true.mp (List.all_eq_true.mp hsecret q hq) s hs
    rw [← heq] at this
    simp [hin] at this
  rw [hq']
  refine ⟨fun hag => hno (name_of_agree hn hc hname hag), fun hag => ?_⟩
  change Agree (groupText g 1 ++ _) _ at hag
  rw [hg] at hag
  exact hno (name_of_agree hn (c := '=') rfl hname hag)

/-- The keys of the three families, with the dash after each. -/
lemma begins_apiKey : Begins id (apiKey isWide) ["sk-".toList, "rk-".toList, "pk-".toList] := by
  refine begins_bound ?_
  intro m g h
  simp only [Rx.concat, Rx.opt, anyOf, exact, Matched, List.map_id] at h
  obtain ⟨a, _, _, _, rfl, -, ⟨_, -, ha⟩, b, c, _, _, rfl, -, ⟨rfl, -⟩, -⟩ := h
  refine ⟨a ++ "-".toList, by simp, ?_⟩
  obtain ⟨rfl, -⟩ | ⟨rfl, -⟩ | ⟨rfl, -⟩ := ha <;> simp

lemma begins_githubToken : Begins id (githubToken isWide) ["gh".toList, "github_pat".toList] :=
  begins_bound (begins_seq (begins_alt (begins_seq (begins_lit _ _)) (begins_lit _ _)))

/-- No pattern has a match that begins as what is left of a mark, nor a replacement. -/
lemma avoids_patterns (hq : q ∈ ends) : ∀ p ∈ patterns isWide, Avoids p.1 p.2 q := by
  intro p hp
  simp only [patterns, List.mem_cons, List.not_mem_nil, or_false] at hp
  obtain rfl | rfl | rfl | rfl | rfl | rfl | rfl | rfl | rfl | rfl := hp
  · exact avoids_authorization hq
  · exact avoids_marked hq begins_apiKey (by simp [keyHeads])
  · exact avoids_marked hq begins_githubToken (by simp [keyHeads])
  · exact avoids_marked hq (begins_bound (begins_seq (begins_lit _ _))) (by simp [keyHeads])
  · exact avoids_marked hq (begins_bound (begins_seq (begins_lit _ _))) (by simp [keyHeads])
  · exact avoids_marked hq (begins_bound (begins_seq (begins_lit _ _))) (by simp [keyHeads])
  · exact avoids_marked hq (begins_bound (begins_seq (begins_lit _ _))) (by simp [keyHeads])
  · exact avoids_keyValue hq
  · exact avoids_userInfo hq
  · exact avoids_marked hq (begins_seq (begins_lit _ _)) (by simp [keyHeads])

end Patterns

section Heads

variable {isWide}

/-- A redacted text begins with the mark of a broken rule where the text did. -/
theorem prefix_redactText {q : Text} (hq : q ∈ violationPrefixes) (s : Text) :
    q <+: redactText isWide s ↔ q <+: s := by
  have hsub : ∀ ps : List (Rx × (List (ℕ × Text) → Text)),
      (∀ p ∈ ps, ∀ q', q' ≠ [] → q' <:+ q → Avoids p.1 p.2 q') →
      ∀ s, q <+: ps.foldl (fun out p => sub p.1 p.2 out) s ↔ q <+: s := by
    intro ps hps
    induction ps with
    | nil => exact fun s => Iff.rfl
    | cons p ps ih =>
      intro s
      rw [List.foldl_cons, ih (fun p' hp' => hps p' (List.mem_cons_of_mem _ hp')),
        prefix_sub (hps p (by simp))]
  exact hsub _ (fun p hp q' hne hq' => avoids_patterns (mem_ends hq hq' hne) p hp) s

/-- A mark is short, has no blank, and ends in a colon. -/
lemma violationPrefixes_shape {q : Text} (hq : q ∈ violationPrefixes) :
    q.length ≤ 12 ∧ ' ' ∉ q ∧ ∃ w, q = w ++ [':'] := by
  have hall : (violationPrefixes.all fun q =>
      q.length ≤ 12 && !q.contains ' ' && q == q.dropLast ++ [':']) = true := by rfl
  have h := List.all_eq_true.mp hall q hq
  simp only [Bool.and_eq_true, decide_eq_true_eq, Bool.not_eq_true', List.contains_eq_mem,
    decide_eq_false_iff_not, beq_iff_eq] at h
  exact ⟨h.1.1, h.1.2, _, h.2⟩

lemma prefix_rstrip {q : Text} (hq : q ∈ violationPrefixes) (s : Text) : q <+: rstrip s ↔ q <+: s := by
  refine ⟨fun h => h.trans (List.rdropWhile_prefix _ _), ?_⟩
  rintro ⟨x, rfl⟩
  obtain ⟨-, -, w, rfl⟩ := violationPrefixes_shape hq
  induction x using List.reverseRecOn with
  | nil =>
    rw [List.append_nil, rstrip, List.rdropWhile_concat_neg _ _ _ (by simp [isSpace])]
  | append_singleton x c ih =>
    rw [← List.append_assoc, rstrip, List.rdropWhile_concat]
    split_ifs
    · exact ih
    · rw [List.append_assoc]
      exact List.prefix_append _ _

/-- A stored error begins with the mark of a broken rule where the error did. -/
theorem prefix_redactAndCapHead {q : Text} (hq : q ∈ violationPrefixes) {maxChars : ℕ}
    (hmax : 14 ≤ maxChars) (s : Text) : q <+: redactAndCapHead isWide maxChars s ↔ q <+: s := by
  obtain ⟨hlen, hblank, -⟩ := violationPrefixes_shape hq
  unfold redactAndCapHead
  dsimp only
  split_ifs with hlong
  · rw [← @prefix_redactText isWide q hq s]
    refine ⟨fun h => ?_, fun h => ?_⟩
    · obtain h | ⟨y, hy⟩ := List.prefix_or_prefix_of_prefix h (List.prefix_append _ _)
      · exact ((prefix_rstrip hq _).mp h).trans (List.take_prefix _ _)
      · rw [← hy, List.prefix_append_right_inj] at h
        cases y with
        | nil =>
          rw [List.append_nil] at hy
          refine ((prefix_rstrip hq _).mp ?_).trans (List.take_prefix (max 1 (maxChars - 2)) _)
          rw [hy]
        | cons c y =>
          have hmore : " …".toList = [' ', '…'] := by rfl
          rw [hmore] at h
          obtain rfl : c = ' ' := (List.cons_prefix_cons.mp h).1
          exact absurd (hy ▸ List.mem_append_right _ List.mem_cons_self) hblank
    · refine ((prefix_rstrip hq _).mpr ?_).trans (List.prefix_append _ _)
      exact List.prefix_take_iff.mpr ⟨h, by omega⟩
  · exact prefix_redactText hq s

end Heads

end CommitReplay.RedactedHeads
