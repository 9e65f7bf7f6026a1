import CommitReplay.JsonRoundTrip

/-! Where the strings of a JSON text begin and end. A text that is cut inside a string, at a
character no syntax holds, leaves no JSON text after the cut. -/
namespace CommitReplay.JsonQuotes

open CommitReplay.PythonText CommitReplay.JsonValue CommitReplay.JsonText CommitReplay.JsonRoundTrip

/-- Where a reader stands: outside the strings, inside one, or after a backslash in one. -/
inductive Side
  | outside | inside | escape
deriving DecidableEq, Repr

/-- Where a character takes the reader, and `none` where JSON has no such character. -/
def Side.next : Side → Char → Option Side
  | .outside, c =>
    if c = '"' then some .inside else if c = '\\' ∨ 127 < c.toNat then none else some .outside
  | .inside, c => some (if c = '"' then .outside else if c = '\\' then .escape else .inside)
  | .escape, c => if 127 < c.toNat then none else some .inside

def walk : Side → Text → Option Side
  | q, [] => some q
  | q, c :: cs => (q.next c).bind (walk · cs)

lemma walk_append (q : Side) (s t : Text) : walk q (s ++ t) = (walk q s).bind (walk · t) := by
  induction s generalizing q with
  | nil => rfl
  | cons c cs ih =>
    rw [List.cons_append, walk, walk]
    cases q.next c with
    | none => rfl
    | some q' => exact ih q'

/-- Characters of the syntax outside strings. -/
def Plain (s : Text) : Prop := ∀ c ∈ s, c ≠ '"' ∧ c ≠ '\\' ∧ c.toNat ≤ 127

lemma walk_plain {s : Text} (h : Plain s) : walk .outside s = some .outside := by
  induction s with
  | nil => rfl
  | cons c cs ih =>
    obtain ⟨hq, hb, hc⟩ := h c (by simp)
    have hn : Side.outside.next c = some .outside := by
      simp [Side.next, hq, hb, hc]
    rw [walk, hn]
    exact ih fun d hd => h d (by simp [hd])

/-- What lies before `rest` in `s` takes the reader from one side to another. -/
def Consumes (q : Side) (s rest : Text) (q' : Side) : Prop :=
  ∃ used, s = used ++ rest ∧ walk q used = some q'

lemma Consumes.refl (q : Side) (s : Text) : Consumes q s s q := ⟨[], rfl, rfl⟩

lemma Consumes.trans {q₁ q₂ q₃ : Side} {s t u : Text} (h : Consumes q₁ s t q₂)
    (h' : Consumes q₂ t u q₃) : Consumes q₁ s u q₃ := by
  obtain ⟨a, rfl, ha⟩ := h
  obtain ⟨b, rfl, hb⟩ := h'
  exact ⟨a ++ b, by simp, by rw [walk_append, ha]; exact hb⟩

lemma Consumes.cons {q q₁ q' : Side} {c : Char} {s rest : Text} (hc : q.next c = some q₁)
    (h : Consumes q₁ s rest q') : Consumes q (c :: s) rest q' :=
  .trans ⟨[c], rfl, by simp [walk, hc]⟩ h

lemma Consumes.plain {t r : Text} (h : Plain t) : Consumes .outside (t ++ r) r .outside :=
  ⟨t, rfl, walk_plain h⟩

section Reader

lemma consumes_skipSpace (s : Text) : Consumes .outside s (skipSpace s) .outside := by
  have hplain : Plain (s.takeWhile isJsonSpace) := by
    intro c hc
    have hs := List.mem_takeWhile_imp hc
    simp only [isJsonSpace, Bool.or_eq_true, decide_eq_true_eq] at hs
    rcases hs with ((rfl | rfl) | rfl) | rfl <;> decide
  have h := Consumes.plain (r := skipSpace s) hplain
  rwa [skipSpace, List.takeWhile_append_dropWhile] at h

lemma consumes_number {s t r : Text} {b : Bool} (h : scanNumber s = some (t, b, r)) :
    Consumes .outside s r .outside := by
  obtain ⟨rfl, hchars⟩ := scanNumber_chars h
  refine .plain fun c hc => ?_
  obtain ⟨hp, hq, hb⟩ := printable_of_isNumberChar (hchars c hc)
  exact ⟨hq, hb, by have := hp.2; omega⟩

lemma hexValue_plain {c : Char} {n : ℕ} (h : hexValue c = some n) :
    c ≠ '"' ∧ c ≠ '\\' ∧ c.toNat ≤ 127 := by
  have hle : ∀ {a b : Char}, a ≤ b → a.toNat ≤ b.toNat := fun h => h
  unfold hexValue at h
  split_ifs at h with hd hl hu
  · have := toNat_of_isDigit hd
    exact ⟨by rintro rfl; simp at this, by rintro rfl; simp at this, by omega⟩
  · have h1 := hle hl.1
    have h2 := hle hl.2
    simp only [Char.reduceToNat] at h1 h2
    exact ⟨by rintro rfl; simp at h1, by rintro rfl; simp at h1, by omega⟩
  · have h1 := hle hu.1
    have h2 := hle hu.2
    simp only [Char.reduceToNat] at h1 h2
    exact ⟨by rintro rfl; simp at h1, by rintro rfl; simp at h2, by omega⟩

lemma next_inside {c : Char} (hq : c ≠ '"') (hb : c ≠ '\\') :
    Side.inside.next c = some .inside := by
  simp [Side.next, hq, hb]

lemma consumes_unicodeEscape {s r : Text} {n : ℕ} (h : unicodeEscape s = some (n, r)) :
    Consumes .inside s r .inside := by
  unfold unicodeEscape at h
  split at h
  · rename_i a b c d cs
    simp only [Option.bind_eq_bind, Option.bind_eq_some_iff, Option.some.injEq,
      Prod.mk.injEq] at h
    obtain ⟨_, ha, _, hb, _, hc, _, hd, -, rfl⟩ := h
    obtain ⟨ha1, ha2, -⟩ := hexValue_plain ha
    obtain ⟨hb1, hb2, -⟩ := hexValue_plain hb
    obtain ⟨hc1, hc2, -⟩ := hexValue_plain hc
    obtain ⟨hd1, hd2, -⟩ := hexValue_plain hd
    exact .cons (next_inside ha1 ha2) (.cons (next_inside hb1 hb2) (.cons (next_inside hc1 hc2)
      (.cons (next_inside hd1 hd2) (.refl _ _))))
  · cases h

lemma next_escape {c : Char} (hc : c.toNat ≤ 127) : Side.escape.next c = some .inside := by
  simp [Side.next, hc]

lemma consumes_unescape {s r : Text} {c : Char} (h : unescape s = some (c, r)) :
    Consumes .escape s r .inside := by
  rw [unescape.eq_def] at h
  split at h
  · rename_i cs
    simp only [Option.bind_eq_bind, Option.bind_eq_some_iff] at h
    obtain ⟨⟨n, ds⟩, hn, h⟩ := h
    have hu : Consumes .escape ('u' :: cs) ds .inside :=
      .cons (next_escape (by decide)) (consumes_unicodeEscape hn)
    dsimp only at h
    split_ifs at h with h1 h2
    · split at h
      · rename_i es
        simp only [Option.bind_eq_some_iff] at h
        obtain ⟨⟨m, fs⟩, hm, h⟩ := h
        dsimp only at h
        split_ifs at h
        simp only [Option.some.injEq, Prod.mk.injEq] at h
        obtain ⟨-, rfl⟩ := h
        have hm' : Consumes .escape ('u' :: es) fs .inside :=
          .cons (next_escape (by decide)) (consumes_unicodeEscape hm)
        exact hu.trans (.cons (by simp [Side.next]) hm')
      · cases h
    · obtain ⟨-, rfl⟩ := Option.some.inj h
      exact hu
  all_goals first
    | cases h; done
    | obtain ⟨-, rfl⟩ := Option.some.inj h
      exact .cons (next_escape (by decide)) (.refl _ _)

lemma consumes_string {n : ℕ} {s t r : Text} (h : scanString n s = some (t, r)) :
    Consumes .inside s r .outside := by
  induction n generalizing s t r with
  | zero => cases h
  | succ n ih =>
    cases s with
    | nil => cases h
    | cons c cs =>
      rw [scanString] at h
      split_ifs at h with hq hb hc
      · obtain ⟨-, rfl⟩ := Option.some.inj h
        exact .cons (by simp [Side.next, hq]) (.refl _ _)
      · simp only [Option.bind_eq_bind, Option.bind_eq_some_iff, Option.some.injEq] at h
        obtain ⟨⟨d, ds⟩, hd, ⟨u, r'⟩, hu, he⟩ := h
        obtain ⟨-, rfl⟩ := he
        exact .cons (by simp [Side.next, hb]) ((consumes_unescape hd).trans (ih hu))
      · simp only [Option.bind_eq_bind, Option.bind_eq_some_iff, Option.some.injEq] at h
        obtain ⟨⟨u, r'⟩, hu, he⟩ := h
        obtain ⟨-, rfl⟩ := he
        exact .cons (next_inside hq hb) (ih hu)

lemma next_outside {c : Char} (hq : c ≠ '"') (hb : c ≠ '\\') (hc : c.toNat ≤ 127) :
    Side.outside.next c = some .outside := by
  simp [Side.next, hq, hb, hc]

/-- The reader takes a part of the text that ends outside the strings where it began. -/
def ReadsWhole {α : Type} (read : Text → Option (α × Text)) : Prop :=
  ∀ s a r, read s = some (a, r) → Consumes .outside s r .outside

lemma ReadsWhole.skipSpace {α : Type} {read : Text → Option (α × Text)} (h : ReadsWhole read)
    {s r : Text} {a : α} (hr : read (skipSpace s) = some (a, r)) :
    Consumes .outside s r .outside :=
  (consumes_skipSpace s).trans (h _ a r hr)

variable {F : Type} [PyFloat F]

lemma scanValue_step {n : ℕ} (hitems : ReadsWhole (scanItems (F := F) n))
    (hfields : ReadsWhole (scanFields (F := F) n)) : ReadsWhole (scanValue (F := F) (n + 1)) := by
  intro s v r h
  rw [scanValue.eq_def] at h
  dsimp only at h
  split at h
  · rename_i hn
    obtain ⟨-, rfl⟩ := Option.some.inj h
    exact consumes_number hn
  · split at h
    · obtain ⟨⟨t, r'⟩, ht, he⟩ := Option.map_eq_some_iff.mp h
      obtain ⟨-, rfl⟩ := he
      exact .cons (by simp [Side.next]) (consumes_string ht)
    · rename_i cs _
      refine .cons (next_outside (by decide) (by decide) (by decide)) ?_
      split at h
      · rename_i r' hs
        obtain ⟨-, rfl⟩ := Option.some.inj h
        refine (consumes_skipSpace cs).trans ?_
        rw [hs]
        exact .plain (t := [']']) (by simp [Plain])
      · obtain ⟨⟨t, r'⟩, ht, he⟩ := Option.map_eq_some_iff.mp h
        obtain ⟨-, rfl⟩ := he
        exact hitems.skipSpace ht
    · rename_i cs _
      refine .cons (next_outside (by decide) (by decide) (by decide)) ?_
      split at h
      · rename_i r' hs
        obtain ⟨-, rfl⟩ := Option.some.inj h
        refine (consumes_skipSpace cs).trans ?_
        rw [hs]
        exact .plain (t := ['}']) (by simp [Plain])
      · obtain ⟨⟨t, r'⟩, ht, he⟩ := Option.map_eq_some_iff.mp h
        obtain ⟨-, rfl⟩ := he
        exact hfields.skipSpace ht
    · obtain ⟨-, rfl⟩ := Option.some.inj h
      exact .plain (t := ['n', 'u', 'l', 'l']) (by simp [Plain])
    · obtain ⟨-, rfl⟩ := Option.some.inj h
      exact .plain (t := ['t', 'r', 'u', 'e']) (by simp [Plain])
    · obtain ⟨-, rfl⟩ := Option.some.inj h
      exact .plain (t := ['f', 'a', 'l', 's', 'e']) (by simp [Plain])
    · cases h

lemma scanItems_step {n : ℕ} (hvalue : ReadsWhole (scanValue (F := F) n))
    (hitems : ReadsWhole (scanItems (F := F) n)) : ReadsWhole (scanItems (F := F) (n + 1)) := by
  intro s vs r h
  rw [scanItems] at h
  simp only [Option.bind_eq_bind, Option.bind_eq_some_iff] at h
  obtain ⟨⟨v, r₁⟩, hv, h⟩ := h
  refine (hvalue _ _ _ hv).trans ((consumes_skipSpace r₁).trans ?_)
  dsimp only at h
  split at h
  · rename_i r' hs
    obtain ⟨-, rfl⟩ := Option.some.inj h
    rw [hs]
    exact .plain (t := [']']) (by simp [Plain])
  · rename_i r' hs
    simp only [Option.bind_eq_some_iff, Option.some.injEq] at h
    obtain ⟨⟨ws, r₂⟩, hw, -, rfl⟩ := h
    rw [hs]
    exact .cons (next_outside (by decide) (by decide) (by decide)) (hitems.skipSpace hw)
  · cases h

lemma scanFields_step {n : ℕ} (hvalue : ReadsWhole (scanValue (F := F) n))
    (hfields : ReadsWhole (scanFields (F := F) n)) : ReadsWhole (scanFields (F := F) (n + 1)) := by
  intro s ps r h
  rw [scanFields.eq_def] at h
  dsimp only at h
  split at h
  · simp only [Option.bind_eq_bind, Option.bind_eq_some_iff] at h
    obtain ⟨⟨k, r₁⟩, hk, h⟩ := h
    have hopen : Side.next .outside '"' = some .inside := by simp [Side.next]
    refine .cons hopen ((consumes_string hk).trans
      ((consumes_skipSpace r₁).trans ?_))
    dsimp only at h
    split at h
    · rename_i r₂ hs
      simp only [Option.bind_eq_some_iff] at h
      obtain ⟨⟨v, r₃⟩, hv, h⟩ := h
      rw [hs]
      refine .cons (next_outside (by decide) (by decide) (by decide)) ((hvalue.skipSpace hv).trans
        ((consumes_skipSpace r₃).trans ?_))
      dsimp only at h
      split at h
      · rename_i r' hs'
        obtain ⟨-, rfl⟩ := Option.some.inj h
        rw [hs']
        exact .plain (t := ['}']) (by simp [Plain])
      · rename_i r' hs'
        simp only [Option.bind_eq_some_iff, Option.some.injEq] at h
        obtain ⟨⟨qs, r₄⟩, hq, -, rfl⟩ := h
        rw [hs']
        exact .cons (next_outside (by decide) (by decide) (by decide)) (hfields.skipSpace hq)
      · cases h
    · cases h
  · cases h

/-- The three readers take whole strings, by induction on their common fuel. -/
lemma readsWhole (n : ℕ) : ReadsWhole (scanValue (F := F) n) ∧ ReadsWhole (scanItems (F := F) n) ∧
    ReadsWhole (scanFields (F := F) n) := by
  induction n with
  | zero => refine ⟨?_, ?_, ?_⟩ <;> (intro s a r h; cases h)
  | succ n ih =>
    obtain ⟨hvalue, hitems, hfields⟩ := ih
    exact ⟨scanValue_step hitems hfields, scanItems_step hvalue hitems,
      scanFields_step hvalue hfields⟩

/-- A JSON text begins and ends outside its strings. -/
theorem walk_of_loads {s : Text} {v : Json F} (h : loads s = some v) :
    walk .outside s = some .outside := by
  simp only [loads, Option.bind_eq_bind, Option.bind_eq_some_iff] at h
  obtain ⟨⟨w, r⟩, hw, h⟩ := h
  dsimp only at h
  split_ifs at h with hr
  have hc := ((readsWhole (F := F) _).1.skipSpace hw).trans (consumes_skipSpace r)
  rw [hr] at hc
  obtain ⟨used, rfl, hu⟩ := hc
  rwa [List.append_nil]

end Reader

section Cuts

/-- Two readers on different sides of a quote never meet, unless one of them fails. -/
lemma walk_apart (s : Text) (q : Side) (hi : walk .inside s = some q) :
    walk .outside s ≠ some q := by
  induction s with
  | nil =>
    obtain rfl := Option.some.inj hi
    simp [walk]
  | cons c cs ih =>
    intro ho
    obtain ⟨p, hp, ho⟩ := Option.bind_eq_some_iff.mp ho
    obtain ⟨p', hp', hi⟩ := Option.bind_eq_some_iff.mp hi
    by_cases hq : c = '"'
    · -- the two change sides
      obtain rfl : Side.inside = p := by simpa [Side.next, hq] using hp
      obtain rfl : Side.outside = p' := by simpa [Side.next, hq] using hp'
      exact ih ho hi
    · by_cases hb : c = '\\' ∨ 127 < c.toNat
      · simp [Side.next, hq, hb] at hp
      · obtain ⟨hb, hc⟩ := not_or.mp hb
        obtain rfl : Side.outside = p := by simpa [Side.next, hq, hb, hc] using hp
        obtain rfl : Side.inside = p' := by simpa [Side.next, hq, hb] using hp'
        exact ih hi ho

/-- A wide character of a JSON text stands inside a string. -/
lemma inside_at_wide {a b : Text} {c : Char} (hc : 127 < c.toNat) {q : Side}
    (h : walk .outside (a ++ c :: b) = some q) :
    walk .outside a = some .inside ∧ walk .inside b = some q := by
  rw [walk_append] at h
  obtain ⟨q, hq, h⟩ := Option.bind_eq_some_iff.mp h
  obtain ⟨q', hq', h⟩ := Option.bind_eq_some_iff.mp h
  have hn : c ≠ '"' ∧ c ≠ '\\' := by
    refine ⟨?_, ?_⟩ <;>
      · rintro rfl
        simp at hc
  cases q <;> simp_all [Side.next]

/-- What a JSON text has after a wide character is no JSON text. -/
theorem loads_cut {F : Type} [PyFloat F] {a b : Text} {c : Char} (hc : 127 < c.toNat)
    (h : walk .outside (a ++ c :: b) = some .outside) : loads (F := F) b = none := by
  obtain ⟨-, hb⟩ := inside_at_wide hc h
  cases hv : loads (F := F) b with
  | none => rfl
  | some v => exact absurd (walk_of_loads hv) (walk_apart b .outside hb)

/-- Nor is what it has before one. -/
theorem loads_before_cut {F : Type} [PyFloat F] {a b : Text} {c : Char} (hc : 127 < c.toNat)
    (h : walk .outside (a ++ c :: b) = some .outside) : loads (F := F) a = none := by
  obtain ⟨ha, -⟩ := inside_at_wide hc h
  cases hv : loads (F := F) a with
  | none => rfl
  | some v =>
    rw [walk_of_loads hv] at ha
    cases ha

end Cuts

end CommitReplay.JsonQuotes
