import CommitReplay.PythonText

/-! The allowlist of the egress proxy. An entry and a `CONNECT` target are split at their last
colon by two parsers; the first fills a map of hosts, the second looks one up. -/
namespace CommitReplay.EgressProxy

open CommitReplay.PythonText

section Strings

/-- `s.rpartition(c)`, and `none` where `s` has no `c`. -/
def rpartition (c : Char) : Text → Option (Text × Text)
  | [] => none
  | d :: ds =>
    match rpartition c ds with
    | some (host, tail) => some (d :: host, tail)
    | none => if d = c then some ([], ds) else none

lemma rpartition_eq_none {c : Char} {s : Text} : rpartition c s = none ↔ c ∉ s := by
  induction s with
  | nil => simp [rpartition]
  | cons d ds ih =>
    rw [rpartition]
    cases hr : rpartition c ds with
    | some p =>
      have hmem : c ∈ ds := by
        by_contra hc
        rw [ih.mpr hc] at hr
        cases hr
      simp [hmem]
    | none =>
      have hmem := ih.mp hr
      dsimp only
      split_ifs with hd
      · simp [hd]
      · simp [hmem, Ne.symm hd]

lemma rpartition_append {c : Char} (h : Text) {t : Text} (ht : c ∉ t) :
    rpartition c (h ++ c :: t) = some (h, t) := by
  induction h with
  | nil => rw [List.nil_append, rpartition, rpartition_eq_none.mpr ht, if_pos rfl]
  | cons d h ih => rw [List.cons_append, rpartition, ih]

lemma eq_of_rpartition {c : Char} {s h t : Text} (hs : rpartition c s = some (h, t)) :
    s = h ++ c :: t ∧ c ∉ t := by
  induction s generalizing h with
  | nil => cases hs
  | cons d ds ih =>
    rw [rpartition] at hs
    cases hr : rpartition c ds with
    | some p =>
      obtain ⟨p, q⟩ := p
      rw [hr] at hs
      obtain ⟨rfl, rfl⟩ := Prod.mk.inj (Option.some.inj hs)
      obtain ⟨rfl, hq⟩ := ih hr
      exact ⟨rfl, hq⟩
    | none =>
      rw [hr] at hs
      dsimp only at hs
      split_ifs at hs with hd
      obtain ⟨rfl, rfl⟩ := Prod.mk.inj (Option.some.inj hs)
      exact ⟨by rw [hd]; rfl, rpartition_eq_none.mp hr⟩

/-- The characters `int` drops around a number. -/
def isIntSpace (c : Char) : Bool :=
  (9 ≤ c.toNat && c.toNat ≤ 13) || c = ' ' || (127 ≤ c.toNat && isSpace c)

/-- The digits of a number, underscores between them; `int` refuses more than 4300 of them. -/
def digitsValue (ds : Text) : Option ℕ :=
  let runs := ds.splitOn '_'
  if (runs.all fun run => run ≠ [] && run.all fun c => (decimalDigit c).isSome) &&
      runs.flatten.length ≤ 4300 then
    some (decimalValue runs.flatten)
  else none

/-- `int(s)`, and `none` where it raises. -/
def int (s : Text) : Option ℤ :=
  match (s.dropWhile isIntSpace).rdropWhile isIntSpace with
  | '-' :: ds => (digitsValue ds).map fun n => -(Int.ofNat n)
  | '+' :: ds => (digitsValue ds).map Int.ofNat
  | ds => (digitsValue ds).map Int.ofNat

/-- The first and last code points of the digits that are not decimal, such as superscripts. -/
def digitRanges : List (ℕ × ℕ) :=
  [(0xB2, 0xB3), (0xB9, 0xB9), (0x1369, 0x1371), (0x19DA, 0x19DA), (0x2070, 0x2070),
    (0x2074, 0x2079), (0x2080, 0x2089), (0x2460, 0x2468), (0x2474, 0x247C), (0x2488, 0x2490),
    (0x24EA, 0x24EA), (0x24F5, 0x24FD), (0x24FF, 0x24FF), (0x2776, 0x277E), (0x2780, 0x2788),
    (0x278A, 0x2792), (0x10A40, 0x10A43), (0x10E60, 0x10E68), (0x11052, 0x1105A),
    (0x1F100, 0x1F10A)]

def isDigitChar (c : Char) : Bool :=
  (decimalDigit c).isSome || digitRanges.any fun r => r.1 ≤ c.toNat && c.toNat ≤ r.2

/-- `s.isdigit()`. -/
def isdigit (s : Text) : Bool := s ≠ [] && s.all isDigitChar

lemma decimalDigit_of_isDigit {c : Char} (hc : c.isDigit = true) :
    (decimalDigit c).isSome = true := by
  rw [Char.isDigit, Bool.and_eq_true, decide_eq_true_eq, decide_eq_true_eq] at hc
  have hlo : 48 ≤ c.toNat := hc.1
  have hhi : c.toNat ≤ 57 := hc.2
  rw [decimalDigit, Option.isSome_map, List.find?_isSome]
  refine ⟨0x30, by simp [digitBlocks], ?_⟩
  rw [decide_eq_true_eq]
  omega

lemma int_of_digits {ds : Text} (hne : ds ≠ []) (hds : ∀ c ∈ ds, c.isDigit = true)
    (hlen : ds.length ≤ 4300) : int ds = some (decimalValue ds : ℤ) := by
  have hchar : ∀ c : Char, c.isDigit = true →
      isIntSpace c = false ∧ c ≠ '-' ∧ c ≠ '+' ∧ c ≠ '_' := by
    intro c hc
    rw [Char.isDigit, Bool.and_eq_true, decide_eq_true_eq, decide_eq_true_eq] at hc
    have hlo : 48 ≤ c.toNat := hc.1
    have hhi : c.toNat ≤ 57 := hc.2
    refine ⟨?_, ?_, ?_, ?_⟩
    · have hspace : c ≠ ' ' := by rintro rfl; simp at hlo
      simp only [isIntSpace, hspace, decide_false, Bool.or_false, Bool.or_eq_false_iff,
        Bool.and_eq_false_iff, decide_eq_false_iff_not]
      omega
    · rintro rfl; simp at hlo
    · rintro rfl; simp at hlo
    · rintro rfl; simp at hhi
  have hstrip : (ds.dropWhile isIntSpace).rdropWhile isIntSpace = ds := by
    have hdrop : ds.dropWhile isIntSpace = ds := by
      cases ds with
      | nil => rfl
      | cons c cs => simp [(hchar c (hds c (by simp))).1]
    rw [hdrop, List.rdropWhile_eq_self_iff]
    intro hl
    simp [(hchar _ (hds _ (List.getLast_mem hl))).1]
  have hvalue : digitsValue ds = some (decimalValue ds) := by
    have hsplit : ds.splitOn '_' = [ds] :=
      List.splitOnP_eq_singleton fun c hc => by simp [(hchar c (hds c hc)).2.2.2]
    have hrun : ds.all (fun c => (decimalDigit c).isSome) = true :=
      List.all_eq_true.mpr fun c hc => decimalDigit_of_isDigit (hds c hc)
    simp [digitsValue, hsplit, hne, hrun, hlen]
  rw [int, hstrip]
  split
  · exact absurd rfl (hchar '-' (hds _ (by simp))).2.1
  · exact absurd rfl (hchar '+' (hds _ (by simp))).2.2.1
  · rw [hvalue]
    rfl

/-- The digits of Latin-1 are the ASCII ones and three superscripts. -/
lemma isDigit_of_latin1 {c : Char} (hc : isDigitChar c = true) (hlatin : c.toNat < 256) :
    c.isDigit = true ∨ c ∈ ['²', '³', '¹'] := by
  rw [isDigitChar, Bool.or_eq_true] at hc
  rcases hc with hc | hc
  · left
    rw [decimalDigit, Option.isSome_map, List.find?_isSome] at hc
    obtain ⟨b, hb, hrange⟩ := hc
    have hlow : b = 0x30 ∨ 256 ≤ b := (by decide : ∀ b ∈ digitBlocks, b = 0x30 ∨ 256 ≤ b) b hb
    have hrange : b ≤ c.toNat ∧ c.toNat < b + 10 := by simpa using hrange
    rcases hlow with rfl | hlow
    · rw [Char.isDigit, Bool.and_eq_true, decide_eq_true_eq, decide_eq_true_eq]
      exact ⟨hrange.1, Nat.le_of_lt_succ hrange.2⟩
    · omega
  · right
    obtain ⟨r, hr, hrange⟩ := List.any_eq_true.mp hc
    have hlow : r = (0xB2, 0xB3) ∨ r = (0xB9, 0xB9) ∨ 256 ≤ r.1 :=
      (by decide : ∀ r ∈ digitRanges, r = (0xB2, 0xB3) ∨ r = (0xB9, 0xB9) ∨ 256 ≤ r.1) r hr
    have hrange : r.1 ≤ c.toNat ∧ c.toNat ≤ r.2 := by simpa using hrange
    have hnat : c.toNat = 0xB2 ∨ c.toNat = 0xB3 ∨ c.toNat = 0xB9 := by
      rcases hlow with rfl | rfl | hlow <;> omega
    rcases hnat with h | h | h <;> rw [← Char.ofNat_toNat c, h] <;> decide

end Strings

section Proxy

variable (lower : Text → Text)

/-- `host.strip().lower().rstrip(".")`. -/
def normaliseHost (host : Text) : Text := (lower (strip host)).rdropWhile (· = '.')

/-- What one entry of the allowlist names, and `none` where it is refused. -/
def parseEntry (raw : Text) : Option (Text × ℤ) :=
  let entry := strip raw
  if entry = [] then none
  else
    let split := match rpartition ':' entry with
      | none => (entry, [])
      | some (host, portS) => if host = [] then (entry, []) else (host, portS)
    (if split.2 = [] then some 443 else int split.2).bind fun port =>
      if 0 < port ∧ port < 65536 then
        let norm := normaliseHost lower split.1
        if norm = [] || norm.any (" /\\@?#*".toList.contains ·) then none else some (norm, port)
      else none

/-- `parse_allow`: the last entry of a host decides its port. -/
def parseAllow (entries : List Text) : Option (AList fun _ : Text => ℤ) :=
  entries.foldlM (fun out raw => (parseEntry lower raw).map fun e => out.insert e.1 e.2) ∅

/-- An IPv6 literal. -/
def bracketed (host : Text) : Bool := startsWith host ['['] && startsWith host.reverse [']']

/-- `(allowed, host, port)`, and `none` where `decide` raises. -/
protected def decide (allow : AList fun _ : Text => ℤ) (target : Text) :
    Option (Bool × Text × ℤ) :=
  match rpartition ':' target with
  | none => some (false, normaliseHost lower target, 0)
  | some (host, portS) =>
    if host = [] ∨ isdigit portS = false then some (false, normaliseHost lower target, 0)
    else if bracketed host = true then (int portS).map fun port => (false, host, port)
    else (int portS).map fun port =>
      (allow.lookup (normaliseHost lower host) = some port, normaliseHost lower host, port)

end Proxy

section Exact

variable {lower : Text → Text}

lemma parseAllow_singleton {raw : Text} {e : Text × ℤ} (h : parseEntry lower raw = some e) :
    parseAllow lower [raw] = some ((∅ : AList fun _ : Text => ℤ).insert e.1 e.2) := by
  simp [parseAllow, h]

/-- The port that the last entry of a host gives it. -/
def lastPort (lower : Text → Text) (entries : List Text) (host : Text) : Option ℤ :=
  entries.reverse.findSome? fun raw =>
    (parseEntry lower raw).bind fun e => if e.1 = host then some e.2 else none

lemma lookup_parseAllow {entries : List Text} {allow : AList fun _ : Text => ℤ}
    (h : parseAllow lower entries = some allow) (host : Text) :
    allow.lookup host = lastPort lower entries host := by
  induction entries using List.reverseRecOn generalizing allow with
  | nil =>
    obtain rfl : ∅ = allow := Option.some.inj h
    rfl
  | append_singleton entries raw ih =>
    rw [parseAllow, List.foldlM_append] at h
    obtain ⟨out, hout, hraw⟩ := Option.bind_eq_some_iff.mp h
    rw [List.foldlM_cons] at hraw
    obtain ⟨allow', he, hlast⟩ := Option.bind_eq_some_iff.mp hraw
    obtain rfl : allow' = allow := Option.some.inj hlast
    obtain ⟨e, hparse, rfl⟩ := Option.map_eq_some_iff.mp he
    rw [lastPort, List.reverse_append, List.reverse_singleton, List.singleton_append,
      List.findSome?_cons, hparse]
    dsimp only [Option.bind_some]
    split_ifs with hhost
    · rw [← hhost, AList.lookup_insert]
    · rw [AList.lookup_insert_ne (Ne.symm hhost), ih hout]
      rfl

/-- A port found is some entry's. -/
lemma entry_of_lastPort {entries : List Text} {host : Text} {port : ℤ}
    (h : lastPort lower entries host = some port) :
    ∃ raw ∈ entries, parseEntry lower raw = some (host, port) := by
  obtain ⟨raw, hraw, he⟩ := List.exists_of_findSome?_eq_some h
  obtain ⟨⟨host', port'⟩, hparse, hif⟩ := Option.bind_eq_some_iff.mp he
  split_ifs at hif with hhost
  obtain rfl := Option.some.inj hif
  dsimp only at hhost
  exact ⟨raw, List.mem_reverse.mp hraw, hhost ▸ hparse⟩

/-- A host's only port is the one found. -/
lemma lastPort_of_entry {entries : List Text} {host : Text} {port : ℤ} {raw : Text}
    (hraw : raw ∈ entries) (hparse : parseEntry lower raw = some (host, port))
    (honly : ∀ raw' ∈ entries, ∀ port', parseEntry lower raw' = some (host, port') →
      port' = port) : lastPort lower entries host = some port := by
  cases hlast : lastPort lower entries host with
  | none =>
    have hnone := List.findSome?_eq_none_iff.mp hlast raw (List.mem_reverse.mpr hraw)
    simp [hparse] at hnone
  | some port' =>
    obtain ⟨raw', hraw', hparse'⟩ := entry_of_lastPort hlast
    rw [honly raw' hraw' port' hparse']

/-- The host and the digits of the port that a target names. -/
structure Target (target host digits : Text) : Prop where
  split : target = host ++ ':' :: digits
  host_ne : host ≠ []
  digits_ne : digits ≠ []
  plain : ∀ c ∈ digits, c.isDigit = true

lemma Target.rpartition {target host digits : Text} (h : Target target host digits) :
    rpartition ':' target = some (host, digits) := by
  have hcolon : ':' ∉ digits := fun hc => absurd (h.plain _ hc) (by decide)
  rw [h.split, rpartition_append host hcolon]

lemma Target.isdigit {target host digits : Text} (h : Target target host digits) :
    isdigit digits = true := by
  have hchars : digits.all isDigitChar = true := by
    refine List.all_eq_true.mpr fun c hc => ?_
    rw [isDigitChar, decimalDigit_of_isDigit (h.plain c hc), Bool.true_or]
  simp [EgressProxy.isdigit, h.digits_ne, hchars]

/-- An entry, after normalisation, names the target's host and port. -/
def Named (lower : Text → Text) (entries : List Text) (target : Text) : Prop :=
  ∃ host digits, Target target host digits ∧ ∃ raw ∈ entries,
    parseEntry lower raw = some (normaliseHost lower host, (decimalValue digits : ℤ))

/-- The port of a target, where it is all digits, has no superscript and is not too long. -/
def ReadablePort (target : Text) : Prop :=
  ∀ host portS, EgressProxy.rpartition ':' target = some (host, portS) → isdigit portS = true →
    (∀ c ∈ portS, c ∉ ['²', '³', '¹']) ∧ portS.length ≤ 4300

/-- The decision on a target that names a host and a port. -/
lemma decide_target {allow : AList fun _ : Text => ℤ} {target host digits : Text}
    (h : Target target host digits) (hlen : digits.length ≤ 4300) :
    ∃ verdict, EgressProxy.decide lower allow target = some verdict ∧
      (verdict.1 = true ↔ bracketed host = false ∧
        allow.lookup (normaliseHost lower host) = some (decimalValue digits : ℤ)) := by
  have hgood : ¬(host = [] ∨ isdigit digits = false) := by
    simp [h.host_ne, h.isdigit]
  simp only [EgressProxy.decide, h.rpartition, if_neg hgood,
    int_of_digits h.digits_ne h.plain hlen, Option.map_some]
  split_ifs with hbracket
  · exact ⟨_, rfl, by simp [hbracket]⟩
  · exact ⟨_, rfl, by simp [hbracket]⟩

/-- A target that names no host and port is refused. -/
lemma decide_other {allow : AList fun _ : Text => ℤ} {target : Text}
    (hlatin : ∀ c ∈ target, c.toNat < 256) (hport : ReadablePort target)
    (hno : ∀ host digits, ¬ Target target host digits) :
    EgressProxy.decide lower allow target = some (false, normaliseHost lower target, 0) := by
  rw [EgressProxy.decide]
  cases hr : rpartition ':' target with
  | none => rfl
  | some p =>
    obtain ⟨host, portS⟩ := p
    obtain ⟨hsplit, -⟩ := eq_of_rpartition hr
    refine if_pos ?_
    by_contra hgood
    obtain ⟨hhost, hdigit⟩ := not_or.mp hgood
    rw [Bool.not_eq_false] at hdigit
    obtain ⟨hplain, -⟩ := hport host portS hr hdigit
    simp only [isdigit, Bool.and_eq_true, decide_eq_true_eq, List.all_eq_true] at hdigit
    refine hno host portS ⟨hsplit, hhost, hdigit.1, fun c hc => ?_⟩
    have hlow : c.toNat < 256 := hlatin c (by rw [hsplit]; simp [hc])
    exact (isDigit_of_latin1 (hdigit.2 c hc) hlow).resolve_right (hplain c hc)

/-- A decision on a Latin-1 target never raises. What is allowed is named by an entry, and a
target that is named is allowed unless it is an IPv6 literal or its host has another port. -/
theorem decide_exact (lower : Text → Text) {entries : List Text}
    {allow : AList fun _ : Text => ℤ} (h : parseAllow lower entries = some allow) {target : Text}
    (hlatin : ∀ c ∈ target, c.toNat < 256) (hport : ReadablePort target) :
    ∃ verdict, EgressProxy.decide lower allow target = some verdict ∧
      (verdict.1 = true → Named lower entries target) ∧
      ∀ host digits, Target target host digits → bracketed host = false → ∀ raw ∈ entries,
        parseEntry lower raw = some (normaliseHost lower host, (decimalValue digits : ℤ)) →
        (∀ raw' ∈ entries, ∀ port,
          parseEntry lower raw' = some (normaliseHost lower host, port) →
          port = (decimalValue digits : ℤ)) →
        verdict.1 = true := by
  by_cases hno : ∃ host digits, Target target host digits
  · obtain ⟨host, digits, ht⟩ := hno
    obtain ⟨verdict, hdecide, hiff⟩ := @decide_target lower allow _ _ _ ht
      (hport host digits ht.rpartition ht.isdigit).2
    refine ⟨verdict, hdecide, fun hallowed => ?_, fun host' digits' ht' hbracket raw hraw hparse
      honly => ?_⟩
    · have hlookup := (hiff.mp hallowed).2
      rw [lookup_parseAllow h] at hlookup
      exact ⟨host, digits, ht, entry_of_lastPort hlookup⟩
    · have hsame := ht'.rpartition
      rw [ht.rpartition] at hsame
      obtain ⟨rfl, rfl⟩ := Prod.mk.inj (Option.some.inj hsame)
      rw [hiff, lookup_parseAllow h]
      exact ⟨hbracket, lastPort_of_entry hraw hparse honly⟩
  · have hnone : ∀ host digits, ¬ Target target host digits :=
      fun host digits ht => hno ⟨host, digits, ht⟩
    exact ⟨_, decide_other hlatin hport hnone, nofun, fun host digits ht =>
      absurd ht (hnone host digits)⟩

end Exact

section Samples

/-- `str.lower` of ASCII text. -/
def asciiLower (s : Text) : Text := s.map Char.toLower

/-- An IPv6 literal is accepted as an entry, and the target it names is refused. -/
theorem not_exact_literal : ∃ allow, parseAllow asciiLower ["[::1]:443".toList] = some allow ∧
    ¬ ∃ verdict, EgressProxy.decide asciiLower allow "[::1]:443".toList = some verdict ∧
      (verdict.1 = true ↔ Named asciiLower ["[::1]:443".toList] "[::1]:443".toList) := by
  have hentry : parseEntry asciiLower "[::1]:443".toList = some ("[::1]".toList, 443) := by
    rfl
  have hrefused : EgressProxy.decide asciiLower
      ((∅ : AList fun _ : Text => ℤ).insert "[::1]".toList 443) "[::1]:443".toList =
      some (false, "[::1]".toList, 443) := by rfl
  refine ⟨_, parseAllow_singleton hentry, ?_⟩
  rintro ⟨verdict, hdecide, hiff⟩
  rw [hrefused] at hdecide
  obtain rfl := Option.some.inj hdecide
  refine Bool.false_ne_true (hiff.mpr ⟨"[::1]".toList, "443".toList, ?_, _,
    List.mem_singleton_self _, ?_⟩)
  · exact ⟨rfl, by simp, by simp, by simp⟩
  · rw [hentry]
    rfl

/-- A target written in capitals, with a dot at its end, and the entry that names it. -/
theorem decide_mock : ∃ verdict, EgressProxy.decide asciiLower
    ((∅ : AList fun _ : Text => ℤ).insert "mock".toList 8443) "MOCK.:8443".toList =
      some verdict ∧ verdict.1 = true := by
  have ht : Target "MOCK.:8443".toList "MOCK.".toList "8443".toList :=
    ⟨rfl, by simp, by simp, by simp⟩
  have hport : ReadablePort "MOCK.:8443".toList := by
    intro host portS h _
    rw [ht.rpartition] at h
    obtain ⟨rfl, rfl⟩ := Prod.mk.inj (Option.some.inj h)
    exact ⟨by simp, by simp⟩
  have hentry : parseEntry asciiLower "mock:8443".toList = some ("mock".toList, 8443) := by
    rfl
  have hnames : ("mock".toList, (8443 : ℤ)) =
      (normaliseHost asciiLower "MOCK.".toList, (decimalValue "8443".toList : ℤ)) := by
    rfl
  obtain ⟨verdict, hdecide, -, hnamed⟩ :=
    decide_exact asciiLower (parseAllow_singleton hentry) (by simp) hport
  rw [hnames] at hentry
  refine ⟨verdict, hdecide, hnamed _ _ ht (by rfl) _ (List.mem_singleton_self _)
    hentry ?_⟩
  intro raw' hraw port hparse
  rw [List.mem_singleton.mp hraw, hentry] at hparse
  exact (Prod.mk.inj (Option.some.inj hparse)).2.symm

end Samples

end CommitReplay.EgressProxy
