import Mathlib

/-! Text and bytes as a Python program sees them: white space and `strip`, the two notions of a
line (`str.splitlines` and the universal newlines of a text file), and UTF-8 with strict and
replacing decoders. Strings are lists of Unicode scalar values, so no surrogate occurs. -/
namespace CommitReplay.PythonText

abbrev Text := List Char
abbrev Bytes := List UInt8

instance lawfulBEqText : LawfulBEq Text := inferInstance

/-- The characters `str.isspace` accepts, which `str.strip` removes. -/
def isSpace (c : Char) : Bool :=
  let n := c.toNat
  (9 ≤ n && n ≤ 13) || (28 ≤ n && n ≤ 32) || n == 0x85 || n == 0xA0 || n == 0x1680 ||
    (0x2000 ≤ n && n ≤ 0x200A) || n == 0x2028 || n == 0x2029 || n == 0x202F || n == 0x205F ||
    n == 0x3000

def strip (s : Text) : Text := (s.dropWhile isSpace).rdropWhile isSpace

lemma strip_ne_nil {s : Text} {c : Char} (hc : c ∈ s) (hs : isSpace c = false) : strip s ≠ [] := by
  have hd : c ∈ s.dropWhile isSpace := by
    induction s with
    | nil => simp at hc
    | cons d s ih =>
      rcases List.mem_cons.mp hc with rfl | hc
      · simp [hs]
      · by_cases h : isSpace d = true
        · simpa [List.dropWhile_cons, h] using ih hc
        · simp [h, hc]
  intro he
  rw [strip, List.rdropWhile_eq_nil_iff] at he
  simp [he c hd] at hs

/-- The first code points of the blocks of ten decimal digits, which `\d` matches. -/
def digitBlocks : List ℕ :=
  [0x30, 0x660, 0x6f0, 0x7c0, 0x966, 0x9e6, 0xa66, 0xae6, 0xb66, 0xbe6, 0xc66, 0xce6, 0xd66, 0xde6,
    0xe50, 0xed0, 0xf20, 0x1040, 0x1090, 0x17e0, 0x1810, 0x1946, 0x19d0, 0x1a80, 0x1a90, 0x1b50,
    0x1bb0, 0x1c40, 0x1c50, 0xa620, 0xa8d0, 0xa900, 0xa9d0, 0xa9f0, 0xaa50, 0xabf0, 0xff10,
    0x104a0, 0x10d30, 0x11066, 0x110f0, 0x11136, 0x111d0, 0x112f0, 0x11450, 0x114d0, 0x11650,
    0x116c0, 0x11730, 0x118e0, 0x11950, 0x11c50, 0x11d50, 0x11da0, 0x16a60, 0x16ac0, 0x16b50,
    0x1d7ce, 0x1d7d8, 0x1d7e2, 0x1d7ec, 0x1d7f6, 0x1e140, 0x1e2f0, 0x1e950, 0x1fbf0]

def decimalDigit (c : Char) : Option ℕ :=
  (digitBlocks.find? fun b => b ≤ c.toNat ∧ c.toNat < b + 10).map (c.toNat - ·)

/-- `int` of a run of decimal digits. -/
def decimalValue (ds : Text) : ℕ :=
  ds.foldl (fun n c => n * 10 + (decimalDigit c).getD 0) 0

/-- `str.lower` as far as it can put an ASCII character into its result. -/
def lower (s : Text) : Text := s.flatMap fun c =>
  if c.toNat = 0x212A then ['k']
  else if c.toNat = 0x130 then ['i', Char.ofNat 0x307]
  else [c.toLower]

def startsWith (s p : Text) : Bool := p.isPrefixOf s

def contains (s p : Text) : Bool := s.tails.any p.isPrefixOf

lemma contains_iff {s w : Text} : contains s w = true ↔ w <:+: s := by
  rw [contains, List.any_eq_true, List.infix_iff_prefix_suffix]
  constructor
  · rintro ⟨t, ht, hw⟩
    exact ⟨t, List.isPrefixOf_iff_prefix.mp hw, (List.mem_tails t s).mp ht⟩
  · rintro ⟨t, hw, ht⟩
    exact ⟨t, (List.mem_tails t s).mpr ht, List.isPrefixOf_iff_prefix.mpr hw⟩

/-- `s.split(c, 1)[0]`. -/
def splitHead (c : Char) (s : Text) : Text := s.takeWhile (· ≠ c)

/-- The line boundaries of `str.splitlines`. -/
def isLineBreak (c : Char) : Bool :=
  let n := c.toNat
  (10 ≤ n && n ≤ 13) || (28 ≤ n && n ≤ 30) || n == 0x85 || n == 0x2028 || n == 0x2029

/-- The boundaries of `str.splitlines` that a text file opened with universal newlines keeps
inside a line, and that are no control characters below U+0020. -/
def isWideBreak (c : Char) : Bool :=
  let n := c.toNat
  n == 0x85 || n == 0x2028 || n == 0x2029

lemma isWideBreak_of_isLineBreak {c : Char} (h : isLineBreak c = true) (h32 : 32 ≤ c.toNat) :
    isWideBreak c = true := by
  simp only [isLineBreak, isWideBreak, Bool.or_eq_true, Bool.and_eq_true, beq_iff_eq,
    decide_eq_true_eq] at h ⊢
  omega

lemma isLineBreak_of_isWideBreak {c : Char} (h : isWideBreak c = true) : isLineBreak c = true := by
  simp only [isLineBreak, isWideBreak, Bool.or_eq_true, Bool.and_eq_true, beq_iff_eq,
    decide_eq_true_eq] at h ⊢
  omega

def splitlines : Text → List Text
  | [] => []
  | '\r' :: '\n' :: cs => [] :: splitlines cs
  | c :: cs =>
    if isLineBreak c then [] :: splitlines cs
    else match splitlines cs with
      | [] => [[c]]
      | l :: ls => (c :: l) :: ls

lemma splitlines_cons_break {c : Char} {cs : Text} (hc : isLineBreak c = true)
    (h : c = '\r' → cs.head? ≠ some '\n') : splitlines (c :: cs) = [] :: splitlines cs := by
  rw [splitlines.eq_def]
  split <;> simp_all

lemma splitlines_cons_plain {c : Char} {cs : Text} (hc : isLineBreak c = false) :
    splitlines (c :: cs) = ((splitlines cs).head?.elim [c] (c :: ·)) :: (splitlines cs).tail := by
  have hr : c ≠ '\r' := by rintro rfl; simp [isLineBreak] at hc
  rw [splitlines.eq_def]
  split
  · simp_all
  · simp_all
  · simp_all only [List.cons.injEq, Bool.false_eq_true, if_false]
    split <;> simp_all

lemma splitlines_break_ne_nil (a b : Text) (c : Char) : splitlines (a ++ c :: b) ≠ [] := by
  rw [splitlines.eq_def]
  split
  · simp_all
  · simp
  · split
    · simp
    · split <;> simp

/-- A boundary other than a carriage return ends the lines before it, whatever comes after. -/
lemma splitlines_append_break (a b : Text) {k : Char} (hk : isLineBreak k = true) (hr : k ≠ '\r') :
    splitlines (a ++ k :: b) = splitlines (a ++ [k]) ++ splitlines b := by
  have hsingle : ∀ d : Text, splitlines (k :: d) = [] :: splitlines d := fun d =>
    splitlines_cons_break hk fun h => absurd h hr
  fun_induction splitlines a with
  | case1 => simp [hsingle, splitlines]
  | case2 cs ih => simpa [splitlines] using ih
  | case3 c cs h hc ih =>
    by_cases hcr : c = '\r' ∧ cs = [] ∧ k = '\n'
    · obtain ⟨rfl, rfl, rfl⟩ := hcr
      simp [splitlines]
    · have hh : ∀ d : Text, c = '\r' → (cs ++ k :: d).head? ≠ some '\n' := by
        intro d hd
        cases cs with
        | nil => simpa using fun hkn => hcr ⟨hd, rfl, hkn⟩
        | cons x xs =>
          intro hx
          simp only [List.cons_append, List.head?_cons, Option.some.injEq] at hx
          exact h xs hd (by rw [hx])
      simp only [List.cons_append]
      rw [splitlines_cons_break hc (hh b), splitlines_cons_break hc (hh []), ih, List.cons_append]
  | case4 c cs h hc hn ih =>
    have hcs := splitlines_break_ne_nil cs [] k
    simp only [List.cons_append]
    rw [splitlines_cons_plain (by simpa using hc), splitlines_cons_plain (by simpa using hc), ih]
    cases he : splitlines (cs ++ [k]) with
    | nil => exact absurd he hcs
    | cons l ls => simp
  | case5 c cs h hc l ls hn ih =>
    have hcs := splitlines_break_ne_nil cs [] k
    simp only [List.cons_append]
    rw [splitlines_cons_plain (by simpa using hc), splitlines_cons_plain (by simpa using hc), ih]
    cases he : splitlines (cs ++ [k]) with
    | nil => exact absurd he hcs
    | cons l ls => simp

/-- A text without a boundary is one line, whichever boundary ends it. -/
lemma splitlines_plain {l : Text} {k : Char} (h : ∀ c ∈ l, isLineBreak c = false) (hl : l ≠ [])
    (hk : isLineBreak k = true) : splitlines (l ++ [k]) = [l] := by
  induction l with
  | nil => exact absurd rfl hl
  | cons c cs ih =>
    rw [List.cons_append, splitlines_cons_plain (h c (by simp))]
    by_cases he : cs = []
    · subst he
      rw [List.nil_append, splitlines_cons_break hk (by simp)]
      rfl
    · rw [ih (fun d hd => h d (by simp [hd])) he]
      simp

/-- The last of the lines that `strip` does not empty, and no text when there is none. -/
def lastNonblank (ls : List Text) : Text := (ls.reverse.find? fun l => strip l ≠ []).getD []

lemma lastNonblank_append {ls : List Text} {l : Text} (hl : strip l ≠ []) :
    lastNonblank (ls ++ [l]) = l := by
  simp [lastNonblank, hl]

lemma no_break_splitlines (s : Text) : ∀ l ∈ splitlines s, ∀ c ∈ l, isLineBreak c = false := by
  fun_induction splitlines s with
  | case1 => simp
  | case2 cs ih => simpa using ih
  | case3 c cs _ _ ih => simpa using ih
  | case4 c cs _ hc _ ih => simpa using hc
  | case5 c cs _ hc l ls hn ih =>
    rw [hn] at ih
    intro m hm
    rcases List.mem_cons.mp hm with rfl | hm
    · exact List.forall_mem_cons.mpr ⟨by simpa using hc, ih l (by simp)⟩
    · exact ih m (List.mem_cons_of_mem _ hm)

lemma no_break_lastNonblank {ls : List Text} (h : ∀ l ∈ ls, ∀ c ∈ l, isLineBreak c = false) :
    ∀ c ∈ lastNonblank ls, isLineBreak c = false := by
  rw [lastNonblank]
  cases hf : ls.reverse.find? fun l => strip l ≠ [] with
  | none => simp
  | some l => exact h l (List.mem_reverse.mp (List.mem_of_find?_eq_some hf))

/-- The lines iterating a text file gives: universal newlines, each line with its newline. -/
def fileLines : Text → List Text
  | [] => []
  | '\r' :: '\n' :: cs => ['\n'] :: fileLines cs
  | c :: cs =>
    if c = '\r' ∨ c = '\n' then ['\n'] :: fileLines cs
    else match fileLines cs with
      | [] => [[c]]
      | l :: ls => (c :: l) :: ls

/-- A line written without a carriage return or newline of its own reads back as it is. -/
lemma fileLines_line {l : Text} (hn : '\n' ∉ l) (hr : '\r' ∉ l) (b : Text) :
    fileLines (l ++ '\n' :: b) = (l ++ ['\n']) :: fileLines b := by
  induction l with
  | nil =>
    rw [List.nil_append, fileLines.eq_def]
    split
    · simp_all
    · simp_all
    · rename_i heq
      obtain ⟨rfl, rfl⟩ := List.cons.inj heq
      simp
  | cons c cs ih =>
    simp only [List.mem_cons, not_or] at hn hr
    rw [List.cons_append, fileLines.eq_def]
    split
    · simp_all
    · simp_all
    · rename_i heq
      obtain ⟨rfl, rfl⟩ := List.cons.inj heq
      rw [if_neg (by simp [Ne.symm hn.1, Ne.symm hr.1]), ih hn.2 hr.2]
      rfl

/-- The bytes of one scalar value in UTF-8. -/
def utf8Char (c : Char) : Bytes :=
  let n := c.toNat
  if n < 0x80 then [.ofNat n]
  else if n < 0x800 then [.ofNat (0xC0 + n / 64), .ofNat (0x80 + n % 64)]
  else if n < 0x10000 then
    [.ofNat (0xE0 + n / 4096), .ofNat (0x80 + n / 64 % 64), .ofNat (0x80 + n % 64)]
  else
    [.ofNat (0xF0 + n / 262144), .ofNat (0x80 + n / 4096 % 64), .ofNat (0x80 + n / 64 % 64),
      .ofNat (0x80 + n % 64)]

def utf8Encode (s : Text) : Bytes := s.flatMap utf8Char

/-- What a leading byte announces: the continuation bytes to come, the range of the first of
them, and the bits the leading byte itself gives. -/
def utf8Lead (b : ℕ) : Option (ℕ × ℕ × ℕ × ℕ) :=
  if b < 0xC2 then none
  else if b < 0xE0 then some (1, 0x80, 0xBF, b - 0xC0)
  else if b < 0xF0 then
    some (2, if b = 0xE0 then 0xA0 else 0x80, if b = 0xED then 0x9F else 0xBF, b - 0xE0)
  else if b < 0xF5 then
    some (3, if b = 0xF0 then 0x90 else 0x80, if b = 0xF4 then 0x8F else 0xBF, b - 0xF0)
  else none

/-- The continuation bytes of one sequence; `none` marks where it is ill formed, and the
bytes from the first that does not continue it are read again. -/
def utf8Tail : ℕ → ℕ → ℕ → ℕ → Bytes → Option Char × Bytes
  | 0, _, _, n, bs => (some (Char.ofNat n), bs)
  | _ + 1, _, _, _, [] => (none, [])
  | k + 1, lo, hi, n, b :: bs =>
    if lo ≤ b.toNat ∧ b.toNat ≤ hi then utf8Tail k 0x80 0xBF (n * 64 + (b.toNat - 0x80)) bs
    else (none, b :: bs)

def utf8Head (b : UInt8) (bs : Bytes) : Option Char × Bytes :=
  if b.toNat < 0x80 then (some (Char.ofNat b.toNat), bs)
  else match utf8Lead b.toNat with
    | none => (none, bs)
    | some (k, lo, hi, n) => utf8Tail k lo hi n bs

lemma utf8Tail_length (k lo hi n : ℕ) (bs : Bytes) :
    (utf8Tail k lo hi n bs).2.length ≤ bs.length := by
  induction bs generalizing k lo hi n with
  | nil => cases k <;> simp [utf8Tail]
  | cons b bs ih =>
    cases k with
    | zero => simp [utf8Tail]
    | succ k =>
      rw [utf8Tail]
      split_ifs
      · exact (ih _ _ _ _).trans (by simp)
      · simp

lemma utf8Head_length (b : UInt8) (bs : Bytes) : (utf8Head b bs).2.length ≤ bs.length := by
  unfold utf8Head
  split_ifs
  · rfl
  · split
    · rfl
    · exact utf8Tail_length _ _ _ _ _

/-- One entry for each scalar value, and `none` for each maximal ill-formed part. -/
def utf8Scan : Bytes → List (Option Char)
  | [] => []
  | b :: bs =>
    let r := utf8Head b bs
    r.1 :: utf8Scan r.2
termination_by bs => bs.length
decreasing_by
  have := utf8Head_length b bs
  simp only [List.length_cons]
  omega

/-- `bytes.decode("utf-8", errors="replace")`. -/
def utf8Replace (bs : Bytes) : Text := (utf8Scan bs).map fun c => c.getD (Char.ofNat 0xFFFD)

/-- `bytes.decode("utf-8")`, which refuses ill-formed bytes. -/
def utf8Decode (bs : Bytes) : Option Text := (utf8Scan bs).mapM id

lemma utf8Scan_char (c : Char) (bs : Bytes) :
    utf8Scan (utf8Char c ++ bs) = some c :: utf8Scan bs := by
  have hv : c.toNat < 0xD800 ∨ 0xDFFF < c.toNat ∧ c.toNat < 0x110000 := c.valid
  have hc : Char.ofNat c.toNat = c := Char.ofNat_toNat c
  have hb : ∀ m, m < 256 → (UInt8.ofNat m).toNat = m := fun m hm => by simp; omega
  unfold utf8Char
  dsimp only
  split_ifs with h1 h2 h3
  · rw [List.singleton_append, utf8Scan]
    simp [utf8Head, hb _ (show c.toNat < 256 by omega), h1, hc]
  · rw [List.cons_append, List.singleton_append, utf8Scan]
    have e1 := hb (0xC0 + c.toNat / 64) (by omega)
    have e2 := hb (0x80 + c.toNat % 64) (by omega)
    have hl : utf8Lead (0xC0 + c.toNat / 64) = some (1, 0x80, 0xBF, c.toNat / 64) := by
      rw [utf8Lead, if_neg (by omega), if_pos (by omega)]
      simp
    have hn : c.toNat / 64 * 64 + (0x80 + c.toNat % 64 - 0x80) = c.toNat := by omega
    simp only [utf8Head, e1, hl, if_neg (show ¬ 0xC0 + c.toNat / 64 < 0x80 by omega)]
    rw [utf8Tail, e2, if_pos (by omega), hn]
    simp [utf8Tail, hc]
  · rw [List.cons_append, List.cons_append, List.singleton_append, utf8Scan]
    have e1 := hb (0xE0 + c.toNat / 4096) (by omega)
    have e2 := hb (0x80 + c.toNat / 64 % 64) (by omega)
    have e3 := hb (0x80 + c.toNat % 64) (by omega)
    have hn : (c.toNat / 4096 * 64 + (0x80 + c.toNat / 64 % 64 - 0x80)) * 64 +
        (0x80 + c.toNat % 64 - 0x80) = c.toNat := by omega
    simp only [utf8Head, utf8Lead, e1, if_neg (show ¬ 0xE0 + c.toNat / 4096 < 0x80 by omega),
      if_neg (show ¬ 0xE0 + c.toNat / 4096 < 0xC2 by omega),
      if_neg (show ¬ 0xE0 + c.toNat / 4096 < 0xE0 by omega),
      if_pos (show 0xE0 + c.toNat / 4096 < 0xF0 by omega), Nat.add_sub_cancel_left]
    rw [utf8Tail, e2, if_pos (by split_ifs <;> omega), utf8Tail, e3, if_pos (by omega), hn]
    simp [utf8Tail, hc]
  · rw [List.cons_append, List.cons_append, List.cons_append, List.singleton_append, utf8Scan]
    have e1 := hb (0xF0 + c.toNat / 262144) (by omega)
    have e2 := hb (0x80 + c.toNat / 4096 % 64) (by omega)
    have e3 := hb (0x80 + c.toNat / 64 % 64) (by omega)
    have e4 := hb (0x80 + c.toNat % 64) (by omega)
    have hn : ((c.toNat / 262144 * 64 + (0x80 + c.toNat / 4096 % 64 - 0x80)) * 64 +
        (0x80 + c.toNat / 64 % 64 - 0x80)) * 64 + (0x80 + c.toNat % 64 - 0x80) = c.toNat := by
      omega
    simp only [utf8Head, utf8Lead, e1, if_neg (show ¬ 0xF0 + c.toNat / 262144 < 0x80 by omega),
      if_neg (show ¬ 0xF0 + c.toNat / 262144 < 0xC2 by omega),
      if_neg (show ¬ 0xF0 + c.toNat / 262144 < 0xE0 by omega),
      if_neg (show ¬ 0xF0 + c.toNat / 262144 < 0xF0 by omega),
      if_pos (show 0xF0 + c.toNat / 262144 < 0xF5 by omega), Nat.add_sub_cancel_left]
    rw [utf8Tail, e2, if_pos (by split_ifs <;> omega), utf8Tail, e3, if_pos (by omega), utf8Tail,
      e4, if_pos (by omega), hn]
    simp [utf8Tail, hc]

lemma utf8Scan_encode (s : Text) (bs : Bytes) :
    utf8Scan (utf8Encode s ++ bs) = s.map some ++ utf8Scan bs := by
  induction s with
  | nil => simp [utf8Encode]
  | cons c s ih =>
    rw [utf8Encode, List.flatMap_cons, List.append_assoc, utf8Scan_char]
    simpa [utf8Encode] using ih

/-- Text without surrogates survives a write and a read. -/
@[simp] theorem utf8Decode_encode (s : Text) : utf8Decode (utf8Encode s) = some s := by
  have h := utf8Scan_encode s []
  simp only [List.append_nil, utf8Scan] at h
  rw [utf8Decode, h, List.mapM_map]
  exact List.mapM_pure |>.trans (by simp)

@[simp] theorem utf8Replace_encode (s : Text) : utf8Replace (utf8Encode s) = s := by
  have h := utf8Scan_encode s []
  simp only [List.append_nil, utf8Scan] at h
  simp [utf8Replace, h, Function.comp_def]

lemma utf8Tail_append_newline (k lo hi n : ℕ) (hlo : 10 < lo) (p q : Bytes) :
    utf8Tail k lo hi n (p ++ 10 :: q) =
      ((utf8Tail k lo hi n p).1, (utf8Tail k lo hi n p).2 ++ 10 :: q) := by
  induction p generalizing k lo hi n with
  | nil =>
    cases k with
    | zero => simp [utf8Tail]
    | succ k =>
      have h : ¬ lo ≤ (10 : UInt8).toNat := by
        have : (10 : UInt8).toNat = 10 := rfl
        omega
      simp only [List.nil_append, utf8Tail, h, false_and, if_false]
  | cons b bs ih =>
    cases k with
    | zero => simp [utf8Tail]
    | succ k =>
      rw [List.cons_append, utf8Tail, utf8Tail]
      split_ifs
      · exact ih _ _ _ _ (by omega)
      · simp

lemma utf8Lead_low {b k lo hi n : ℕ} (h : utf8Lead b = some (k, lo, hi, n)) : 10 < lo := by
  unfold utf8Lead at h
  split_ifs at h <;> simp only [Option.some.injEq, Prod.mk.injEq] at h <;> omega

/-- A newline byte belongs to no longer sequence, so bytes decode apart on either side of it. -/
lemma utf8Scan_append_newline (p q : Bytes) :
    utf8Scan (p ++ 10 :: q) = utf8Scan p ++ some '\n' :: utf8Scan q := by
  induction hn : p.length using Nat.strong_induction_on generalizing p with
  | _ n ih =>
    cases p with
    | nil =>
      rw [List.nil_append, utf8Scan, utf8Scan]
      rfl
    | cons b bs =>
      have hh : utf8Head b (bs ++ 10 :: q) =
          ((utf8Head b bs).1, (utf8Head b bs).2 ++ 10 :: q) := by
        unfold utf8Head
        split_ifs
        · rfl
        · split
          · rfl
          · exact utf8Tail_append_newline _ _ _ _ (utf8Lead_low ‹_›) _ _
      have hl := utf8Head_length b bs
      rw [List.cons_append, utf8Scan, utf8Scan, hh]
      dsimp only
      rw [ih _ (by rw [← hn, List.length_cons]; omega) _ rfl, List.cons_append]

lemma utf8Replace_append_newline (p q : Bytes) :
    utf8Replace (p ++ 10 :: q) = utf8Replace p ++ '\n' :: utf8Replace q := by
  simp [utf8Replace, utf8Scan_append_newline]

end CommitReplay.PythonText
