import CommitReplay.HashChain
import CommitReplay.JsonlObjects
import CommitReplay.PythonRepr
import CommitReplay.RowChecks

/-! Chained ledgers of JSON objects, one a line, whose writer looks for the last line in a tail of
fixed size, and whose reader takes the lines of the file one by one. -/
namespace CommitReplay.TailLedger

open CommitReplay.PythonText CommitReplay.JsonValue CommitReplay.JsonText CommitReplay.JsonRoundTrip
open CommitReplay.GradeRows (hexDigits Sha256 genesisHash)
open CommitReplay.RowChecks CommitReplay.HashChain CommitReplay.JsonlTail CommitReplay.JsonlObjects

variable {F : Type} [PyFloat F]

section Tails

/-- The last line that is not blank among the lines of the last `size` bytes. -/
def tailLine (size : ℕ) (file : Bytes) : Text :=
  lastNonblank (splitlines (utf8Replace (tailBytes file (min file.length size))))

/-- A tail that holds the last line, and what it holds of the lines before. -/
lemma tailBytes_fileText (ls : List Text) {l : Text} {size : ℕ}
    (hsize : (utf8Encode l).length < size) :
    let file := utf8Encode (fileText (ls ++ [l]))
    tailBytes file (min file.length size) = utf8Encode l ++ [newline] ∨
      ∃ s, tailBytes file (min file.length size) = s ++ newline :: (utf8Encode l ++ [newline]) := by
  intro file
  set a := utf8Encode (fileText ls) with ha
  have hsplit : file = a ++ (utf8Encode l ++ [newline]) := by
    rw [ha, ← show utf8Encode ['\n'] = [newline] from rfl, ← utf8Encode_append, ← utf8Encode_append,
      ← fileText_append]
  have hlen : file.length = a.length + ((utf8Encode l).length + 1) := by
    rw [hsplit]
    simp
  have hdrop : tailBytes file (min file.length size) =
      a.drop (file.length - min file.length size) ++ (utf8Encode l ++ [newline]) := by
    have hle : file.length - min file.length size ≤ a.length := by omega
    rw [tailBytes]
    generalize file.length - min file.length size = k at hle
    rw [hsplit, List.drop_append_of_le_length hle]
  rw [hdrop]
  generalize file.length - min file.length size = k
  rcases List.eq_nil_or_concat ls with rfl | ⟨ls, l', rfl⟩
  · left
    rw [ha]
    simp [fileText, utf8Encode]
  · have hb : a = utf8Encode (fileText ls ++ l') ++ [newline] := by
      rw [ha, List.concat_eq_append, fileText_append, ← List.append_assoc, utf8Encode_append]
      rfl
    rw [hb]
    by_cases hk : k ≤ (utf8Encode (fileText ls ++ l')).length
    · right
      exact ⟨(utf8Encode (fileText ls ++ l')).drop k, by
        rw [List.drop_append_of_le_length hk, List.append_assoc, List.singleton_append]⟩
    · left
      rw [List.drop_eq_nil_of_le (by simp only [List.length_append, List.length_singleton]; omega),
        List.nil_append]

lemma utf8Replace_line (l : Text) : utf8Replace (utf8Encode l ++ [newline]) = l ++ ['\n'] := by
  rw [newline, utf8Replace_append_newline, utf8Replace_encode]
  simp [utf8Replace, utf8Scan]

/-- The last line is found while it fits, with its newline, and holds no line boundary. -/
theorem tailLine_fileText (ls : List Text) {l : Text} {size : ℕ} (hs : strip l ≠ [])
    (hl : ∀ c ∈ l, isLineBreak c = false) (hsize : (utf8Encode l).length < size) :
    tailLine size (utf8Encode (fileText (ls ++ [l]))) = l := by
  have hne : l ≠ [] := by
    rintro rfl
    exact hs rfl
  have hplain : splitlines (l ++ ['\n']) = [l] := splitlines_plain hl hne (by decide)
  rcases tailBytes_fileText ls hsize with hc | ⟨s, hc⟩
  · rw [tailLine, hc, utf8Replace_line, hplain]
    exact @lastNonblank_append [] _ hs
  · rw [tailLine, hc, newline, utf8Replace_append_newline, ← newline, utf8Replace_line,
      splitlines_append_break _ _ (by decide) (by decide), hplain, lastNonblank_append hs]

/-- Of a last line that fits and is cut by separators, what comes after the last of them is found. -/
theorem tailLine_cut (ls : List Text) {a b : Text} {c : Char} {size : ℕ} (hc : isWideBreak c = true)
    (hs : strip b ≠ []) (hb : ∀ d ∈ b, isLineBreak d = false)
    (hsize : (utf8Encode (a ++ c :: b)).length < size) :
    tailLine size (utf8Encode (fileText (ls ++ [a ++ c :: b]))) = b := by
  have hr : c ≠ '\r' := by
    rintro rfl
    exact absurd hc (by decide)
  have hne : b ≠ [] := by
    rintro rfl
    exact hs rfl
  have hcut : splitlines ((a ++ c :: b) ++ ['\n']) = splitlines (a ++ [c]) ++ [b] := by
    rw [List.append_assoc, List.cons_append, splitlines_append_break _ _ (isLineBreak_of_isWideBreak hc) hr,
      splitlines_plain hb hne (by decide)]
  rcases tailBytes_fileText ls hsize with hchunk | ⟨s, hchunk⟩
  · rw [tailLine, hchunk, utf8Replace_line, hcut, lastNonblank_append hs]
  · rw [tailLine, hchunk, newline, utf8Replace_append_newline, ← newline, utf8Replace_line,
      splitlines_append_break _ _ (by decide) (by decide), hcut, ← List.append_assoc,
      lastNonblank_append hs]

end Tails

section Alike

/-- Two items of one key whose values are related. -/
def Alike {α : Type} (ρ : α → α → Prop) (p q : String × α) : Prop := p.1 = q.1 ∧ ρ p.2 q.2

lemma insertKey_alike {α : Type} {ρ : α → α → Prop} {p q : String × α} (h : Alike ρ p q)
    {ps qs : List (String × α)} (hs : List.Forall₂ (Alike ρ) ps qs) :
    List.Forall₂ (Alike ρ) (insertKey p.1 p.2 ps) (insertKey q.1 q.2 qs) := by
  induction hs with
  | nil => exact .cons h .nil
  | @cons a b ps qs hab hs ih =>
    rw [insertKey, insertKey, ← h.1, ← hab.1]
    split_ifs
    · exact .cons ⟨rfl, h.2⟩ (.cons hab hs)
    · exact .cons ⟨rfl, h.2⟩ hs
    · exact .cons hab (by simpa only [h.1] using ih)

lemma ofPairs_alike {α : Type} {ρ : α → α → Prop} {ps qs : List (String × α)}
    (h : List.Forall₂ (Alike ρ) ps qs) : List.Forall₂ (Alike ρ) (ofPairs ps) (ofPairs qs) := by
  suffices hd : ∀ d e : List (String × α), List.Forall₂ (Alike ρ) d e → List.Forall₂ (Alike ρ)
      (ps.foldl (fun d p => insertKey p.1 p.2 d) d) (qs.foldl (fun d p => insertKey p.1 p.2 d) e) from
    hd [] [] .nil
  induction h with
  | nil => exact fun d e hde => hde
  | cons hpq _ ih => exact fun d e hde => ih _ _ (insertKey_alike hpq hde)

lemma length_joined {ts us : List Text}
    (h : List.Forall₂ (fun t u => (utf8Encode t).length = (utf8Encode u).length) ts us) :
    (utf8Encode (joined [' '] ts)).length = (utf8Encode (joined [' '] us)).length := by
  induction h with
  | nil => rfl
  | @cons t u ts us htu hs ih =>
    cases hs with
    | nil => exact htu
    | cons hab hs =>
      rw [joined, joined]
      simp only [utf8Encode_append, List.length_append, htu, ih]

/-- Two values whose texts take the same number of bytes. -/
def SameLength (v w : Json F) : Prop :=
  (utf8Encode (dumps [' '] v)).length = (utf8Encode (dumps [' '] w)).length

lemma length_dumps {ps qs : List (String × Json F)} (h : List.Forall₂ (Alike SameLength) ps qs) :
    (utf8Encode (dumps [' '] (.obj ps))).length = (utf8Encode (dumps [' '] (.obj qs))).length := by
  have hfields : List.Forall₂ (fun t u => (utf8Encode t).length = (utf8Encode u).length)
      (dumpsFields [' '] ps) (dumpsFields [' '] qs) := by
    rw [dumpsFields_eq, dumpsFields_eq, List.forall₂_map_left_iff, List.forall₂_map_right_iff]
    refine h.imp fun p q hpq => ?_
    have hlen := hpq.2
    rw [SameLength] at hlen
    simp only [utf8Encode_append, List.length_append, hpq.1, hlen]
  have hj := length_joined hfields
  rw [dumps, dumps]
  simp only [List.cons_append, utf8Encode, List.flatMap_cons, List.length_append, List.flatMap_append]
    at hj ⊢
  omega

omit [PyFloat F] in
lemma any_chars {f : Char → Bool} {ps qs : List (String × Json F)}
    (h : List.Forall₂ (Alike fun v w => (chars v).any f = (chars w).any f) ps qs) :
    (chars (.obj ps)).any f = (chars (.obj qs)).any f := by
  rw [chars, chars, charsFields_eq, charsFields_eq]
  induction h with
  | nil => rfl
  | cons hpq _ ih =>
    simp only [List.flatMap_cons, List.any_append, ih, hpq.1, hpq.2]

end Alike

section Hashes

/-- The text of a hash. -/
def IsHash (s : String) : Prop := s.toList.length = 64 ∧ ∀ c ∈ s.toList, c ∈ hexDigits.toList

lemma isHash_hex (sha256 : Sha256) (t : Text) : IsHash (sha256.hex t) := sha256.isHex t

lemma isHash_genesisHash : IsHash genesisHash := by
  have hlist : genesisHash.toList = List.replicate 64 '0' := String.toList_ofList
  rw [IsHash, hlist]
  exact ⟨List.length_replicate, fun c hc => List.eq_of_mem_replicate hc ▸ by decide⟩

lemma length_escaped {cs : Text} (h : ∀ c ∈ cs, c ∈ hexDigits.toList) :
    (utf8Encode (cs.flatMap escChar)).length = cs.length := by
  have hchar : hexDigits.toList.all (fun c => (utf8Encode (escChar c)).length == 1) = true := by rfl
  induction cs with
  | nil => rfl
  | cons c cs ih =>
    obtain ⟨hc, hcs⟩ := List.forall_mem_cons.mp h
    have hone : (utf8Encode (escChar c)).length = 1 := by simpa using List.all_eq_true.mp hchar c hc
    rw [List.flatMap_cons, utf8Encode_append, List.length_append, hone, ih hcs, List.length_cons]
    omega

/-- Any two hashes take the same number of bytes on a line. -/
lemma sameLength_hash {s t : String} (hs : IsHash s) (ht : IsHash t) :
    SameLength (F := F) (.str s) (.str t) := by
  have hquote : ∀ u : String, IsHash u → (utf8Encode (quote u)).length = 66 := by
    intro u hu
    have hlen := length_escaped hu.2
    rw [hu.1] at hlen
    rw [show quote u = ['"'] ++ (u.toList.flatMap escChar ++ ['"']) from rfl, utf8Encode_append,
      utf8Encode_append, List.length_append, List.length_append, hlen]
    rfl
  rw [SameLength, dumps, dumps, hquote s hs, hquote t ht]

omit [PyFloat F] in
lemma any_wide_hash {s : String} (hs : IsHash s) : (chars (F := F) (.str s)).any isWideBreak = false := by
  have hplain : hexDigits.toList.all (fun c => !isWideBreak c) = true := by rfl
  rw [chars, List.any_eq_false]
  intro c hc
  simpa using List.all_eq_true.mp hplain c (hs.2 c hc)

/-- The items of a record on the chain, its two hashes last. -/
def hashed (own : List (String × Json F)) (prev row : String) : List (String × Json F) :=
  own ++ [("prev_hash", .str prev), ("row_hash", .str row)]

omit [PyFloat F] in
lemma hashed_alike {ρ : Json F → Json F → Prop} (own : List (String × Json F)) (hρ : ∀ v, ρ v v)
    {prev row prev' row' : String} (hprev : ρ (.str prev) (.str prev'))
    (hrow : ρ (.str row) (.str row')) :
    List.Forall₂ (Alike ρ) (ofPairs (hashed own prev row)) (ofPairs (hashed own prev' row')) := by
  refine ofPairs_alike (List.rel_append (List.forall₂_same.mpr fun p _ => ⟨rfl, hρ p.2⟩) ?_)
  exact .cons ⟨rfl, hprev⟩ (.cons ⟨rfl, hrow⟩ .nil)

end Hashes

/-- Neither the separators on a line nor its length depend on the hashes it holds. -/
theorem line_hashed {own : List (String × Json F)} {prev row prev' row' : String} {o o' : Object F}
    (ho : o.1 = ofPairs (hashed own prev row)) (ho' : o'.1 = ofPairs (hashed own prev' row'))
    (hprev : IsHash prev) (hrow : IsHash row) (hprev' : IsHash prev') (hrow' : IsHash row') :
    o.hasSeparator = o'.hasSeparator ∧ (utf8Encode o.line).length = (utf8Encode o'.line).length := by
  constructor
  · rw [Object.hasSeparator, Object.hasSeparator, ho, ho']
    refine any_chars (hashed_alike own ?_ ?_ ?_)
    · exact fun _ => rfl
    · exact (any_wide_hash hprev).trans (any_wide_hash hprev').symm
    · exact (any_wide_hash hrow).trans (any_wide_hash hrow').symm
  · rw [Object.line, Object.line, ho, ho']
    refine length_dumps (hashed_alike own ?_ ?_ ?_)
    · exact fun v => Eq.refl (utf8Encode (dumps [' '] v)).length
    · exact sameLength_hash hprev hprev'
    · exact sameLength_hash hrow hrow'

/-- What a ledger needs to know of the records it keeps. -/
structure Keeping (F R ε : Type) [PyFloat F] where
  object : R → Object F
  /-- The record constructed from a value that was read. -/
  read : Json F → Except ε R
  /-- The copy of a record that stands on the chain after a hash. -/
  chained : String → R → R
  prevHash : R → String
  rowHash : R → String
  computeHash : R → String
  unreadable : ε
  withoutHash : ε
  prevMismatch : ℕ → R → ε
  hashMismatch : ℕ → R → ε
  lookup_rowHash : ∀ r, (object r).1.lookup "row_hash" = some (.str (rowHash r))
  prevHash_chained : ∀ prev r, prevHash (chained prev r) = prev
  rowHash_chained : ∀ prev r, rowHash (chained prev r) = computeHash (chained prev r)
  rowHash_ne : ∀ prev r, rowHash (chained prev r) ≠ ""

variable {R ε W : Type}

namespace Keeping

section Operations

variable (K : Keeping F R ε) (size : ℕ) (genesis : String) (isPrintable : Char → Bool)

/-- `_last_hash`. -/
def lastHash (file : Bytes) : Except ε String :=
  match tailLine size file with
  | [] => .ok genesis
  | last => match loads last with
    | some (.obj d : Json F) =>
      match PythonRepr.pyStr isPrintable ((d.lookup "row_hash").getD (.str "")) with
      | "" => .error K.withoutHash
      | h => .ok h
    | _ => .error K.unreadable

/-- Chain a record, write its line and return it. -/
def append (file : Bytes) (r : R) : Except ε (Bytes × R) := do
  let last ← K.lastHash size genesis isPrintable file
  let chained := K.chained last r
  return (file ++ utf8Encode (dumps [' '] (.obj (K.object chained).1) ++ ['\n']), chained)

/-- One append after another on a file that is absent at first, each record prepared before. -/
def appendEach (prepare : W → Except ε R) (given : List W) : Except ε (Bytes × List R) :=
  given.foldlM (fun s w => do
    let r ← prepare w
    let (file, chained) ← K.append size genesis isPrintable s.1 r
    return (file, s.2 ++ [chained])) ([], [])

def readLine (line : Text) : Except ε R :=
  match loads line with
  | some v => K.read v
  | none => .error K.unreadable

/-- `records()`. -/
def records (file : Bytes) : Except ε (List R) :=
  match utf8Decode file with
  | none => .error K.unreadable
  | some text => ((fileLines text).filter fun l => strip l ≠ []).mapM K.readLine

/-- The chain walked from a hash and a count on. -/
def verifyFrom : String → ℕ → List R → Except ε ℕ
  | _, n, [] => .ok n
  | prev, n, r :: rs =>
    if K.prevHash r ≠ prev then .error (K.prevMismatch (n + 1) r)
    else if !(K.rowHash r ≠ "" && K.rowHash r = K.computeHash r) then .error (K.hashMismatch (n + 1) r)
    else verifyFrom (K.rowHash r) (n + 1) rs

def verify (file : Bytes) : Except ε ℕ := do
  let rs ← K.records file
  K.verifyFrom genesis 0 rs

/-- The chain some records build when each append succeeds. -/
def chainOf (given : List R) : List R :=
  given.foldl (fun chain r => chain ++ [K.chained (head K.rowHash genesis chain) r]) []

end Operations

section Chains

variable {K : Keeping F R ε} {size : ℕ} {genesis : String}

lemma chainOf_concat (given : List R) (r : R) : K.chainOf genesis (given ++ [r]) =
    K.chainOf genesis given ++ [K.chained (head K.rowHash genesis (K.chainOf genesis given)) r] := by
  rw [chainOf, List.foldl_append, List.foldl_cons, List.foldl_nil, chainOf]

/-- A property of the records on the chain, by what it takes of each record given. -/
lemma forall_chainOf {p q : R → Prop} {hashes : String → Prop} (hg : hashes genesis)
    (hc : ∀ prev r, hashes (K.rowHash (K.chained prev r)))
    (h : ∀ prev r, hashes prev → (p (K.chained prev r) ↔ q r)) (given : List R) :
    (∀ c ∈ K.chainOf genesis given, p c) ↔ ∀ r ∈ given, q r := by
  have hhead : ∀ given, hashes (head K.rowHash genesis (K.chainOf genesis given)) := by
    intro given
    cases given using List.reverseRecOn with
    | nil => exact hg
    | append_singleton given r =>
      rw [chainOf_concat, head_concat]
      exact hc _ _
  induction given using List.reverseRecOn with
  | nil => exact ⟨fun _ => List.forall_mem_nil q, fun _ => List.forall_mem_nil p⟩
  | append_singleton given r ih =>
    rw [chainOf_concat, List.forall_mem_append, List.forall_mem_append, List.forall_mem_singleton,
      List.forall_mem_singleton]
    exact and_congr ih (h _ r (hhead given))

/-- The chain without its last record is the chain of what was given without its last. -/
lemma dropLast_chainOf (given : List R) :
    (K.chainOf genesis given).dropLast = K.chainOf genesis given.dropLast := by
  cases given using List.reverseRecOn with
  | nil => rfl
  | append_singleton given r => rw [chainOf_concat, List.dropLast_concat, List.dropLast_concat]

lemma length_chainOf (given : List R) : (K.chainOf genesis given).length = given.length := by
  induction given using List.reverseRecOn with
  | nil => rfl
  | append_singleton given r ih => rw [chainOf_concat, List.length_append, List.length_append, ih]; rfl

lemma rowHash_chainOf (given : List R) : ∀ c ∈ K.chainOf genesis given, K.rowHash c ≠ "" :=
  (@forall_chainOf F _ R ε K genesis _ (fun _ => True) (fun _ => True) trivial
    (fun _ _ => trivial) (fun prev r _ => iff_true_intro (K.rowHash_ne prev r)) given).mpr
      fun _ _ => trivial

/-- Each record names the hash of the one written just before it, and its own hash is computed. -/
lemma linked_chainOf (given : List R) :
    Linked K.prevHash K.rowHash K.computeHash genesis (K.chainOf genesis given) := by
  induction given using List.reverseRecOn with
  | nil => trivial
  | append_singleton given r ih =>
    rw [chainOf_concat, linked_concat]
    exact ⟨ih, K.prevHash_chained _ r, K.rowHash_chained _ r⟩

lemma verifyFrom_of_linked {prev : String} {n : ℕ} {rs : List R}
    (h : Linked K.prevHash K.rowHash K.computeHash prev rs) (hhash : ∀ r ∈ rs, K.rowHash r ≠ "") :
    K.verifyFrom prev n rs = .ok (n + rs.length) := by
  induction rs generalizing prev n with
  | nil => rfl
  | cons r rs ih =>
    obtain ⟨hp, hr, hrs⟩ := h
    obtain ⟨hne, hhash⟩ := List.forall_mem_cons.mp hhash
    rw [verifyFrom, if_neg (not_not.mpr hp), if_neg (by simp [hne, ← hr]), ih hrs hhash,
      List.length_cons]
    congr 1
    omega

end Chains

section Files

lemma length_of_mapM {α β : Type} {f : α → Except ε β} {l : List α} {m : List β}
    (h : l.mapM f = .ok m) : l.length = m.length := by
  induction l generalizing m with
  | nil =>
    obtain rfl := Except.ok.inj h
    rfl
  | cons a l ih =>
    rw [List.mapM_cons, bind_eq_ok] at h
    obtain ⟨b, -, hrest⟩ := h
    obtain ⟨bs, hbs, hpure⟩ := bind_eq_ok.mp hrest
    obtain rfl := Except.ok.inj hpure
    rw [List.length_cons, List.length_cons, ih hbs]

variable (K : Keeping F R ε) {size : ℕ} {genesis : String} {isPrintable : Char → Bool}

/-- The hash of the last record is read from a short line, if no separator cuts it. -/
lemma lastHash_fileOf {chain : List R} (hhash : ∀ r ∈ chain, K.rowHash r ≠ "")
    (hshort : ∀ r ∈ chain.getLast?, (utf8Encode (K.object r).line).length < size) :
    K.lastHash size genesis isPrintable (fileOf (chain.map K.object)) =
      if chain.getLast?.any fun r => (K.object r).hasSeparator then .error K.unreadable
      else .ok (head K.rowHash genesis chain) := by
  cases chain using List.reverseRecOn with
  | nil =>
    have hnil : tailLine size (fileOf (F := F) []) = [] := by
      simp [tailLine, fileOf, fileText, utf8Encode, tailBytes, utf8Replace, utf8Scan, splitlines,
        lastNonblank]
    rw [lastHash, List.map_nil, hnil]
    rfl
  | append_singleton chain r =>
    have hne := hhash r (by simp)
    have hsize := hshort r (by simp)
    rw [List.getLast?_concat, Option.any_some, head_concat, lastHash, fileOf, List.map_append,
      List.map_append, List.map_singleton, List.map_singleton]
    by_cases hsep : (K.object r).hasSeparator = true
    · obtain ⟨a, c, b, hline, hc, hb, hs, hnone⟩ := Object.cut_last hsep
      rw [if_pos hsep, hline, tailLine_cut _ hc hs hb (hline ▸ hsize)]
      split
      · exact absurd rfl hs
      · rw [hnone]
    · rw [if_neg hsep, tailLine_fileText _ (K.object r).strip_line
        (Object.unbroken_line.mpr (by simpa using hsep)) hsize]
      split
      · rename_i hnil
        exact absurd (by rw [hnil]; rfl) (K.object r).strip_line
      · rw [(K.object r).loads_line_self]
        simp only [K.lookup_rowHash, Option.getD_some, PythonRepr.pyStr]

lemma append_fileOf {chain : List R} (hhash : ∀ r ∈ chain, K.rowHash r ≠ "")
    (hshort : ∀ r ∈ chain.getLast?, (utf8Encode (K.object r).line).length < size) (r : R) :
    K.append size genesis isPrintable (fileOf (chain.map K.object)) r =
      if chain.getLast?.any fun r => (K.object r).hasSeparator then .error K.unreadable
      else
        let c := K.chained (head K.rowHash genesis chain) r
        .ok (fileOf ((chain ++ [c]).map K.object), c) := by
  rw [append, K.lastHash_fileOf hhash hshort]
  split_ifs
  · rfl
  · simp [fileOf, Object.line, bind, Except.bind, pure, Except.pure]

lemma all_iff_last_dropLast {α : Type} (p : α → Bool) (l : List α) :
    l.getLast?.any p = false ∧ (∀ a ∈ l.dropLast, p a = false) ↔ ∀ a ∈ l, p a = false := by
  cases l using List.reverseRecOn with
  | nil => simp
  | append_singleton l a =>
    rw [List.getLast?_concat, Option.any_some, List.dropLast_concat, List.forall_mem_append,
      List.forall_mem_singleton, and_comm]

/-- With short lines the appends succeed exactly while no record but the last holds a separator. -/
theorem appendEach_eq_ok_iff {prepare : W → Except ε R} {ws : List W} {given : List R}
    (hprepare : ws.mapM prepare = .ok given)
    (hshort : ∀ c ∈ (K.chainOf genesis given).dropLast, (utf8Encode (K.object c).line).length < size)
    (file : Bytes) (returned : List R) :
    K.appendEach size genesis isPrintable prepare ws = .ok (file, returned) ↔
      returned = K.chainOf genesis given ∧ file = fileOf (returned.map K.object) ∧
        ∀ c ∈ returned.dropLast, (K.object c).hasSeparator = false := by
  induction ws using List.reverseRecOn generalizing given file returned with
  | nil =>
    obtain rfl := Except.ok.inj hprepare
    constructor
    · intro h
      obtain ⟨rfl, rfl⟩ := Prod.mk.inj (Except.ok.inj h)
      exact ⟨rfl, rfl, List.forall_mem_nil _⟩
    · rintro ⟨rfl, rfl, -⟩
      rfl
  | append_singleton ws w ih =>
    rw [List.mapM_append, bind_eq_ok] at hprepare
    obtain ⟨given, hws, hprepare⟩ := hprepare
    obtain ⟨rs, hrs, hpure⟩ := bind_eq_ok.mp hprepare
    obtain rfl := Except.ok.inj hpure
    rw [List.mapM_cons, bind_eq_ok] at hrs
    obtain ⟨r, hw, hnil⟩ := hrs
    obtain rfl := Except.ok.inj hnil
    rw [List.reverse_nil] at hshort ⊢
    rw [dropLast_chainOf, List.dropLast_concat] at hshort
    have hstep : K.appendEach size genesis isPrintable prepare (ws ++ [w]) =
        K.appendEach size genesis isPrintable prepare ws >>= fun s =>
          K.append size genesis isPrintable s.1 r >>= fun t => pure (t.1, s.2 ++ [t.2]) := by
      rw [appendEach, List.foldlM_append]
      refine congrArg (Except.bind _) (funext fun s => ?_)
      rw [List.foldlM_cons]
      simp only [List.foldlM_nil, hw]
      exact bind_pure _
    have happ := @append_fileOf F _ R ε K size genesis isPrintable _ (rowHash_chainOf given)
      (fun c hc => hshort c (List.mem_of_getLast? hc)) r
    have hopen := all_iff_last_dropLast (fun r => (K.object r).hasSeparator) (K.chainOf genesis given)
    have hgiven := ih hws fun c hc => hshort c (List.mem_of_mem_dropLast hc)
    rw [hstep, bind_eq_ok]
    constructor
    · rintro ⟨⟨file', returned'⟩, hok, hlast⟩
      obtain ⟨rfl, rfl, hdrop⟩ := (hgiven _ _).mp hok
      rw [bind_eq_ok] at hlast
      obtain ⟨t, ht, hpure⟩ := hlast
      rw [happ] at ht
      split_ifs at ht with hsep
      obtain rfl := Except.ok.inj ht
      obtain ⟨rfl, rfl⟩ := Prod.mk.inj (Except.ok.inj hpure)
      refine ⟨(chainOf_concat given r).symm, rfl, ?_⟩
      rw [List.dropLast_concat]
      exact hopen.mp ⟨by simpa using hsep, hdrop⟩
    · rintro ⟨rfl, rfl, hdrop⟩
      rw [chainOf_concat, List.dropLast_concat, ← hopen] at hdrop
      rw [if_neg (by simpa using hdrop.1)] at happ
      exact ⟨_, (hgiven _ _).mpr ⟨rfl, rfl, hdrop.2⟩, bind_eq_ok.mpr ⟨_, happ, by rw [chainOf_concat]; rfl⟩⟩

lemma records_fileOf (chain : List R) : K.records (fileOf (chain.map K.object)) =
    chain.mapM fun r => K.read (.obj (K.object r).1) := by
  rw [records, fileOf, utf8Decode_encode]
  dsimp only
  induction chain with
  | nil => rfl
  | cons r rs ih =>
    have hline : fileLines (fileText (((r :: rs).map K.object).map Object.line)) =
        ((K.object r).line ++ ['\n']) :: fileLines (fileText ((rs.map K.object).map Object.line)) := by
      rw [← fileLines_line ((K.object r).not_mem_line (by decide))
        ((K.object r).not_mem_line (by decide))]
      simp [fileText]
    have hs : strip ((K.object r).line ++ ['\n']) ≠ [] :=
      strip_ne_nil (List.mem_append_left _ (List.mem_of_mem_head? (K.object r).head_line)) (by decide)
    rw [hline, List.filter_cons_of_pos (by simpa using hs), List.mapM_cons, List.mapM_cons, ih,
      readLine, (K.object r).loads_line (by simp [isJsonSpace])]

lemma mapM_eq_self_iff {α : Type} {f : α → Except ε α} {l : List α} :
    l.mapM f = .ok l ↔ ∀ a ∈ l, f a = .ok a := by
  induction l with
  | nil => exact iff_of_true rfl (List.forall_mem_nil _)
  | cons a l ih =>
    rw [List.mapM_cons, bind_eq_ok, List.forall_mem_cons, ← ih]
    constructor
    · rintro ⟨b, hb, hrest⟩
      obtain ⟨bs, hbs, hpure⟩ := bind_eq_ok.mp hrest
      obtain ⟨rfl, rfl⟩ := List.cons.inj (Except.ok.inj hpure)
      exact ⟨hb, hbs⟩
    · rintro ⟨ha, hl⟩
      exact ⟨a, ha, bind_eq_ok.mpr ⟨l, hl, rfl⟩⟩

/-- Every append succeeds, each on the record written just before it, and what the appends returned
is read back and verified. -/
def Stands (size : ℕ) (genesis : String) (isPrintable : Char → Bool) (prepare : W → Except ε R)
    (ws : List W) : Prop :=
  ∃ file returned, K.appendEach size genesis isPrintable prepare ws = .ok (file, returned) ∧
    Linked K.prevHash K.rowHash K.computeHash genesis returned ∧
    K.records file = .ok returned ∧ K.verify genesis file = .ok ws.length

/-- With short lines a ledger stands exactly if no record but the last holds a separator and
reading a record that was written gives it again. -/
theorem stands_iff {prepare : W → Except ε R} {ws : List W} {given : List R}
    (hprepare : ws.mapM prepare = .ok given)
    (hshort : ∀ c ∈ (K.chainOf genesis given).dropLast, (utf8Encode (K.object c).line).length < size) :
    K.Stands size genesis isPrintable prepare ws ↔
      (∀ c ∈ (K.chainOf genesis given).dropLast, (K.object c).hasSeparator = false) ∧
        ∀ c ∈ K.chainOf genesis given, K.read (.obj (K.object c).1) = .ok c := by
  have happ := @appendEach_eq_ok_iff F _ R ε W K size genesis isPrintable _ _ _ hprepare hshort
  constructor
  · rintro ⟨file, returned, hok, -, hrecords, -⟩
    obtain ⟨rfl, rfl, hsep⟩ := (happ _ _).mp hok
    rw [records_fileOf, mapM_eq_self_iff] at hrecords
    exact ⟨hsep, hrecords⟩
  · rintro ⟨hsep, hread⟩
    have hrecords : K.records (fileOf ((K.chainOf genesis given).map K.object)) =
        .ok (K.chainOf genesis given) := by
      rw [records_fileOf, mapM_eq_self_iff]
      exact hread
    have hverify := @verifyFrom_of_linked F _ R ε K genesis 0 _ (linked_chainOf given)
      (rowHash_chainOf given)
    rw [length_chainOf, Nat.zero_add, ← length_of_mapM hprepare] at hverify
    refine ⟨_, _, (happ _ _).mpr ⟨rfl, rfl, hsep⟩, linked_chainOf given, hrecords, ?_⟩
    rw [verify, hrecords]
    exact hverify

end Files

end Keeping

end CommitReplay.TailLedger
