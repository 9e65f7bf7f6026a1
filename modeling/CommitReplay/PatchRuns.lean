import CommitReplay.CallHistories
import CommitReplay.PatchStore

/-! What a kept patch holds of its text, and what the store of kept patches keeps while any number of
writers and readers are at work, any of them stopped between two of its calls. -/
namespace CommitReplay.PatchRuns

open CommitReplay.PythonText CommitReplay.JsonValue CommitReplay.Redaction CommitReplay.Interaction
open CommitReplay.Interleavings CommitReplay.Postconditions CommitReplay.CallHistories
open CommitReplay.PatchStore

section Cut

lemma utf8Ignore_broken {b : UInt8} {bs : Bytes} (h : utf8Head b bs = (none, [])) :
    utf8Ignore (b :: bs) = [] := by
  simp [utf8Ignore, utf8Scan, h]

@[simp] lemma utf8Tail_broken (k lo hi n : ℕ) : utf8Tail (k + 1) lo hi n [] = (none, []) := rfl

lemma utf8Ignore_lead {b : UInt8} {bs : Bytes} {m k lo hi n : ℕ} (hb : b.toNat = m) (hm : 0x80 ≤ m)
    (hlead : utf8Lead m = some (k, lo, hi, n)) (htail : utf8Tail k lo hi n bs = (none, [])) :
    utf8Ignore (b :: bs) = [] := by
  refine utf8Ignore_broken ?_
  rw [utf8Head, hb, if_neg (not_lt.mpr hm), hlead]
  exact htail

/-- A sequence that breaks off is no character. -/
lemma utf8Ignore_take_char {c : Char} {n : ℕ} (h : n < (utf8Char c).length) :
    utf8Ignore ((utf8Char c).take n) = [] := by
  have hv : c.toNat < 0xD800 ∨ 0xDFFF < c.toNat ∧ c.toNat < 0x110000 := c.valid
  have hb : ∀ m, m < 256 → (UInt8.ofNat m).toNat = m := fun m hm => by simp; omega
  rcases Nat.eq_zero_or_pos n with rfl | hn
  · simp [utf8Ignore, utf8Scan]
  unfold utf8Char at h ⊢
  dsimp only at h ⊢
  split_ifs at h ⊢ with h1 h2 h3
  · simp only [List.length_singleton] at h
    omega
  · obtain rfl : n = 1 := by simp only [List.length_cons, List.length_nil] at h; omega
    have hlead : utf8Lead (0xC0 + c.toNat / 64) = some (1, 0x80, 0xBF, 0xC0 + c.toNat / 64 - 0xC0) := by
      rw [utf8Lead, if_neg (by omega), if_pos (by omega)]
    exact utf8Ignore_lead (hb _ (by omega)) (by omega) hlead (utf8Tail_broken ..)
  · have e1 := hb (0xE0 + c.toNat / 4096) (by omega)
    have e2 := hb (0x80 + c.toNat / 64 % 64) (by omega)
    have hlead : utf8Lead (0xE0 + c.toNat / 4096) = some (2,
        if 0xE0 + c.toNat / 4096 = 0xE0 then 0xA0 else 0x80,
        if 0xE0 + c.toNat / 4096 = 0xED then 0x9F else 0xBF, 0xE0 + c.toNat / 4096 - 0xE0) := by
      rw [utf8Lead, if_neg (by omega), if_neg (by omega), if_pos (by omega)]
    simp only [List.length_cons, List.length_nil] at h
    obtain rfl | rfl : n = 1 ∨ n = 2 := by omega
    · exact utf8Ignore_lead e1 (by omega) hlead (utf8Tail_broken ..)
    · refine utf8Ignore_lead e1 (by omega) hlead ?_
      simp only [List.take_succ_cons, List.take_zero]
      rw [utf8Tail, e2, if_pos (by split_ifs <;> omega), utf8Tail_broken]
  · have e1 := hb (0xF0 + c.toNat / 262144) (by omega)
    have e2 := hb (0x80 + c.toNat / 4096 % 64) (by omega)
    have e3 := hb (0x80 + c.toNat / 64 % 64) (by omega)
    have hlead : utf8Lead (0xF0 + c.toNat / 262144) = some (3,
        if 0xF0 + c.toNat / 262144 = 0xF0 then 0x90 else 0x80,
        if 0xF0 + c.toNat / 262144 = 0xF4 then 0x8F else 0xBF, 0xF0 + c.toNat / 262144 - 0xF0) := by
      rw [utf8Lead, if_neg (by omega), if_neg (by omega), if_neg (by omega), if_pos (by omega)]
    simp only [List.length_cons, List.length_nil] at h
    obtain rfl | rfl | rfl : n = 1 ∨ n = 2 ∨ n = 3 := by omega
    · exact utf8Ignore_lead e1 (by omega) hlead (utf8Tail_broken ..)
    · refine utf8Ignore_lead e1 (by omega) hlead ?_
      simp only [List.take_succ_cons, List.take_zero]
      rw [utf8Tail, e2, if_pos (by split_ifs <;> omega), utf8Tail_broken]
    · refine utf8Ignore_lead e1 (by omega) hlead ?_
      simp only [List.take_succ_cons, List.take_zero]
      rw [utf8Tail, e2, if_pos (by split_ifs <;> omega), utf8Tail, e3, if_pos (by omega), utf8Tail_broken]

lemma utf8Ignore_append_char (c : Char) (bs : Bytes) : utf8Ignore (utf8Char c ++ bs) = c :: utf8Ignore bs := by
  simp [utf8Ignore, utf8Scan_char]

/-- The characters of a text whose bytes fit in a cap. -/
def fitting : ℕ → Text → Text
  | _, [] => []
  | cap, c :: s => if (utf8Char c).length ≤ cap then c :: fitting (cap - (utf8Char c).length) s else []

lemma utf8Ignore_take (s : Text) (cap : ℕ) : utf8Ignore ((utf8Encode s).take cap) = fitting cap s := by
  induction s generalizing cap with
  | nil => simp [utf8Encode, fitting, utf8Ignore, utf8Scan]
  | cons c s ih =>
    rw [fitting, utf8Encode, List.flatMap_cons, List.take_append]
    split_ifs with hfit
    · rw [List.take_of_length_le hfit, utf8Ignore_append_char]
      exact congrArg _ (ih _)
    · have hover : cap - (utf8Char c).length = 0 := by omega
      rw [hover, List.take_zero, List.append_nil]
      exact utf8Ignore_take_char (not_le.mp hfit)

/-- They are as many as fit. -/
lemma fitting_spec (s : Text) (cap : ℕ) : ∃ rest, s = fitting cap s ++ rest ∧
    (utf8Encode (fitting cap s)).length ≤ cap ∧
    ∀ c ∈ rest.head?, cap < (utf8Encode (fitting cap s ++ [c])).length := by
  induction s generalizing cap with
  | nil => exact ⟨[], by simp [fitting, utf8Encode]⟩
  | cons c s ih =>
    rw [fitting]
    split_ifs with hfit
    · obtain ⟨rest, hs, hlen, hnext⟩ := ih (cap - (utf8Char c).length)
      refine ⟨rest, congrArg _ hs, ?_, fun d hd => ?_⟩
      · simp only [utf8Encode, List.flatMap_cons, List.length_append] at hlen ⊢
        omega
      · have hd' := hnext d hd
        simp only [utf8Encode, List.cons_append, List.flatMap_cons, List.length_append] at hd' ⊢
        omega
    · refine ⟨c :: s, rfl, by simp [utf8Encode], fun d hd => ?_⟩
      obtain rfl := Option.some.inj hd
      simpa [utf8Encode] using hfit

variable (sha256 : Sha256) (isWide : Char → Bool)

variable {text : Text} {cap : ℕ}

lemma prepare_raw : (prepare sha256 isWide text cap).raw =
    utf8Encode (if cap < (utf8Encode (redactText isWide text)).length then fitting cap (redactText isWide text)
      else redactText isWide text) := by
  simp only [prepare, utf8Ignore_take]
  split_ifs <;> rfl

lemma prepare_truncated : (prepare sha256 isWide text cap).truncated = true ↔
    cap < (utf8Encode (redactText isWide text)).length := by
  simp only [prepare, decide_eq_true_eq]

lemma prepare_redacted : (prepare sha256 isWide text cap).redacted = true ↔ redactText isWide text ≠ text := by
  simp only [prepare, decide_eq_true_eq]

/-- The bytes that are kept are those of the longest beginning of the redacted text that fits in the cap,
and the notes say what was done: nothing, where neither is noted, so that both hashes agree. -/
theorem prepare_keeps (text : Text) (cap : ℕ) :
    let prepared := prepare sha256 isWide text cap
    (∃ kept rest, redactText isWide text = kept ++ rest ∧ prepared.raw = utf8Encode kept ∧
      prepared.raw.length ≤ cap ∧ (∀ c ∈ rest.head?, cap < (utf8Encode (kept ++ [c])).length) ∧
      (prepared.truncated = true ↔ rest ≠ [])) ∧
    (prepared.redacted = false → prepared.truncated = false → sha256.hex prepared.raw = prepared.fullSha) := by
  intro prepared
  obtain ⟨rest, hsplit, hlen, hnext⟩ := fitting_spec (redactText isWide text) cap
  have hraw : prepared.raw = _ := prepare_raw sha256 isWide
  have hcut : prepared.truncated = true ↔ _ := prepare_truncated sha256 isWide
  have hredacted : prepared.redacted = true ↔ _ := prepare_redacted sha256 isWide
  by_cases hcap : cap < (utf8Encode (redactText isWide text)).length
  · rw [if_pos hcap] at hraw
    have htruncated : prepared.truncated = true := hcut.mpr hcap
    refine ⟨⟨fitting cap (redactText isWide text), rest, hsplit, hraw, ?_, hnext, ?_⟩, ?_⟩
    · rw [hraw]
      exact hlen
    · refine iff_of_true htruncated ?_
      rintro rfl
      rw [List.append_nil] at hsplit
      rw [← hsplit] at hlen
      exact absurd hcap (not_lt.mpr hlen)
    · intro _ hkept
      rw [htruncated] at hkept
      cases hkept
  · rw [if_neg hcap] at hraw
    refine ⟨⟨redactText isWide text, [], (List.append_nil _).symm, hraw, ?_, by simp, ?_⟩, ?_⟩
    · rw [hraw]
      exact not_lt.mp hcap
    · exact iff_of_false (fun htruncated => hcap (hcut.mp htruncated)) fun hne => hne rfl
    · intro hsame _
      have htext : redactText isWide text = text := by
        by_contra hne
        rw [hredacted.mpr hne] at hsame
        cases hsame
      rw [hraw, htext]
      rfl

end Cut

section Phases

/-- Where a writer is with its temporary file. -/
inductive Phase
  | before
  | made (tmp : Text)
  | cut (tmp : Text)
  | ready (tmp : Text) (data : Bytes)
  | after

/-- The file it holds. -/
def Phase.temp : Phase → Option Text
  | made tmp | cut tmp | ready tmp _ => some tmp
  | before | after => none

lemma temp_of_made {p : Phase} {tmp : Text} (h : p = .made tmp) : p.temp = some tmp := by
  rw [h]
  rfl

lemma temp_of_ready {p : Phase} {tmp : Text} {data : Bytes} (h : p = .ready tmp data) : p.temp = some tmp := by
  rw [h]
  rfl

abbrev Log := List (Call face)

def advance : Phase → Call face → Phase
  | _, ⟨.mkstemp dir stem, .ok drawn⟩ => .made (tempName dir stem drawn)
  | _, ⟨.write path data, .ok ()⟩ => .ready path data
  | _, ⟨.write path _, .error _⟩ => .cut path
  | _, ⟨.replace .., .ok ()⟩ | _, ⟨.unlink _, .ok ()⟩ => .after
  | phase, _ => phase

def phase (calls : Log) : Phase := calls.foldl advance .before

lemma phase_snoc (calls : Log) (c : Call face) : phase (calls ++ [c]) = advance (phase calls) c := by
  rw [phase, List.foldl_append]
  rfl

variable (sha256 : Sha256)

/-- A writer makes one temporary file, writes it, renames it to the name of its bytes, and removes no other
file. -/
def Obeys (pre : Log) (c : Call face) : Prop :=
  match c.op with
  | .mkstemp .. => phase pre = .before
  | .write path _ => phase pre = .made path
  | .replace tmp path => ∃ data, phase pre = .ready tmp data ∧ pathFor (sha256.hex data) = some path
  | .unlink path => (phase pre).temp = some path
  | _ => True

end Phases

section Programs

variable {sha256 : Sha256} {isWide : Char → Bool}

/-- A program has kept to its rules and its phase is known. -/
structure At (sha256 : Sha256) (p : Phase) (h : Log) : Prop where
  obeys : Each (Obeys sha256) h
  phase : phase h = p

lemma At.snoc {p q : Phase} {h : Log} {c : Call face} (ha : At sha256 p h) (hc : Obeys sha256 h c)
    (hq : advance p c = q) : At sha256 q (h ++ [c]) :=
  ⟨ha.obeys.snoc hc, by rw [phase_snoc, ha.phase, hq]⟩

/-- A program that has ended holds no temporary file, unless it could not remove it. -/
structure Clean (sha256 : Sha256) (h : Log) : Prop where
  obeys : Each (Obeys sha256) h
  none : (PatchRuns.phase h).temp = none ∨ ∃ path exc, ⟨.unlink path, .error exc⟩ ∈ h

lemma At.clean {p : Phase} {h : Log} (ha : At sha256 p h) (hp : p.temp = none) : Clean sha256 h :=
  ⟨ha.obeys, .inl (by rw [ha.phase, hp])⟩

/-- The program makes a call that the rules allow, and holds no temporary file where the call fails. -/
lemma holds_ask {op : Op} {p : Phase} {q : op.Ans → Phase}
    (hobeys : ∀ h r, phase h = p → Obeys sha256 h ⟨op, r⟩)
    (hok : ∀ answer, advance p ⟨op, .ok answer⟩ = q answer)
    (herr : ∀ exc, (advance p ⟨op, .error exc⟩).temp = none) :
    Holds (fun _ h => At sha256 p h) (ask op)
      (Post (fun answer _ h => At sha256 (q answer) h ∧ ⟨op, .ok answer⟩ ∈ h)
        fun _ h => Clean sha256 h) := by
  refine holds_call ?_ ?_
  · intro s h answer ha
    exact ⟨ha.snoc (hobeys h _ ha.phase) (hok answer), List.mem_append_right _ List.mem_cons_self⟩
  · intro s h exc ha
    exact (ha.snoc (hobeys h _ ha.phase) rfl).clean (herr exc)

/-- The program makes a call that is no matter of its temporary file. -/
lemma holds_free {op : Op} {α : Type} {f : op.Ans → Step α} {P : α → Unit → Log → Prop}
    (hobeys : ∀ h r, Obeys sha256 h ⟨op, r⟩) (hstays : ∀ r, advance .before ⟨op, r⟩ = .before)
    (hf : ∀ answer, Holds (fun _ h => At sha256 .before h ∧ ⟨op, .ok answer⟩ ∈ h) (f answer)
      (Post P fun _ h => Clean sha256 h)) :
    Holds (fun _ h => At sha256 .before h) (ask op >>= f) (Post P fun _ h => Clean sha256 h) := by
  refine holds_bind (holds_ask (fun h r _ => hobeys h r) (fun answer => hstays _) fun exc => ?_) hf
  rw [hstays]
  rfl

/-- A program that holds a temporary file. -/
structure Holding (sha256 : Sha256) (tmp : Text) (h : Log) : Prop where
  obeys : Each (Obeys sha256) h
  temp : (PatchRuns.phase h).temp = some tmp

lemma At.holding {p : Phase} {tmp : Text} {h : Log} (ha : At sha256 p h) (hp : p.temp = some tmp) :
    Holding sha256 tmp h :=
  ⟨ha.obeys, by rw [ha.phase, hp]⟩

/-- The file of a writer is removed, or could not be. -/
lemma holds_unlink {tmp : Text} :
    Holds (fun _ h => Holding sha256 tmp h) (suppressing (ask (.unlink tmp)))
      (Post (fun _ _ h => Clean sha256 h) fun _ h => Clean sha256 h) := by
  refine holds_catching (R := fun _ h => Clean sha256 h) (holds_call ?_ ?_) fun exc => ?_
  · intro s h answer hh
    refine ⟨hh.obeys.snoc hh.temp, .inl ?_⟩
    rw [phase_snoc]
    cases PatchRuns.phase h <;> rfl
  · intro s h exc hh
    exact ⟨hh.obeys.snoc hh.temp, .inr ⟨tmp, exc, List.mem_append_right _ List.mem_cons_self⟩⟩
  · cases exc with
    | os type message => exact holds_pure fun s h hc => hc
    | other type message => exact holds_raise fun s h hc => hc
    | exit type => exact holds_raise fun s h hc => hc

lemma holds_writeThrough {path tmp : Text} {data : Bytes} (hpath : pathFor (sha256.hex data) = some path) :
    Holds (fun _ h => At sha256 (.made tmp) h) (writeThrough path tmp data)
      (Post (fun _ _ h => At sha256 .after h ∧ ⟨.replace tmp path, .ok ()⟩ ∈ h)
        fun _ h => Clean sha256 h) := by
  unfold writeThrough
  refine Holds.attempt (R := Post (fun _ _ h => At sha256 .after h ∧ ⟨.replace tmp path, .ok ()⟩ ∈ h)
    fun _ h => Holding sha256 tmp h) (holds_bind (P := fun _ _ h => At sha256 (.ready tmp data) h)
      (holds_call ?_ ?_) fun _ => holds_call ?_ ?_) (fun _ _ _ hr => hr) fun e => ?_
  · exact fun s h _ ha => ha.snoc (c := ⟨.write tmp data, .ok ()⟩) ha.phase rfl
  · exact fun s h exc ha => (ha.snoc (c := ⟨.write tmp data, .error exc⟩) ha.phase rfl).holding rfl
  · exact fun s h _ ha => ⟨ha.snoc (c := ⟨.replace tmp path, .ok ()⟩) ⟨data, ha.phase, hpath⟩ rfl,
      List.mem_append_right _ List.mem_cons_self⟩
  · exact fun s h exc ha =>
      (ha.snoc (c := ⟨.replace tmp path, .error exc⟩) ⟨data, ha.phase, hpath⟩ rfl).holding rfl
  · exact holds_bind holds_unlink fun _ => Holds.halt fun s h hc => hc

/-- The bytes of a hash are in place: they were there, or a file took their name. -/
def Placed (h : Log) (path : Text) : Prop :=
  ⟨.isFile path, .ok true⟩ ∈ h ∨ ∃ tmp, ⟨.replace tmp path, .ok ()⟩ ∈ h

lemma holds_putBytes {data : Bytes} :
    Holds (fun _ h => At sha256 .before h) (putBytes sha256 data)
      (Post (fun sha _ h => Clean sha256 h ∧ sha = sha256.hex data ∧
          ∃ path, pathFor sha = some path ∧ Placed h path)
        fun _ h => Clean sha256 h) := by
  unfold putBytes
  obtain ⟨path, hpath⟩ : ∃ path, pathFor (sha256.hex data) = some path :=
    ⟨_, if_pos (sha256.isSha256 data)⟩
  simp only [hpath]
  refine holds_free (fun _ _ => trivial) (fun _ => rfl) fun there => ?_
  cases there with
  | true => exact holds_pure fun s h ha => ⟨ha.1.clean rfl, rfl, _, hpath, .inl ha.2⟩
  | false =>
    refine holds_weaken (K := fun _ h => At sha256 .before h) ?_ fun s h ha => ha.1
    refine holds_free (fun _ _ => trivial) (fun _ => rfl) fun made => ?_
    refine holds_weaken (K := fun _ h => At sha256 .before h) ?_ fun s h ha => ha.1
    refine holds_bind (P := fun drawn _ h => At sha256 (.made (tempName (dirOf (sha256.hex data))
        (nameOf (sha256.hex data)) drawn)) h ∧
          ⟨.mkstemp (dirOf (sha256.hex data)) (nameOf (sha256.hex data)), .ok drawn⟩ ∈ h)
      (holds_ask ?_ (fun _ => rfl) fun _ => rfl) fun drawn => ?_
    · exact fun h r hbefore => hbefore
    refine holds_weaken ?_ fun s h ha => ha.1
    refine holds_bind (holds_writeThrough hpath) fun _ => holds_pure ?_
    exact fun s h ha => ⟨ha.1.clean rfl, rfl, _, hpath, .inr ⟨_, ha.2⟩⟩

/-- What a put that came back filed is in place under its hash. -/
lemma holds_put {text : Text} {cap : ℕ} {diffSha256 : Text} :
    Holds (fun _ h => At sha256 .before h) (put sha256 isWide text cap diffSha256)
      (Post (fun kept _ h => Clean sha256 h ∧
          kept.storedSha256 = sha256.hex (prepare sha256 isWide text cap).raw ∧
          ∃ path, pathFor kept.storedSha256 = some path ∧ Placed h path)
        fun _ h => Clean sha256 h) := by
  unfold put
  exact holds_bind holds_putBytes fun stored => holds_pure fun s h hc => hc

/-- What is served has its hash. Nothing is served where there is no file, or where its bytes have another
hash. -/
lemma holds_get {sha : Text} :
    Holds (fun _ h => At sha256 .before h) (PatchStore.get sha256 sha)
      (Post (fun r _ h => Clean sha256 h ∧ (∀ data ∈ r, sha256.hex data = sha) ∧
          ∀ path, pathFor sha = some path → r = none →
            ⟨.isFile path, .ok false⟩ ∈ h ∨
              ∃ data, ⟨.readBytes path, .ok data⟩ ∈ h ∧ sha256.hex data ≠ sha)
        fun _ h => Clean sha256 h) := by
  unfold PatchStore.get
  cases hpath : pathFor sha with
  | none =>
    exact holds_pure fun s h ha =>
      ⟨ha.clean rfl, fun data hd => (by cases hd), fun path hp => (by cases hp)⟩
  | some path =>
    refine holds_free (fun _ _ => trivial) (fun _ => rfl) fun there => ?_
    cases there with
    | false =>
      refine holds_pure fun s h ha =>
        ⟨ha.1.clean rfl, fun data hd => (by cases hd), fun path' hp _ => ?_⟩
      obtain rfl := Option.some.inj hp
      exact .inl ha.2
    | true =>
      refine holds_weaken (K := fun _ h => At sha256 .before h) ?_ fun s h ha => ha.1
      refine holds_free (fun _ _ => trivial) (fun _ => rfl) fun data => holds_pure ?_
      refine fun s h ha => ⟨ha.1.clean rfl, ?_, fun path' hp hr => ?_⟩
      · intro data' hd
        split_ifs at hd with hsha
        · obtain rfl := Option.some.inj hd
          exact hsha
        · cases hd
      · obtain rfl := Option.some.inj hp
        split_ifs at hr with hsha
        exact .inr ⟨data, ha.2, hsha⟩

variable {F : Type}

lemma holds_keepPatch {diffSha256 : Text} :
    Holds (fun _ h => At sha256 .before h) (keepPatch sha256 isWide diffSha256 : Step (Json F))
      (Post (fun _ _ h => Clean sha256 h) fun _ h => Clean sha256 h) := by
  unfold keepPatch
  refine holds_catching (R := fun _ h => Clean sha256 h) ?_ fun exc => ?_
  · refine holds_free (fun _ _ => trivial) (fun _ => rfl) fun text => ?_
    refine holds_weaken (K := fun _ h => At sha256 .before h) ?_ fun s h ha => ha.1
    exact holds_bind holds_put fun kept => holds_pure fun s h hc => hc.1
  · cases exc with
    | os type message => exact holds_pure fun s h hc => hc
    | other type message => exact holds_pure fun s h hc => hc
    | exit type => exact holds_raise fun s h hc => hc

end Programs

section Disk

abbrev Disk := Text → Option Bytes

/-- What the file system makes of a call. A write that fails may leave the beginning of what it was to
write; any other call that fails leaves the files as they are. -/
inductive Acts {ι : Type} (disk : Disk) (i : ι) : Call face → Disk → Prop
  | isFile (path : Text) : Acts disk i ⟨.isFile path, .ok (disk path).isSome⟩ disk
  | mkdir (dir : Text) : Acts disk i ⟨.mkdir dir, .ok ()⟩ disk
  | mkstemp (dir stem drawn : Text) (free : disk (tempName dir stem drawn) = none) :
      Acts disk i ⟨.mkstemp dir stem, .ok drawn⟩ (Function.update disk (tempName dir stem drawn) (some []))
  | write (path : Text) (data : Bytes) :
      Acts disk i ⟨.write path data, .ok ()⟩ (Function.update disk path (some data))
  | broken (path : Text) (data part : Bytes) (exc : Fault) (cut : part <+: data) :
      Acts disk i ⟨.write path data, .error exc⟩ (Function.update disk path (some part))
  | replace (source target : Text) (data : Bytes) (found : disk source = some data) :
      Acts disk i ⟨.replace source target, .ok ()⟩
        (Function.update (Function.update disk source none) target (some data))
  | unlink (path : Text) : Acts disk i ⟨.unlink path, .ok ()⟩ (Function.update disk path none)
  | readBytes (path : Text) (data : Bytes) (found : disk path = some data) :
      Acts disk i ⟨.readBytes path, .ok data⟩ disk
  | patchText (text : Text) : Acts disk i ⟨.patchText, .ok text⟩ disk
  | raised (op : Op) (exc : Fault) (other : ∀ path data, op ≠ .write path data) :
      Acts disk i ⟨op, .error exc⟩ disk

def IsTemp (path : Text) : Prop := ∃ dir stem drawn, path = tempName dir stem drawn

lemma pathFor_eq_some {sha path : Text} (h : pathFor sha = some path) :
    sha.length = 64 ∧ path = joined (dirOf sha) (nameOf sha) := by
  unfold pathFor at h
  split_ifs at h with hsha
  refine ⟨?_, (Option.some.inj h).symm⟩
  simp only [isSha256, Bool.and_eq_true, decide_eq_true_eq] at hsha
  exact hsha.1

lemma pathFor_inj {sha sha' path : Text} (h : pathFor sha = some path) (h' : pathFor sha' = some path) :
    sha = sha' := by
  obtain ⟨hlen, hpath⟩ := pathFor_eq_some h
  obtain ⟨hlen', hpath'⟩ := pathFor_eq_some h'
  have hdir : (dirOf sha).length = (dirOf sha').length := by simp [dirOf, hlen, hlen']
  have hname := (List.append_inj (hpath.symm.trans hpath') hdir).2
  exact List.append_cancel_right (List.cons.inj hname).2

/-- A temporary file has the name of no hash. -/
lemma not_isTemp {sha path : Text} (h : pathFor sha = some path) : ¬ IsTemp path := by
  rintro ⟨dir, stem, drawn, ht⟩
  have hpath := congrArg List.getLast? ((pathFor_eq_some h).2.symm.trans ht)
  simp [joined, nameOf, tempName, patchSuffix, tempSuffix, List.getLast?_append, List.getLast?_cons] at hpath

lemma ne_of_isTemp {sha path tmp : Text} (h : pathFor sha = some path) (ht : IsTemp tmp) : path ≠ tmp :=
  fun he => not_isTemp h (he ▸ ht)

end Disk

section Files

variable {ι : Type} [DecidableEq ι]

/-- The files of the store, where each writer is in some phase: a file has the hash that names it, and a
temporary file is its writer's own, which holds what was written when it is ready. -/
structure Files (sha256 : Sha256) (disk₀ : Disk) (phases : ι → Phase) (disk : Disk) : Prop where
  named : ∀ sha path data, pathFor sha = some path → disk path = some data → sha256.hex data = sha
  temps : ∀ i tmp, (phases i).temp = some tmp → IsTemp tmp
  alone : ∀ i j tmp, (phases i).temp = some tmp → (phases j).temp = some tmp → i = j
  held : ∀ i tmp, (phases i).temp = some tmp → disk tmp ≠ none
  ready : ∀ i tmp data, phases i = .ready tmp data → disk tmp = some data
  left : ∀ tmp, IsTemp tmp → disk tmp ≠ none → (∃ i, (phases i).temp = some tmp) ∨ disk₀ tmp ≠ none

variable {sha256 : Sha256} {disk₀ disk : Disk} {phases : ι → Phase} {i : ι} {tmp path : Text} {data : Bytes}

omit [DecidableEq ι] in
lemma Files.start (named : ∀ sha path data, pathFor sha = some path → disk₀ path = some data →
    sha256.hex data = sha) : Files sha256 disk₀ (fun _ : ι => .before) disk₀ where
  named := named
  temps i tmp h := by cases h
  alone i j tmp h := by cases h
  held i tmp h := by cases h
  ready i tmp data h := by cases h
  left tmp ht hne := .inr hne

lemma temp_update_some {p : Phase} (hp : p.temp = some tmp) {j : ι} {t : Text} :
    (Function.update phases i p j).temp = some t ↔ j = i ∧ t = tmp ∨ j ≠ i ∧ (phases j).temp = some t := by
  rcases eq_or_ne j i with rfl | hj
  · simp [hp, eq_comm]
  · simp [hj]

lemma temp_update_none {p : Phase} (hp : p.temp = none) {j : ι} {t : Text} :
    (Function.update phases i p j).temp = some t ↔ j ≠ i ∧ (phases j).temp = some t := by
  rcases eq_or_ne j i with rfl | hj
  · simp [hp]
  · simp [hj]

/-- A writer takes or rewrites a temporary file of its own. -/
lemma Files.own (hf : Files sha256 disk₀ phases disk) (htemp : IsTemp tmp)
    (hown : ∀ j, (phases j).temp = some tmp → j = i) {p : Phase} (hp : p.temp = some tmp) {content : Bytes}
    (hready : ∀ tmp' data, p = .ready tmp' data → tmp' = tmp ∧ data = content)
    (hheld : ∀ tmp', (phases i).temp = some tmp' → tmp' = tmp) :
    Files sha256 disk₀ (Function.update phases i p) (Function.update disk tmp (some content)) where
  named sha path data hpath hdata := by
    rw [Function.update_of_ne (ne_of_isTemp hpath htemp)] at hdata
    exact hf.named sha path data hpath hdata
  temps j t ht := by
    rcases (temp_update_some hp).mp ht with ⟨rfl, rfl⟩ | ⟨-, hj⟩
    · exact htemp
    · exact hf.temps j t hj
  alone j k t hj hk := by
    rcases (temp_update_some hp).mp hj with ⟨rfl, rfl⟩ | ⟨hji, hj'⟩
    · rcases (temp_update_some hp).mp hk with ⟨rfl, -⟩ | ⟨hki, hk'⟩
      · rfl
      · exact absurd (hown k hk') hki
    · rcases (temp_update_some hp).mp hk with ⟨rfl, rfl⟩ | ⟨hki, hk'⟩
      · exact absurd (hown j hj') hji
      · exact hf.alone j k t hj' hk'
  held j t ht := by
    rcases eq_or_ne t tmp with rfl | hne
    · simp
    rw [Function.update_of_ne hne]
    rcases (temp_update_some hp).mp ht with ⟨-, rfl⟩ | ⟨-, hj⟩
    · exact absurd rfl hne
    · exact hf.held j t hj
  ready j t data hj := by
    rcases eq_or_ne j i with rfl | hji
    · rw [Function.update_self] at hj
      obtain ⟨rfl, rfl⟩ := hready t data hj
      exact Function.update_self ..
    · rw [Function.update_of_ne hji] at hj
      have hne : t ≠ tmp := fun he => hji (hown j (he ▸ temp_of_ready hj))
      rw [Function.update_of_ne hne]
      exact hf.ready j t data hj
  left t ht hne := by
    rcases eq_or_ne t tmp with rfl | htne
    · exact .inl ⟨i, (temp_update_some hp).mpr (.inl ⟨rfl, rfl⟩)⟩
    rw [Function.update_of_ne htne] at hne
    refine (hf.left t ht hne).imp_left ?_
    rintro ⟨j, hj⟩
    have hji : j ≠ i := fun he => htne (hheld t (he ▸ hj))
    exact ⟨j, (temp_update_some hp).mpr (.inr ⟨hji, hj⟩)⟩

/-- A writer's temporary file goes. -/
lemma Files.drop (hf : Files sha256 disk₀ phases disk) (hi : (phases i).temp = some tmp) :
    Files sha256 disk₀ (Function.update phases i .after) (Function.update disk tmp none) where
  named sha path data hpath hdata := by
    rw [Function.update_of_ne (ne_of_isTemp hpath (hf.temps i tmp hi))] at hdata
    exact hf.named sha path data hpath hdata
  temps j t ht := hf.temps j t ((temp_update_none rfl).mp ht).2
  alone j k t hj hk := hf.alone j k t ((temp_update_none rfl).mp hj).2 ((temp_update_none rfl).mp hk).2
  held j t ht := by
    obtain ⟨hji, hj⟩ := (temp_update_none rfl).mp ht
    have hne : t ≠ tmp := fun he => hji (hf.alone j i tmp (he ▸ hj) hi)
    rw [Function.update_of_ne hne]
    exact hf.held j t hj
  ready j t data hj := by
    obtain ⟨hji, ht⟩ := (temp_update_none rfl).mp (temp_of_ready hj)
    rw [Function.update_of_ne hji] at hj
    have hne : t ≠ tmp := fun he => hji (hf.alone j i tmp (he ▸ ht) hi)
    rw [Function.update_of_ne hne]
    exact hf.ready j t data hj
  left t ht hne := by
    rcases eq_or_ne t tmp with rfl | htne
    · rw [Function.update_self] at hne
      exact absurd rfl hne
    rw [Function.update_of_ne htne] at hne
    refine (hf.left t ht hne).imp_left ?_
    rintro ⟨j, hj⟩
    have hji : j ≠ i := fun he => htne (Option.some.inj (hj.symm.trans (he ▸ hi)))
    exact ⟨j, (temp_update_none rfl).mpr ⟨hji, hj⟩⟩

omit [DecidableEq ι] in
/-- Bytes are filed under their hash. -/
lemma Files.file (hf : Files sha256 disk₀ phases disk) (hpath : pathFor (sha256.hex data) = some path) :
    Files sha256 disk₀ phases (Function.update disk path (some data)) where
  named sha path' data' hpath' hdata' := by
    rcases eq_or_ne path' path with rfl | hne
    · rw [Function.update_self] at hdata'
      obtain rfl := Option.some.inj hdata'
      exact pathFor_inj hpath hpath'
    · rw [Function.update_of_ne hne] at hdata'
      exact hf.named sha path' data' hpath' hdata'
  temps := hf.temps
  alone := hf.alone
  held j t ht := by
    rw [Function.update_of_ne (ne_of_isTemp hpath (hf.temps j t ht)).symm]
    exact hf.held j t ht
  ready j t data' hj := by
    rw [Function.update_of_ne (ne_of_isTemp hpath (hf.temps j t (temp_of_ready hj))).symm]
    exact hf.ready j t data' hj
  left t ht hne := by
    rw [Function.update_of_ne (ne_of_isTemp hpath ht).symm] at hne
    exact hf.left t ht hne

/-- A call that keeps to the rules keeps the files in order. -/
lemma Files.step {pre : Log} {c : Call face} {disk' : Disk} (hf : Files sha256 disk₀ phases disk)
    (hi : phases i = phase pre) (hc : Obeys sha256 pre c) (hact : Acts disk i c disk') :
    Files sha256 disk₀ (Function.update phases i (advance (phases i) c)) disk' := by
  have hstill : Files sha256 disk₀ (Function.update phases i (phases i)) disk := by
    rw [Function.update_eq_self]
    exact hf
  cases hact with
  | isFile path => exact hstill
  | mkdir dir => exact hstill
  | readBytes path data found => exact hstill
  | patchText text => exact hstill
  | mkstemp dir stem drawn free =>
    have hbefore : phases i = .before := hi.trans hc
    refine hf.own ⟨dir, stem, drawn, rfl⟩ (fun j hj => absurd free (hf.held j _ hj)) rfl ?_ ?_
    · intro tmp' data hr
      cases hr
    · intro tmp' ht
      rw [hbefore] at ht
      cases ht
  | write path data =>
    have hmade : (phases i).temp = some path := temp_of_made (hi.trans hc)
    refine hf.own (hf.temps i path hmade) (fun j hj => hf.alone j i path hj hmade) rfl ?_ ?_
    · intro tmp' data' hr
      cases hr
      exact ⟨rfl, rfl⟩
    · exact fun tmp' ht => Option.some.inj (ht.symm.trans hmade)
  | broken path data part exc cut =>
    have hmade : (phases i).temp = some path := temp_of_made (hi.trans hc)
    refine hf.own (hf.temps i path hmade) (fun j hj => hf.alone j i path hj hmade) rfl ?_ ?_
    · intro tmp' data' hr
      cases hr
    · exact fun tmp' ht => Option.some.inj (ht.symm.trans hmade)
  | replace source target data found =>
    obtain ⟨data', hready, hpath⟩ := hc
    have hr : phases i = .ready source data' := hi.trans hready
    obtain rfl := Option.some.inj (found.symm.trans (hf.ready i source data' hr))
    exact (hf.drop (temp_of_ready hr)).file hpath
  | unlink path =>
    have htemp : (phases i).temp = some path := by rw [hi]; exact hc
    exact hf.drop htemp
  | raised op exc other =>
    cases op with
    | write path data => exact absurd rfl (other path data)
    | _ => exact hstill

omit [DecidableEq ι] in
/-- What is filed stays. -/
lemma Files.stays {pre : Log} {c : Call face} {disk' : Disk} {sha : Text}
    (hf : Files sha256 disk₀ phases disk) (hi : phases i = phase pre) (hc : Obeys sha256 pre c)
    (hact : Acts disk i c disk') (hpath : pathFor sha = some path) (hthere : disk path ≠ none) :
    disk' path ≠ none := by
  have hother : ∀ tmp, (phases i).temp = some tmp → path ≠ tmp := fun tmp ht =>
    ne_of_isTemp hpath (hf.temps i tmp ht)
  cases hact with
  | isFile path => exact hthere
  | mkdir dir => exact hthere
  | readBytes path data found => exact hthere
  | patchText text => exact hthere
  | raised op exc other => exact hthere
  | mkstemp dir stem drawn free =>
    rw [Function.update_of_ne (ne_of_isTemp hpath ⟨dir, stem, drawn, rfl⟩)]
    exact hthere
  | write tmp data =>
    rw [Function.update_of_ne (hother tmp (temp_of_made (hi.trans hc)))]
    exact hthere
  | broken tmp data part exc cut =>
    rw [Function.update_of_ne (hother tmp (temp_of_made (hi.trans hc)))]
    exact hthere
  | replace source target data found =>
    obtain ⟨data', hready, -⟩ := hc
    rcases eq_or_ne path target with rfl | hne
    · simp
    rw [Function.update_of_ne hne, Function.update_of_ne (hother source (temp_of_ready (hi.trans hready)))]
    exact hthere
  | unlink tmp =>
    rw [Function.update_of_ne (hother tmp ((congrArg Phase.temp hi).trans hc))]
    exact hthere

end Files

section Answers

variable {ι : Type} [DecidableEq ι] (sha256 : Sha256)

/-- The path that a call found, or filed. -/
def settles : Call face → Option Text
  | ⟨.isFile path, .ok true⟩ | ⟨.replace _ path, .ok ()⟩ => some path
  | _ => none

/-- The path that a call did not find. -/
def denies : Call face → Option Text
  | ⟨.isFile path, .ok false⟩ => some path
  | _ => none

def readOf : Call face → Option (Text × Bytes)
  | ⟨.readBytes path, .ok data⟩ => some (path, data)
  | _ => none

/-- The files are in order, what was once found or filed is still there and was found ever after, and what
was read had the hash it was read under. -/
structure Sound (disk₀ : Disk) (log : List (ι × Call face)) (disk : Disk) : Prop where
  files : Files sha256 disk₀ (fun i => phase (callsOf i log)) disk
  settled : ∀ e ∈ log, ∀ path sha, settles e.2 = some path → pathFor sha = some path → disk path ≠ none
  denied : Each (fun pre e => ∀ path sha, denies e.2 = some path → pathFor sha = some path →
    ∀ e' ∈ pre, settles e'.2 ≠ some path) log
  reads : ∀ e ∈ log, ∀ path data sha, readOf e.2 = some (path, data) → pathFor sha = some path →
    sha256.hex data = sha

variable {sha256} {disk₀ disk disk' : Disk} {log : List (ι × Call face)} {i : ι} {c : Call face}

lemma phases_snoc : (fun j => phase (callsOf j (log ++ [(i, c)]))) =
    Function.update (fun j => phase (callsOf j log)) i (advance (phase (callsOf i log)) c) := by
  funext j
  rw [callsOf_append]
  rcases eq_or_ne j i with rfl | hj
  · rw [callsOf_self, phase_snoc, Function.update_self]
  · rw [callsOf_ne hj.symm, List.append_nil, Function.update_of_ne hj]

omit [DecidableEq ι] in
lemma Acts.settles {path : Text} (hact : Acts disk i c disk') (hc : PatchRuns.settles c = some path) :
    disk' path ≠ none := by
  cases hact with
  | isFile path' =>
    cases hd : disk path' with
    | none => simp [PatchRuns.settles, hd] at hc
    | some data =>
      simp only [PatchRuns.settles, hd, Option.isSome_some, Option.some.injEq] at hc
      rw [← hc, hd]
      exact Option.some_ne_none _
  | replace source target data found =>
    obtain rfl := Option.some.inj hc
    simp
  | raised op exc other => cases op <;> cases hc
  | _ => cases hc

omit [DecidableEq ι] in
lemma Acts.denies {path : Text} (hact : Acts disk i c disk') (hc : PatchRuns.denies c = some path) :
    disk path = none := by
  cases hact with
  | isFile path' =>
    cases hd : disk path' with
    | none =>
      simp only [PatchRuns.denies, hd, Option.isSome_none, Option.some.injEq] at hc
      rw [← hc, hd]
    | some data => simp [PatchRuns.denies, hd] at hc
  | raised op exc other => cases op <;> cases hc
  | _ => cases hc

omit [DecidableEq ι] in
lemma Acts.readOf {path : Text} {data : Bytes} (hact : Acts disk i c disk')
    (hc : PatchRuns.readOf c = some (path, data)) : disk path = some data := by
  cases hact with
  | readBytes path' data' found =>
    cases hc
    exact found
  | raised op exc other => cases op <;> cases hc
  | _ => cases hc

lemma Sound.step (hs : Sound sha256 disk₀ log disk) (hc : Obeys sha256 (callsOf i log) c)
    (hact : Acts disk i c disk') : Sound sha256 disk₀ (log ++ [(i, c)]) disk' where
  files := by
    rw [phases_snoc]
    exact hs.files.step rfl hc hact
  settled e he path sha hsettles hpath := by
    rcases List.mem_append.mp he with he | he
    · exact hs.files.stays rfl hc hact hpath (hs.settled e he path sha hsettles hpath)
    · obtain rfl := List.mem_singleton.mp he
      exact hact.settles hsettles
  denied := by
    refine hs.denied.snoc fun path sha hdenies hpath e' he' hsettles => ?_
    exact hs.settled e' he' path sha hsettles hpath (hact.denies hdenies)
  reads e he path data sha hread hpath := by
    rcases List.mem_append.mp he with he | he
    · exact hs.reads e he path data sha hread hpath
    · obtain rfl := List.mem_singleton.mp he
      exact hs.files.named sha path data hpath (hact.readOf hread)

end Answers

section Runs

/-- What a party does: it keeps the patch of a workspace, files a text, or reads a patch. -/
inductive Job
  | keep (diffSha256 : Text)
  | put (text : Text) (cap : ℕ) (diffSha256 : Text)
  | read (storedSha256 : Text)

inductive Outcome (F : Type)
  | noted (note : Json F)
  | kept (patch : KeptPatch)
  | served (data : Option Bytes)

variable {ι F : Type} [DecidableEq ι] (sha256 : Sha256) (isWide : Char → Bool)

def party : Job → Step (Outcome F)
  | .keep diffSha256 => do
    let note ← keepPatch sha256 isWide diffSha256
    pure (.noted note)
  | .put text cap diffSha256 => do
    let patch ← put sha256 isWide text cap diffSha256
    pure (.kept patch)
  | .read storedSha256 => do
    let data ← PatchStore.get sha256 storedSha256
    pure (.served data)

variable {sha256 isWide} {jobs : ι → Job} {disk₀ disk : Disk} {log : List (ι × Call face)}

lemma at_nil : At sha256 .before [] := ⟨each_nil, rfl⟩

lemma holds_party {job : Job} :
    Holds (fun _ h => At sha256 .before h) (party sha256 isWide job : Step (Outcome F))
      (Post (fun _ _ h => Clean sha256 h) fun _ h => Clean sha256 h) := by
  cases job with
  | keep diffSha256 => exact holds_bind holds_keepPatch fun note => holds_pure fun s h hc => hc
  | put text cap diffSha256 => exact holds_bind holds_put fun patch => holds_pure fun s h hc => hc.1
  | read storedSha256 => exact holds_bind holds_get fun data => holds_pure fun s h hc => hc.1

lemma clean_party (job : Job) (w : World face) :
    Clean sha256 ((party sha256 isWide job : Step (Outcome F)) w () []).2.2 := by
  have hends := @holds_party F sha256 isWide job w () [] at_nil
  obtain ⟨r, u, h, hrun⟩ : ∃ r u h, (party sha256 isWide job : Step (Outcome F)) w () [] = (r, u, h) :=
    ⟨_, _, _, rfl⟩
  rw [hrun] at hends ⊢
  cases r with
  | ok outcome => exact hends
  | error e => exact hends

lemma obeys_begun {job : Job} {calls : Log}
    (hb : Begins (party sha256 isWide job : Step (Outcome F)) () calls) : Each (Obeys sha256) calls :=
  hb.holds (fun w => (clean_party job w).obeys) fun h hn => hn.of_prefix h

lemma sound_start (hdisk₀ : ∀ sha path data, pathFor sha = some path → disk₀ path = some data →
    sha256.hex data = sha) : Sound sha256 disk₀ ([] : List (ι × Call face)) disk₀ where
  files := Files.start hdisk₀
  settled e he := by cases he
  denied := each_nil
  reads e he := by cases he

lemma sound_run (hdisk₀ : ∀ sha path data, pathFor sha = some path → disk₀ path = some data →
    sha256.hex data = sha)
    (h : Interleaved (fun i => (party sha256 isWide (jobs i) : Step (Outcome F))) () Acts disk₀ log disk) :
    Sound sha256 disk₀ log disk := by
  refine h.induct (sound_start hdisk₀) fun log disk i c disk' hs hbegins hact => ?_
  have hi := obeys_begun (hbegins i)
  rw [callsOf_append, callsOf_self] at hi
  exact hs.step (each_snoc.mp hi).2 hact

/-- A program has come back with a value, and these are its calls. -/
def Ended {α : Type} (p : Step α) (calls : Log) (a : α) : Prop :=
  ∃ w, (p w () []).1 = .ok a ∧ (p w () []).2.2 = calls

lemma Ended.post {α : Type} {p : Step α} {calls : Log} {a : α} {P : α → Unit → Log → Prop}
    {E : Unit → Log → Prop} (he : Ended p calls a) (hp : Holds (fun _ h => At sha256 .before h) p (Post P E)) :
    P a () calls := by
  obtain ⟨w, hok, hcalls⟩ := he
  have hends := hp w () [] at_nil
  rw [hok, hcalls] at hends
  exact hends

section Sample

def zeros : Text := List.replicate 64 '0'

def sampleSha : Sha256 := ⟨fun _ => zeros, fun _ => rfl⟩

def samplePath : Text := joined (dirOf zeros) (nameOf zeros)

def sampleTemp : Text := tempName (dirOf zeros) (nameOf zeros) ['x']

def samplePatch : KeptPatch := ⟨zeros, zeros, 0, 0, false, false, none⟩

def sampleWrites : List (Bool × Call face) := [
  (false, ⟨.isFile samplePath, .ok false⟩), (false, ⟨.mkdir (dirOf zeros), .ok ()⟩),
  (false, ⟨.mkstemp (dirOf zeros) (nameOf zeros), .ok ['x']⟩), (false, ⟨.write sampleTemp [], .ok ()⟩),
  (false, ⟨.replace sampleTemp samplePath, .ok ()⟩)]

def sampleReads : List (Bool × Call face) := [
  (true, ⟨.isFile samplePath, .ok true⟩), (true, ⟨.readBytes samplePath, .ok []⟩)]

/-- A world of empty texts and files. -/
def emptyWorld (there : Bool) : World face := fun _ op =>
  match op with
  | .isFile _ => .ok there
  | .mkstemp .. => .ok ['x']
  | .patchText => .ok []
  | .readBytes _ => .ok []
  | .mkdir _ | .write .. | .replace .. | .unlink _ => .ok ()

def sampleJobs (reads : Bool) : Job := if reads then .read zeros else .put [] 1 []

def sampleDisk : Disk := Function.update (Function.update (Function.update (Function.update (fun _ => none)
  sampleTemp (some [])) sampleTemp (some [])) sampleTemp none) samplePath (some [])

lemma sample_put : Ended (put sampleSha (fun _ => false) [] 1 []) (callsOf false sampleWrites) samplePatch :=
  ⟨emptyWorld false, rfl, rfl⟩

lemma sample_get :
    Ended (PatchStore.get sampleSha zeros) (callsOf true (sampleWrites ++ sampleReads)) (some []) :=
  ⟨emptyWorld true, rfl, rfl⟩

lemma sample_runs : Interleaved
    (fun i => (party sampleSha (fun _ => false) (sampleJobs i) : Step (Outcome Unit))) () Acts
    (fun _ => none) (sampleWrites ++ sampleReads) sampleDisk where
  path := by
    have hthere : sampleDisk samplePath = some [] := Function.update_self ..
    have hwritten : Path Acts (fun _ => none) sampleWrites sampleDisk :=
      ((((Path.start.call (.isFile samplePath)).call (.mkdir (dirOf zeros))).call
        (.mkstemp (dirOf zeros) (nameOf zeros) ['x'] rfl)).call (.write sampleTemp [])).call
        (.replace sampleTemp samplePath [] (Function.update_self ..))
    have hfound : Acts sampleDisk true ⟨.isFile samplePath, .ok (sampleDisk samplePath).isSome⟩ sampleDisk :=
      .isFile samplePath
    rw [hthere] at hfound
    exact (hwritten.call hfound).call (.readBytes samplePath [] hthere)
  begins i := by
    cases i with
    | false => exact ⟨emptyWorld false, [], rfl⟩
    | true => exact ⟨emptyWorld true, [], rfl⟩

end Sample

/-- However the calls of the parties are interleaved, and wherever any of them stopped, each file of the
store has the hash that names it, no two writers share a temporary file, and what was once found or filed
is still there. -/
theorem store_keeps (hdisk₀ : ∀ sha path data, pathFor sha = some path → disk₀ path = some data →
    sha256.hex data = sha)
    (h : Interleaved (fun i => (party sha256 isWide (jobs i) : Step (Outcome F))) () Acts disk₀ log disk) :
    Sound sha256 disk₀ log disk :=
  sound_run hdisk₀ h

theorem store_keeps_sample : Sound sampleSha (fun _ => none) (sampleWrites ++ sampleReads) sampleDisk :=
  store_keeps (fun _ _ _ _ h => by cases h) sample_runs

/-- A patch that was put is served to whoever reads it afterwards, under its hash. -/
theorem put_served {pre post : List (ι × Call face)} {i j : ι} {text : Text} {cap : ℕ} {diffSha256 : Text}
    {patch : KeptPatch} {r : Option Bytes}
    (hdisk₀ : ∀ sha path data, pathFor sha = some path → disk₀ path = some data → sha256.hex data = sha)
    (h : Interleaved (fun i => (party sha256 isWide (jobs i) : Step (Outcome F))) () Acts disk₀
      (pre ++ post) disk)
    (hput : Ended (put sha256 isWide text cap diffSha256) (callsOf i pre) patch)
    (hlater : callsOf j pre = [])
    (hget : Ended (PatchStore.get sha256 patch.storedSha256) (callsOf j (pre ++ post)) r) :
    patch.storedSha256 = sha256.hex (prepare sha256 isWide text cap).raw ∧
      ∃ data, r = some data ∧ sha256.hex data = patch.storedSha256 := by
  have hs := sound_run hdisk₀ h
  obtain ⟨-, hsha, path, hpath, hplaced⟩ := hput.post holds_put
  obtain ⟨-, hserved, habsent⟩ := hget.post holds_get
  refine ⟨hsha, ?_⟩
  cases r with
  | some data => exact ⟨data, rfl, hserved data rfl⟩
  | none =>
    obtain ⟨e, he, hsettles⟩ : ∃ e ∈ pre, settles e.2 = some path := by
      rcases hplaced with hfound | ⟨tmp, hfiled⟩
      · exact ⟨_, mem_callsOf.mp hfound, rfl⟩
      · exact ⟨_, mem_callsOf.mp hfiled, rfl⟩
    rcases habsent path hpath rfl with hmissing | ⟨data, hread, hne⟩
    · rw [callsOf_append, hlater, List.nil_append] at hmissing
      obtain ⟨m, n, rfl⟩ := List.append_of_mem (mem_callsOf.mp hmissing)
      refine absurd hsettles (hs.denied (pre ++ m) (j, ⟨.isFile path, .ok false⟩) n ?_ path _ rfl hpath e ?_)
      · rw [List.append_assoc]
      · exact List.mem_append_left _ he
    · exact absurd (hs.reads _ (mem_callsOf.mp hread) path data _ rfl hpath) hne

theorem put_served_sample : samplePatch.storedSha256 = sampleSha.hex (prepare sampleSha (fun _ => false) [] 1).raw ∧
    ∃ data, some [] = some data ∧ sampleSha.hex data = samplePatch.storedSha256 :=
  put_served (fun _ _ _ _ h => by cases h) sample_runs sample_put rfl sample_get

/-- Once every party has ended, and where every file that was to go went, no temporary file is left. -/
theorem store_swept (hdisk₀ : ∀ sha path data, pathFor sha = some path → disk₀ path = some data →
    sha256.hex data = sha) (hclear : ∀ tmp, IsTemp tmp → disk₀ tmp = none)
    (h : Interleaved (fun i => (party sha256 isWide (jobs i) : Step (Outcome F))) () Acts disk₀ log disk)
    (hended : ∀ i, ∃ w, ((party sha256 isWide (jobs i) : Step (Outcome F)) w () []).2.2 = callsOf i log)
    (hgone : ∀ i path exc, (i, ⟨.unlink path, .error exc⟩) ∉ log) :
    ∀ tmp, IsTemp tmp → disk tmp = none := by
  intro tmp htmp
  by_contra hthere
  rcases (sound_run hdisk₀ h).files.left tmp htmp hthere with ⟨i, hi⟩ | hne
  · obtain ⟨w, hw⟩ := hended i
    rcases (@clean_party F sha256 isWide (jobs i) w).none with hnone | ⟨path, exc, hmem⟩
    · rw [hw] at hnone
      exact absurd (hi.symm.trans hnone) (Option.some_ne_none _)
    · rw [hw] at hmem
      exact hgone i path exc (mem_callsOf.mp hmem)
  · exact hne (hclear tmp htmp)

theorem store_swept_sample : sampleDisk sampleTemp = none := by
  refine store_swept (fun _ _ _ _ h => by cases h) (fun _ _ => rfl) sample_runs (fun i => ?_) ?_ sampleTemp
    ⟨dirOf zeros, nameOf zeros, ['x'], rfl⟩
  · cases i with
    | false => exact ⟨emptyWorld false, rfl⟩
    | true => exact ⟨emptyWorld true, rfl⟩
  · simp [sampleWrites, sampleReads]

end Runs

end CommitReplay.PatchRuns
