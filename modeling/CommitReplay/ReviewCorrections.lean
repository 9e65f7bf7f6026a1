import CommitReplay.FactoryChain
import CommitReplay.PointerChains
import CommitReplay.ReviewLedger

/-! Corrections of reviews whose answer contradicts their own statement. A correction quotes the
statement in a sentence of its own, which is redacted and read by the same rule as the statement. -/
namespace CommitReplay.ReviewCorrections

open CommitReplay.PythonText CommitReplay.JsonText CommitReplay.JsonRoundTrip CommitReplay.RowChecks
open CommitReplay.GradeRows CommitReplay.HashChain CommitReplay.TailLedger CommitReplay.PointerChains
open CommitReplay.Redaction
open CommitReplay.SignoffRecords (redactStripped strip_redactStripped)
open CommitReplay.ReviewRecords CommitReplay.MergeableStatement CommitReplay.ReviewLedger

section Standing

/-- `latest_reviews`: the last record of each graded row. -/
def latestReviews (rs : List ReviewRecord) : List (String × ReviewRecord) :=
  rs.foldl (fun latest r => put r.gradeRowHash r latest) []

def standing (rs : List ReviewRecord) : List ReviewRecord := (latestReviews rs).map Prod.snd

lemma latestReviews_concat (rs : List ReviewRecord) (r : ReviewRecord) :
    latestReviews (rs ++ [r]) = put r.gradeRowHash r (latestReviews rs) := by
  rw [latestReviews, List.foldl_append, List.foldl_cons, List.foldl_nil, latestReviews]

lemma nodup_latestReviews (rs : List ReviewRecord) : (keys (latestReviews rs)).Nodup := by
  induction rs using List.reverseRecOn with
  | nil => exact List.nodup_nil
  | append_singleton rs r ih =>
    rw [latestReviews_concat]
    exact nodup_keys_put ih

lemma lookup_latestReviews_append (rs cs : List ReviewRecord) (k : String) :
    (latestReviews (rs ++ cs)).lookup k =
      ((latestReviews cs).lookup k).or ((latestReviews rs).lookup k) := by
  induction cs using List.reverseRecOn with
  | nil =>
    rw [List.append_nil]
    rfl
  | append_singleton cs c ih =>
    rw [← List.append_assoc, latestReviews_concat, latestReviews_concat, lookup_put, lookup_put, ih]
    split_ifs
    · rfl
    · rfl

lemma row_of_lookup {rs : List ReviewRecord} {k : String} {r : ReviewRecord}
    (h : (latestReviews rs).lookup k = some r) : r ∈ rs ∧ r.gradeRowHash = k := by
  induction rs using List.reverseRecOn with
  | nil => cases h
  | append_singleton rs r' ih =>
    rw [latestReviews_concat, lookup_put] at h
    split_ifs at h with hk
    · obtain rfl := Option.some.inj h
      exact ⟨List.mem_append_right _ List.mem_cons_self, hk.symm⟩
    · exact ⟨List.mem_append_left _ (ih h).1, (ih h).2⟩

lemma lookup_of_mem_rows {cs : List ReviewRecord} {c : ReviewRecord} (h : c ∈ cs) :
    ∃ c', (latestReviews cs).lookup c.gradeRowHash = some c' := by
  induction cs using List.reverseRecOn with
  | nil => cases h
  | append_singleton cs c' ih =>
    rw [latestReviews_concat, lookup_put]
    split_ifs with hk
    · exact ⟨c', rfl⟩
    · refine ih ((List.mem_append.mp h).resolve_right fun hc => hk ?_)
      rw [List.mem_singleton.mp hc]

lemma mem_standing_iff {rs : List ReviewRecord} {r : ReviewRecord} :
    r ∈ standing rs ↔ (latestReviews rs).lookup r.gradeRowHash = some r := by
  rw [standing, List.mem_map]
  constructor
  · rintro ⟨⟨k, r⟩, hp, rfl⟩
    have hlookup := lookup_of_mem (nodup_latestReviews rs) hp
    rw [(row_of_lookup hlookup).2]
    exact hlookup
  · exact fun h => ⟨_, mem_of_lookup h, rfl⟩

/-- One row, one record that stands. -/
lemma nodup_standing (rs : List ReviewRecord) : ((standing rs).map (·.gradeRowHash)).Nodup := by
  have hrows : (standing rs).map (·.gradeRowHash) = keys (latestReviews rs) := by
    rw [standing, List.map_map, keys]
    refine List.map_congr_left fun p hp => ?_
    exact (row_of_lookup (lookup_of_mem (nodup_latestReviews rs) hp)).2
  rw [hrows]
  exact nodup_latestReviews rs

/-- What stands after more records is one of them, or stood before and is of none of their rows. -/
lemma standing_append {rs cs : List ReviewRecord} {r : ReviewRecord} (h : r ∈ standing (rs ++ cs)) :
    r ∈ cs ∨ r ∈ standing rs ∧ ∀ c ∈ cs, c.gradeRowHash ≠ r.gradeRowHash := by
  rw [mem_standing_iff, lookup_latestReviews_append] at h
  cases hc : (latestReviews cs).lookup r.gradeRowHash with
  | some c =>
    rw [hc, Option.some_or] at h
    obtain rfl := Option.some.inj h
    exact .inl (row_of_lookup hc).1
  | none =>
    rw [hc, Option.none_or] at h
    refine .inr ⟨mem_standing_iff.mpr h, fun c hmem he => ?_⟩
    obtain ⟨c', hc'⟩ := lookup_of_mem_rows hmem
    rw [he, hc] at hc'
    cases hc'

end Standing

section Corrections

variable (isWide : Char → Bool)

/-- What the statement says, where the answer contradicts it and can be corrected. -/
def contradiction (r : ReviewRecord) : Option Bool :=
  if !r.reviewed then none
  else (statementMergeable isWide r.statement).filter fun said =>
    r.mergeable ≠ some said && !(said && hasRegression r.findings)

def answerRepr : Option Bool → String
  | none => "None"
  | some true => "True"
  | some false => "False"

/-- The review a note names. -/
def namedReview (r : ReviewRecord) : String := "review " ++ r.reviewId ++ " by " ++ r.reviewer ++ " "

def between (r : ReviewRecord) (said : Bool) : String := " stored the mergeable answer as " ++
  answerRepr r.mergeable ++ " while its statement answers " ++ (if said then "yes" else "no") ++
  ". Nothing else changes. The statement as written"

def correctionNote (r : ReviewRecord) (said : Bool) : String :=
  "Flag correction, appended: " ++ namedReview r ++ "(" ++ r.created ++ ")" ++ between r said ++ ": " ++
    r.statement

variable (corrector now : String) (fresh : String → Uuid)

/-- The fields of the correction of a record. -/
def correctionFields (p : ReviewRecord × Bool) : Fields where
  gradeRowHash := p.1.gradeRowHash
  repo := p.1.repo
  taskId := p.1.taskId
  reviewer := corrector
  statement := correctionNote p.1 p.2
  findings := p.1.findings
  mergeable := some p.2
  patchSha256Reviewed := p.1.patchSha256Reviewed
  evidencePackHash := p.1.evidencePackHash
  minutes := none
  apparatusVersion := p.1.apparatusVersion
  created := now
  schema := reviewSchema
  reviewId := ""
  prevHash := ""
  rowHash := ""

def correct (p : ReviewRecord × Bool) : Except ReviewError ReviewRecord :=
  ReviewRecord.make isWide (fresh p.1.gradeRowHash) p.1.verdict.name (correctionFields corrector now p)

/-- The records to correct, with what their statements say. -/
def contradictions (rs : List ReviewRecord) : List (ReviewRecord × Bool) :=
  (standing rs).filterMap fun r => (contradiction isWide r).map (r, ·)

/-- `mergeable_flag_corrections`. -/
def mergeableFlagCorrections (rs : List ReviewRecord) : Except ReviewError (List ReviewRecord) :=
  (contradictions isWide rs).mapM (correct isWide corrector now fresh)

/-- A correction of a record: the same review of the same row, with the answer of its statement. -/
structure Corrects (isWide : Char → Bool) (p : ReviewRecord × Bool) (c : ReviewRecord) : Prop where
  row : c.gradeRowHash = p.1.gradeRowHash
  verdict : c.verdict = p.1.verdict
  findings : c.findings = p.1.findings
  patch : c.patchSha256Reviewed = p.1.patchSha256Reviewed
  pack : c.evidencePackHash = p.1.evidencePackHash
  mergeable : c.mergeable = some p.2
  statement : c.statement = redactStripped isWide (correctionNote p.1 p.2)

/-- What the corrections of some records are to do. -/
structure Settle (isWide : Char → Bool) (rs cs : List ReviewRecord) : Prop where
  checked : ∀ c ∈ cs, checkMergeableStatement isWide c = .ok ()
  distinct : (cs.map (·.gradeRowHash)).Nodup
  kept : ∀ c ∈ cs, ∃ r ∈ standing rs, c.gradeRowHash = r.gradeRowHash ∧ c.verdict = r.verdict ∧
    c.findings = r.findings ∧ c.patchSha256Reviewed = r.patchSha256Reviewed ∧
    c.evidencePackHash = r.evidencePackHash
  done : ∀ corrector now fresh, mergeableFlagCorrections isWide corrector now fresh (rs ++ cs) = .ok []

end Corrections

section Notes

variable {isWide : Char → Bool}

lemma toList_between (r : ReviewRecord) (said : Bool) :
    (between r said).toList = " stored the mergeable answer as ".toList ++
      ((answerRepr r.mergeable).toList ++ (" while its statement answers ".toList ++
        ((if said then "yes" else "no").toList ++
          (". Nothing else changes.".toList ++ " The statement as written".toList)))) := by
  have hlast : ". Nothing else changes. The statement as written".toList =
      ". Nothing else changes.".toList ++ " The statement as written".toList := by rfl
  unfold between
  simp only [String.toList_append, List.append_assoc, hlast]

lemma saysNot_between (r : ReviewRecord) (said : Bool) :
    saysNot isWide (between r said).toList = false := by
  refine saysNot_of_quiet isWide ?_
  rw [toList_between]
  rcases r.mergeable with _ | _ | _ <;> cases said <;> rfl

lemma toList_correctionNote (r : ReviewRecord) (said : Bool) :
    (correctionNote r said).toList = "Flag correction, appended".toList ++ ':' :: ' ' ::
      ((namedReview r).toList ++ '(' :: (r.created.toList ++ ')' :: ((between r said).toList ++
        ':' :: ' ' :: r.statement.toList))) := by
  have hopen : "Flag correction, appended: ".toList =
      "Flag correction, appended".toList ++ [':', ' '] := by rfl
  have hlast : ": ".toList = [':', ' '] := by rfl
  have hleft : "(".toList = ['('] := by rfl
  have hright : ")".toList = [')'] := by rfl
  unfold correctionNote
  simp only [String.toList_append, hopen, hlast, hleft, hright, List.append_assoc, List.cons_append,
    List.nil_append]

lemma strip_correctionNote (r : ReviewRecord) (said : Bool) :
    strip (correctionNote r said).toList ≠ [] := by
  have hopen : 'F' ∈ "Flag correction, appended".toList := by simp
  rw [toList_correctionNote]
  exact strip_ne_nil (List.mem_append_left _ hopen) (by decide)

/-- A note says that the change is not mergeable where it names the review or gives its time so, or
where the statement it quotes says so. -/
theorem saysNot_correctionNote (r : ReviewRecord) (said : Bool) :
    saysNot isWide (correctionNote r said).toList = (saysNot isWide (namedReview r).toList ||
      saysNot isWide r.created.toList || saysNot isWide r.statement.toList) := by
  have hfirst : saysNot isWide "Flag correction, appended".toList = false :=
    saysNot_of_quiet isWide (by rfl)
  rw [toList_correctionNote, saysNot_append isWide (by decide), saysNot_space,
    saysNot_append isWide (by decide), saysNot_append isWide (by decide),
    saysNot_append isWide (by decide), saysNot_space, hfirst, saysNot_between]
  simp [Bool.or_assoc]

/-- The condition on a record to correct. Where redaction leaves the note as it is written, it may
say that the change is not mergeable only as its statement does; where it does not, what it makes
of the note may not answer the other way. -/
def Clear (isWide : Char → Bool) (p : ReviewRecord × Bool) : Prop :=
  if redactStripped isWide (correctionNote p.1 p.2) = correctionNote p.1 p.2 then
    p.2 = true → saysNot isWide (namedReview p.1).toList = false ∧
      saysNot isWide p.1.created.toList = false
  else Agrees isWide (redactStripped isWide (correctionNote p.1 p.2)) (some p.2)

lemma said_of_contradiction {r : ReviewRecord} {said : Bool} (h : contradiction isWide r = some said) :
    r.reviewed = true ∧ statementMergeable isWide r.statement = some said ∧ r.mergeable ≠ some said ∧
      ¬ (said = true ∧ hasRegression r.findings = true) := by
  rw [contradiction] at h
  split_ifs at h with hr
  obtain ⟨hsaid, hp⟩ := Option.filter_eq_some_iff.mp h
  obtain ⟨hne, hreg⟩ : ¬ r.mergeable = some said ∧ (said = false ∨ hasRegression r.findings = false) := by
    simpa using hp
  refine ⟨by simpa using hr, hsaid, hne, ?_⟩
  rintro ⟨rfl, hregression⟩
  simp [hregression] at hreg

lemma mem_contradictions {rs : List ReviewRecord} {p : ReviewRecord × Bool} :
    p ∈ contradictions isWide rs ↔ p.1 ∈ standing rs ∧ contradiction isWide p.1 = some p.2 := by
  obtain ⟨r, said⟩ := p
  simp only [contradictions, List.mem_filterMap, Option.map_eq_some_iff, Prod.mk.injEq]
  constructor
  · rintro ⟨r', hr, said', hsaid, rfl, rfl⟩
    exact ⟨hr, hsaid⟩
  · rintro ⟨hr, hsaid⟩
    exact ⟨r, hr, said, hsaid, rfl, rfl⟩

/-- The note agrees with its own answer exactly under the condition. -/
theorem agrees_note_iff {rs : List ReviewRecord} {p : ReviewRecord × Bool}
    (h : p ∈ contradictions isWide rs) :
    Agrees isWide (redactStripped isWide (correctionNote p.1 p.2)) (some p.2) ↔ Clear isWide p := by
  obtain ⟨-, hsaid, -, -⟩ := said_of_contradiction (mem_contradictions.mp h).2
  obtain ⟨r, said⟩ := p
  rw [Clear]
  split_ifs with hsame
  swap
  · rfl
  dsimp only at hsame hsaid ⊢
  rw [hsame]
  have hnote := @saysNot_correctionNote isWide r said
  have hanswer := @statementMergeable_eq_false_iff isWide (correctionNote r said)
  cases said with
  | false =>
    rw [statementMergeable_eq_false_iff] at hsaid
    rw [hsaid, Bool.or_true] at hnote
    refine iff_of_true (fun said hs => ?_) (fun hf => by cases hf)
    rw [Option.mem_def, hanswer.mpr hnote] at hs
    exact hs
  | true =>
    have hquiet : saysNot isWide r.statement.toList = false := by
      by_contra hc
      rw [(statementMergeable_eq_false_iff isWide).mpr (by simpa using hc)] at hsaid
      cases hsaid
    rw [hquiet, Bool.or_false] at hnote
    have hagrees : Agrees isWide (correctionNote r true) (some true) ↔
        statementMergeable isWide (correctionNote r true) ≠ some false := by
      rw [Agrees]
      rcases statementMergeable isWide (correctionNote r true) with _ | _ | _ <;> simp
    rw [hagrees, Ne, hanswer, hnote]
    simp

end Notes

section Settling

attribute [local irreducible] redactStripped

variable {isWide : Char → Bool} {corrector now : String} {fresh : String → Uuid}

lemma accepted_correctionFields {rs : List ReviewRecord} {p : ReviewRecord × Bool} (hc : corrector ≠ "")
    (h : p ∈ contradictions isWide rs) : (correctionFields corrector now p).Accepted p.1.verdict := by
  obtain ⟨hreviewed, -, -, hregression⟩ := said_of_contradiction (mem_contradictions.mp h).2
  have hv : p.1.verdict ≠ .notReviewed := by simpa [ReviewRecord.reviewed] using hreviewed
  have hread := p.1.accepted.read hv
  refine ⟨p.1.accepted.row, p.1.accepted.repo, p.1.accepted.task, hc, strip_correctionNote p.1 p.2,
    fun hn => absurd hn hv, fun _ => ⟨hread.derived, hread.patch, hread.sha256, ?_⟩,
    fun m hm => by cases hm⟩
  rintro ⟨hm, hf⟩
  exact hregression ⟨Option.some.inj hm, hf⟩

/-- A correction that is constructed corrects its record. -/
lemma corrects_of_correct {rs : List ReviewRecord} {p : ReviewRecord × Bool} {c : ReviewRecord}
    (hc : corrector ≠ "") (h : p ∈ contradictions isWide rs)
    (hmake : correct isWide corrector now fresh p = .ok c) : Corrects isWide p c := by
  obtain ⟨c', hc', hverdict, hfields⟩ := ReviewRecord.make_of_accepted isWide (fresh p.1.gradeRowHash)
    (@accepted_correctionFields isWide corrector now rs p hc h)
  obtain rfl := Except.ok.inj (hc'.symm.trans hmake)
  refine ⟨?_, hverdict, ?_, ?_, ?_, ?_, ?_⟩ <;> rw [hfields] <;> rfl

lemma forall₂_of_mapM {α β ε : Type} {f : α → Except ε β} {as : List α} {bs : List β}
    (h : as.mapM f = .ok bs) : List.Forall₂ (fun a b => f a = .ok b) as bs := by
  induction as generalizing bs with
  | nil =>
    obtain rfl := Except.ok.inj h
    exact .nil
  | cons a as ih =>
    rw [List.mapM_cons, bind_eq_ok] at h
    obtain ⟨b, hb, hrest⟩ := h
    obtain ⟨bs', hbs, hpure⟩ := bind_eq_ok.mp hrest
    obtain rfl := Except.ok.inj hpure
    exact .cons hb (ih hbs)

/-- What is returned corrects the records to correct, one by one. -/
lemma corrects_of_corrections {rs cs : List ReviewRecord}
    (h : mergeableFlagCorrections isWide corrector now fresh rs = .ok cs) :
    List.Forall₂ (Corrects isWide) (contradictions isWide rs) cs := by
  have hmake := forall₂_of_mapM h
  by_cases hc : corrector = ""
  · -- a record cannot be constructed without a reviewer, so there was nothing to correct
    cases hps : contradictions isWide rs with
    | nil =>
      rw [hps] at hmake
      cases hmake
      exact .nil
    | cons p ps =>
      rw [hps] at hmake
      cases hmake with
      | cons hp _ =>
        rw [correct, ReviewRecord.make, Verdict.ofName_name] at hp
        dsimp only at hp
        split at hp
        · cases hp
        · rename_i hnone
          have haccepted := (Fields.refusal_eq_none_iff _ _).mp hnone
          exact absurd hc haccepted.reviewer
  · refine (List.forall₂_iff_get.mpr ?_)
    obtain ⟨hlen, hget⟩ := List.forall₂_iff_get.mp hmake
    refine ⟨hlen, fun i h₁ h₂ => ?_⟩
    exact corrects_of_correct hc (List.get_mem _ _) (hget i h₁ h₂)

lemma nodup_rows {rs : List ReviewRecord} :
    ((contradictions isWide rs).map (·.1.gradeRowHash)).Nodup := by
  refine List.Nodup.sublist ?_ (nodup_standing rs)
  rw [contradictions]
  induction standing rs with
  | nil => exact .slnil
  | cons r rs ih =>
    rw [List.map_cons]
    cases h : contradiction isWide r with
    | none =>
      rw [List.filterMap_cons_none (by rw [h]; rfl)]
      exact .cons _ ih
    | some said =>
      rw [List.filterMap_cons_some (b := (r, said)) (by rw [h]; rfl), List.map_cons]
      exact .cons_cons _ ih

/-- Corrections that agree with their own statements settle their rows, and only those do. -/
theorem settle_iff {rs cs : List ReviewRecord}
    (h : List.Forall₂ (Corrects isWide) (contradictions isWide rs) cs) :
    Settle isWide rs cs ↔ ∀ p ∈ contradictions isWide rs, Clear isWide p := by
  have hof : ∀ c ∈ cs, ∃ p ∈ contradictions isWide rs, Corrects isWide p c := fun c hc => by
    obtain ⟨i, hi, rfl⟩ := List.getElem_of_mem hc
    obtain ⟨hlen, hget⟩ := List.forall₂_iff_get.mp h
    exact ⟨_, List.get_mem _ ⟨i, hlen ▸ hi⟩, hget i (hlen ▸ hi) hi⟩
  have hto : ∀ p ∈ contradictions isWide rs, ∃ c ∈ cs, Corrects isWide p c := fun p hp => by
    obtain ⟨i, hi, rfl⟩ := List.getElem_of_mem hp
    obtain ⟨hlen, hget⟩ := List.forall₂_iff_get.mp h
    exact ⟨_, List.get_mem _ ⟨i, hlen ▸ hi⟩, hget i hi (hlen ▸ hi)⟩
  have hreviewed : ∀ {p c}, p ∈ contradictions isWide rs → Corrects isWide p c → c.reviewed = true := by
    intro p c hp hc
    rw [ReviewRecord.reviewed, hc.verdict]
    exact (said_of_contradiction (mem_contradictions.mp hp).2).1
  have hcheck : ∀ {p c}, p ∈ contradictions isWide rs → Corrects isWide p c →
      (checkMergeableStatement isWide c = .ok () ↔ Clear isWide p) := by
    intro p c hp hc
    rw [checkMergeableStatement_eq_ok_iff, hc.statement, hc.mergeable, agrees_note_iff hp]
    exact ⟨fun hk => hk (hreviewed hp hc), fun hk _ => hk⟩
  constructor
  · intro hs p hp
    obtain ⟨c, hc, hcorrects⟩ := hto p hp
    exact (hcheck hp hcorrects).mp (hs.checked c hc)
  · intro hclear
    have hchecked : ∀ c ∈ cs, checkMergeableStatement isWide c = .ok () := fun c hc => by
      obtain ⟨p, hp, hcorrects⟩ := hof c hc
      exact (hcheck hp hcorrects).mpr (hclear p hp)
    refine ⟨hchecked, ?_, fun c hc => ?_, fun corrector now fresh => ?_⟩
    · have hrows : cs.map (·.gradeRowHash) = (contradictions isWide rs).map (·.1.gradeRowHash) := by
        have hmap : List.Forall₂ (· = ·) ((contradictions isWide rs).map (·.1.gradeRowHash))
            (cs.map (·.gradeRowHash)) :=
          List.forall₂_map_left_iff.mpr (List.forall₂_map_right_iff.mpr (h.imp fun _ _ hc => hc.row.symm))
        exact (List.forall₂_eq_eq_eq ▸ hmap).symm
      rw [hrows]
      exact nodup_rows
    · obtain ⟨p, hp, hcorrects⟩ := hof c hc
      exact ⟨p.1, (mem_contradictions.mp hp).1, hcorrects.row, hcorrects.verdict, hcorrects.findings,
        hcorrects.patch, hcorrects.pack⟩
    · have hnone : contradictions isWide (rs ++ cs) = [] := by
        refine List.eq_nil_iff_forall_not_mem.mpr fun p hp => ?_
        obtain ⟨hstanding, hcontra⟩ := mem_contradictions.mp hp
        rcases standing_append hstanding with hc | ⟨hr, hother⟩
        · obtain ⟨hread, hsaid, hne, -⟩ := said_of_contradiction hcontra
          exact hne ((checkMergeableStatement_eq_ok_iff isWide).mp (hchecked p.1 hc) hread p.2 hsaid)
        · obtain ⟨c, hc, hcorrects⟩ := hto p (mem_contradictions.mpr ⟨hr, hcontra⟩)
          exact hother c hc hcorrects.row
      rw [mergeableFlagCorrections, hnone]
      rfl

/-- The corrections of some records settle them, whoever corrects, exactly under the condition on
each record to correct. -/
theorem corrections_settle_iff (isWide : Char → Bool) (rs : List ReviewRecord) :
    (∀ corrector now fresh cs, mergeableFlagCorrections isWide corrector now fresh rs = .ok cs →
      Settle isWide rs cs) ↔ ∀ p ∈ contradictions isWide rs, Clear isWide p := by
  constructor
  · intro h
    have hall : ∃ cs, mergeableFlagCorrections isWide "maintainer" "" (fun _ => ⟨"u", by simp⟩) rs =
        .ok cs := ReadingReplay.mapM_isOk fun p hp => by
      obtain ⟨c, hc, -⟩ := ReviewRecord.make_of_accepted isWide ⟨"u", by simp⟩
        (@accepted_correctionFields isWide "maintainer" "" rs p (by simp) hp)
      exact ⟨c, hc⟩
    obtain ⟨cs, hcs⟩ := hall
    exact (settle_iff (corrects_of_corrections hcs)).mp (h _ _ _ cs hcs)
  · intro h corrector now fresh cs hcs
    exact (settle_iff (corrects_of_corrections hcs)).mpr h

end Settling

section Claim

attribute [local irreducible] redactStripped

variable {F : Type} [PyFloat F] (sha256 : Sha256) (isWide isPrintable : Char → Bool) (now : String)
  (uuid : Uuid)

end Claim

section Samples

attribute [local irreducible] Clear redactStripped

lemma reviewId_ne : "r1" ≠ "" := by simp

/-- A record of a reviewer who could not read the patch. -/
def unreadReview (statement : String) (h : strip statement.toList ≠ []) : ReviewRecord where
  gradeRowHash := "g1"
  repo := "acme/app"
  taskId := "t1"
  reviewer := "u1"
  statement := redactStripped (fun _ => false) statement
  findings := []
  mergeable := none
  patchSha256Reviewed := ""
  evidencePackHash := ""
  minutes := none
  apparatusVersion := SignoffRecords.apparatusVersion
  created := "2026-01-01T00:00:00Z"
  schema := reviewSchema
  reviewId := "r1"
  prevHash := ""
  rowHash := ""
  verdict := .notReviewed
  accepted := ⟨by simp, by simp, by simp, by simp, strip_redactStripped _ h, fun _ => ⟨rfl, rfl, rfl⟩,
    fun hn => absurd rfl hn, fun m hm => by cases hm⟩
  named := reviewId_ne

lemma stated_mergeable : strip "Mergeable.".toList ≠ [] := by decide

lemma genesisHash_ne : genesisHash ≠ "" := by decide +kernel

lemma isSha256_genesisHash : isSha256 genesisHash = true := by decide +kernel

/-- A review that says the change is mergeable and answers that it is not. -/
def contradictedReview (reviewer : String) (h : reviewer ≠ "") : ReviewRecord where
  gradeRowHash := "g1"
  repo := "acme/app"
  taskId := "t1"
  reviewer := reviewer
  statement := "Mergeable."
  findings := []
  mergeable := some false
  patchSha256Reviewed := genesisHash
  evidencePackHash := genesisHash
  minutes := none
  apparatusVersion := SignoffRecords.apparatusVersion
  created := "2026-01-01T00:00:00Z"
  schema := reviewSchema
  reviewId := "r1"
  prevHash := ""
  rowHash := ""
  verdict := .ok
  accepted := ⟨by simp, by simp, by simp, h, stated_mergeable, (fun hn => by cases hn),
    fun _ => ⟨rfl, genesisHash_ne, isSha256_genesisHash, by simp⟩, fun m hm => by cases hm⟩
  named := reviewId_ne

/-- A text that redaction leaves as it is, character by character. -/
lemma redactStripped_eq_self {isWide : Char → Bool} {s : String} {text : Text} (hs : s.toList = text)
    (h : redactText isWide (strip text) = text) : redactStripped isWide s = s := by
  rw [redactStripped, hs, h, ← hs, String.ofList_toList]

lemma contradictions_contradictedReview (reviewer : String) (h : reviewer ≠ "") :
    contradictions (fun _ => false) [contradictedReview reviewer h] =
      [(contradictedReview reviewer h, true)] := by
  have hsays : statementMergeable (fun _ => false) "Mergeable." = some true := by rfl
  have hcontra : contradiction (fun _ => false) (contradictedReview reviewer h) = some true := by
    have hreviewed : (contradictedReview reviewer h).reviewed = true := rfl
    have hstatement : (contradictedReview reviewer h).statement = "Mergeable." := rfl
    rw [contradiction, hreviewed, hstatement, hsays]
    rfl
  change List.filterMap _ [contradictedReview reviewer h] = _
  rw [List.filterMap_cons_some (b := (contradictedReview reviewer h, true)) (by rw [hcontra]; rfl),
    List.filterMap_nil]

def unreadWrite (statement : String) (h : strip statement.toList ≠ []) : Write Whole :=
  ⟨unreadReview statement h, none, none⟩

lemma passes_unreadWrite (statement : String) (h : strip statement.toList ≠ []) :
    (unreadWrite statement h).Passes (markDigest []) (fun _ => false) fun _ => false :=
  ⟨rfl, rfl⟩

/-- A reviewer whose name is read as an answer. -/
lemma not_settle_named : ¬ ∀ corrector now fresh cs, mergeableFlagCorrections (fun _ => false) corrector
    now fresh [contradictedReview "not mergeable" (by simp)] = .ok cs →
      Settle (fun _ => false) [contradictedReview "not mergeable" (by simp)] cs := by
  intro h
  obtain ⟨hclear, -⟩ := corrections_settle_iff (fun _ => false)
    [contradictedReview "not mergeable" (by simp)]
  have hclear := hclear h
  rw [contradictions_contradictedReview, List.forall_mem_singleton] at hclear
  have hnote : redactStripped (fun _ => false)
      (correctionNote (contradictedReview "not mergeable" (by simp)) true) =
        correctionNote (contradictedReview "not mergeable" (by simp)) true := by
    have htext := toList_correctionNote (contradictedReview "not mergeable" (by simp)) true
    rw [toList_between] at htext
    exact redactStripped_eq_self htext (by decide +kernel)
  rw [Clear, if_pos hnote] at hclear
  have hsays : saysNot (fun _ => false)
      (namedReview (contradictedReview "not mergeable" (by simp))).toList = true := by rfl
  rw [(hclear rfl).1] at hsays
  cases hsays

end Samples

end CommitReplay.ReviewCorrections
