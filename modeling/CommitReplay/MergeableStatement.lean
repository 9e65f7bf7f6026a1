import CommitReplay.Redaction
import CommitReplay.RegexSearch
import CommitReplay.ReviewRecords

/-! What the words of a review say about merging the change, and the check that the review's answer
agrees with them. -/
namespace CommitReplay.MergeableStatement

open CommitReplay.PythonText CommitReplay.PriorityRegex CommitReplay.RegexSearch CommitReplay.Redaction
open CommitReplay.ReviewRecords

variable (isWide : Char → Bool)

section Patterns

/-- The words that may stand between a negation and what it negates. -/
def negationKeeps : List String := ["be", "been", "yet", "really", "quite", "currently", "entirely",
  "fully", "safely", "cleanly", "directly", "immediately", "obviously", "necessarily",
  "straightforwardly"]

def someSpace : Rx := .many 1 none isSpace

def keep : Rx := .seq (anyOf (negationKeeps.map anyCase)) someSpace

def negation : Rx := anyOf [.seq (wordBound isWide) (anyCase "not"),
  .seq (wordBound isWide) (anyCase "never"), .concat [anyCase "n", oneOf "'’", anyCase "t"]]

/-- `mergeable\b`. -/
def mergeableWord : Rx := .seq (anyCase "mergeable") (wordBound isWide)

/-- `_NOT_MERGEABLE`. -/
def notMergeable : Rx := .alt
  (.concat [negation isWide, someSpace, .opt (.seq keep (.opt keep)), mergeableWord isWide])
  (.concat [wordBound isWide, .alt (anyCase "un") (.seq (anyCase "non") (.opt (exact "-"))),
    mergeableWord isWide])

/-- `_OPENS_MERGEABLE`, which is tried at the beginning only. -/
def opensMergeable : Rx := .seq (.many 0 none fun c => !isWord isWide c) (mergeableWord isWide)

/-- `_IS_MERGEABLE`. -/
def isMergeable : Rx := .concat [wordBound isWide,
  anyOf [anyCase "is", anyCase "are", anyCase "looks", anyCase "judged"], someSpace, mergeableWord isWide]

end Patterns

section Sentences

def isSentenceEnd (c : Char) : Bool := c ∈ ".;!?".toList

/-- `_SENTENCE_END.split`: white space after the end of a sentence separates; `cur` is what has been
read of the sentence, the last character first. -/
def splitFrom : Bool → Text → Text → List Text
  | _, cur, [] => [cur.reverse]
  | true, cur, c :: cs => if isSpace c then splitFrom true cur cs else splitFrom false (c :: cur) cs
  | false, cur, c :: cs =>
    if isSpace c && cur.head?.any isSentenceEnd then cur.reverse :: splitFrom true [] cs
    else splitFrom false (c :: cur) cs

def sentences (s : Text) : List Text := splitFrom false [] s

/-- A sentence that is no question and says the change is mergeable. -/
def asserts (sentence : Text) : Bool :=
  let s := strip sentence
  s ≠ [] && s.getLast? ≠ some '?' &&
    (matchesAt (opensMergeable isWide) none s || search (isMergeable isWide) s)

end Sentences

/-- Whether the words say that the change is not mergeable. -/
def saysNot (s : Text) : Bool := search (notMergeable isWide) s

/-- `statement_mergeable`. -/
def statementMergeable (statement : String) : Option Bool :=
  if saysNot isWide statement.toList then some false
  else if (sentences statement.toList).any (asserts isWide) then some true
  else none

lemma statementMergeable_eq_false_iff {statement : String} :
    statementMergeable isWide statement = some false ↔ saysNot isWide statement.toList = true := by
  rw [statementMergeable]
  split_ifs with h <;> simp [h]

/-- `check_mergeable_statement`. -/
def checkMergeableStatement (r : ReviewRecord) : Except ReviewError Unit :=
  if !r.reviewed then .ok ()
  else match statementMergeable isWide r.statement with
    | none => .ok ()
    | some said =>
      if r.mergeable = some said then .ok ()
      else .error (.refused (.mergeableContradicts said r.mergeable))

/-- The words do not answer, or answer as the review does. -/
def Agrees (statement : String) (mergeable : Option Bool) : Prop :=
  ∀ said ∈ statementMergeable isWide statement, mergeable = some said

instance (statement : String) (mergeable : Option Bool) : Decidable (Agrees isWide statement mergeable) :=
  decidable_of_iff (statementMergeable isWide statement = none ∨
    statementMergeable isWide statement = mergeable) (by
      rw [Agrees]
      cases statementMergeable isWide statement <;> simp [eq_comm])

lemma checkMergeableStatement_eq_ok_iff {r : ReviewRecord} :
    checkMergeableStatement isWide r = .ok () ↔
      (r.reviewed = true → Agrees isWide r.statement r.mergeable) := by
  rw [checkMergeableStatement, Agrees]
  cases r.reviewed with
  | false => simp
  | true =>
    cases statementMergeable isWide r.statement with
    | none => simp
    | some said =>
      by_cases h : r.mergeable = some said <;> simp [h]

section Cuts

lemma isWord_of_cut {x : Char} (hx : x ∈ ":() ".toList) : isWord isWide x = false := by
  have hall : ":() ".toList.all (fun x => x.toNat < 128 && !(x.isAlphanum || x = '_')) = true := by rfl
  have h := List.all_eq_true.mp hall x hx
  rw [Bool.and_eq_true, decide_eq_true_eq] at h
  rw [isWord, if_pos h.1]
  simpa using h.2

lemma ofNoWord_notMergeable {x : Char} (hx : x ∈ ":() ".toList) : OfNoWord x (notMergeable isWide) := by
  have h := isWord_of_cut isWide hx
  simp [notMergeable, negation, keep, someSpace, mergeableWord, negationKeeps, anyCase, oneOf, exact,
    wordBound, h]

lemma foreign_notMergeable {x : Char} (hx : x ∈ ":()".toList) : Foreign x (notMergeable isWide) := by
  have hlits : ":()".toList.all (fun x => (["not", "never", "n", "t", "mergeable", "un", "non"] ++
      negationKeeps).all fun w => !w.toList.contains (foldCase x)) = true := by rfl
  have hclasses : ":()".toList.all (fun x => !isSpace x && !"'’".toList.contains x &&
      !"-".toList.contains (id x)) = true := by rfl
  have hw := List.all_eq_true.mp hlits x hx
  have hc := List.all_eq_true.mp hclasses x hx
  simp only [negationKeeps, List.cons_append, List.nil_append, List.all_cons, List.all_nil,
    Bool.and_eq_true, Bool.not_eq_true', List.contains_eq_mem, decide_eq_false_iff_not] at hw hc
  simp only [notMergeable, negation, keep, someSpace, mergeableWord, negationKeeps, anyCase, oneOf, exact,
    wordBound, Foreign, Rx.concat, Rx.opt, anyOf, List.map_cons, List.map_nil, hw, hc, not_false_eq_true,
    decide_false, and_self, List.not_mem_nil]

/-- A match begins as `not`, `never`, `un` or `non` does. -/
lemma matchesAt_head {c : Char} (hn : foldCase c ≠ 'n') (hu : foldCase c ≠ 'u') (prev : Option Char)
    (cs : Text) : matchesAt (notMergeable isWide) prev (c :: cs) = false := by
  by_cases hbound : prev.any (isWord isWide) = isWord isWide c <;>
    simp [matchesAt, run, notMergeable, negation, wordBound, anyCase, hbound, hn, hu]

/-- What is said before a colon or a bracket, and what is said after it. -/
lemma saysNot_append {x : Char} (hx : x ∈ ":()".toList) (a b : Text) :
    saysNot isWide (a ++ x :: b) = (saysNot isWide a || saysNot isWide b) := by
  have hcut : x ∈ ":() ".toList := by
    have hall : ":()".toList.all (fun x => ":() ".toList.contains x) = true := by rfl
    simpa using List.all_eq_true.mp hall x hx
  exact search_append (ofNoWord_notMergeable isWide hcut) (foreign_notMergeable isWide hx) a b

lemma saysNot_space (s : Text) : saysNot isWide (' ' :: s) = saysNot isWide s :=
  search_cons (ofNoWord_notMergeable isWide (by decide)) (matchesAt_head isWide (by decide) (by decide) _ s)

lemma dead_notMergeable : Dead (foldCase · ≠ 'b') (notMergeable isWide) := by
  have hword : Dead (foldCase · ≠ 'b') (mergeableWord isWide) :=
    dead_seq_left (dead_lit (by decide) fun c hc => hc)
  intro s hs
  have hfirst : run (.concat [negation isWide, someSpace, .opt (.seq keep (.opt keep)),
      mergeableWord isWide]) s = [] := dead_concat (by simp) hword s hs
  have hsecond : run (.concat [wordBound isWide, .alt (anyCase "un") (.seq (anyCase "non")
      (.opt (exact "-"))), mergeableWord isWide]) s = [] := dead_concat (by simp) hword s hs
  rw [notMergeable, run, hfirst, hsecond]
  rfl

/-- No `n` or `u` of the text has a `b` behind it. -/
def quiet : Text → Bool
  | [] => true
  | c :: cs => (foldCase c ≠ 'n' && foldCase c ≠ 'u' || (c :: cs).all (foldCase · ≠ 'b')) && quiet cs

lemma saysNot_of_quiet {s : Text} (h : quiet s = true) : saysNot isWide s = false := by
  suffices hall : ∀ prev, searchFrom (notMergeable isWide) prev s = false from hall none
  induction s with
  | nil =>
    intro prev
    rw [searchFrom, matchesAt, dead_notMergeable isWide _ (by simp)]
    rfl
  | cons c cs ih =>
    intro prev
    rw [quiet, Bool.and_eq_true] at h
    rw [searchFrom, ih h.2, Bool.or_false]
    rcases Bool.or_eq_true_iff.mp h.1 with hhead | hnone
    · obtain ⟨hn, hu⟩ := Bool.and_eq_true_iff.mp hhead
      exact matchesAt_head isWide (by simpa using hn) (by simpa using hu) prev cs
    · rw [matchesAt, dead_notMergeable isWide _ (by simpa using hnone)]
      rfl

end Cuts

end CommitReplay.MergeableStatement
