import CommitReplay.GradeRows
import CommitReplay.PriorityRegex

/-! The redactor: an ordered list of expressions for the shapes of credentials, each match of which
is replaced by a marker. Which characters beyond ASCII are of a word is a table of the Unicode
version, and a parameter here. -/
namespace CommitReplay.Redaction

open CommitReplay.PythonText CommitReplay.GradeRows CommitReplay.PriorityRegex

variable (isWide : Char → Bool)

section Classes

/-- The case folding of a pattern that ignores case, for the letters of ASCII. -/
def foldCase (c : Char) : Char :=
  if c.toNat = 0x130 ∨ c.toNat = 0x131 then 'i'
  else if c.toNat = 0x17F then 's'
  else if c.toNat = 0x212A then 'k'
  else c.toLower

def isWord (c : Char) : Bool :=
  if c.toNat < 128 then c.isAlphanum || c = '_' else isWide c

def isUpperDigit (c : Char) : Bool := c.isUpper || c.isDigit

/-- `[A-Za-z0-9]` and some more characters. -/
def isAlnumOr (more : String) (c : Char) : Bool := c.isAlphanum || c ∈ more.toList

def notSpaceOr (more : String) (c : Char) : Bool := !isSpace c && c ∉ more.toList

end Classes

section Patterns

def exact (w : String) : Rx := .lit id w.toList

/-- A lower case text, whatever the case it is written in. -/
def anyCase (w : String) : Rx := .lit foldCase w.toList

def oneOf (chars : String) : Rx := .one (· ∈ chars.toList)

@[simp] def anyOf : List Rx → Rx
  | [] => .one fun _ => false
  | [a] => a
  | a :: as => .alt a (anyOf as)

def spaces : Rx := .many 0 none isSpace

def wordBound : Rx := .bound (isWord isWide)

def authorization : Rx := .concat [
  .group 1 (.concat [anyCase "authorization", spaces, oneOf ":=", spaces]),
  .group 2 (anyOf [anyCase "bearer", anyCase "basic"]),
  .many 1 none isSpace,
  .many 8 none fun c => isAlnumOr "._~+/=-" (foldCase c)]

def apiKey : Rx := .concat [wordBound isWide, .group 1 (anyOf [exact "sk", exact "rk", exact "pk"]),
  exact "-", .opt (anyOf [exact "live", exact "test", exact "proj", exact "ant"]), .opt (exact "-"),
  .many 16 none (isAlnumOr "_-"), wordBound isWide]

def githubToken : Rx := .concat [wordBound isWide,
  anyOf [.seq (exact "gh") (oneOf "pousr"), exact "github_pat"], exact "_",
  .many 20 none (isAlnumOr "_"), wordBound isWide]

def slackToken : Rx := .concat [wordBound isWide, exact "xox", oneOf "abprs", exact "-",
  .many 10 none (isAlnumOr "-"), wordBound isWide]

def awsKey : Rx := .concat [wordBound isWide, exact "AKIA", .many 16 (some 16) isUpperDigit,
  wordBound isWide]

def gcpKey : Rx := .concat [wordBound isWide, exact "AIza", .many 30 none (isAlnumOr "_-"),
  wordBound isWide]

def webToken : Rx := .concat [wordBound isWide, exact "eyJ", .many 10 none (isAlnumOr "_-"),
  exact ".", .many 10 none (isAlnumOr "_-"), exact ".", .many 10 none (isAlnumOr "_-"),
  wordBound isWide]

/-- A character of the name of a secret. -/
def nameChars : Rx := .many 0 none fun c => isAlnumOr "_" (foldCase c)

def secretName : Rx := anyOf [anyCase "secret", anyCase "token", anyCase "password",
  anyCase "passwd", .concat [anyCase "api", .opt (oneOf "_-"), anyCase "key"],
  .concat [anyCase "access", .opt (oneOf "_-"), anyCase "key"]]

def keyValue : Rx := .concat [wordBound isWide, .group 1 (.concat [nameChars, secretName, nameChars]),
  spaces, oneOf "=:", spaces, .opt (oneOf "'\""), .group 2 (.many 6 none (notSpaceOr "'\"&"))]

def userInfo : Rx := .concat [
  .group 1 (.concat [anyCase "http", .opt (anyCase "s"), exact "://",
    .many 1 none (notSpaceOr "/:@"), exact ":"]),
  .many 1 none (notSpaceOr "@/"), .group 2 (exact "@")]

def upperOrBlank : Rx := .many 0 none fun c => c.isUpper || c = ' '

def privateKey : Rx := .concat [exact "-----BEGIN ", upperOrBlank, exact "PRIVATE KEY-----",
  .fewest fun _ => true, exact "-----END ", upperOrBlank, exact "PRIVATE KEY-----"]

/-- The patterns with their replacements, in the order they are applied. -/
def patterns : List (Rx × (List (ℕ × Text) → Text)) := [
  (authorization, fun g => groupText g 1 ++ groupText g 2 ++ " [REDACTED]".toList),
  (apiKey isWide, fun _ => "[REDACTED-KEY]".toList),
  (githubToken isWide, fun _ => "[REDACTED-GH]".toList),
  (slackToken isWide, fun _ => "[REDACTED-SLACK]".toList),
  (awsKey isWide, fun _ => "[REDACTED-AWS]".toList),
  (gcpKey isWide, fun _ => "[REDACTED-GCP]".toList),
  (webToken isWide, fun _ => "[REDACTED-JWT]".toList),
  (keyValue isWide, fun g => groupText g 1 ++ "=[REDACTED]".toList),
  (userInfo, fun g => groupText g 1 ++ "[REDACTED]".toList ++ groupText g 2),
  (privateKey, fun _ => "[REDACTED-PRIVATE-KEY]".toList)]

def redactText (text : Text) : Text :=
  (patterns isWide).foldl (fun out p => sub p.1 p.2 out) text

def redact (text : String) : String := .ofList (redactText isWide text.toList)

/-- `redact_and_cap`: the end of a long text is kept. -/
def redactAndCap (maxChars : ℕ) (text : Text) : Text :=
  let out := redactText isWide text
  if maxChars < out.length then out.drop (out.length - maxChars) else out

example : redact (fun _ => false) "password = 'hunter22' and AKIA0123456789ABCDEF" =
    "password=[REDACTED]' and [REDACTED-AWS]" := by rfl

end Patterns

section Facts

variable {isWide}

/-- A text is left as it is, or a marker stands in it. -/
theorem redactText_eq_or_mem (s : Text) :
    redactText isWide s = s ∨ '[' ∈ redactText isWide s := by
  have hmarks : ∀ p ∈ patterns isWide, ∀ g, '[' ∈ p.2 g := by
    intro p hp g
    simp only [patterns, List.mem_cons, List.not_mem_nil, or_false] at hp
    rcases hp with rfl | rfl | rfl | rfl | rfl | rfl | rfl | rfl | rfl | rfl <;>
      simp [List.mem_append]
  unfold redactText
  generalize patterns isWide = ps at hmarks
  induction ps using List.reverseRecOn with
  | nil => exact .inl rfl
  | append_singleton ps p ih =>
    rw [List.foldl_append, List.foldl_cons, List.foldl_nil]
    have hps := ih fun q hq => hmarks q (List.mem_append_left _ hq)
    rcases sub_eq_or_mem (r := p.1) (hmarks p (by simp))
      (ps.foldl (fun out p => sub p.1 p.2 out) s) with he | hm
    · rwa [he]
    · exact .inr hm

lemma dead_hex_lit {fold : Char → Char} {w : Text} (d : Char) (hd : d ∈ w)
    (h : hexDigits.toList.all (fun c => fold c != d) = true) :
    Dead (· ∈ hexDigits.toList) (.lit fold w) :=
  dead_lit hd fun c hc => bne_iff_ne.mp (List.all_eq_true.mp h c hc)

/-- No pattern has a match among hexadecimal digits. -/
lemma dead_patterns : ∀ p ∈ patterns isWide, Dead (· ∈ hexDigits.toList) p.1 := by
  intro p hp
  simp only [patterns, List.mem_cons, List.not_mem_nil, or_false] at hp
  rcases hp with rfl | rfl | rfl | rfl | rfl | rfl | rfl | rfl | rfl | rfl
  · refine dead_concat List.mem_cons_self (dead_group (dead_concat List.mem_cons_self ?_))
    exact dead_hex_lit 'u' (by simp) (by rfl)
  · exact dead_concat (a := exact "-") (by simp) (dead_hex_lit '-' (by simp) (by rfl))
  · exact dead_concat (a := exact "_") (by simp) (dead_hex_lit '_' (by simp) (by rfl))
  · exact dead_concat (a := exact "xox") (by simp) (dead_hex_lit 'x' (by simp) (by rfl))
  · exact dead_concat (a := exact "AKIA") (by simp) (dead_hex_lit 'K' (by simp) (by rfl))
  · exact dead_concat (a := exact "AIza") (by simp) (dead_hex_lit 'z' (by simp) (by rfl))
  · exact dead_concat (a := exact "eyJ") (by simp) (dead_hex_lit 'y' (by simp) (by rfl))
  · have hall : hexDigits.toList.all (fun c => !decide (c ∈ "=:".toList)) = true := by
      rfl
    refine dead_concat (a := oneOf "=:") (by simp) (dead_one fun c hc => ?_)
    simpa using List.all_eq_true.mp hall c hc
  · refine dead_concat (a := .group 2 (exact "@")) (by simp) (dead_group ?_)
    exact dead_hex_lit '@' (by simp) (by rfl)
  · exact dead_concat List.mem_cons_self (dead_hex_lit 'B' (by simp) (by rfl))

theorem redact_hex {s : String} (h : ∀ c ∈ s.toList, c ∈ hexDigits.toList) :
    redact isWide s = s := by
  have hps : ∀ ps : List (Rx × (List (ℕ × Text) → Text)),
      (∀ p ∈ ps, Dead (· ∈ hexDigits.toList) p.1) →
      ps.foldl (fun out p => sub p.1 p.2 out) s.toList = s.toList := by
    intro ps hdead
    induction ps with
    | nil => rfl
    | cons p ps ih =>
      rw [List.foldl_cons, sub_eq_self (hdead p (by simp)) h, ih fun q hq => hdead q (by simp [hq])]
  rw [redact, redactText, hps _ dead_patterns, String.ofList_toList]

end Facts

end CommitReplay.Redaction
