import CommitReplay.Postconditions
import CommitReplay.Redaction
import CommitReplay.JsonValue

/-! The store of kept patches: a patch is hashed, redacted and cut to a cap, and its bytes are filed under
their own hash, through a temporary file that is renamed. -/
namespace CommitReplay.PatchStore

open CommitReplay.PythonText CommitReplay.JsonValue CommitReplay.Redaction
open CommitReplay.Interaction CommitReplay.Postconditions

section Digests

def hexDigits : Text := "0123456789abcdef".toList

/-- `is_sha256` -/
def isSha256 (value : Text) : Bool := value.length = 64 && value.all fun ch => ch ∈ hexDigits

/-- SHA-256 of bytes, of which the model keeps the form of its digest. -/
structure Sha256 where
  hex : Bytes → Text
  isSha256 : ∀ b, isSha256 (hex b) = true

end Digests

section Prepare

/-- `bytes.decode("utf-8", errors="ignore")`. -/
def utf8Ignore (bs : Bytes) : Text := (utf8Scan bs).filterMap id

structure Prepared where
  fullSha : Text
  raw : Bytes
  redacted : Bool
  truncated : Bool

variable (sha256 : Sha256) (isWide : Char → Bool)

def patchStoreMaxBytes : ℕ := 1024 * 1024

/-- `prepare` -/
def prepare (text : Text) (cap : ℕ) : Prepared :=
  let full := utf8Encode text
  let body := redactText isWide text
  let raw := utf8Encode body
  let truncated := cap < raw.length
  {
    fullSha := sha256.hex full
    raw := if truncated then utf8Encode (utf8Ignore (raw.take cap)) else raw
    redacted := body ≠ text
    truncated }

end Prepare

section Notes

structure KeptPatch where
  sha256 : Text
  storedSha256 : Text
  bytes : ℕ
  storedBytes : ℕ
  redacted : Bool
  truncated : Bool
  anchored : Option Bool

variable {F : Type}

/-- `to_note` -/
def KeptPatch.toNote (p : KeptPatch) : Json F := .obj [
  ("sha256", .str (.ofList p.sha256)), ("stored_sha256", .str (.ofList p.storedSha256)),
  ("bytes", .int p.bytes), ("stored_bytes", .int p.storedBytes), ("redacted", .bool p.redacted),
  ("truncated", .bool p.truncated), ("anchored", p.anchored.elim .null .bool)]

end Notes

section Paths

def patchSuffix : Text := ".diff".toList

def tempSuffix : Text := ".tmp".toList

/-- A directory of the store: the first two characters of the hashes in it. -/
def dirOf (storedSha256 : Text) : Text := storedSha256.take 2

def nameOf (storedSha256 : Text) : Text := storedSha256 ++ patchSuffix

def joined (dir name : Text) : Text := dir ++ '/' :: name

/-- `path_for`, from the root of the store; not for what is no hash. -/
def pathFor (storedSha256 : Text) : Option Text :=
  if isSha256 storedSha256 then some (joined (dirOf storedSha256) (nameOf storedSha256)) else none

end Paths

section Interface

/-- What the file system and the workspace are asked. `mkstemp` answers the characters between the prefix
and the suffix. -/
inductive Op
  | isFile (path : Text)
  | mkdir (dir : Text)
  | mkstemp (dir stem : Text)
  | write (path : Text) (data : Bytes)
  | replace (source target : Text)
  | unlink (path : Text)
  | readBytes (path : Text)
  | patchText

abbrev Op.Ans : Op → Type
  | isFile _ => Bool
  | mkstemp .. | patchText => Text
  | readBytes _ => Bytes
  | mkdir _ | write .. | replace .. | unlink _ => Unit

/-- An exception by its type and message; an exit is no `Exception`. -/
inductive Fault
  | os (type message : Text)
  | other (type message : Text)
  | exit (type : Text)

abbrev face : Interface := ⟨Op, Op.Ans, Fault⟩

abbrev Step (α : Type) := Prog face Empty Unit α

def ask (op : Op) : Step op.Ans := Prog.call (I := face) op

/-- `contextlib.suppress(OSError)` -/
def suppressing (p : Step Unit) : Step Unit :=
  catching p fun exc =>
    match exc with
    | .os .. => pure ()
    | exc => Prog.raise exc

end Interface

section Store

variable (sha256 : Sha256) (isWide : Char → Bool)

/-- The name of a temporary file: a prefix of the writer, what `mkstemp` drew, and a suffix. -/
def tempName (dir stem drawn : Text) : Text := joined dir ('.' :: stem ++ '.' :: drawn ++ tempSuffix)

def notNamed : Fault :=
  .other "ValueError".toList "a kept patch is named by a 64-character lowercase sha256".toList

/-- A file of the writer's own is written and takes its name at once; it goes when that fails. -/
def writeThrough (path tmp : Text) (data : Bytes) : Step Unit :=
  Prog.attempt (do
    ask (.write tmp data)
    ask (.replace tmp path)) fun e => do
      suppressing (ask (.unlink tmp))
      Prog.halt e

/-- `put_bytes` -/
def putBytes (data : Bytes) : Step Text := do
  let sha := sha256.hex data
  match pathFor sha with
  | none => Prog.raise notNamed
  | some path =>
    if ← ask (.isFile path) then pure sha
    else
      ask (.mkdir (dirOf sha))
      let drawn ← ask (.mkstemp (dirOf sha) (nameOf sha))
      writeThrough path (tempName (dirOf sha) (nameOf sha) drawn) data
      pure sha

/-- `put` -/
def put (text : Text) (cap : ℕ) (diffSha256 : Text) : Step KeptPatch := do
  let prepared := prepare sha256 isWide text cap
  let stored ← putBytes sha256 prepared.raw
  pure {
    sha256 := prepared.fullSha
    storedSha256 := stored
    bytes := (utf8Encode text).length
    storedBytes := prepared.raw.length
    redacted := prepared.redacted
    truncated := prepared.truncated
    anchored := if diffSha256 = [] then none else some (prepared.fullSha = diffSha256) }

/-- `get`: what no longer hashes to its name is not served. -/
def get (storedSha256 : Text) : Step (Option Bytes) :=
  match pathFor storedSha256 with
  | none => pure none
  | some path => do
    if ← ask (.isFile path) then
      let data ← ask (.readBytes path)
      pure (if sha256.hex data = storedSha256 then some data else none)
    else pure none

/-- `keep_patch`: a failure is a note. -/
def keepPatch {F : Type} (diffSha256 : Text) : Step (Json F) :=
  let failed (type message : Text) : Json F :=
    .obj [("error", .str (.ofList ((redactText isWide (type ++ ": ".toList ++ message)).take 300)))]
  catching (do
    let text ← ask .patchText
    let kept ← put sha256 isWide text patchStoreMaxBytes diffSha256
    pure kept.toNote) fun exc =>
    match exc with
    | .os type message | .other type message => pure (failed type message)
    | .exit type => Prog.raise (.exit type)

end Store

end CommitReplay.PatchStore
