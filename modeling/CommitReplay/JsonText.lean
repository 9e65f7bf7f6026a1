import CommitReplay.JsonValue

/-! The text of JSON values: the printer `json.dumps(ensure_ascii=False, sort_keys=True)` under
either choice of separators, and the reader `json.loads`. -/
namespace CommitReplay.JsonText

open CommitReplay.PythonText CommitReplay.JsonValue

section Scanner

def isJsonSpace (c : Char) : Bool := c = ' ' || c = '\t' || c = '\n' || c = '\r'

def skipSpace (s : Text) : Text := s.dropWhile isJsonSpace

/-- The integer part of a number literal: no leading zero but a lone one. -/
def scanInt (s : Text) : Option (Text × Text) :=
  match s with
  | '-' :: cs => (scanNat cs).map fun p => ('-' :: p.1, p.2)
  | cs => scanNat cs
where
  scanNat : Text → Option (Text × Text)
    | [] => none
    | c :: cs =>
      if c = '0' then some (['0'], cs)
      else if c.isDigit then some (c :: cs.takeWhile Char.isDigit, cs.dropWhile Char.isDigit)
      else none

def scanFrac (s : Text) : Text × Text :=
  match s with
  | '.' :: cs =>
    if cs.takeWhile Char.isDigit = [] then ([], s)
    else ('.' :: cs.takeWhile Char.isDigit, cs.dropWhile Char.isDigit)
  | _ => ([], s)

def scanExp (s : Text) : Text × Text :=
  match s with
  | [] => ([], s)
  | e :: cs =>
    let sign := cs.takeWhile (fun c => c = '+' || c = '-') |>.take 1
    let ds := cs.drop sign.length
    if (e = 'e' ∨ e = 'E') ∧ ds.takeWhile Char.isDigit ≠ [] then
      (e :: sign ++ ds.takeWhile Char.isDigit, ds.dropWhile Char.isDigit)
    else ([], s)

/-- The literals of the numbers that are not finite. -/
def nonFinite : List Text :=
  [['N', 'a', 'N'], ['I', 'n', 'f', 'i', 'n', 'i', 't', 'y'],
    ['-', 'I', 'n', 'f', 'i', 'n', 'i', 't', 'y']]

/-- A number literal at the head of the text: the literal, whether it reads as a float, and
the text after it. -/
def scanNumber (s : Text) : Option (Text × Bool × Text) :=
  match scanInt s with
  | some (i, r) =>
    let f := scanFrac r
    let e := scanExp f.2
    some (i ++ f.1 ++ e.1, f.1 ≠ [] || e.1 ≠ [], e.2)
  | none =>
    (nonFinite.find? fun w => w.isPrefixOf s).map fun w => (w, true, s.drop w.length)

/-- What may follow a number literal for it to end where it was written to end. -/
def NumberStop (rest : Text) : Prop :=
  ∀ c ∈ rest.head?, c.isDigit = false ∧ c ≠ '.' ∧ c ≠ 'e' ∧ c ≠ 'E'

/-- Floating point numbers with their text in JSON: each is one float literal, and reading
the literal gives the number back. -/
class PyFloat (F : Type) where
  text : F → Text
  ofText : Text → F
  /-- `0.0`, and `x == 0`, `x == 1` and `x > 0`. -/
  zero : F
  isZero : F → Bool
  isOne : F → Bool
  isPositive : F → Bool
  ofText_text : ∀ x, ofText (text x) = x
  scan_text : ∀ x rest, NumberStop rest → scanNumber (text x ++ rest) = some (text x, true, rest)

end Scanner

section Printer

variable {F : Type} [PyFloat F]

/-- The escapes of `json.dumps` with `ensure_ascii=False`. -/
def escChar (c : Char) : Text :=
  if c = '"' then ['\\', '"']
  else if c = '\\' then ['\\', '\\']
  else if c = '\n' then ['\\', 'n']
  else if c = '\r' then ['\\', 'r']
  else if c = '\t' then ['\\', 't']
  else if c.toNat = 8 then ['\\', 'b']
  else if c.toNat = 12 then ['\\', 'f']
  else if c.toNat < 32 then
    ['\\', 'u', '0', '0', Nat.digitChar (c.toNat / 16), Nat.digitChar (c.toNat % 16)]
  else [c]

def quote (s : String) : Text := '"' :: s.toList.flatMap escChar ++ ['"']

def intText : ℤ → Text
  | .ofNat n => Nat.toDigits 10 n
  | .negSucc n => '-' :: Nat.toDigits 10 (n + 1)

/-- The parts with a comma, and the separator's white space, between each two. -/
def joined (pad : Text) : List Text → Text
  | [] => []
  | [t] => t
  | t :: u :: ts => t ++ ',' :: pad ++ joined pad (u :: ts)

mutual

/-- `json.dumps` with keys sorted; `pad` is what follows each comma and colon. -/
def dumps (pad : Text) : Json F → Text
  | .null => ['n', 'u', 'l', 'l']
  | .bool true => ['t', 'r', 'u', 'e']
  | .bool false => ['f', 'a', 'l', 's', 'e']
  | .int n => intText n
  | .float x => PyFloat.text x
  | .str s => quote s
  | .arr xs => '[' :: joined pad (dumpsAll pad xs) ++ [']']
  | .obj fields => '{' :: joined pad (dumpsFields pad fields) ++ ['}']
termination_by structural v => v

def dumpsAll (pad : Text) : List (Json F) → List Text
  | [] => []
  | v :: vs => dumps pad v :: dumpsAll pad vs
termination_by structural vs => vs

def dumpsFields (pad : Text) : List (String × Json F) → List Text
  | [] => []
  | p :: ps => dumpsField pad p :: dumpsFields pad ps
termination_by structural ps => ps

def dumpsField (pad : Text) : String × Json F → Text
  | (k, v) => quote k ++ ':' :: pad ++ dumps pad v
termination_by structural p => p

end

@[simp] lemma dumpsAll_eq (pad : Text) (vs : List (Json F)) :
    dumpsAll pad vs = vs.map (dumps pad) := by
  induction vs with
  | nil => rfl
  | cons v vs ih => rw [dumpsAll, ih, List.map_cons]

@[simp] lemma dumpsFields_eq (pad : Text) (ps : List (String × Json F)) :
    dumpsFields pad ps = ps.map fun p => quote p.1 ++ ':' :: pad ++ dumps pad p.2 := by
  induction ps with
  | nil => rfl
  | cons p ps ih => rw [dumpsFields, ih, List.map_cons, dumpsField]

end Printer

section Reader

variable {F : Type} [PyFloat F]

def hexValue (c : Char) : Option ℕ :=
  if c.isDigit then some (c.toNat - 48)
  else if 'a' ≤ c ∧ c ≤ 'f' then some (c.toNat - 87)
  else if 'A' ≤ c ∧ c ≤ 'F' then some (c.toNat - 55)
  else none

/-- The four hexadecimal digits after a `\u`. -/
def unicodeEscape : Text → Option (ℕ × Text)
  | a :: b :: c :: d :: cs => do
    let a ← hexValue a
    let b ← hexValue b
    let c ← hexValue c
    let d ← hexValue d
    some (((a * 16 + b) * 16 + c) * 16 + d, cs)
  | _ => none

/-- The character an escape stands for, read after its backslash. A lone surrogate stands for
no scalar value, so it is refused here. -/
def unescape : Text → Option (Char × Text)
  | 'u' :: cs => do
    let (n, cs) ← unicodeEscape cs
    if 0xD800 ≤ n ∧ n ≤ 0xDBFF then
      match cs with
      | '\\' :: 'u' :: ds => do
        let (m, es) ← unicodeEscape ds
        if 0xDC00 ≤ m ∧ m ≤ 0xDFFF then
          some (Char.ofNat (0x10000 + (n - 0xD800) * 1024 + (m - 0xDC00)), es)
        else none
      | _ => none
    else if 0xDC00 ≤ n ∧ n ≤ 0xDFFF then none
    else some (Char.ofNat n, cs)
  | '"' :: cs => some ('"', cs)
  | '\\' :: cs => some ('\\', cs)
  | '/' :: cs => some ('/', cs)
  | 'b' :: cs => some (Char.ofNat 8, cs)
  | 'f' :: cs => some (Char.ofNat 12, cs)
  | 'n' :: cs => some ('\n', cs)
  | 'r' :: cs => some ('\r', cs)
  | 't' :: cs => some ('\t', cs)
  | _ => none

/-- The rest of a string after its opening quote. -/
def scanString : ℕ → Text → Option (Text × Text)
  | 0, _ => none
  | _ + 1, [] => none
  | n + 1, c :: cs =>
    if c = '"' then some ([], cs)
    else if c = '\\' then do
      let (d, ds) ← unescape cs
      let (t, r) ← scanString n ds
      some (d :: t, r)
    else if c.toNat < 32 then none
    else do
      let (t, r) ← scanString n cs
      some (c :: t, r)

def natOf (ds : Text) : ℕ := Nat.ofDigitChars 10 ds 0

def intOf : Text → ℤ
  | '-' :: ds => -natOf ds
  | ds => natOf ds

mutual

/-- One value, and the text after it. -/
def scanValue : ℕ → Text → Option (Json F × Text)
  | 0, _ => none
  | n + 1, s =>
    match scanNumber s with
    | some (t, isFloat, r) => some (if isFloat then .float (PyFloat.ofText t) else .int (intOf t), r)
    | none =>
      match s with
      | '"' :: cs => (scanString (cs.length + 1) cs).map fun p => (.str (String.ofList p.1), p.2)
      | '[' :: cs =>
        match skipSpace cs with
        | ']' :: r => some (.arr [], r)
        | cs => (scanItems n cs).map fun p => (.arr p.1, p.2)
      | '{' :: cs =>
        match skipSpace cs with
        | '}' :: r => some (.obj [], r)
        | cs => (scanFields n cs).map fun p => (.obj (ofPairs p.1), p.2)
      | 'n' :: 'u' :: 'l' :: 'l' :: r => some (.null, r)
      | 't' :: 'r' :: 'u' :: 'e' :: r => some (.bool true, r)
      | 'f' :: 'a' :: 'l' :: 's' :: 'e' :: r => some (.bool false, r)
      | _ => none
termination_by structural n => n

def scanItems : ℕ → Text → Option (List (Json F) × Text)
  | 0, _ => none
  | n + 1, s => do
    let (v, r) ← scanValue n s
    match skipSpace r with
    | ']' :: r => some ([v], r)
    | ',' :: r => do
      let (vs, r) ← scanItems n (skipSpace r)
      some (v :: vs, r)
    | _ => none
termination_by structural n => n

def scanFields : ℕ → Text → Option (List (String × Json F) × Text)
  | 0, _ => none
  | n + 1, s =>
    match s with
    | '"' :: cs => do
      let (k, r) ← scanString (cs.length + 1) cs
      match skipSpace r with
      | ':' :: r => do
        let (v, r) ← scanValue n (skipSpace r)
        match skipSpace r with
        | '}' :: r => some ([(String.ofList k, v)], r)
        | ',' :: r => do
          let (ps, r) ← scanFields n (skipSpace r)
          some ((String.ofList k, v) :: ps, r)
        | _ => none
      | _ => none
    | _ => none
termination_by structural n => n

end

/-- `json.loads`: one value, with white space around it and nothing else. -/
def loads (s : Text) : Option (Json F) := do
  let (v, r) ← scanValue (s.length + 1) (skipSpace s)
  if skipSpace r = [] then some v else none

end Reader

end CommitReplay.JsonText
