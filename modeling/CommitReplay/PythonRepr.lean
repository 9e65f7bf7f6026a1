import CommitReplay.JsonText

/-! Python's `str` of a value read from JSON. Which characters beyond ASCII are printed as they
are is a table of the Unicode version, and a parameter here. -/
namespace CommitReplay.PythonRepr

open CommitReplay.PythonText CommitReplay.JsonValue CommitReplay.JsonText

variable (isPrintable : Char → Bool)

/-- A number in lower case hexadecimal digits, with zeros up to the width. -/
def hexText (width n : ℕ) : Text :=
  let ds := Nat.toDigits 16 n
  List.replicate (width - ds.length) '0' ++ ds

def reprChar (delim c : Char) : Text :=
  if c = delim ∨ c = '\\' then ['\\', c]
  else if c = '\n' then ['\\', 'n']
  else if c = '\r' then ['\\', 'r']
  else if c = '\t' then ['\\', 't']
  else if 32 ≤ c.toNat ∧ c.toNat < 127 ∨ 127 < c.toNat ∧ isPrintable c then [c]
  else if c.toNat < 0x100 then '\\' :: 'x' :: hexText 2 c.toNat
  else if c.toNat < 0x10000 then '\\' :: 'u' :: hexText 4 c.toNat
  else '\\' :: 'U' :: hexText 8 c.toNat

/-- `repr` of a string: in double quotes if only these spare an escape. -/
def reprStr (s : Text) : Text :=
  let delim := if '\'' ∈ s ∧ '"' ∉ s then '"' else '\''
  delim :: s.flatMap (reprChar isPrintable delim) ++ [delim]

variable {F : Type} [PyFloat F]

/-- `repr` of a float, which differs from its JSON text where it is no finite number. -/
def reprFloat (x : F) : Text :=
  let text := PyFloat.text x
  if text = "NaN".toList then "nan".toList
  else if text = "Infinity".toList then "inf".toList
  else if text = "-Infinity".toList then "-inf".toList
  else text

mutual

/-- `repr` of a value; a dictionary's items are in key order here. -/
def pyRepr : Json F → Text
  | .null => "None".toList
  | .bool true => "True".toList
  | .bool false => "False".toList
  | .int n => intText n
  | .float x => reprFloat x
  | .str s => reprStr isPrintable s.toList
  | .arr xs => '[' :: joined [' '] (pyReprAll xs) ++ [']']
  | .obj fields => '{' :: joined [' '] (pyReprFields fields) ++ ['}']
termination_by structural v => v

def pyReprAll : List (Json F) → List Text
  | [] => []
  | v :: vs => pyRepr v :: pyReprAll vs
termination_by structural vs => vs

def pyReprFields : List (String × Json F) → List Text
  | [] => []
  | p :: ps => pyReprField p :: pyReprFields ps
termination_by structural ps => ps

def pyReprField : String × Json F → Text
  | (k, v) => reprStr isPrintable k.toList ++ ':' :: ' ' :: pyRepr v
termination_by structural p => p

end

/-- `str(v)`. -/
def pyStr : Json F → String
  | .str s => s
  | v => .ofList (pyRepr isPrintable v)

end CommitReplay.PythonRepr
