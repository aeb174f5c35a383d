import LiveRelay.Json.Failure

/-! # Blanks, strings, numbers and names

Readers take the text that is left and give what they read with the text after it. They come in two
degrees of care: a value that is kept is read in full, and a value that is passed over is only
checked to be well formed, so that neither the size of its numbers nor the pairing of its surrogates
counts.

A loop over a text is measured by the text itself: it is given the text once more, and lays one
character of it aside in every round. A round reads at least one character, so the measure ends no
sooner than the text.
-/

namespace LiveRelay.Json

def isBlank (c : Char) : Bool := c == ' ' || c == '\t' || c == '\n' || c == '\r'

/-- The text from its first character that is no blank. -/
def skipBlanks (s : List Char) : List Char := s.dropWhile isBlank

/-- How carefully a value is read. -/
inductive Care where
  | kept
  | passedOver
deriving DecidableEq, Repr

/-- Reads the rest of a name such as `null`, after its first letter. -/
def readName : List Char → List Char → Reading (List Char)
  | [], s => .ok s
  | _ :: _, [] => failAt .endInValue []
  | c :: name, d :: s => if c = d then readName name s else failOver .expectedLiteral (d :: s)

def hexValue? (c : Char) : Option Nat :=
  if '0' ≤ c ∧ c ≤ '9' then some (c.toNat - '0'.toNat)
  else if 'a' ≤ c ∧ c ≤ 'f' then some (c.toNat - 'a'.toNat + 10)
  else if 'A' ≤ c ∧ c ≤ 'F' then some (c.toNat - 'A'.toNat + 10)
  else none

def hexWord? (a b c d : Char) : Option Nat := do
  return (((← hexValue? a) * 16 + (← hexValue? b)) * 16 + (← hexValue? c)) * 16 + (← hexValue? d)

/-- Reads four hexadecimal digits. Four bytes are taken whatever they are, and fewer are the end. -/
def readHexWord (s : List Char) : Reading (Nat × List Char) :=
  match s with
  | a :: b :: c :: d :: rest =>
    match hexWord? a b c d with
    | some n => .ok (n, rest)
    | none => .error ⟨.invalidEscape, s, 4⟩
  | _ => if Position.byteSize s < 4 then failAt .endInString [] else .error ⟨.invalidEscape, s, 4⟩

/-- The characters that a letter after a backslash stands for. -/
def escaped? : Char → Option Char
  | '"' => some '"'
  | '\\' => some '\\'
  | '/' => some '/'
  | 'b' => some '\x08'
  | 'f' => some '\x0c'
  | 'n' => some '\n'
  | 'r' => some '\r'
  | 't' => some '\t'
  | _ => none

def readPairMark (mark : Char) : List Char → Reading (List Char)
  | [] => failAt .endInString []
  | c :: s => if c = mark then .ok s else failOver .brokenSurrogatePair (c :: s)

def readLowSurrogate (high : Nat) (s : List Char) : Reading (Char × List Char) := do
  let s ← readPairMark '\\' s
  let s ← readPairMark 'u' s
  let (low, s) ← readHexWord s
  if 0xDC00 ≤ low ∧ low ≤ 0xDFFF then
    return (Char.ofNat (0x10000 + (high - 0xD800) * 0x400 + (low - 0xDC00)), s)
  else failAt .loneSurrogate s

/-- Reads an escape after its backslash. A character that is passed over is not decoded. -/
def readEscape (care : Care) : List Char → Reading (Char × List Char)
  | [] => failAt .endInString []
  | 'u' :: s => do
    let (n, s) ← readHexWord s
    match care with
    | .passedOver => return (default, s)
    | .kept =>
      if 0xDC00 ≤ n ∧ n ≤ 0xDFFF then failAt .loneSurrogate s
      else if 0xD800 ≤ n ∧ n ≤ 0xDBFF then readLowSurrogate n s
      else return (Char.ofNat n, s)
  | c :: s =>
    match escaped? c with
    | some d => .ok (d, s)
    | none => failOver .invalidEscape (c :: s)

/-- Reads a string after its opening quote; `done` holds its first characters, the last one first.
-/
def readStringFrom (care : Care) : List Char → List Char → List Char → Reading (String × List Char)
  | [], _, _ | _, _, [] => failAt .endInString []
  | _ :: measure, done, c :: s =>
    if c = '"' then .ok (String.ofList done.reverse, s)
    else if c = '\\' then
      match readEscape care s with
      | .ok (d, s) => readStringFrom care measure (d :: done) s
      | .error f => .error f
    else if c.toNat < 0x20 then
      match care with
      | .kept => failOver .controlCharacter (c :: s)
      | .passedOver => failAt .controlCharacter (c :: s)
    else readStringFrom care measure (c :: done) s

def readString (care : Care) (s : List Char) : Reading (String × List Char) :=
  readStringFrom care s [] s

def splitDigits (s : List Char) : List Char × List Char :=
  (s.takeWhile Char.isDigit, s.dropWhile Char.isDigit)

/-- A number that breaks off has the wrong form, unless the value is kept and the text ends there.
-/
def failInNumber {α : Type} (care : Care) : List Char → Reading α
  | [] => if care = .kept then failAt .endInValue [] else failAt .invalidNumber []
  | c :: s => failOver .invalidNumber (c :: s)

/-- Reads the whole part of a number: a zero alone, or digits that begin with another one. -/
def readWhole (care : Care) : List Char → Reading (List Char × List Char)
  | '0' :: c :: s => if c.isDigit then failOver .invalidNumber (c :: s) else .ok (['0'], c :: s)
  | s =>
    match splitDigits s with
    | ([], s) => failInNumber care s
    | (digits, s) => .ok (digits, s)

def readFraction (care : Care) : List Char → Reading (Option (List Char) × List Char)
  | '.' :: s =>
    match splitDigits s with
    | ([], s) => failInNumber care s
    | (digits, s) => .ok (some digits, s)
  | s => .ok (none, s)

/-- Reads the exponent of a number, if a mark begins one: whether it is negative, and its digits. -/
def readExponent (care : Care) : List Char → Reading (Option (Bool × List Char) × List Char)
  | mark :: s =>
    if mark = 'e' ∨ mark = 'E' then
      let (negative, s) := match s with
        | '-' :: s => (true, s)
        | '+' :: s => (false, s)
        | s => (false, s)
      match splitDigits s with
      | ([], s) => failInNumber care s
      | (digits, s) => .ok (some (negative, digits), s)
    else .ok (none, mark :: s)
  | [] => .ok (none, [])

def readLiteral (care : Care) (negative : Bool) (s : List Char) :
    Reading (Literal × List Char) := do
  let (whole, s) ← readWhole care s
  let (fraction, s) ← readFraction care s
  let (exponent, s) ← readExponent care s
  return (⟨negative, whole, fraction, exponent⟩, s)

/-- Reads a number after its sign. One that is too large is noticed where its last digit was needed.
-/
def readNumber (negative : Bool) (s : List Char) : Reading (Number × List Char) := do
  let (literal, s) ← readLiteral .kept negative s
  match literal.value with
  | .ok n => return (n, s)
  | .error out => failAt .numberOutOfRange (out.unread ++ s)

/-- Reads the head of a value: a whole scalar, or nothing in front of a bracket. -/
def readHead (s : List Char) : Reading (Head × List Char) :=
  match skipBlanks s with
  | [] => failAt .endInValue []
  | 'n' :: s => (readName ['u', 'l', 'l'] s).map fun s => (.null, s)
  | 't' :: s => (readName ['r', 'u', 'e'] s).map fun s => (.boolean true, s)
  | 'f' :: s => (readName ['a', 'l', 's', 'e'] s).map fun s => (.boolean false, s)
  | '-' :: s => (readNumber true s).map fun (n, s) => (.number n, s)
  | '"' :: s => (readString .kept s).map fun (t, s) => (.string t, s)
  | '[' :: s => .ok (.list, '[' :: s)
  | '{' :: s => .ok (.object, '{' :: s)
  | c :: s =>
    if c.isDigit then (readNumber false (c :: s)).map fun (n, s) => (.number n, s)
    else failOver .expectedValue (c :: s)

end LiveRelay.Json
