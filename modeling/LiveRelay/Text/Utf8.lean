/-! # Bytes and characters

Text travels as UTF-8. A sequence of bytes is well formed if every character has its shortest form
and is no surrogate. Where it is not, what is wrong is told: how many bytes are of no use, or that
the bytes end in the middle of a character.
-/

namespace LiveRelay.Utf8

inductive Front where
  | character (c : Char) (rest : List UInt8)
  | invalid (size : Nat)
  | incomplete
deriving Repr

def continues (b : UInt8) : Bool := 0x80 ≤ b && b ≤ 0xBF

/-- The six bits that a byte adds to a character. -/
def payload (b : UInt8) : Nat := b.toNat % 64

/-- The second bytes that may follow a first byte of a longer character. -/
def secondInRange (first second : UInt8) : Bool :=
  if first = 0xE0 then 0xA0 ≤ second && second ≤ 0xBF
  else if first = 0xED then 0x80 ≤ second && second ≤ 0x9F
  else if first = 0xF0 then 0x90 ≤ second && second ≤ 0xBF
  else if first = 0xF4 then 0x80 ≤ second && second ≤ 0x8F
  else continues second

/-- Takes the continuing bytes of a character of which `size` bytes are known to be good. -/
def takeRest (size value : Nat) : Nat → List UInt8 → Front
  | 0, rest => .character (Char.ofNat value) rest
  | _ + 1, [] => .incomplete
  | n + 1, b :: rest =>
    if continues b then takeRest (size + 1) (value * 64 + payload b) n rest else .invalid size

/-- Takes a character with a first byte of a given payload and so many bytes after the second. -/
def takeLong (first : UInt8) (value more : Nat) : List UInt8 → Front
  | [] => .incomplete
  | second :: rest =>
    if secondInRange first second then takeRest 2 (value * 64 + payload second) more rest
    else .invalid 1

/-- What stands at the front of bytes that begin with a given one. -/
def front (b : UInt8) (rest : List UInt8) : Front :=
  if b < 0x80 then .character (Char.ofNat b.toNat) rest
  else if b < 0xC2 then .invalid 1
  else if b < 0xE0 then takeLong b (b.toNat - 0xC0) 0 rest
  else if b < 0xF0 then takeLong b (b.toNat - 0xE0) 1 rest
  else if b < 0xF5 then takeLong b (b.toNat - 0xF0) 2 rest
  else .invalid 1

/-- Why bytes are no text, and where. -/
inductive Error where
  | invalid (size index : Nat)
  | incomplete (index : Nat)
deriving DecidableEq, Repr

namespace Error

def message : Error → String
  | .invalid size index =>
    "invalid utf-8 sequence of " ++ toString size ++ " bytes from index " ++ toString index
  | .incomplete index => "incomplete utf-8 byte sequence from index " ++ toString index

end Error

/-- Decodes bytes; `done` holds the characters so far, the last one first, and `index` their size. A
character takes at least one byte, so as many rounds as there are bytes are enough. -/
def decodeFrom : Nat → List Char → Nat → List UInt8 → Except Error (List Char)
  | 0, done, _, _ => .ok done.reverse
  | _ + 1, done, _, [] => .ok done.reverse
  | rounds + 1, done, index, b :: rest =>
    match front b rest with
    | .character c rest => decodeFrom rounds (c :: done) (index + c.utf8Size) rest
    | .invalid size => .error (.invalid size index)
    | .incomplete => .error (.incomplete index)

def decode (bytes : List UInt8) : Except Error String :=
  (decodeFrom bytes.length [] 0 bytes).map String.ofList

/-- The character that stands for bytes that are of no use. -/
def replacement : Char := '\ufffd'

/-- Decodes bytes like `decodeFrom`, and puts the replacement for bytes that are of no use. -/
def decodeLossyFrom : Nat → List Char → List UInt8 → List Char
  | 0, done, _ => done.reverse
  | _ + 1, done, [] => done.reverse
  | rounds + 1, done, b :: rest =>
    match front b rest with
    | .character c rest => decodeLossyFrom rounds (c :: done) rest
    | .invalid size => decodeLossyFrom rounds (replacement :: done) ((b :: rest).drop size)
    | .incomplete => (replacement :: done).reverse

/-- Decodes bytes to a text, whatever they are. -/
def decodeLossy (bytes : List UInt8) : String :=
  String.ofList (decodeLossyFrom bytes.length [] bytes)

def encode (s : String) : List UInt8 := s.toUTF8.toList

end LiveRelay.Utf8
