import LiveRelay.Json.Writer
import LiveRelay.Text.Quoted

/-! # Why a text is not read, and where

A failure is a cause and a place. The place is kept as the text that was left when the reader gave
up, moved on by a number of bytes, and never beyond the end. Lines and columns are found from it
afterwards: lines count from one, and a column counts the bytes since the last line feed.
-/

namespace LiveRelay.Json

inductive Cause where
  | endInValue
  | endInList
  | endInObject
  | endInString
  | expectedValue
  | expectedLiteral
  | expectedColon
  | expectedCommaInList
  | expectedCommaInObject
  | trailingComma
  | trailingText
  | keyNotString
  | invalidNumber
  | numberOutOfRange
  | invalidEscape
  | loneSurrogate
  | brokenSurrogatePair
  | controlCharacter
  | tooDeep
  | missingField (name : String)
  | duplicateField (name : String)
  | invalidLength (present : Nat) (expected : String)
  | mismatch (found : Head) (expected : String)
  | wrongSign (found : Head) (expected : String)
  | unknownVariant (name : String)
deriving DecidableEq, Repr

/-- The three kinds of causes: the text ends too early, it is no JSON, or it is JSON of another
form. -/
inductive Category where
  | truncated
  | malformed
  | unfit
deriving DecidableEq, Repr

namespace Head

def describe : Head → String
  | .null => "null"
  | .boolean b => if b then "boolean `true`" else "boolean `false`"
  | .number (.real x) => "floating point `" ++ realText x ++ "`"
  | .number n => "integer `" ++ numberText n ++ "`"
  | .string s => "string " ++ quote s
  | .list => "sequence"
  | .object => "map"

end Head

namespace Cause

def category : Cause → Category
  | .endInValue | .endInList | .endInObject | .endInString => .truncated
  | .missingField _ | .duplicateField _ | .invalidLength _ _ | .mismatch _ _ | .wrongSign _ _
  | .unknownVariant _ => .unfit
  | _ => .malformed

def message : Cause → String
  | .endInValue => "EOF while parsing a value"
  | .endInList => "EOF while parsing a list"
  | .endInObject => "EOF while parsing an object"
  | .endInString => "EOF while parsing a string"
  | .expectedValue => "expected value"
  | .expectedLiteral => "expected ident"
  | .expectedColon => "expected `:`"
  | .expectedCommaInList => "expected `,` or `]`"
  | .expectedCommaInObject => "expected `,` or `\x7d`"
  | .trailingComma => "trailing comma"
  | .trailingText => "trailing characters"
  | .keyNotString => "key must be a string"
  | .invalidNumber => "invalid number"
  | .numberOutOfRange => "number out of range"
  | .invalidEscape => "invalid escape"
  | .loneSurrogate => "lone leading surrogate in hex escape"
  | .brokenSurrogatePair => "unexpected end of hex escape"
  | .controlCharacter => "control character (\\u0000-\\u001F) found while parsing a string"
  | .tooDeep => "recursion limit exceeded"
  | .missingField name => "missing field `" ++ name ++ "`"
  | .duplicateField name => "duplicate field `" ++ name ++ "`"
  | .invalidLength present expected =>
    "invalid length " ++ toString present ++ ", expected " ++ expected
  | .mismatch found expected => "invalid type: " ++ found.describe ++ ", expected " ++ expected
  | .wrongSign found expected => "invalid value: " ++ found.describe ++ ", expected " ++ expected
  | .unknownVariant name => "unknown variant `" ++ name ++ "`"

end Cause

/-- A cause, the text that was left, and how many bytes further the place lies. -/
structure Failure where
  cause : Cause
  rest : List Char
  ahead : Nat
deriving DecidableEq, Repr

/-- What a reader gives: most often a value with the text after it, or else a failure. -/
abbrev Reading := Except Failure

/-- Gives up at the front of a text: everything before it has been read. -/
def failAt {α : Type} (cause : Cause) (rest : List Char) : Reading α := .error ⟨cause, rest, 0⟩

/-- Gives up over the next byte of a text. -/
def failOver {α : Type} (cause : Cause) (rest : List Char) : Reading α := .error ⟨cause, rest, 1⟩

structure Position where
  line : Nat
  column : Nat
deriving DecidableEq, Repr

namespace Position

def byteSize (text : List Char) : Nat := text.foldl (fun n c => n + c.utf8Size) 0

/-- Moves a position over the given number of bytes of a text. -/
def advance (p : Position) : Nat → List Char → Position
  | _, [] => p
  | bytes, c :: text =>
    if bytes < c.utf8Size then ⟨p.line, p.column + bytes⟩
    else if c = '\n' then advance ⟨p.line + 1, 0⟩ (bytes - c.utf8Size) text
    else advance ⟨p.line, p.column + c.utf8Size⟩ (bytes - c.utf8Size) text

def ofFailure (text : List Char) (f : Failure) : Position :=
  let size := byteSize text
  advance ⟨1, 0⟩ (min size (size - byteSize f.rest + f.ahead)) text

end Position

end LiveRelay.Json
