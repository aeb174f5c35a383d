import LiveRelay.Decimal.Shortest
import LiveRelay.Json.Value

/-! # Writing JSON values

The text of a value has no blanks, and its members stand in the order in which the object keeps
them. A string escapes the quote, the backslash and the characters below the blank, and nothing
else. A double is written with the fewest digits that read back; a double that is not finite is
written as `null`.
-/

namespace LiveRelay.Json

/-- Doubles are positional from a hundred-thousandth up to sixteen whole digits; beyond, they have
an exponent that always shows its sign. -/
def realLayout : Decimal.Layout := ⟨-4, 16, 'e'⟩

def realText (x : Binary64) : String :=
  if x.isFinite then
    let sign := if x.isNegative then ['-'] else []
    let digits :=
      if x.units = 0 then ['0', '.', '0'] else (Decimal.shortest x.units).render realLayout
    String.ofList (sign ++ digits)
  else "null"

def numberText : Number → String
  | .unsigned n => toString n.toNat
  | .negative i _ => "-" ++ toString i.toInt.natAbs
  | .real x => realText x

/-- The letters that stand for a control character after a backslash. -/
def escapeLetter? : Char → Option Char
  | '"' => some '"'
  | '\\' => some '\\'
  | '\x08' => some 'b'
  | '\t' => some 't'
  | '\n' => some 'n'
  | '\x0c' => some 'f'
  | '\r' => some 'r'
  | _ => none

def escapeChar (c : Char) : List Char :=
  match escapeLetter? c with
  | some letter => ['\\', letter]
  | none =>
    if c.toNat < 0x20 then
      ['\\', 'u', '0', '0', Nat.digitChar (c.toNat / 16), Nat.digitChar (c.toNat % 16)]
    else [c]

def appendString (out : String) (s : String) : String :=
  (s.toList.foldl (fun out c => (escapeChar c).foldl String.push out) (out.push '"')).push '"'

namespace Value

mutual

def append (out : String) : Value → String
  | .null => out ++ "null"
  | .boolean b => out ++ if b then "true" else "false"
  | .number n => out ++ numberText n
  | .string s => appendString out s
  | .list items => (appendItems (out.push '[') true items).push ']'
  | .object members => (appendMembers (out.push '\x7b') true members).push '\x7d'

/-- Appends items, each but the first after a comma. -/
def appendItems (out : String) (first : Bool) : List Value → String
  | [] => out
  | v :: rest => appendItems (append (if first then out else out.push ',') v) false rest

/-- Appends members, each but the first after a comma. -/
def appendMembers (out : String) (first : Bool) : List (String × Value) → String
  | [] => out
  | (k, v) :: rest =>
    let key := appendString (if first then out else out.push ',') k
    appendMembers (append (key.push ':') v) false rest

end

def text (v : Value) : String := v.append ""

end Value

end LiveRelay.Json
