import LiveRelay.Json.Tree

/-! # Passing over a value

A value that nobody asked for is checked to be well formed and dropped. It may nest to any depth, so
the brackets that are open are kept in a list.
-/

namespace LiveRelay.Json

inductive Bracket where
  | list
  | object
deriving DecidableEq, Repr

namespace Bracket

def closing : Bracket → Char
  | .list => ']'
  | .object => '}'

def endInside : Bracket → Cause
  | .list => .endInList
  | .object => .endInObject

/-- The failure of an item that is followed by neither a comma nor the closing bracket. -/
def expectedComma : Bracket → Cause
  | .list => .expectedCommaInList
  | .object => .expectedCommaInObject

end Bracket

/-- Passes over a scalar, or tells which bracket is opened. -/
def skipHead (s : List Char) : Reading (Option Bracket × List Char) :=
  match skipBlanks s with
  | [] => failAt .endInValue []
  | 'n' :: s => (readName ['u', 'l', 'l'] s).map fun s => (none, s)
  | 't' :: s => (readName ['r', 'u', 'e'] s).map fun s => (none, s)
  | 'f' :: s => (readName ['a', 'l', 's', 'e'] s).map fun s => (none, s)
  | '-' :: s => (readLiteral .passedOver true s).map fun (_, s) => (none, s)
  | '"' :: s => (readString .passedOver s).map fun (_, s) => (none, s)
  | '[' :: s => .ok (some .list, s)
  | '{' :: s => .ok (some .object, s)
  | c :: s =>
    if c.isDigit then (readLiteral .passedOver false (c :: s)).map fun (_, s) => (none, s)
    else failOver .expectedValue (c :: s)

/-- Passes over a key and its colon, in front of a member of an object. -/
def skipKey (s : List Char) : Reading (List Char) :=
  match skipBlanks s with
  | [] => failAt .endInObject []
  | '"' :: s => do
    let (_, s) ← readString .passedOver s
    readColon s
  | s => failOver .keyNotString s

/-- Passes over what stands between two values: closes every bracket that ends here, and goes on to
the next value of the innermost one that does not. The `fresh` bracket has just been opened. -/
def toValue : Bool → List Bracket → List Char → Reading (List Bracket × List Char)
  | _, [], s => .ok ([], s)
  | fresh, bracket :: outer, s =>
    match skipBlanks s with
    | [] => failAt bracket.endInside []
    | c :: s =>
      if c = bracket.closing then toValue false outer s
      else if !fresh && c != ',' then failOver bracket.expectedComma (c :: s)
      else
        let s := if fresh then c :: s else s
        match bracket with
        | .list => .ok (.list :: outer, s)
        | .object => (skipKey s).map fun s => (.object :: outer, s)

/-- Passes over the values that are left inside the open brackets. -/
def skipFrom : List Char → List Bracket → List Char → Reading (List Char)
  | [], _, _ => failAt .endInValue []
  | _ :: measure, brackets, s =>
    match skipHead s with
    | .error f => .error f
    | .ok (opened, s) =>
      match toValue opened.isSome (opened.toList ++ brackets) s with
      | .error f => .error f
      | .ok ([], s) => .ok s
      | .ok (brackets, s) => skipFrom measure brackets s

def skipValue (s : List Char) : Reading (List Char) := skipFrom s [] s

end LiveRelay.Json
