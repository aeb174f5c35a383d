import LiveRelay.Decimal.Literal

/-! # JSON values

An object keeps its members in the order in which they were written, a repeated key included. The
values that a room stores are `canonical`: the keys of every object ascend and differ, and of
repeated keys the last one counts.
-/

namespace LiveRelay.Json

inductive Value where
  | null
  | boolean (b : Bool)
  | number (n : Number)
  | string (s : String)
  | list (items : List Value)
  | object (members : List (String × Value))
deriving Inhabited, Repr

/-- What shows of a value before its brackets are opened. -/
inductive Head where
  | null
  | boolean (b : Bool)
  | number (n : Number)
  | string (s : String)
  | list
  | object
deriving DecidableEq, Repr

namespace Value

def head : Value → Head
  | .null => .null
  | .boolean b => .boolean b
  | .number n => .number n
  | .string s => .string s
  | .list _ => .list
  | .object _ => .object

/-- Puts a member among members whose keys ascend; a member of the same key gives way to it. -/
def putMember (key : String) (value : Value) : List (String × Value) → List (String × Value)
  | [] => [(key, value)]
  | (k, v) :: rest =>
    if key < k then (key, value) :: (k, v) :: rest
    else if key = k then (key, value) :: rest
    else (k, v) :: putMember key value rest

mutual

/-- Orders the members of every object by key and drops all but the last of equal keys. -/
def canonical : Value → Value
  | .list items => .list (canonicalItems [] items)
  | .object members => .object (canonicalMembers [] members)
  | v => v

/-- Makes items canonical; `done` holds the finished ones, the last one first. -/
def canonicalItems (done : List Value) : List Value → List Value
  | [] => done.reverse
  | v :: rest => canonicalItems (canonical v :: done) rest

/-- Makes members canonical; `done` holds the finished ones, by key. -/
def canonicalMembers (done : List (String × Value)) : List (String × Value) → List (String × Value)
  | [] => done
  | (k, v) :: rest => canonicalMembers (putMember k (canonical v) done) rest

end

end Value

end LiveRelay.Json
