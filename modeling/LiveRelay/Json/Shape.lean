import LiveRelay.Json.Skip

/-! # Reading values of a known shape

A `Shape` says how a Lean value is found in JSON, in two ways: straight in a text, or in a value
that was read before. A record is an object with fixed fields, of which it may have the unknown ones
too; some records may also be written as the list of their fields. A record is gathered field by
field in a draft.

A failure that concerns a whole record lies behind its closing bracket if that comes next, and
otherwise where it was expected.
-/

namespace LiveRelay.Json

/-- How a value of a type is read from a text, which may still open so many brackets, and from a
value. -/
structure Shape (α : Type) where
  ofText : Nat → List Char → Reading (α × List Char)
  ofValue : Value → Except Cause α

/-- The text after the closing bracket of a list that went wrong, if it comes next. -/
def leaveList (s : List Char) : List Char :=
  match skipBlanks s with
  | ']' :: s => s
  | ',' :: s => skipBlanks s
  | s => s

/-- The text after the closing bracket of an object that went wrong, if it comes next. -/
def leaveObject (s : List Char) : List Char :=
  match skipBlanks s with
  | '}' :: s => s
  | s => s

namespace Shape

/-- A shape whose values show in the head of a value. -/
def ofHead {α : Type} (fit : Head → Except Cause α) : Shape α where
  ofText _ s := do
    let (head, s) ← readHead s
    match fit head with
    | .ok a => return (a, s)
    | .error cause => failAt cause s
  ofValue v := fit v.head

def string : Shape String := ofHead fun
  | .string s => .ok s
  | head => .error (.mismatch head "a string")

def word : Shape UInt64 := ofHead fun
  | .number (.unsigned n) => .ok n
  | .number (.negative i below) => .error (.wrongSign (.number (.negative i below)) "u64")
  | head => .error (.mismatch head "u64")

def real : Shape Binary64 := ofHead fun
  | .number n => .ok n.toReal
  | head => .error (.mismatch head "f64")

def nothing (name : String) : Shape Unit := ofHead fun
  | .null => .ok ()
  | head => .error (.mismatch head name)

/-- Any value, in its canonical form. -/
def value : Shape Value where
  ofText depth s := (readTree depth s).map fun (v, s) => (v.canonical, s)
  ofValue v := .ok v.canonical

/-- Any value but `null`, which counts as none. -/
def nullable : Shape (Option Value) where
  ofText depth s := (readTree depth s).map fun (v, s) =>
    (match v with | .null => none | v => some v.canonical, s)
  ofValue
    | .null => .ok none
    | v => .ok (some v.canonical)

def list {α : Type} (item : Shape α) : Shape (List α) where
  ofText depth s := do
    match depth, ← readHead s with
    | 0, (.list, s) => failOver .tooDeep s
    | depth + 1, (.list, s) => readItems (item.ofText depth) (s.drop 1)
    | _, (head, s) => failAt (.mismatch head "a sequence") s
  ofValue
    | .list items => items.mapM item.ofValue
    | v => .error (.mismatch v.head "a sequence")

def map {α β : Type} (f : α → β) (shape : Shape α) : Shape β where
  ofText depth s := (shape.ofText depth s).map fun (a, s) => (f a, s)
  ofValue v := (shape.ofValue v).map f

def read {α : Type} (shape : Shape α) (text : String) : Reading α := do
  let (a, s) ← shape.ofText deepest text.toList
  closeText s
  return a

end Shape

/-- A field of a record: its key, whether the draft has it already, whether it may be left out at
the end of a list, and how it is put into the draft. -/
structure Field (δ : Type) where
  name : String
  given : δ → Bool
  omissible : Bool
  shape : Shape (δ → δ)

def required {α : Type} (name : String) : Option α → Except Cause α
  | some a => .ok a
  | none => .error (.missingField name)

/-- A record with its fields in order. The draft is finished once no more fields follow. -/
structure Record (δ α : Type) where
  name : String
  fields : List (Field δ)
  asList : Bool
  empty : δ
  finish : δ → Except Cause α

namespace Record

variable {δ α : Type}

/-- The words for a record that is written as a list. -/
def listName (r : Record δ α) : String :=
  r.name ++ " with " ++ toString r.fields.length ++ " elements"

def field? (r : Record δ α) (key : String) : Option (Field δ) := r.fields.find? (·.name == key)

/-- Reads one member of a record. An unknown member is passed over. -/
def readMember (r : Record δ α) (depth : Nat) (draft : δ) (key : String) (s : List Char) :
    Reading (δ × List Char) :=
  match r.field? key with
  | some field =>
    if field.given draft then failAt (.duplicateField key) (leaveObject s)
    else do
      let s ← readColon s
      let (put, s) ← field.shape.ofText depth s
      return (put draft, s)
  | none => do
    let s ← readColon s
    return (draft, ← skipValue s)

def readObject (r : Record δ α) (depth : Nat) (s : List Char) : Reading (α × List Char) := do
  let (draft, s) ← foldMembers (r.readMember depth) r.empty s
  match r.finish draft with
  | .ok a => return (a, ← closeObject s)
  | .error cause => failAt cause (leaveObject s)

def readFields (r : Record δ α) (depth : Nat) : List (Field δ) → Nat → δ → List Char →
    Reading (δ × List Char)
  | [], _, draft, s => .ok (draft, s)
  | field :: fields, present, draft, s => do
    match ← toItem (present == 0) s with
    | (true, s) =>
      let (put, s) ← field.shape.ofText depth s
      readFields r depth fields (present + 1) (put draft) s
    | (false, s) =>
      if field.omissible then readFields r depth fields present draft s
      else failAt (.invalidLength present r.listName) (leaveList s)

/-- Reads the fields of a record that has just been opened as a list. -/
def readList (r : Record δ α) (depth : Nat) (s : List Char) : Reading (α × List Char) := do
  let (draft, s) ← r.readFields depth r.fields 0 r.empty s
  match r.finish draft with
  | .ok a => return (a, ← closeList s)
  | .error cause => failAt cause (leaveList s)

def takeMember (r : Record δ α) (draft : δ) (member : String × Value) : Except Cause δ :=
  match r.field? member.1 with
  | some field =>
    if field.given draft then .error (.duplicateField member.1)
    else (field.shape.ofValue member.2).map fun put => put draft
  | none => .ok draft

def takeFields (r : Record δ α) (total : Nat) :
    List (Field δ) → Nat → δ → List Value → Except Cause δ
  | [], _, draft, [] => .ok draft
  | [], _, _, _ :: _ => .error (.invalidLength total "fewer elements in array")
  | field :: fields, present, draft, [] =>
    if field.omissible then takeFields r total fields present draft []
    else .error (.invalidLength present r.listName)
  | field :: fields, present, draft, v :: items => do
    let put ← field.shape.ofValue v
    takeFields r total fields (present + 1) (put draft) items

def shape (r : Record δ α) : Shape α where
  ofText depth s := do
    match depth, ← readHead s with
    | 0, (.list, s) => failOver .tooDeep s
    | 0, (.object, s) => failOver .tooDeep s
    | depth + 1, (.object, s) => r.readObject depth (s.drop 1)
    | depth + 1, (.list, s) =>
      if r.asList then r.readList depth (s.drop 1)
      else failAt (.mismatch .list r.name) (leaveList (s.drop 1))
    | _, (head, s) => failAt (.mismatch head r.name) s
  ofValue
    | .object members => do r.finish (← members.foldlM r.takeMember r.empty)
    | .list items =>
      if r.asList then do r.finish (← r.takeFields items.length r.fields 0 r.empty items)
      else .error (.mismatch .list r.name)
    | v => .error (.mismatch v.head r.name)

end Record

end LiveRelay.Json
