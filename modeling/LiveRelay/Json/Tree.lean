import LiveRelay.Json.Token

/-! # Reading lists, objects and whole values

Walking a list or an object is one loop with a step for each item, `foldItems` and `foldMembers`.
The value reader `readTree` keeps everything that is written; its first argument says how many
brackets may still be opened inside each other.
-/

namespace LiveRelay.Json

/-- How many brackets a text may open inside each other. -/
def deepest : Nat := 127

/-- Moves to the next item of a list: whether there is one, and the text from it or from the
bracket. -/
def toItem (first : Bool) (s : List Char) : Reading (Bool × List Char) :=
  match skipBlanks s with
  | [] => failAt .endInList []
  | ']' :: s => .ok (false, ']' :: s)
  | c :: s =>
    if first then .ok (true, c :: s)
    else if c = ',' then
      match skipBlanks s with
      | [] => failAt .endInValue []
      | ']' :: s => failOver .trailingComma (']' :: s)
      | s => .ok (true, s)
    else failOver .expectedCommaInList (c :: s)

/-- Moves to the next key of an object: whether there is one, and the text after its opening quote
or from the bracket. -/
def toKey (first : Bool) (s : List Char) : Reading (Bool × List Char) :=
  match skipBlanks s with
  | [] => failAt .endInObject []
  | '}' :: s => .ok (false, '}' :: s)
  | c :: s =>
    if first then
      if c = '"' then .ok (true, s) else failOver .keyNotString (c :: s)
    else if c = ',' then
      match skipBlanks s with
      | [] => failAt .endInValue []
      | '"' :: s => .ok (true, s)
      | '}' :: s => failOver .trailingComma ('}' :: s)
      | s => failOver .keyNotString s
    else failOver .expectedCommaInObject (c :: s)

def readColon (s : List Char) : Reading (List Char) :=
  match skipBlanks s with
  | [] => failAt .endInObject []
  | ':' :: s => .ok s
  | s => failOver .expectedColon s

def closeList (s : List Char) : Reading (List Char) :=
  match skipBlanks s with
  | [] => failAt .endInList []
  | ']' :: s => .ok s
  | ',' :: s =>
    match skipBlanks s with
    | ']' :: s => failOver .trailingComma (']' :: s)
    | s => failOver .trailingText s
  | s => failOver .trailingText s

def closeObject (s : List Char) : Reading (List Char) :=
  match skipBlanks s with
  | [] => failAt .endInObject []
  | '}' :: s => .ok s
  | ',' :: s => failOver .trailingComma (',' :: s)
  | s => failOver .trailingText s

def closeText (s : List Char) : Reading Unit :=
  match skipBlanks s with
  | [] => .ok ()
  | s => failOver .trailingText s

/-- Folds over the items of a list up to its closing bracket; `step` reads one item. -/
def foldItemsFrom {σ : Type} (step : σ → List Char → Reading (σ × List Char)) :
    List Char → Bool → σ → List Char → Reading (σ × List Char)
  | [], _, _, _ => failAt .endInList []
  | _ :: measure, first, state, s =>
    match toItem first s with
    | .error f => .error f
    | .ok (false, s) => .ok (state, s)
    | .ok (true, s) =>
      match step state s with
      | .error f => .error f
      | .ok (state, s) => foldItemsFrom step measure false state s

def foldItems {σ : Type} (step : σ → List Char → Reading (σ × List Char)) (state : σ)
    (s : List Char) : Reading (σ × List Char) :=
  foldItemsFrom step s true state s

/-- Folds over the members of an object up to its closing bracket; `step` is given a key and the
text from the colon on. -/
def foldMembersFrom {σ : Type} (step : σ → String → List Char → Reading (σ × List Char)) :
    List Char → Bool → σ → List Char → Reading (σ × List Char)
  | [], _, _, _ => failAt .endInObject []
  | _ :: measure, first, state, s =>
    match toKey first s with
    | .error f => .error f
    | .ok (false, s) => .ok (state, s)
    | .ok (true, s) =>
      match readString .kept s with
      | .error f => .error f
      | .ok (key, s) =>
        match step state key s with
        | .error f => .error f
        | .ok (state, s) => foldMembersFrom step measure false state s

def foldMembers {σ : Type} (step : σ → String → List Char → Reading (σ × List Char)) (state : σ)
    (s : List Char) : Reading (σ × List Char) :=
  foldMembersFrom step s true state s

/-- Reads the items of a list that has just been opened, and its closing bracket. -/
def readItems {α : Type} (item : List Char → Reading (α × List Char)) (s : List Char) :
    Reading (List α × List Char) := do
  let (items, s) ← foldItems (fun done s => (item s).map fun (v, s) => (v :: done, s)) [] s
  return (items.reverse, ← closeList s)

/-- Reads the members of an object that has just been opened, and its closing bracket. -/
def readMembers {α : Type} (item : List Char → Reading (α × List Char)) (s : List Char) :
    Reading (List (String × α) × List Char) := do
  let step := fun done key s => do
    let s ← readColon s
    let (v, s) ← item s
    return ((key, v) :: done, s)
  let (members, s) ← foldMembers step [] s
  return (members.reverse, ← closeObject s)

/-- Reads a value and keeps all of it: the order of the members, and members of equal keys. -/
def readTree : Nat → List Char → Reading (Value × List Char)
  | depth, s =>
    match readHead s with
    | .error f => .error f
    | .ok (.null, s) => .ok (.null, s)
    | .ok (.boolean b, s) => .ok (.boolean b, s)
    | .ok (.number n, s) => .ok (.number n, s)
    | .ok (.string t, s) => .ok (.string t, s)
    | .ok (.list, s) =>
      match depth with
      | 0 => failOver .tooDeep s
      | depth + 1 => (readItems (readTree depth) (s.drop 1)).map fun (items, s) => (.list items, s)
    | .ok (.object, s) =>
      match depth with
      | 0 => failOver .tooDeep s
      | depth + 1 => (readMembers (readTree depth) (s.drop 1)).map fun (ms, s) => (.object ms, s)

end LiveRelay.Json
