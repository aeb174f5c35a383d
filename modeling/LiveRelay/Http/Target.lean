/-! # Request targets

A request names what it wants by a path, a whole address, the name of a host, or an asterisk. Of all
of these only the path matters. A target with a character that its form does not admit is refused.
-/

namespace LiveRelay.Target

inductive Error where
  | invalid
deriving DecidableEq, Repr

def longest : Nat := 65534

def longestScheme : Nat := 64

/-- Characters that a path may have as they are. -/
def inPath (c : Char) : Bool :=
  let n := c.toNat
  n = 0x21 || n = 0x22 || (0x24 ≤ n && n ≤ 0x3B) || n = 0x3D || (0x40 ≤ n && n ≤ 0x5F) ||
    (0x61 ≤ n && n ≤ 0x7E)

/-- Characters that a query may have as they are. -/
def inQuery (c : Char) : Bool :=
  let n := c.toNat
  n = 0x21 || (0x24 ≤ n && n ≤ 0x3B) || n = 0x3D || (0x3F ≤ n && n ≤ 0x7E)

/-- Characters that the name of a host, its port and the user in front of it may have. -/
def inAuthority (c : Char) : Bool :=
  c.isAlphanum || "!$&'()*+,-.:;=@[]_~%".toList.contains c

/-- Characters of the name of a scheme. -/
def inScheme (c : Char) : Bool := c.isAlphanum || c == '+' || c == '-' || c == '.' || c == '~'

/-- The path of a text that begins with one; what follows it may be a query and a fragment. -/
def pathOf (cs : List Char) : Except Error (List Char) :=
  let path := cs.takeWhile fun c => c ≠ '?' ∧ c ≠ '#'
  if !path.all inPath then .error .invalid
  else match cs.drop path.length with
    | '?' :: query => if (query.takeWhile (· ≠ '#')).all inQuery then .ok path else .error .invalid
    | _ => .ok path

/-- What is known of an authority while it is read from left to right. -/
structure Authority where
  colons : Nat
  opened : Bool
  closed : Bool
  percent : Bool
  afterUser : Bool
deriving DecidableEq, Repr

namespace Authority

/-- Reads one character of an authority. A bracket or the end of the user makes what came before of
no matter. -/
def step (a : Authority) (c : Char) : Except Error Authority :=
  let b := { a with afterUser := false }
  if !inAuthority c then .error .invalid
  else if c = ':' then
    if 8 ≤ a.colons then .error .invalid else .ok { b with colons := a.colons + 1 }
  else if c = '[' then
    if a.percent ∨ a.opened then .error .invalid else .ok { b with opened := true }
  else if c = ']' then
    if !a.opened ∨ a.closed then .error .invalid
    else .ok { b with closed := true, colons := 0, percent := false }
  else if c = '@' then .ok { b with colons := 0, percent := false, afterUser := true }
  else if c = '%' then .ok { b with percent := true }
  else .ok b

def check (cs : List Char) : Except Error Unit := do
  let a ← cs.foldlM step ⟨0, false, false, false, false⟩
  if a.opened ≠ a.closed ∨ 1 < a.colons ∨ a.afterUser ∨ a.percent then throw .invalid

end Authority

/-- Splits a text after the scheme of an address, if it begins with one. -/
def afterScheme? (cs : List Char) : Except Error (Option (List Char)) :=
  let scheme := cs.takeWhile inScheme
  match cs.drop scheme.length with
  | ':' :: '/' :: '/' :: rest =>
    if longestScheme < scheme.length then .error .invalid else .ok (some rest)
  | _ => .ok none

/-- The path of a request target. A host alone and an asterisk have none. -/
def path (text : String) : Except Error String :=
  let cs := text.toList
  if cs = [] ∨ longest < cs.length then .error .invalid
  else if cs = ['*'] then .ok "*"
  else if cs.head? = some '/' then (pathOf cs).map String.ofList
  else do
    let isEnd := fun c => c = '/' ∨ c = '?' ∨ c = '#'
    match ← afterScheme? cs with
    | none =>
      Authority.check (cs.takeWhile fun c => !isEnd c)
      if cs.any isEnd then throw .invalid
      return ""
    | some rest =>
      let authority := rest.takeWhile fun c => !isEnd c
      Authority.check authority
      if authority = [] then throw .invalid
      let path ← pathOf (rest.drop authority.length)
      return if path = [] then "/" else String.ofList path

end LiveRelay.Target
