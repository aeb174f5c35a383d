/-! # Paths of the client bundle

A request path is walked from left to right and gives the names that it goes through. Empty steps
and steps to the same place do not count. A path that starts at the top of the file system or takes
a step up is refused, so a path that is accepted stays below the root of the bundle.
-/

namespace LiveRelay

/-- A path below a root: the names that it goes through, from the top. -/
structure BundlePath where
  names : List (List Char)
deriving DecidableEq, Repr

namespace BundlePath

def indexDocument : List Char := "index.html".toList

/-- Takes a finished step: one that leads nowhere is left out, and one that leads up is refused. -/
def step? (names : List (List Char)) (name : List Char) : Option (List (List Char)) :=
  if name = [] ∨ name = ['.'] then some names
  else if name = ['.', '.'] then none
  else some (names ++ [name])

/-- Walks a path; `names` are the steps taken so far, and `name` is the current one. -/
def walk? (names : List (List Char)) (name : List Char) : List Char → Option (List (List Char))
  | [] => step? names name
  | c :: path =>
    if c = '/' then (step? names name).bind fun names => walk? names [] path
    else walk? names (name ++ [c]) path

/-- Whether a path names a directory, and so its index document. -/
def namesDirectory (path : List Char) : Bool := path.isEmpty || path.getLast? == some '/'

/-- Finds a request path below the root of the bundle. -/
def resolve? (path : String) : Option BundlePath :=
  let cs := path.toList
  if cs.head? = some '/' then none
  else (walk? [] [] cs).map fun names =>
    ⟨if namesDirectory cs then names ++ [indexDocument] else names⟩

/-- The text of a path, with a slash between its names. -/
def text (p : BundlePath) : String := String.ofList (['/'].intercalate p.names)

/-- What follows the last dot of a name, unless that dot is its first character. -/
def extension? (name : List Char) : Option (List Char) :=
  match name with
  | [] => none
  | _ :: rest =>
    if rest.contains '.' then some (rest.reverse.takeWhile (· != '.')).reverse else none

def contentTypeOf : String → String
  | "html" => "text/html; charset=utf-8"
  | "js" => "application/javascript"
  | "css" => "text/css"
  | "svg" => "image/svg+xml"
  | "png" => "image/png"
  | "json" => "application/json"
  | "wasm" => "application/wasm"
  | _ => "application/octet-stream"

def contentType (p : BundlePath) : String :=
  contentTypeOf (String.ofList ((p.names.getLast?.bind extension?).getD []))

end BundlePath

end LiveRelay
