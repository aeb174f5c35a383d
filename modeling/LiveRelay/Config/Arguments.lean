import LiveRelay.Config.Basic

/-! # The command line

Arguments are taken from left to right. A value that is attached to its option is checked at once. A
value that stands by itself is checked when the next option begins or the arguments end, and an
argument that is unknown by then is the first thing to be reported. What the command line leaves
open is taken from the environment, and then from the defaults.
-/

namespace LiveRelay

structure Environment where
  host : Option String
  port : Option String
  staticDir : Option String
deriving DecidableEq, Repr

namespace Environment

def get (e : Environment) : Setting → Option String
  | .host => e.host
  | .port => e.port
  | .staticDir => e.staticDir

end Environment

/-- The options that ask for a text instead of a relay. -/
inductive Inquiry where
  | help
  | version
deriving DecidableEq, Repr

namespace Inquiry

def longName : Inquiry → String
  | .help => "help"
  | .version => "version"

def letter : Inquiry → Char
  | .help => 'h'
  | .version => 'V'

end Inquiry

/-- Why the arguments do not give a configuration. -/
inductive ArgumentError where
  | asked (inquiry : Inquiry)
  | missingValue (s : Setting)
  | repeated (s : Setting)
  | invalidPort (value : String) (why : PortError)
  | unknown (argument : String)
  | uselessValue (value : String) (inquiry : Inquiry)
deriving DecidableEq, Repr

inductive OptionName where
  | setting (s : Setting)
  | inquiry (i : Inquiry)
deriving DecidableEq, Repr

namespace OptionName

def all : List OptionName := Setting.all.map .setting ++ [.inquiry .help, .inquiry .version]

def longName : OptionName → String
  | .setting s => s.longName
  | .inquiry i => i.longName

def letter? : OptionName → Option Char
  | .setting s => s.letter?
  | .inquiry i => some i.letter

def ofLong? (name : String) : Option OptionName := all.find? (·.longName == name)

def ofLetter? (c : Char) : Option OptionName := all.find? (·.letter? == some c)

end OptionName

/-- The forms of an argument. A single dash is a plain one. -/
inductive Argument where
  | separator
  | long (name : String) (value : Option String)
  | short (letter : Char) (value : Option String)
  | plain (text : String)
deriving DecidableEq, Repr

namespace Argument

/-- Splits a long option at its first equals sign. -/
def splitLong (cs : List Char) : Argument :=
  let name := String.ofList (cs.takeWhile (· != '='))
  match cs.dropWhile (· != '=') with
  | [] => .long name none
  | _ :: value => .long name (some (String.ofList value))

/-- The form of an argument. What follows a letter is its value, with or without an equals sign. -/
def ofString (text : String) : Argument :=
  match text.toList with
  | ['-', '-'] => .separator
  | '-' :: '-' :: cs => splitLong cs
  | ['-'] => .plain text
  | ['-', c] => .short c none
  | '-' :: c :: '=' :: value => .short c (some (String.ofList value))
  | '-' :: c :: value => .short c (some (String.ofList value))
  | _ => .plain text

end Argument

/-- What has been read of the arguments: the settings so far, and a setting that was named last and
is not checked yet, perhaps with its value. -/
structure Progress where
  chosen : List (Setting × String)
  pending : Option (Setting × Option String)
deriving Repr

namespace Progress

def start : Progress := ⟨[], none⟩

def checkValue (s : Setting) (value : String) : Except ArgumentError Unit :=
  match s with
  | .host => .ok ()
  | .port =>
    match Port.read value with
    | .ok _ => .ok ()
    | .error why => .error (.invalidPort value why)
  | .staticDir => if value.isEmpty then .error (.missingValue s) else .ok ()

/-- Takes a value for a setting. -/
def choose (p : Progress) (s : Setting) (value : String) : Except ArgumentError Progress := do
  if (p.chosen.lookup s).isSome then throw (.repeated s)
  checkValue s value
  return { p with chosen := (s, value) :: p.chosen }

/-- Checks the setting that was named last. -/
def settle (p : Progress) : Except ArgumentError Progress :=
  match p.pending with
  | none => .ok p
  | some (s, none) => .error (.missingValue s)
  | some (s, some value) => { p with pending := none }.choose s value

/-- Takes an option with the value that is attached to it. -/
def takeOption (p : Progress) (o : OptionName) (value : Option String) :
    Except ArgumentError Progress := do
  let p ← p.settle
  match o, value with
  | .inquiry i, _ => throw (.asked i)
  | .setting s, some value => p.choose s value
  | .setting s, none => return { p with pending := some (s, none) }

def take (p : Progress) (text : String) : Argument → Except ArgumentError Progress
  | .separator => .ok p
  | .long name value =>
    match OptionName.ofLong? name, value with
    | some (.inquiry i), some value => .error (.uselessValue value i)
    | some o, value => p.takeOption o value
    | none, _ => .error (.unknown ("--" ++ name))
  | .short letter value =>
    match OptionName.ofLetter? letter with
    | some o => p.takeOption o value
    | none => .error (.unknown (String.ofList ['-', letter]))
  | .plain _ =>
    match p.pending with
    | some (s, none) => .ok { p with pending := some (s, some text) }
    | _ => .error (.unknown text)

/-- Takes all arguments. Nothing may follow a separator. -/
def takeAll (p : Progress) : List String → Except ArgumentError Progress
  | [] => p.settle
  | text :: rest =>
    match Argument.ofString text, rest with
    | .separator, [] => p.settle
    | .separator, next :: _ => .error (.unknown next)
    | argument, rest => do takeAll (← p.take text argument) rest

/-- Takes a setting from the environment, unless it has been chosen. -/
def takeVariable (e : Environment) (p : Progress) (s : Setting) : Except ArgumentError Progress :=
  match p.chosen.lookup s, e.get s with
  | none, some value => p.choose s value
  | _, _ => .ok p

def value (p : Progress) (s : Setting) : String := (p.chosen.lookup s).getD s.default

end Progress

namespace Config

/-- Reads the arguments after the name of the program. -/
def ofArguments (e : Environment) (arguments : List String) : Except ArgumentError Config := do
  let p ← Progress.start.takeAll arguments
  let p ← Setting.all.foldlM (Progress.takeVariable e) p
  match Port.read (p.value .port) with
  | .ok port => return ⟨p.value .host, port, p.value .staticDir⟩
  | .error why => throw (.invalidPort (p.value .port) why)

end Config

end LiveRelay
