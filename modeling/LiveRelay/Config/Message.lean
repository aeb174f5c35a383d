import LiveRelay.Config.Arguments
import LiveRelay.Text.Terminal

/-! # What the command line answers

Arguments that give no configuration are answered by a text: the help, the version, or what is wrong
with them. On a terminal, names and values stand in bold letters; `ArgumentError.message` is the
text without any styles. A value is shown as a terminal would show it, and since it is emphasised
it cannot do harm to the words after it.
-/

namespace LiveRelay

namespace ArgumentError

def versionText : String := "kilobeat-server 0.1.0\n"

/-- The name under which the program was called: the last part of a path, if it has one. -/
def callName (path : String) : String :=
  let steps := (path.splitOn "/").filter fun s => s ≠ "" ∧ s ≠ "."
  match steps.getLast? with
  | none | some ".." => "kilobeat-server"
  | some name => name

def blanks (n : Nat) : String := String.ofList (List.replicate n ' ')

/-- An option with its letter and its value, as the help shows it. -/
def optionText (o : OptionName) : String :=
  let letter := match o.letter? with
    | some c => blanks 2 ++ Terminal.emphasized (String.ofList ['-', c]) ++ ", "
    | none => blanks 6
  let name := letter ++ Terminal.emphasized ("--" ++ o.longName)
  match o with
  | .setting s => name ++ " <" ++ s.placeholder ++ ">"
  | .inquiry _ => name

/-- How many columns an option takes. -/
def optionWidth (o : OptionName) : Nat := (Terminal.plain (optionText o)).length

/-- The column in which descriptions begin: two blanks after the widest option. -/
def descriptionColumn : Nat := (OptionName.all.map optionWidth).foldl max 0 + 2

/-- What an option is for, with the variable and the default of a setting. -/
def description (e : Environment) : OptionName → String
  | .setting s =>
    s.purpose ++ " [env: " ++ s.environmentName ++ "=" ++ (e.get s).getD "" ++ "] [default: " ++
      s.default ++ "]"
  | .inquiry .help => "Print help"
  | .inquiry .version => "Print version"

/-- The lines of the help on an option: the option, and from a fixed column on the description. -/
def helpLines (e : Environment) (o : OptionName) : String :=
  let lines := (description e o).splitOn "\n"
  optionText o ++ blanks (descriptionColumn - optionWidth o) ++
    String.intercalate ("\n" ++ blanks descriptionColumn) lines ++ "\n"

def helpText (name : String) (e : Environment) : String :=
  "Real-time session relay for shared live-coding rooms\n\nUsage: " ++ Terminal.emphasized name ++
    " [OPTIONS]\n\nOptions:\n" ++ String.join (OptionName.all.map (helpLines e))

/-- The words for an error, in which names and values are emphasised. -/
def styledMessage (name : String) (e : Environment) : ArgumentError → String
  | .asked .help => helpText name e
  | .asked .version => versionText
  | .missingValue s => "error: a value is required for '" ++ s.usage ++ "' but none was supplied"
  | .repeated s => "error: the argument '" ++ s.usage ++ "' cannot be used multiple times"
  | .invalidPort value why =>
    "error: invalid value '" ++ Terminal.emphasized value ++ "' for '" ++ Setting.port.usage ++
      "': " ++ why.message
  | .unknown argument => "error: unexpected argument '" ++ Terminal.emphasized argument ++ "' found"
  | .uselessValue value inquiry =>
    "error: unexpected value '" ++ Terminal.emphasized value ++ "' for '--" ++ inquiry.longName ++
      "' found; no more were expected"

def message (name : String) (e : Environment) (error : ArgumentError) : String :=
  Terminal.plain (styledMessage name e error)

def exitCode : ArgumentError → Nat
  | .asked _ => 0
  | _ => 2

end ArgumentError

end LiveRelay
