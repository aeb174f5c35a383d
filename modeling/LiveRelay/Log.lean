/-! # Log lines

A line of the log has a level and a text. What is logged is decided where it happens, by notices of
their own; here is only the form that they take.
-/

namespace LiveRelay

/-- How much a log line matters. -/
inductive LogLevel where
  | error
  | warn
  | info
  | debug
deriving DecidableEq, Repr

namespace LogLevel

def word : LogLevel → String
  | .error => "ERROR"
  | .warn => "WARN"
  | .info => "INFO"
  | .debug => "DEBUG"

end LogLevel

structure LogLine where
  level : LogLevel
  text : String
deriving DecidableEq, Repr

namespace LogLine

def render (l : LogLine) : String := l.level.word ++ " " ++ l.text

end LogLine

end LiveRelay
