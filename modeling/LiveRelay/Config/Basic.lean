/-! # Settings of the relay

The relay listens on an address and a port and serves the client bundle from a directory. Each
setting has an option on the command line, a variable of the environment, and a default, in this
order of precedence.
-/

namespace LiveRelay

structure Config where
  host : String
  port : Nat
  staticDir : String
deriving DecidableEq, Repr

inductive Setting where
  | host
  | port
  | staticDir
deriving DecidableEq, Repr

namespace Setting

/-- All settings, in the order in which they are described. -/
def all : List Setting := [.host, .port, .staticDir]

def longName : Setting → String
  | .host => "host"
  | .port => "port"
  | .staticDir => "static-dir"

/-- The letter of the option, if it has one. -/
def letter? : Setting → Option Char
  | .port => some 'p'
  | _ => none

/-- The word for the option's value. -/
def placeholder : Setting → String
  | .host => "HOST"
  | .port => "PORT"
  | .staticDir => "STATIC_DIR"

def environmentName : Setting → String
  | .host => "KILOBEAT_HOST"
  | .port => "KILOBEAT_PORT"
  | .staticDir => "KILOBEAT_STATIC_DIR"

/-- The default, as it is written. -/
def default : Setting → String
  | .host => "0.0.0.0"
  | .port => "8765"
  | .staticDir => "static"

def purpose : Setting → String
  | .host => "Address to bind to"
  | .port => "Port to listen on"
  | .staticDir => "Directory holding the client bundle"

/-- The option as it is written in messages. -/
def usage (s : Setting) : String := "--" ++ s.longName ++ " <" ++ s.placeholder ++ ">"

end Setting

inductive PortError where
  | empty
  | invalidDigit
  | tooLarge
  | tooSmall
  | outOfRange (n : Int)
deriving DecidableEq, Repr

namespace PortError

def message : PortError → String
  | .empty => "cannot parse integer from empty string"
  | .invalidDigit => "invalid digit found in string"
  | .tooLarge => "number too large to fit in target type"
  | .tooSmall => "number too small to fit in target type"
  | .outOfRange n => toString n ++ " is not in 0..=65535"

end PortError

namespace Port

/-- The first size that a signed machine word has no positive number of. -/
def sizeLimit : Nat := 0x8000000000000000

/-- Reads digits after those that make up `size`. The number must fit a signed machine word. -/
def readDigits (negative : Bool) (size : Nat) : List Char → Except PortError Int
  | [] => .ok (if negative then -size else size)
  | c :: digits =>
    if c.isDigit then
      let size := size * 10 + (c.toNat - '0'.toNat)
      if negative ∧ sizeLimit < size then .error .tooSmall
      else if !negative ∧ sizeLimit ≤ size then .error .tooLarge
      else readDigits negative size digits
    else .error .invalidDigit

def readInteger : List Char → Except PortError Int
  | [] => .error .empty
  | ['+'] | ['-'] => .error .invalidDigit
  | '+' :: digits => readDigits false 0 digits
  | '-' :: digits => readDigits true 0 digits
  | digits => readDigits false 0 digits

def read (text : String) : Except PortError Nat :=
  match readInteger text.toList with
  | .error e => .error e
  | .ok n => if 0 ≤ n ∧ n ≤ 65535 then .ok n.toNat else .error (.outOfRange n)

end Port

end LiveRelay
