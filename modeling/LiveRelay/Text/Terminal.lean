import LiveRelay.Text.Utf8

/-! # Text on a terminal

A terminal takes some characters as orders and shows the others. `Terminal.plain` keeps what is
shown, so that a message reads the same in a file. An order begins with an escape, and a character
on its own may tell where it ends. What is left open by one text goes on in the next one, so an
emphasised text ends with an order of its own.
-/

namespace LiveRelay.Terminal

/-- What a terminal is in the middle of: nothing, an escape before or after its modifiers, a control
sequence, a command to the system around it, an order to a device, or a string that nobody reads. An
order to a device has a head, with parameters and then modifiers, and goes on as such a string. -/
inductive Mode where
  | idle
  | escape
  | modifier
  | control
  | command
  | device
  | deviceParameter
  | deviceModifier
  | unread
deriving DecidableEq, Repr

def within (first last : Nat) (c : Char) : Bool := first ≤ c.toNat && c.toNat ≤ last

/-- Whether a character moves on the place for the next one. -/
def isLayout (c : Char) : Bool := c == '\t' || c == '\n' || c == '\x0c' || c == '\r'

/-- Whether a terminal that is idle shows a character. -/
def isShown (c : Char) : Bool := (0x20 ≤ c.toNat && c.toNat ≠ 0x7F) || isLayout c

/-- The byte that ends a string which nobody reads, also in the middle of a character. -/
def stringEnd : UInt8 := 0x9C

namespace Mode

/-- The mode after a character right behind an escape. -/
def afterEscape (c : Char) : Mode :=
  if within 0x20 0x2F c then modifier
  else if c = '[' then control
  else if c = ']' then command
  else if c = 'P' then device
  else if c = 'X' ∨ c = '^' ∨ c = '_' then unread
  else if within 0x30 0x7E c then idle
  else escape

/-- The mode after a character in an order to a device, before its string. -/
def inDevice (m : Mode) (c : Char) : Mode :=
  if within 0x40 0x7E c then unread
  else match m with
  | device =>
    if within 0x20 0x2F c then deviceModifier
    else if within 0x30 0x3F c then deviceParameter
    else m
  | deviceParameter =>
    if within 0x20 0x2F c then deviceModifier else if within 0x3C 0x3F c then unread else m
  | _ => if within 0x30 0x3F c then unread else m

/-- The mode after a character that is not shown. An escape begins an order and two characters break
one off, whatever the mode is. -/
def next (m : Mode) (c : Char) : Mode :=
  if c = '\x1b' then escape
  else if c = '\x18' ∨ c = '\x1a' then idle
  else match m with
  | idle => idle
  | escape => afterEscape c
  | modifier => if within 0x30 0x7E c then idle else modifier
  | control => if within 0x40 0x7E c then idle else control
  | command => if c = '\x07' then idle else command
  | device | deviceParameter | deviceModifier => inDevice m c
  | unread => if (Utf8.encode (String.singleton c)).contains stringEnd then idle else unread

/-- Whether a character is shown. One of layout breaks off a short order. -/
def shows (m : Mode) (c : Char) : Bool :=
  match m with
  | idle => isShown c
  | escape | modifier | control => isLayout c
  | command | device | deviceParameter | deviceModifier | unread => false

end Mode

def shown : Mode → List Char → List Char
  | _, [] => []
  | m, c :: cs => if m.shows c then c :: shown .idle cs else shown (m.next c) cs

/-- What a terminal that is idle shows of a text. -/
def plain (text : String) : String := String.ofList (shown .idle text.toList)

def boldOrder : List Char := ['\x1b', '[', '1', 'm']

def usualOrder : List Char := ['\x1b', '[', '0', 'm']

def emphasized (text : String) : String := String.ofList (boldOrder ++ text.toList ++ usualOrder)

end LiveRelay.Terminal
