import LiveRelay.Text.Visible

/-! # Quoted texts

A message for a person shows a text between quotes. A quote inside it, a backslash, and every
character that does not show on its own are escaped, so that different texts look different.
-/

namespace LiveRelay

/-- The letters that stand for a character after a backslash. -/
def quoteLetter? : Char → Option Char
  | '"' => some '"'
  | '\\' => some '\\'
  | '\n' => some 'n'
  | '\t' => some 't'
  | '\r' => some 'r'
  | '\x00' => some '0'
  | _ => none

/-- The way a character is shown between quotes. -/
def quoteChar (c : Char) : List Char :=
  match quoteLetter? c with
  | some letter => ['\\', letter]
  | none =>
    if isVisible c then [c]
    else '\\' :: 'u' :: '\x7b' :: (Nat.toDigits 16 c.toNat ++ ['\x7d'])

def quote (s : String) : String := String.ofList ('"' :: (s.toList.flatMap quoteChar ++ ['"']))

end LiveRelay
