import LiveRelay.Text.Utf8

/-! # Percent escapes

A byte of a path may be written as a percent sign and two hexadecimal digits. An escape that is not
complete stands for itself. While a path is compared with the routes, a few escapes are kept, so
that an escaped slash does not separate anything.
-/

namespace LiveRelay.Percent

/-- The value of a byte that is a hexadecimal digit. -/
def hexValue? (b : UInt8) : Option Nat :=
  let n := b.toNat
  if 48 ≤ n ∧ n ≤ 57 then some (n - 48)
  else if 97 ≤ n ∧ n ≤ 102 then some (n - 87)
  else if 65 ≤ n ∧ n ≤ 70 then some (n - 55)
  else none

def hexByte? (high low : UInt8) : Option UInt8 := do
  return UInt8.ofNat ((← hexValue? high) * 16 + (← hexValue? low))

/-- Decodes the escapes of all bytes but the kept ones. -/
def decodeBytes (keep : UInt8 → Bool) : List UInt8 → List UInt8
  | [] => []
  | [a] => [a]
  | [a, b] => [a, b]
  | percent :: high :: low :: rest =>
    match if percent = 0x25 then hexByte? high low else none with
    | none => percent :: decodeBytes keep (high :: low :: rest)
    | some b =>
      if keep b then percent :: decodeBytes keep (high :: low :: rest)
      else b :: decodeBytes keep rest

/-- The bytes whose escapes are kept for the comparison with routes: percent, plus and slash. -/
def isKept (b : UInt8) : Bool := b == 0x25 || b == 0x2B || b == 0x2F

/-- The form in which a path is compared with routes. -/
def forRoutes (path : String) : String := Utf8.decodeLossy (decodeBytes isKept (Utf8.encode path))

def decode (text : String) : String :=
  Utf8.decodeLossy (decodeBytes (fun _ => false) (Utf8.encode text))

end LiveRelay.Percent
