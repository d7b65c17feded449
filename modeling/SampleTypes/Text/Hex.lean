/-!
Hexadecimal digits, written in lower case and read in either case.
-/

namespace SampleTypes.Text

def hexDigit (n : Nat) : Char :=
  if n < 10 then Char.ofNat (48 + n) else Char.ofNat (87 + n)

def hexValue? (c : Char) : Option Nat :=
  if '0' ≤ c && c ≤ '9' then some (c.toNat - 48)
  else if 'a' ≤ c && c ≤ 'f' then some (c.toNat - 87)
  else if 'A' ≤ c && c ≤ 'F' then some (c.toNat - 55)
  else none

/-- The lowest `width` digits of `n`, the highest first. -/
def hexFixed : (width n : Nat) → List Char
  | 0, _ => []
  | width + 1, n => hexFixed width (n / 16) ++ [hexDigit (n % 16)]

def hexBytes (bytes : List UInt8) : String :=
  String.ofList (bytes.flatMap fun byte => hexFixed 2 byte.toNat)

theorem hexValue?_hexDigit (n : Nat) (small : n < 16) : hexValue? (hexDigit n) = some n := by
  revert n
  decide

end SampleTypes.Text
