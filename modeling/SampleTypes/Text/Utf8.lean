import SampleTypes.Text.Hex
import SampleTypes.Text.Points

/-!
UTF-8. `encode` writes characters as bytes; `decode` reads them back and reports the first fault:
where the faulty sequence starts, how many of its bytes were still possible, and what went wrong.
Surrogates have no bytes, so `encodePoints` fails at the first of them.
-/

namespace SampleTypes.Text.Utf8

inductive Reason where
  | invalidStart
  | invalidContinuation
  | unexpectedEnd
  deriving DecidableEq, Repr

structure Fault where
  position : Nat
  length : Nat
  first : UInt8
  reason : Reason
  deriving DecidableEq, Repr

def Reason.message : Reason → String
  | .invalidStart => "invalid start byte"
  | .invalidContinuation => "invalid continuation byte"
  | .unexpectedEnd => "unexpected end of data"

def Fault.message (fault : Fault) : String :=
  let place :=
    if fault.length = 1 then
      "byte 0x" ++ String.ofList (hexFixed 2 fault.first.toNat) ++ " in position " ++ toString fault.position
    else
      "bytes in position " ++ toString fault.position ++ "-" ++
        toString (fault.position + fault.length - 1)
  "'utf-8' codec can't decode " ++ place ++ ": " ++ fault.reason.message

/-- A character whose first bytes are read: the bytes still owed, the bits so far, and the bounds
of the next byte. -/
structure Pending where
  start : Nat
  first : UInt8
  owed : Nat
  bits : Nat
  low : Nat
  high : Nat
  deriving DecidableEq, Repr

/-- What a first byte announces. Bounds on the second byte leave out overlong forms, surrogates
and numbers above U+10FFFF. -/
def Pending.ofFirst? (position : Nat) (byte : UInt8) : Option Pending :=
  let b := byte.toNat
  let pending (owed bits low high : Nat) : Option Pending :=
    some ⟨position, byte, owed, bits, low, high⟩
  if b < 0xC2 then none
  else if b < 0xE0 then pending 1 (b - 0xC0) 0x80 0xBF
  else if b = 0xE0 then pending 2 (b - 0xE0) 0xA0 0xBF
  else if b = 0xED then pending 2 (b - 0xE0) 0x80 0x9F
  else if b < 0xF0 then pending 2 (b - 0xE0) 0x80 0xBF
  else if b = 0xF0 then pending 3 (b - 0xF0) 0x90 0xBF
  else if b < 0xF4 then pending 3 (b - 0xF0) 0x80 0xBF
  else if b = 0xF4 then pending 3 (b - 0xF0) 0x80 0x8F
  else none

def Pending.fault (pending : Pending) (position : Nat) (reason : Reason) : Fault :=
  ⟨pending.start, position - pending.start, pending.first, reason⟩

def decodeFrom : Option Pending → Nat → List UInt8 → Except Fault (List Char)
  | none, _, [] => .ok []
  | some pending, position, [] => .error (pending.fault position .unexpectedEnd)
  | none, position, byte :: rest =>
    if byte < 0x80 then do
      return Char.ofNat byte.toNat :: (← decodeFrom none (position + 1) rest)
    else match Pending.ofFirst? position byte with
      | none => .error ⟨position, 1, byte, .invalidStart⟩
      | some pending => decodeFrom (some pending) (position + 1) rest
  | some pending, position, byte :: rest =>
    let b := byte.toNat
    if b < pending.low || pending.high < b then
      .error (pending.fault position .invalidContinuation)
    else
      let bits := pending.bits * 64 + (b - 0x80)
      if pending.owed ≤ 1 then do
        return Char.ofNat bits :: (← decodeFrom none (position + 1) rest)
      else
        decodeFrom (some { pending with owed := pending.owed - 1, bits, low := 0x80, high := 0xBF })
          (position + 1) rest

def decode (bytes : List UInt8) : Except Fault (List Char) := decodeFrom none 0 bytes

def encodeChar (c : Char) : List UInt8 :=
  let n := c.toNat
  let tail (k : Nat) : UInt8 := UInt8.ofNat (0x80 + n / Nat.pow 64 k % 64)
  if n < 0x80 then [UInt8.ofNat n]
  else if n < 0x800 then [UInt8.ofNat (0xC0 + n / 64), tail 0]
  else if n < 0x10000 then [UInt8.ofNat (0xE0 + n / 4096), tail 1, tail 0]
  else [UInt8.ofNat (0xF0 + n / 262144), tail 2, tail 1, tail 0]

def encode (text : List Char) : List UInt8 := text.flatMap encodeChar

/-- The first surrogates of a text: where they stand, how many there are, and the first of them. -/
structure Unencodable where
  position : Nat
  length : Nat
  first : Nat
  deriving DecidableEq, Repr

def Unencodable.message (fault : Unencodable) : String :=
  let place :=
    if fault.length = 1 then
      "character '\\u" ++ String.ofList (hexFixed 4 fault.first) ++ "' in position " ++
        toString fault.position
    else
      "characters in position " ++ toString fault.position ++ "-" ++
        toString (fault.position + fault.length - 1)
  "'utf-8' codec can't encode " ++ place ++ ": surrogates not allowed"

def encodePoints (text : Points) : Except Unencodable (List UInt8) :=
  match text.dropWhile fun p => p.char?.isSome with
  | [] => .ok (encode (text.filterMap Point.char?))
  | p :: rest =>
    .error ⟨(text.takeWhile fun p => p.char?.isSome).length,
      1 + (rest.takeWhile fun p => p.char?.isNone).length, p.code⟩

theorem encode_append (first second : List Char) :
    encode (first ++ second) = encode first ++ encode second := by
  simp [encode]

end SampleTypes.Text.Utf8
