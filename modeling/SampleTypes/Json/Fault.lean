/-!
Why a text is not read as JSON.
-/

namespace SampleTypes.Json

inductive Malformed where
  | byteOrderMark
  | missingValue
  | missingName
  | missingColon
  | missingComma
  | extraData
  | unterminatedString
  | controlCharacter
  | unknownEscape
  | brokenUnicodeEscape
  deriving DecidableEq, Repr

def Malformed.message : Malformed → String
  | .byteOrderMark => "Unexpected UTF-8 BOM (decode using utf-8-sig)"
  | .missingValue => "Expecting value"
  | .missingName => "Expecting property name enclosed in double quotes"
  | .missingColon => "Expecting ':' delimiter"
  | .missingComma => "Expecting ',' delimiter"
  | .extraData => "Extra data"
  | .unterminatedString => "Unterminated string starting at"
  | .controlCharacter => "Invalid control character at"
  | .unknownEscape => "Invalid \\escape"
  | .brokenUnicodeEscape => "Invalid \\uXXXX escape"

inductive Fault where
  | malformed (cause : Malformed)
  | integerTooLong (digits : Nat)
  deriving DecidableEq, Repr

def maxIntegerDigits : Nat := 4300

def integerTooLongMessage (digits : Nat) : String :=
  "Exceeds the limit (" ++ toString maxIntegerDigits ++
    " digits) for integer string conversion: value has " ++ toString digits ++
    " digits; use sys.set_int_max_str_digits() to increase the limit"

def Fault.message : Fault → String
  | .malformed cause => cause.message
  | .integerTooLong digits => integerTooLongMessage digits

end SampleTypes.Json
