import SampleTypes.Json.Reader
import SampleTypes.Text.Blank
import SampleTypes.Text.Lines

/-!
Samples in a text. A text is one JSON document or else one document per line; blank lines are
skipped. A document that is a non-empty list may stand for its items.
-/

namespace SampleTypes

inductive SamplesError where
  | noData (source : String)
  | invalidJson (source : String) (line : Nat) (cause : Json.Malformed)
  | integerTooLong (digits : Nat)
  deriving DecidableEq, Repr

def SamplesError.message : SamplesError → String
  | .noData source => "No JSON data found in " ++ source
  | .invalidJson source line cause =>
    "Invalid JSON in " ++ source ++ " at line " ++ toString line ++ ": " ++ cause.message
  | .integerTooLong digits => Json.integerTooLongMessage digits

namespace Samples

def ofDocument (splitRootArray : Bool) (v : Value) : List Value :=
  match splitRootArray, v with
  | true, .list (item :: rest) => item :: rest
  | _, v => [v]

def ofLines (source : String) : (line : Nat) → List (List Char) → Except SamplesError (List Value)
  | _, [] => .ok []
  | line, text :: rest =>
    if (Text.trim text).isEmpty then ofLines source (line + 1) rest
    else match Json.read (Text.trim text) with
      | .ok v => do return v :: (← ofLines source (line + 1) rest)
      | .error (.malformed cause) => .error (.invalidJson source line cause)
      | .error (.integerTooLong digits) => .error (.integerTooLong digits)

/-- The samples of a text. It is trimmed first, and its lines are counted after that. -/
def parse (source : String) (splitRootArray : Bool) (content : List Char) :
    Except SamplesError (List Value) :=
  let text := Text.trim content
  if text.isEmpty then .error (.noData source)
  else match Json.read text with
    | .ok v => .ok (ofDocument splitRootArray v)
    | .error (.integerTooLong digits) => .error (.integerTooLong digits)
    | .error (.malformed _) => ofLines source 1 (Text.splitLines text)

end Samples

end SampleTypes
