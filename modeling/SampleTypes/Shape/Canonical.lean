import SampleTypes.Digest.Sha256
import SampleTypes.Json.Writer
import SampleTypes.Shape.Basic
import SampleTypes.Text.Utf8

/-!
Shapes as JSON, and the canonical text of a JSON value: its entries sorted by name, so the text does
not depend on their order. A digest of that text is the fingerprint of a value or shape.
-/

namespace SampleTypes

structure Fingerprint where
  digest : List UInt8
  size : Nat
  deriving DecidableEq, Repr

def Value.canonicalText (v : Value) : String := Json.write .sorted v

def Value.fingerprint (v : Value) : Fingerprint :=
  let bytes := Text.Utf8.encode v.canonicalText.toList
  ⟨Sha256.digest bytes, bytes.length⟩

namespace Shape

def record (entries : List (Str × Value)) : Value :=
  .object (entries.map fun (name, v) => (.name name, v))

mutual

def toJson : Shape → Value
  | .primitive kind => .string kind.name
  | .array e _ => record [("type", .string "array"), ("items", e.toJson)]
  | .object fields => record [("type", .string "object"), ("fields", record (fieldsToJson fields))]
  | .union variants => record [("type", .string "union"), ("variants", .list (variantsToJson variants))]
  | .reference name => record [("$ref", .string name)]

def fieldsToJson : Fields → List (Str × Value)
  | [] => []
  | (name, field) :: rest =>
    (name, record [("type", field.shape.toJson), ("optional", .bool field.optional)]) ::
      fieldsToJson rest

def variantsToJson : List Shape → List Value
  | [] => []
  | v :: rest => v.toJson :: variantsToJson rest

end

def key (s : Shape) : String := s.toJson.canonicalText

def digest (s : Shape) : List UInt8 := s.toJson.fingerprint.digest

end Shape

end SampleTypes
