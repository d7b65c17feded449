import SampleTypes.Proofs.Shape.Arrangement
import SampleTypes.Shape.Canonical

/-! The canonical text of each kind of shape, from the texts of its parts. -/

namespace SampleTypes

namespace Json

theorem writeItems_eq (order : EntryOrder) (items : List Value) :
    writeItems order items = items.map (write order) := by
  induction items with
  | nil => rfl
  | cons item rest ih => rw [writeItems, ih, List.map_cons]

theorem writeEntries_eq (order : EntryOrder) (entries : List (Key × Value)) :
    writeEntries order entries = entries.map fun entry => (entry.1.text, write order entry.2) := by
  induction entries with
  | nil => rfl
  | cons entry rest ih => rw [writeEntries, ih]; rfl

theorem write_record (order : EntryOrder) (entries : List (Str × Value)) :
    write order (Shape.record entries) =
      objectText order (entries.map fun entry => (entry.1, write order entry.2)) := by
  rw [Shape.record, write, writeEntries_eq, List.map_map]
  rfl

theorem objectText_sortByName (entries : List (Str × String)) :
    objectText .sorted (sortByName entries) = objectText .sorted entries := by
  simp only [objectText, sortByName_idem]

end Json

namespace Shape

open Json (objectText quote write)

theorem key_primitive (kind : Kind) : (Shape.primitive kind).key = quote kind.name := rfl

theorem key_reference (name : String) :
    (Shape.reference name).key = objectText .sorted [("$ref", quote name)] := rfl

theorem key_array (e : Shape) (placeholder : Bool) :
    (Shape.array e placeholder).key =
      objectText .sorted [("type", quote "array"), ("items", e.key)] := rfl

theorem key_union (variants : List Shape) :
    (Shape.union variants).key = objectText .sorted
      [("type", quote "union"), ("variants", Json.arrayText (variants.map key))] := by
  have inner : variantsToJson variants = variants.map toJson := by
    induction variants with
    | nil => rfl
    | cons v rest ih => rw [variantsToJson, ih, List.map_cons]
  rw [key, toJson, inner, Value.canonicalText, Json.write_record]
  simp only [List.map_cons, List.map_nil, write, Json.writeItems_eq, List.map_map]
  rfl

def fieldKey (field : Field) : String :=
  objectText .sorted [("type", field.shape.key), ("optional", if field.optional then "true" else "false")]

theorem key_object (fields : Fields) :
    (Shape.object fields).key = objectText .sorted [("type", quote "object"),
      ("fields", objectText .sorted (fields.map fun entry => (entry.1, fieldKey entry.2)))] := by
  have inner : fieldsToJson fields = fields.map fun entry => (entry.1, record
      [("type", entry.2.shape.toJson), ("optional", .bool entry.2.optional)]) := by
    induction fields with
    | nil => rfl
    | cons entry rest ih => rw [fieldsToJson, ih, List.map_cons]
  rw [key, toJson, inner, Value.canonicalText, Json.write_record]
  simp only [List.map_cons, List.map_nil, write, Json.write_record, List.map_map]
  rfl

theorem fieldKey_map {f : Shape → Shape} {field : Field} (same : (f field.shape).key = field.shape.key) :
    fieldKey (field.map f) = fieldKey field := by
  rw [fieldKey, fieldKey, FieldSpec.map_shape, FieldSpec.map_optional, same]

theorem Tidying.key {f : Shape → Shape} {mark : Bool → Bool} (tidying : Tidying f mark) (s : Shape) :
    (f s).key = s.key := by
  induction s with
  | primitive kind => rw [tidying.primitive]
  | array e placeholder ih => rw [tidying.array, key_array, key_array, ih]
  | object fields ih =>
    have texts : (mapFields f fields).map (fun entry => (entry.1, fieldKey entry.2)) =
        fields.map fun entry => (entry.1, fieldKey entry.2) := by
      rw [mapFields, List.map_map]
      apply List.map_congr_left
      intro entry here
      exact congrArg (Prod.mk entry.1) (fieldKey_map (ih entry here))
    have inner : objectText .sorted ((sortByName (mapFields f fields)).map
        fun entry => (entry.1, fieldKey entry.2)) =
          objectText .sorted (fields.map fun entry => (entry.1, fieldKey entry.2)) := by
      rw [← sortByName_map fun _ field => fieldKey field, Json.objectText_sortByName, texts]
    rw [tidying.object, key_object, key_object, inner]
  | union variants ih =>
    rw [tidying.union, key_union, key_union, List.map_map]
    congr 5
    exact List.map_congr_left ih
  | reference name => rw [tidying.reference]

theorem digest_arranged (s : Shape) : s.arranged.digest = s.digest := by
  have texts : s.arranged.toJson.canonicalText = s.toJson.canonicalText := tidying_arranged.key s
  rw [digest, digest, Value.fingerprint, Value.fingerprint, texts]

end Shape

end SampleTypes
