import SampleTypes.Proofs.Json.Quoting
import SampleTypes.Proofs.Shape.Key

/-! What the canonical text of a shape tells. It leaves out the order of fields and the placeholder
marks, and nothing else: shapes with one text have one normal form. -/

namespace SampleTypes.Shape

open Json (quote quoteChars objectText toList_quote quoteChars_append_inj)

mutual

/-- The shape with fields sorted by name and without placeholder marks, at every depth. -/
def normal : Shape → Shape
  | .primitive kind => .primitive kind
  | .array e _ => .array e.normal false
  | .object fields => .object (sortByName (normalFields fields))
  | .union variants => .union (normalVariants variants)
  | .reference name => .reference name

def normalFields : Fields → Fields
  | [] => []
  | (name, field) :: rest => (name, ⟨field.shape.normal, field.optional⟩) :: normalFields rest

def normalVariants : List Shape → List Shape
  | [] => []
  | v :: rest => v.normal :: normalVariants rest

end

theorem normal_object (fields : Fields) :
    (Shape.object fields).normal = .object (mapFields normal (sortByName fields)) := by
  have inner : normalFields fields = mapFields normal fields := by
    induction fields with
    | nil => rfl
    | cons entry rest ih => rw [normalFields, ih]; rfl
  rw [normal, inner, sortByName_mapFields]

theorem normal_union (variants : List Shape) :
    (Shape.union variants).normal = .union (variants.map normal) := by
  have inner : normalVariants variants = variants.map normal := by
    induction variants with
    | nil => rfl
    | cons v rest ih => rw [normalVariants, ih, List.map_cons]
  rw [normal, inner]

theorem tidying_normal : Tidying normal fun _ => false where
  unmarked := rfl
  primitive _ := by rw [normal]
  array _ _ := by rw [normal]
  object fields := by rw [normal_object, sortByName_mapFields]
  union := normal_union
  reference _ := by rw [normal]

/-! The texts, character by character. -/

theorem sortByName_pair {α : Type} (name other : Str) (a b : α) :
    sortByName [(name, a), (other, b)] =
      if name ≤ other then [(name, a), (other, b)] else [(other, b), (name, a)] := by
  simp [sortByName, sort, insertSorted]

theorem toList_key_array (e : Shape) (placeholder : Bool) :
    (Shape.array e placeholder).key.toList =
      "\x7b\"items\": ".toList ++ e.key.toList ++ ", \"type\": \"array\"\x7d".toList := by
  have type : quote "type" = "\"type\"" := rfl
  have items : quote "items" = "\"items\"" := rfl
  have array : quote "array" = "\"array\"" := rfl
  rw [key_array, objectText, sortByName_pair, if_neg (by decide)]
  simp [type, items, array]

theorem toList_key_reference (name : String) :
    (Shape.reference name).key.toList =
      "\x7b\"$ref\": ".toList ++ quoteChars .ascii (name : Str).points ++ "\x7d".toList := by
  have ref : quote "$ref" = "\"$ref\"" := rfl
  rw [key_reference, objectText]
  simp [sortByName, sort, insertSorted, ref, toList_quote]

theorem toList_key_union (variants : List Shape) :
    (Shape.union variants).key.toList = "\x7b\"type\": \"union\", \"variants\": [".toList ++
      ", ".toList.intercalate (variants.map fun v => v.key.toList) ++ "]\x7d".toList := by
  have type : quote "type" = "\"type\"" := rfl
  have union : quote "union" = "\"union\"" := rfl
  have several : quote "variants" = "\"variants\"" := rfl
  rw [key_union, objectText, sortByName_pair, if_pos (by decide)]
  simp [type, union, several, Json.arrayText, String.toList_intercalate, Function.comp_def]

theorem toList_fieldKey (field : Field) :
    (fieldKey field).toList = "\x7b\"optional\": ".toList ++
      (if field.optional then "true" else "false").toList ++ ", \"type\": ".toList ++
        field.shape.key.toList ++ "\x7d".toList := by
  have type : quote "type" = "\"type\"" := rfl
  have optional : quote "optional" = "\"optional\"" := rfl
  rw [fieldKey, objectText, sortByName_pair, if_neg (by decide)]
  simp [type, optional]

theorem toList_objectText (entries : List (Str × String)) :
    (objectText .sorted entries).toList = "\x7b".toList ++
      ", ".toList.intercalate ((sortByName entries).map fun entry =>
        quoteChars .ascii entry.1.points ++ ": ".toList ++ entry.2.toList) ++ "\x7d".toList := by
  simp [objectText, String.toList_intercalate, toList_quote, Function.comp_def]

def entryChars (entry : Str × Field) : List Char :=
  quoteChars .ascii entry.1.points ++ ": ".toList ++ (fieldKey entry.2).toList

theorem toList_key_object (fields : Fields) :
    (Shape.object fields).key.toList = "\x7b\"fields\": \x7b".toList ++
      ", ".toList.intercalate ((sortByName fields).map entryChars) ++
        "\x7d, \"type\": \"object\"\x7d".toList := by
  have type : quoteChars .ascii ("type" : Str).points = "\"type\"".toList := rfl
  have inside : quoteChars .ascii ("fields" : Str).points = "\"fields\"".toList := rfl
  have object : quoteChars .ascii ("object" : Str).points = "\"object\"".toList := rfl
  have chars : entryChars = fun entry =>
      quoteChars .ascii entry.1.points ++ ": ".toList ++ (fieldKey entry.2).toList := rfl
  rw [key_object, toList_objectText, sortByName_pair, if_neg (by decide), chars]
  simp only [List.map_cons, List.map_nil, toList_objectText,
    sortByName_map fun _ field => fieldKey field, List.map_map, toList_quote, type, inside, object,
    List.intercalate_cons_cons, List.intercalate_singleton]
  simp [Function.comp_def]

/-! Lists of texts none of which is the start of another one. -/

section Lists

variable {α β : Type} {text : α → List Char} (norm : α → β) (close : Char) {items : List α}

theorem intercalate_cons_eq (separator first : List Char) (later : List (List Char)) :
    separator.intercalate (first :: later) = first ++ later.flatMap (separator ++ ·) := by
  induction later generalizing first with
  | nil => simp
  | cons next rest ih =>
    rw [List.intercalate_cons_cons, ih, List.flatMap_cons, List.append_assoc, List.append_assoc]

theorem flatMap_append_inj (apart : close ≠ ',')
    (parts : ∀ a ∈ items, ∀ b rest after, text a ++ rest = text b ++ after →
      norm a = norm b ∧ rest = after) {others : List α} {rest after : List Char}
    (equal : (items.flatMap fun a => ", ".toList ++ text a) ++ close :: rest =
      (others.flatMap fun a => ", ".toList ++ text a) ++ close :: after) :
    items.map norm = others.map norm ∧ rest = after := by
  induction items generalizing others with
  | nil =>
    cases others with
    | nil => exact ⟨rfl, by simpa using equal⟩
    | cons b others => exact absurd (List.cons.inj equal).1 apart
  | cons a items ih =>
    cases others with
    | nil => exact absurd (List.cons.inj equal).1.symm apart
    | cons b others =>
      rw [List.forall_mem_cons] at parts
      simp only [List.flatMap_cons, List.append_assoc] at equal
      obtain ⟨first, later⟩ := parts.1 b _ _ (List.append_cancel_left equal)
      obtain ⟨others, rest⟩ := ih parts.2 later
      exact ⟨by rw [List.map_cons, List.map_cons, first, others], rest⟩

theorem intercalate_append_inj (apart : close ≠ ',')
    (opened : ∀ a rest after, text a ++ rest ≠ close :: after)
    (parts : ∀ a ∈ items, ∀ b rest after, text a ++ rest = text b ++ after →
      norm a = norm b ∧ rest = after) {others : List α} {rest after : List Char}
    (equal : ", ".toList.intercalate (items.map text) ++ close :: rest =
      ", ".toList.intercalate (others.map text) ++ close :: after) :
    items.map norm = others.map norm ∧ rest = after := by
  cases items with
  | nil =>
    cases others with
    | nil => exact ⟨rfl, by simpa using equal⟩
    | cons b others =>
      rw [List.map_cons, intercalate_cons_eq, List.append_assoc] at equal
      exact absurd equal.symm (opened b _ rest)
  | cons a items =>
    cases others with
    | nil =>
      rw [List.map_cons, intercalate_cons_eq, List.append_assoc] at equal
      exact absurd equal (opened a _ after)
    | cons b others =>
      rw [List.forall_mem_cons] at parts
      simp only [List.map_cons, intercalate_cons_eq, List.append_assoc, List.flatMap_map] at equal
      obtain ⟨first, later⟩ := parts.1 b _ _ equal
      obtain ⟨others, rest⟩ := flatMap_append_inj norm close apart parts.2 later
      exact ⟨by rw [List.map_cons, List.map_cons, first, others], rest⟩

end Lists

/-! Reading a text back. -/

theorem Kind.name_injective {kind other : Kind} (equal : kind.name = other.name) : kind = other := by
  have read := Kind.ofName?_name kind
  rw [equal, Kind.ofName?_name other, Option.some.injEq] at read
  exact read.symm

theorem toList_key_primitive (kind : Kind) :
    (Shape.primitive kind).key.toList = quoteChars .ascii (kind.name : Str).points := by
  rw [key_primitive, toList_quote]

theorem key_opening (s : Shape) :
    ∃ tail, s.key.toList = '"' :: tail ∨ s.key.toList = '\x7b' :: tail := by
  cases s with
  | primitive kind => rw [toList_key_primitive]; exact ⟨_, Or.inl rfl⟩
  | array e placeholder => rw [toList_key_array]; exact ⟨_, Or.inr rfl⟩
  | object fields => rw [toList_key_object]; exact ⟨_, Or.inr rfl⟩
  | union variants => rw [toList_key_union]; exact ⟨_, Or.inr rfl⟩
  | reference name => rw [toList_key_reference]; exact ⟨_, Or.inr rfl⟩

theorem entryChars_append_inj {entry other : Str × Field} {rest after : List Char}
    (part : ∀ rest after, entry.2.shape.key.toList ++ rest = other.2.shape.key.toList ++ after →
      entry.2.shape.normal = other.2.shape.normal ∧ rest = after)
    (equal : entryChars entry ++ rest = entryChars other ++ after) :
    (entry.1, entry.2.map normal) = (other.1, other.2.map normal) ∧ rest = after := by
  obtain ⟨name, shape, optional⟩ := entry
  obtain ⟨otherName, otherShape, otherOptional⟩ := other
  simp only [entryChars, List.append_assoc] at equal
  obtain ⟨names, equal⟩ := quoteChars_append_inj equal
  have texts := List.append_cancel_left equal
  simp only [toList_fieldKey, List.append_assoc] at texts
  have flags := List.append_cancel_left texts
  have same : optional = otherOptional := by
    cases optional <;> cases otherOptional <;> first | rfl | simp at flags
  subst same
  obtain ⟨shapes, rest⟩ := part _ _ (List.append_cancel_left (List.append_cancel_left flags))
  exact ⟨by rw [names, FieldSpec.map, FieldSpec.map, shapes], List.append_cancel_left rest⟩

theorem ctorIdx_eq_of_key {s t : Shape} {rest after : List Char}
    (equal : s.key.toList ++ rest = t.key.toList ++ after) : s.ctorIdx = t.ctorIdx := by
  cases s <;> cases t
  all_goals first
    | rfl
    | simp [toList_key_primitive, toList_key_array, toList_key_object, toList_key_union,
        toList_key_reference, quoteChars] at equal

/-- No canonical text is the start of another one, and equal texts have equal normal forms. -/
theorem key_append_inj {s t : Shape} {rest after : List Char}
    (equal : s.key.toList ++ rest = t.key.toList ++ after) : s.normal = t.normal ∧ rest = after := by
  induction s generalizing t rest after with
  | primitive kind =>
    cases t with
    | primitive other =>
      rw [toList_key_primitive, toList_key_primitive] at equal
      obtain ⟨names, rest⟩ := quoteChars_append_inj equal
      exact ⟨by rw [Kind.name_injective (Str.ofString_injective names)], rest⟩
    | _ => cases ctorIdx_eq_of_key equal
  | array e placeholder ih =>
    cases t with
    | array f other =>
      simp only [toList_key_array, List.append_assoc] at equal
      obtain ⟨elements, rest⟩ := ih (List.append_cancel_left equal)
      exact ⟨by rw [normal, normal, elements], List.append_cancel_left rest⟩
    | _ => cases ctorIdx_eq_of_key equal
  | object fields ih =>
    cases t with
    | object others =>
      simp only [toList_key_object, List.append_assoc] at equal
      obtain ⟨entries, rest⟩ := intercalate_append_inj
        (fun entry : Str × Field => (entry.1, entry.2.map normal)) '\x7d' (by decide)
        (fun entry rest after equal => by simp [entryChars, quoteChars] at equal)
        (fun entry here other rest after equal => entryChars_append_inj
          (fun _ _ => ih entry ((sortByName_perm fields).mem_iff.mp here)) equal)
        (List.append_cancel_left equal)
      refine ⟨?_, List.append_cancel_left rest⟩
      rw [normal_object, normal_object]
      exact congrArg Shape.object entries
    | _ => cases ctorIdx_eq_of_key equal
  | union variants ih =>
    cases t with
    | union others =>
      simp only [toList_key_union, List.append_assoc] at equal
      obtain ⟨shapes, rest⟩ := intercalate_append_inj normal ']' (by decide)
        (fun v rest after equal => by
          obtain ⟨tail, opening⟩ := key_opening v
          rcases opening with opening | opening <;> simp [opening] at equal)
        (fun v here w rest after => ih v here)
        (List.append_cancel_left equal)
      refine ⟨?_, List.append_cancel_left rest⟩
      rw [normal_union, normal_union, shapes]
    | _ => cases ctorIdx_eq_of_key equal
  | reference name =>
    cases t with
    | reference other =>
      simp only [toList_key_reference, List.append_assoc] at equal
      obtain ⟨names, rest⟩ := quoteChars_append_inj (List.append_cancel_left equal)
      exact ⟨by rw [Str.ofString_injective names], List.append_cancel_left rest⟩
    | _ => cases ctorIdx_eq_of_key equal

theorem key_eq_iff {s t : Shape} : s.key = t.key ↔ s.normal = t.normal := by
  constructor
  · intro equal
    have texts : s.key.toList ++ [] = t.key.toList ++ [] := by rw [equal]
    exact (key_append_inj texts).1
  · intro equal
    rw [← tidying_normal.key s, equal, tidying_normal.key t]

/-- What the digest of a shape is taken of. -/
def encoding (s : Shape) : List UInt8 := Text.Utf8.encode s.key.toList

theorem digest_eq (s : Shape) : s.digest = Sha256.digest s.encoding := rfl

theorem encoding_eq_iff {s t : Shape} : s.encoding = t.encoding ↔ s.normal = t.normal := by
  rw [← key_eq_iff]
  constructor
  · intro equal
    exact String.toList_injective (Text.Utf8.encode_injective equal)
  · intro equal
    rw [encoding, encoding, equal]

theorem digest_normal (s : Shape) : s.normal.digest = s.digest := by
  rw [digest_eq, digest_eq, encoding, encoding, tidying_normal.key]

theorem digest_eq_of_normal {s t : Shape} (equal : s.normal = t.normal) : s.digest = t.digest := by
  rw [← digest_normal s, equal, digest_normal t]

end SampleTypes.Shape
