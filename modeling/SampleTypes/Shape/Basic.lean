import SampleTypes.Value

/-!
Shapes of samples. A shape is a primitive kind, an array of one element shape, an object with named
fields, a union of variants, or a reference to a named object. `s == t` compares shapes as types: it
ignores the order of fields and the placeholder mark.
-/

namespace SampleTypes

inductive Kind where
  | boolean
  | integer
  | float
  | string
  | null
  deriving DecidableEq, Repr

def Kind.all : List Kind := [.boolean, .integer, .float, .string, .null]

def Kind.name : Kind → String
  | .boolean => "boolean"
  | .integer => "integer"
  | .float => "float"
  | .string => "string"
  | .null => "null"

def Kind.ofName? (name : String) : Option Kind := Kind.all.find? fun kind => kind.name = name

theorem Kind.ofName?_name (kind : Kind) : Kind.ofName? kind.name = some kind := by
  cases kind <;> rfl

structure FieldSpec (σ : Type) where
  shape : σ
  optional : Bool := false
  deriving DecidableEq, Repr

/-- A placeholder array is one of which only empty lists were seen. -/
inductive Shape where
  | primitive (kind : Kind)
  | array (element : Shape) (placeholder : Bool)
  | object (fields : List (Str × FieldSpec Shape))
  | union (variants : List Shape)
  | reference (name : String)
  deriving Repr, Inhabited

abbrev Field := FieldSpec Shape

abbrev Fields := List (Str × Field)

namespace Shape

def null : Shape := .primitive .null

def isNull : Shape → Bool
  | .primitive .null => true
  | _ => false

def isUnion : Shape → Bool
  | .union _ => true
  | _ => false

def variants : Shape → List Shape
  | .union variants => variants
  | s => [s]

mutual

def same : Shape → Shape → Bool
  | .primitive j, .primitive k => j = k
  | .array e _, .array f _ => e.same f
  | .object fields, .object others => fields.length == others.length && sameFields fields others
  | .union variants, .union others => sameVariants variants others
  | .reference m, .reference n => m == n
  | _, _ => false

def sameFields : Fields → Fields → Bool
  | [], _ => true
  | (name, field) :: rest, others =>
    (match others.lookup name with
      | some other => field.shape.same other.shape && field.optional == other.optional
      | none => false) && sameFields rest others

def sameVariants : List Shape → List Shape → Bool
  | [], [] => true
  | v :: rest, w :: others => v.same w && sameVariants rest others
  | _, _ => false

end

instance : BEq Shape := ⟨same⟩

def kindName : Shape → String
  | .primitive kind => kind.name
  | .array _ _ => "array"
  | .object _ => "object"
  | .union _ => "union"
  | .reference _ => "reference"

/-- The place of a variant in a union, by its kind. A union has no place in another one. -/
def rank? : Shape → Option Nat
  | .primitive .boolean => some 0
  | .primitive .integer => some 1
  | .primitive .float => some 2
  | .primitive .string => some 3
  | .array _ _ => some 4
  | .object _ => some 5
  | .reference _ => some 6
  | .primitive .null => some 7
  | .union _ => none

mutual

def references : Shape → List String
  | .primitive _ => []
  | .array e _ => e.references
  | .object fields => fieldReferences fields
  | .union variants => variantReferences variants
  | .reference name => [name]

def fieldReferences : Fields → List String
  | [] => []
  | (_, field) :: rest => field.shape.references ++ fieldReferences rest

def variantReferences : List Shape → List String
  | [] => []
  | v :: rest => v.references ++ variantReferences rest

end

end Shape

end SampleTypes
