import SampleTypes.Proofs.Entries
import SampleTypes.Shape.Union

/-! Shapes up to the order of fields. `arranged` sorts the fields of every object by name and keeps
all else, placeholder marks included; two shapes agree when that makes them equal. -/

namespace SampleTypes

@[elab_as_elim, induction_eliminator]
theorem Shape.induct {motive : Shape → Prop}
    (primitive : ∀ kind, motive (.primitive kind))
    (array : ∀ element placeholder, motive element → motive (.array element placeholder))
    (object : ∀ fields, (∀ entry ∈ fields, motive entry.2.shape) → motive (.object fields))
    (union : ∀ variants, (∀ v ∈ variants, motive v) → motive (.union variants))
    (reference : ∀ name, motive (.reference name)) : ∀ s, motive s := by
  intro s
  refine @Shape.rec motive (fun fields => ∀ entry ∈ fields, motive entry.2.shape)
    (fun variants => ∀ v ∈ variants, motive v)
    (fun entry => motive entry.2.shape) (fun field => motive field.shape)
    primitive array object union reference ?_ ?_ ?_ ?_ ?_ ?_ s
  · intro entry member
    cases member
  · intro head tail first later
    exact List.forall_mem_cons.mpr ⟨first, later⟩
  · intro v member
    cases member
  · intro head tail first later
    exact List.forall_mem_cons.mpr ⟨first, later⟩
  · intro name field ih
    exact ih
  · intro shape optional ih
    exact ih

namespace FieldSpec

variable {σ τ υ : Type}

def map (f : σ → τ) (field : FieldSpec σ) : FieldSpec τ := ⟨f field.shape, field.optional⟩

@[simp] theorem map_shape (f : σ → τ) (field : FieldSpec σ) : (field.map f).shape = f field.shape :=
  rfl

@[simp] theorem map_optional (f : σ → τ) (field : FieldSpec σ) :
    (field.map f).optional = field.optional := rfl

end FieldSpec

namespace Shape

def mapFields (f : Shape → Shape) (fields : Fields) : Fields :=
  fields.map fun entry => (entry.1, entry.2.map f)

theorem keys_mapFields (f : Shape → Shape) (fields : Fields) :
    Entries.keys (mapFields f fields) = Entries.keys fields :=
  Entries.keys_map (fun _ (field : Field) => field.map f) fields

theorem mapFields_congr {f g : Shape → Shape} {fields : Fields}
    (agree : ∀ entry ∈ fields, f entry.2.shape = g entry.2.shape) :
    mapFields f fields = mapFields g fields := by
  apply List.map_congr_left
  intro entry here
  rw [FieldSpec.map, FieldSpec.map, agree entry here]

theorem mapFields_mapFields (f g : Shape → Shape) (fields : Fields) :
    mapFields f (mapFields g fields) = mapFields (fun s => f (g s)) fields := by
  rw [mapFields, mapFields, List.map_map]
  rfl

theorem lookup_mapFields (f : Shape → Shape) (fields : Fields) (name : Str) :
    (mapFields f fields).lookup name = (fields.lookup name).map (·.map f) :=
  Entries.lookup_map (fun _ (field : Field) => field.map f) name fields

mutual

def arranged : Shape → Shape
  | .primitive kind => .primitive kind
  | .array e placeholder => .array e.arranged placeholder
  | .object fields => .object (sortByName (arrangedFields fields))
  | .union variants => .union (arrangedVariants variants)
  | .reference name => .reference name

def arrangedFields : Fields → Fields
  | [] => []
  | (name, field) :: rest => (name, ⟨field.shape.arranged, field.optional⟩) :: arrangedFields rest

def arrangedVariants : List Shape → List Shape
  | [] => []
  | v :: rest => v.arranged :: arrangedVariants rest

end

/-- Equal up to the order of fields at every depth. -/
def Agrees (s t : Shape) : Prop := s.arranged = t.arranged

theorem arrangedFields_eq (fields : Fields) : arrangedFields fields = mapFields arranged fields := by
  induction fields with
  | nil => rfl
  | cons entry rest ih => rw [arrangedFields, ih]; rfl

theorem arrangedVariants_eq (variants : List Shape) :
    arrangedVariants variants = variants.map arranged := by
  induction variants with
  | nil => rfl
  | cons v rest ih => rw [arrangedVariants, ih]; rfl

theorem arranged_object (fields : Fields) :
    (Shape.object fields).arranged = .object (sortByName (mapFields arranged fields)) := by
  rw [arranged, arrangedFields_eq]

theorem arranged_union (variants : List Shape) :
    (Shape.union variants).arranged = .union (variants.map arranged) := by
  rw [arranged, arrangedVariants_eq]

theorem sortByName_mapFields (f : Shape → Shape) (fields : Fields) :
    sortByName (mapFields f fields) = mapFields f (sortByName fields) :=
  sortByName_map (fun _ (field : Field) => field.map f) fields

/-- A map that sorts the fields of every object by name, changes placeholder marks by `mark`, and
keeps all else. -/
structure Tidying (f : Shape → Shape) (mark : Bool → Bool) : Prop where
  unmarked : mark false = false
  primitive (kind : Kind) : f (.primitive kind) = .primitive kind
  array (e : Shape) (placeholder : Bool) : f (.array e placeholder) = .array (f e) (mark placeholder)
  object (fields : Fields) : f (.object fields) = .object (sortByName (mapFields f fields))
  union (variants : List Shape) : f (.union variants) = .union (variants.map f)
  reference (name : String) : f (.reference name) = .reference name

theorem tidying_arranged : Tidying arranged id where
  unmarked := rfl
  primitive _ := by rw [arranged]
  array _ _ := by rw [arranged, id]
  object := arranged_object
  union := arranged_union
  reference _ := by rw [arranged]

namespace Tidying

variable {f : Shape → Shape} {mark : Bool → Bool}

theorem isUnion (tidying : Tidying f mark) (s : Shape) : (f s).isUnion = s.isUnion := by
  cases s <;> simp [tidying.primitive, tidying.array, tidying.object, tidying.union,
    tidying.reference, Shape.isUnion]

theorem isNull (tidying : Tidying f mark) (s : Shape) : (f s).isNull = s.isNull := by
  cases s <;> simp [tidying.primitive, tidying.array, tidying.object, tidying.union,
    tidying.reference, Shape.isNull]

theorem rank (tidying : Tidying f mark) (s : Shape) : (f s).rank = s.rank := by
  cases s <;> simp [tidying.primitive, tidying.array, tidying.object, tidying.union,
    tidying.reference, Shape.rank, rank?]

theorem variants (tidying : Tidying f mark) (s : Shape) : (f s).variants = s.variants.map f := by
  cases s <;> simp [tidying.primitive, tidying.array, tidying.object, tidying.union,
    tidying.reference, Shape.variants]

end Tidying

end Shape

end SampleTypes
