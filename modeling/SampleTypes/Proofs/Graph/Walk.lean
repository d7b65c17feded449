import SampleTypes.Proofs.Shape.Objects

/-! What a walk does to a registry, one kind of shape at a time. -/

namespace SampleTypes

def pickName (limit : Nat) (used : List String) (context : String) (fixed : Option String) :
    Except NamingCollision String :=
  match fixed with
  | some name => .ok name
  | none => uniqueName limit used context

def Registry.complete (registry : Registry) (name : String) (fields : Fields) : Registry :=
  { registry with table := Entries.put name fields registry.table }

def walkField (limit : Nat) (entry : Str × Field) : Naming (Str × Field) := do
  return (entry.1, ⟨← walk limit entry.2.shape (typeNameOf entry.1) none, entry.2.optional⟩)

def walkInside (limit : Nat) (digest : List UInt8) (fields : Fields) (name : String) (r : Registry) :
    Except NamingCollision (Shape × Registry) := do
  let (walked, later) ← (sortByName fields).mapM (walkField limit) (r.reserve digest name fields)
  return (.reference name, later.complete name (inOrderOf fields walked))

theorem fieldWalks_eq (limit : Nat) (fields : Fields) :
    fieldWalks limit fields =
      fields.map fun entry => (entry.1, walk limit entry.2.shape, entry.2.optional) := by
  induction fields with
  | nil => rfl
  | cons entry rest ih => rw [fieldWalks, ih]; rfl

theorem variantWalks_eq (limit : Nat) (variants : List Shape) :
    variantWalks limit variants = variants.map (walk limit) := by
  induction variants with
  | nil => rfl
  | cons v rest ih => rw [variantWalks, ih]; rfl

theorem walkFields_eq (limit : Nat) (fields : Fields) :
    walkFields (fieldWalks limit fields) = (sortByName fields).mapM (walkField limit) := by
  rw [walkFields, fieldWalks_eq,
    sortByName_map (fun _ (field : Field) => (walk limit field.shape, field.optional)), List.mapM_map]
  rfl

variable {limit : Nat} {context : String} {fixed : Option String}

theorem walk_union (variants : List Shape) (r : Registry) :
    walk limit (.union variants) context fixed r = do
      let (walked, later) ← variants.mapM (fun v => walk limit v context none) r
      return (.unionOf walked, later) := by
  simp only [walk, variantWalks_eq, List.mapM_map]
  rfl

theorem walk_array (e : Shape) (placeholder : Bool) (r : Registry) :
    walk limit (.array e placeholder) context fixed r = do
      let (walked, later) ← walk limit e (elementTypeName context) none r
      return (.array walked placeholder, later) := by
  rw [walk]
  rfl

theorem walkField_run (entry : Str × Field) (r : Registry) :
    walkField limit entry r = do
      let (walked, later) ← walk limit entry.2.shape (typeNameOf entry.1) none r
      return ((entry.1, ⟨walked, entry.2.optional⟩), later) := by
  rfl

theorem walk_object (fields : Fields) (r : Registry) :
    walk limit (.object fields) context fixed r =
      match r.names.lookup (Shape.digestOf fields) with
      | some name => .ok (.reference name, r)
      | none => pickName limit r.used context fixed >>= fun name =>
        walkInside limit (Shape.digestOf fields) fields name r := by
  rw [walk, nameObject, walkFields_eq]
  change (match r.names.lookup (Shape.digestOf fields) with
    | some name => _
    | none => _ : Naming Shape) r = _
  cases r.names.lookup (Shape.digestOf fields) with
  | some name => rfl
  | none =>
    cases fixed with
    | some name => rfl
    | none =>
      simp only [pickName]
      change (Except.bind _ _) = _
      cases uniqueName limit r.used context <;> rfl

end SampleTypes
