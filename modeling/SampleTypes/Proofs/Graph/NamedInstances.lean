import SampleTypes.Proofs.Graph.Conforms
import SampleTypes.Proofs.Graph.Named
import SampleTypes.Proofs.Samples.Observed

/-! Naming does not change what conforms. A name leads to an object with the digest of the one that it
stands for, and if digests do not collide that object has the same instances. -/

namespace SampleTypes

open Shape (digestOf renamed mapFields Ranked)

namespace Shape

/-- No two objects of the shape have one digest and different encodings. -/
def CollisionFree (s : Shape) : Prop :=
  ∀ first ∈ s.objects, ∀ second ∈ s.objects,
    Sha256.digest (Shape.object first).encoding = Sha256.digest (Shape.object second).encoding →
      (Shape.object first).encoding = (Shape.object second).encoding

theorem CollisionFree.normal_eq {s : Shape} (free : s.CollisionFree) {first second : Fields}
    (here : first ∈ s.objects) (there : second ∈ s.objects) (equal : digestOf first = digestOf second) :
    (Shape.object first).normal = (Shape.object second).normal := by
  rw [digestOf, digestOf, digest_eq, digest_eq] at equal
  exact encoding_eq_iff.mp (free first here second there equal)

theorem collisionFree_of_normal_eq {s : Shape}
    (equal : ∀ o ∈ s.objects, ∀ p ∈ s.objects, (Shape.object o).normal = (Shape.object p).normal) :
    s.CollisionFree :=
  fun o here p there _ => encoding_eq_iff.mpr (equal o here p there)

end Shape

/-- Shapes without references whose objects are objects of `s`, those in no other one being found by a
walk of `s`. -/
structure PartOf (s part : Shape) : Prop where
  bare : part.references = []
  objects : ∀ o ∈ part.objects, o ∈ s.objects
  found : ∀ o ∈ part.outerObjects, digestOf o ∈ (discover s []).map digestOf

namespace PartOf

variable {s : Shape}

theorem element {e : Shape} {placeholder : Bool} (part : PartOf s (.array e placeholder)) :
    PartOf s e :=
  ⟨part.bare, part.objects, part.found⟩

theorem variant {variants : List Shape} (part : PartOf s (.union variants)) {w : Shape}
    (here : w ∈ variants) : PartOf s w := by
  refine ⟨?_, fun o inside => ?_, fun o inside => ?_⟩
  · have each := part.bare
    rw [Shape.references, Shape.variantReferences_eq, List.flatMap_eq_nil_iff] at each
    exact each w here
  · exact part.objects o (Shape.mem_objects_union.mpr ⟨w, here, inside⟩)
  · exact part.found o (Shape.mem_outerObjects_union.mpr ⟨w, here, inside⟩)

end PartOf

/-- The value conforms to a part of `s` exactly if it conforms to the part as named in `g`. -/
def KeepsInstances (nameOf : List UInt8 → String) (s : Shape) (g : Graph) (v : Value) : Prop :=
  ∀ part, PartOf s part → (Conforms g.table v (renamed nameOf part) ↔ Conforms [] v part)

namespace Names

variable {nameOf : List UInt8 → String} {s : Shape} {g : Graph}

theorem partOf_self (named : Names nameOf s g) (bare : s.references = []) : PartOf s s :=
  ⟨bare, fun _ here => here, named.outer⟩

theorem partOf_field (named : Names nameOf s g) (bare : s.references = []) {o : Fields}
    (found : o ∈ discover s []) {field : Str × Field} (here : field ∈ o) :
    PartOf s field.2.shape := by
  have inside := mem_objects_of_discover found
  have each := bare_found bare found
  rw [Shape.references, Shape.fieldReferences_eq, List.flatMap_eq_nil_iff] at each
  refine ⟨each field here, fun p within => ?_, named.inner o found field here⟩
  exact Shape.mem_objects_trans inside (Shape.mem_objects_object.mpr (Or.inr ⟨field, here, within⟩))

theorem exists_found (free : s.CollisionFree) {fields : Fields} (here : fields ∈ s.objects)
    (known : digestOf fields ∈ (discover s []).map digestOf) :
    ∃ o ∈ discover s [], digestOf o = digestOf fields ∧
      (Shape.object o).normal = (Shape.object fields).normal := by
  obtain ⟨o, found, equal⟩ := List.mem_map.mp known
  exact ⟨o, found, equal, free.normal_eq (mem_objects_of_discover found) here equal⟩

theorem conforms_named_object (named : Names nameOf s g) (bare : s.references = [])
    (free : s.CollisionFree)
    {v : Value} (inner : ∀ entry ∈ v.entries, KeepsInstances nameOf s g entry.2) {fields : Fields}
    (part : PartOf s (.object fields)) :
    Conforms g.table v (renamed nameOf (.object fields)) ↔ Conforms [] v (.object fields) := by
  have whole : fields ∈ s.objects := part.objects fields (Shape.mem_objects_object.mpr (Or.inl rfl))
  obtain ⟨o, found, digest, normals⟩ :=
    exists_found free whole (part.found fields (List.mem_singleton.mpr rfl))
  have resolved : g.table.lookup (nameOf (digestOf fields)) = some (mapFields (renamed nameOf) o) := by
    rw [← digest, named.lookup_found found]
  have fields_iff : Conforms g.table v (.object (mapFields (renamed nameOf) o)) ↔
      Conforms [] v (.object o) := by
    cases v with
    | object entries =>
      apply Conforms.object_mapFields
      intro entry here field within
      exact inner entry here _ (named.partOf_field bare found within)
    | _ => constructor <;> intro conforms <;> cases conforms
  calc Conforms g.table v (renamed nameOf (.object fields))
      ↔ Conforms g.table v (.object (mapFields (renamed nameOf) o)) := Conforms.reference_iff resolved
    _ ↔ Conforms [] v (.object o) := fields_iff
    _ ↔ Conforms [] v (Shape.object o).normal := Conforms.normal_iff.symm
    _ ↔ Conforms [] v (Shape.object fields).normal := by rw [normals]
    _ ↔ Conforms [] v (.object fields) := Conforms.normal_iff

theorem keepsInstances_of_parts (named : Names nameOf s g) (bare : s.references = [])
    (free : s.CollisionFree) {v : Value} (items : ∀ item ∈ v.items, KeepsInstances nameOf s g item)
    (entries : ∀ entry ∈ v.entries, KeepsInstances nameOf s g entry.2) :
    KeepsInstances nameOf s g v := by
  intro part inside
  induction part with
  | primitive kind => rw [renamed, Conforms.primitive_iff, Conforms.primitive_iff]
  | array e placeholder ih =>
    rw [renamed]
    cases v with
    | list members =>
      rw [Conforms.array_iff, Conforms.array_iff]
      exact forall₂_congr fun item here => items item here e inside.element
    | _ => constructor <;> intro conforms <;> cases conforms
  | object fields ih => exact named.conforms_named_object bare free entries inside
  | union variants ih =>
    rw [Shape.renamed_union, Conforms.union_iff, Conforms.union_iff]
    simp only [List.mem_map, exists_exists_and_eq_and]
    exact exists_congr fun w => and_congr_right fun here => ih w here (inside.variant here)
  | reference name => cases inside.bare

theorem keepsInstances (named : Names nameOf s g) (bare : s.references = []) (free : s.CollisionFree)
    (v : Value) : KeepsInstances nameOf s g v := by
  induction v with
  | list items ih => exact named.keepsInstances_of_parts bare free ih (List.forall_mem_nil _)
  | object entries ih => exact named.keepsInstances_of_parts bare free (List.forall_mem_nil _) ih
  | _ => exact named.keepsInstances_of_parts bare free (List.forall_mem_nil _) (List.forall_mem_nil _)

theorem conforms_root_of_bare (named : Names nameOf s g) (bare : s.references = [])
    (free : s.CollisionFree) (v : Value) : Conforms g.table v g.root ↔ Conforms [] v s := by
  rw [named.root]
  exact named.keepsInstances bare free v s (named.partOf_self bare)

theorem conforms_root (named : Names nameOf s g) (ranked : Ranked s) (free : s.CollisionFree)
    (v : Value) : Conforms g.table v g.root ↔ Conforms [] v s :=
  named.conforms_root_of_bare ranked.references_eq_nil free v

end Names

end SampleTypes
