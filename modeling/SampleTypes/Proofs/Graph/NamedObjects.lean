import Mathlib.Algebra.GroupWithZero.Nat
import Mathlib.Algebra.Order.BigOperators.Group.List
import Mathlib.Algebra.Order.Group.Nat
import Mathlib.Logic.Relation
import SampleTypes.Proofs.Graph.NamedInstances
import SampleTypes.Proofs.Shape.CanonicalUnions

/-! The objects of a shape and their names. Every object has a name, two objects have the same name
exactly if they have the same normal form, and the entry under a name refers to the names of the
objects right inside. -/

namespace SampleTypes

open Shape (digestOf renamed mapFields Ranked)

def Table.Refers (table : Table) (name other : String) : Prop :=
  ∃ fields, table.lookup name = some fields ∧ other ∈ Shape.fieldReferences fields

namespace Shape

/-! Objects of equal normal form have alike parts. -/

theorem exists_field_of_normal_eq {fields others : Fields}
    (equal : (Shape.object fields).normal = (Shape.object others).normal) {entry : Str × Field}
    (here : entry ∈ fields) :
    ∃ other ∈ others, other.1 = entry.1 ∧ other.2.shape.normal = entry.2.shape.normal := by
  rw [normal_object, normal_object, Shape.object.injEq] at equal
  have inside : (entry.1, entry.2.map normal) ∈ mapFields normal (sortByName others) := by
    rw [← equal]
    exact List.mem_map_of_mem ((sortByName_perm fields).mem_iff.mpr here)
  obtain ⟨other, there, same⟩ := List.mem_map.mp inside
  obtain ⟨names, shapes⟩ := Prod.mk.inj same
  exact ⟨other, (sortByName_perm others).mem_iff.mp there, names, congrArg FieldSpec.shape shapes⟩

theorem digests_outerObjects_normal (s : Shape) :
    s.normal.outerObjects.map digestOf = s.outerObjects.map digestOf := by
  induction s with
  | primitive kind => rfl
  | array e placeholder ih => rw [normal]; exact ih
  | object fields ih =>
    have digest := digest_normal (.object fields)
    rw [normal_object] at digest ⊢
    exact congrArg (fun d => [d]) digest
  | union variants ih =>
    rw [normal_union, outerObjects, outerObjects, outerObjectsOfVariants_eq,
      outerObjectsOfVariants_eq, List.flatMap_map, List.map_flatMap, List.map_flatMap,
      List.flatMap_def, List.flatMap_def, List.map_congr_left ih]
  | reference name => rfl

theorem exists_outerObject_of_normal_eq {s t : Shape} (equal : s.normal = t.normal) {o : Fields}
    (here : o ∈ s.outerObjects) : ∃ p ∈ t.outerObjects, digestOf p = digestOf o := by
  have digests : s.outerObjects.map digestOf = t.outerObjects.map digestOf := by
    rw [← digests_outerObjects_normal s, equal, digests_outerObjects_normal t]
  rw [← List.mem_map, ← digests]
  exact List.mem_map_of_mem here

theorem outerObjects_subset_objects {s : Shape} {o : Fields} (here : o ∈ s.outerObjects) :
    o ∈ s.objects := by
  induction s with
  | primitive kind => cases here
  | array e placeholder ih => exact ih here
  | object fields ih =>
    rw [List.mem_singleton.mp here]
    exact mem_objects_object.mpr (Or.inl rfl)
  | union variants ih =>
    obtain ⟨v, member, inside⟩ := mem_outerObjects_union.mp here
    exact mem_objects_union.mpr ⟨v, member, ih v member inside⟩
  | reference name => cases here

/-! The number of objects in a shape. An object in another one has fewer. -/

theorem length_objects_object (fields : Fields) :
    (Shape.object fields).objects.length =
      (fields.map fun entry => entry.2.shape.objects.length).sum + 1 := by
  have inner : (objectsOfFields fields).length =
      (fields.map fun entry => entry.2.shape.objects.length).sum := by
    induction fields with
    | nil => rfl
    | cons entry rest ih => rw [objectsOfFields, List.length_append, ih, List.map_cons, List.sum_cons]
  rw [objects, List.length_cons, inner]

theorem length_objects_union (variants : List Shape) :
    (Shape.union variants).objects.length = (variants.map fun v => v.objects.length).sum := by
  rw [objects]
  induction variants with
  | nil => rfl
  | cons v rest ih => rw [objectsOfVariants, List.length_append, ih, List.map_cons, List.sum_cons]

theorem length_objects_normal (s : Shape) : s.normal.objects.length = s.objects.length := by
  induction s with
  | primitive kind => rfl
  | array e placeholder ih => rw [normal]; exact ih
  | object fields ih =>
    have counts : (fields.map fun entry => entry.2.shape.normal.objects.length) =
        fields.map fun entry => entry.2.shape.objects.length := List.map_congr_left ih
    rw [normal_object, length_objects_object, length_objects_object, mapFields, List.map_map,
      ← counts, (((sortByName_perm fields).map _).sum_eq)]
    rfl
  | union variants ih =>
    rw [normal_union, length_objects_union, length_objects_union, List.map_map]
    exact congrArg List.sum (List.map_congr_left ih)
  | reference name => rfl

theorem length_objects_of_mem {s : Shape} {o : Fields} (here : o ∈ s.objects) :
    (Shape.object o).objects.length ≤ s.objects.length := by
  induction s with
  | primitive kind => cases here
  | array e placeholder ih => exact ih here
  | object fields ih =>
    rcases mem_objects_object.mp here with rfl | ⟨entry, member, inside⟩
    · exact Nat.le_refl _
    · have total := List.le_sum_of_mem
        (List.mem_map_of_mem (f := fun entry : Str × Field => entry.2.shape.objects.length) member)
      have part := ih entry member inside
      rw [length_objects_object fields]
      omega
  | union variants ih =>
    obtain ⟨v, member, inside⟩ := mem_objects_union.mp here
    have total := List.le_sum_of_mem (List.mem_map_of_mem (f := fun v => v.objects.length) member)
    rw [length_objects_union]
    exact (ih v member inside).trans total
  | reference name => cases here

theorem length_objects_inner {fields o : Fields} {entry : Str × Field} (here : entry ∈ fields)
    (inside : o ∈ entry.2.shape.objects) :
    (Shape.object o).objects.length < (Shape.object fields).objects.length := by
  have part := length_objects_of_mem inside
  have total := List.le_sum_of_mem
    (List.mem_map_of_mem (f := fun entry : Str × Field => entry.2.shape.objects.length) here)
  rw [length_objects_object fields]
  omega

/-! Shapes with names in the places of their objects. -/

theorem objects_renamed {nameOf : List UInt8 → String} (s : Shape) :
    (renamed nameOf s).objects = [] := by
  induction s with
  | primitive kind => rfl
  | array e placeholder ih => exact ih
  | object fields ih => rfl
  | union variants ih =>
    rw [renamed_union, List.eq_nil_iff_forall_not_mem]
    intro o here
    obtain ⟨v, member, inside⟩ := mem_objects_union.mp here
    obtain ⟨w, present, rfl⟩ := List.mem_map.mp member
    rw [ih w present] at inside
    cases inside
  | reference name => rfl

end Shape

namespace Names

variable {nameOf : List UInt8 → String} {s : Shape} {g : Graph}

theorem length_table (named : Names nameOf s g) : g.table.length = (discover s []).length := by
  rw [named.table, List.length_map]

/-- What holds of the digests in the root, and with each entry of those inside it, holds of all. -/
theorem digest_induction (named : Names nameOf s g) (free : s.CollisionFree) {P : List UInt8 → Prop}
    (outer : ∀ o ∈ s.outerObjects, P (digestOf o))
    (inner : ∀ o ∈ discover s [], P (digestOf o) →
      ∀ entry ∈ o, ∀ inside ∈ entry.2.shape.outerObjects, P (digestOf inside))
    {o : Fields} (here : o ∈ s.objects) :
    digestOf o ∈ (discover s []).map digestOf ∧ P (digestOf o) := by
  -- An object may be met where the walk stopped, its digest being known; the fields to follow are
  -- then those of the object that the walk did enter.
  have general : ∀ part : Shape, (∀ o ∈ part.objects, o ∈ s.objects) →
      (∀ o ∈ part.outerObjects, digestOf o ∈ (discover s []).map digestOf ∧ P (digestOf o)) →
      ∀ o ∈ part.objects, digestOf o ∈ (discover s []).map digestOf ∧ P (digestOf o) := by
    intro part
    induction part with
    | primitive kind => exact fun _ _ => List.forall_mem_nil _
    | array e placeholder ih => exact ih
    | object fields ih =>
      intro inside outer o here
      have whole : fields ∈ s.objects := inside fields (Shape.mem_objects_object.mpr (Or.inl rfl))
      obtain ⟨known, holds⟩ := outer fields (List.mem_singleton.mpr rfl)
      rcases Shape.mem_objects_object.mp here with rfl | ⟨entry, member, within⟩
      · exact ⟨known, holds⟩
      · obtain ⟨first, found, digest, equal⟩ := exists_found free whole known
        obtain ⟨other, there, _, shapes⟩ := Shape.exists_field_of_normal_eq equal.symm member
        refine ih entry member (fun p deeper => ?_) (fun p deeper => ?_) o within
        · exact inside p (Shape.mem_objects_object.mpr (Or.inr ⟨entry, member, deeper⟩))
        · obtain ⟨q, present, same⟩ := Shape.exists_outerObject_of_normal_eq shapes.symm deeper
          have reached : P (digestOf first) := by rwa [digest]
          rw [← same]
          exact ⟨named.inner first found other there q present,
            inner first found reached other there q present⟩
    | union variants ih =>
      intro inside outer o here
      obtain ⟨v, member, within⟩ := Shape.mem_objects_union.mp here
      refine ih v member (fun p deeper => ?_) (fun p deeper => ?_) o within
      · exact inside p (Shape.mem_objects_union.mpr ⟨v, member, deeper⟩)
      · exact outer p (Shape.mem_outerObjects_union.mpr ⟨v, member, deeper⟩)
    | reference name => exact fun _ _ => List.forall_mem_nil _
  exact general s (fun _ => id) (fun o here => ⟨named.outer o here, outer o here⟩) o here

theorem known (named : Names nameOf s g) (free : s.CollisionFree) {o : Fields}
    (here : o ∈ s.objects) : digestOf o ∈ (discover s []).map digestOf :=
  (named.digest_induction free (P := fun _ => True) (fun _ _ => trivial)
    (fun _ _ _ _ _ _ _ => trivial) here).1

theorem digest_eq_of_name_eq (named : Names nameOf s g) {d e : List UInt8}
    (first : d ∈ (discover s []).map digestOf) (second : e ∈ (discover s []).map digestOf)
    (equal : nameOf d = nameOf e) : d = e := by
  have names : (((discover s []).map digestOf).map nameOf).Nodup := by
    rw [List.map_map]
    exact named.names
  exact List.inj_on_of_nodup_map names first second equal

theorem name_eq_iff (named : Names nameOf s g) (free : s.CollisionFree) {o p : Fields}
    (here : o ∈ s.objects) (there : p ∈ s.objects) : nameOf (digestOf o) = nameOf (digestOf p) ↔
      (Shape.object o).normal = (Shape.object p).normal := by
  constructor
  · intro equal
    apply free.normal_eq here there
    exact named.digest_eq_of_name_eq (named.known free here) (named.known free there) equal
  · intro equal
    exact congrArg nameOf (Shape.digest_eq_of_normal equal)

theorem refers_iff (named : Names nameOf s g) (ranked : Ranked s) {name other : String} :
    g.table.Refers name other ↔ ∃ o ∈ discover s [], nameOf (digestOf o) = name ∧
      ∃ entry ∈ o, ∃ inner ∈ entry.2.shape.outerObjects, nameOf (digestOf inner) = other := by
  constructor
  · rintro ⟨fields, looked, inside⟩
    have member := Entries.mem_of_lookup looked
    rw [named.table] at member
    obtain ⟨o, found, equal⟩ := List.mem_map.mp member
    cases equal
    have bare := bare_found ranked.references_eq_nil found
    exact ⟨o, found, rfl, (Shape.mem_fieldReferences_renamed bare).mp inside⟩
  · rintro ⟨o, found, rfl, inside⟩
    have bare := bare_found ranked.references_eq_nil found
    exact ⟨_, named.lookup_found found, (Shape.mem_fieldReferences_renamed bare).mpr inside⟩

end Names

/-- An object beside an array of objects with the same digest gets the name of the array's element. -/
theorem ofShape_beside_array {limit : Nat} {rootName name : String} {element beside : Fields}
    {r : Registry} {placeholder : Bool} (same : digestOf beside = digestOf element)
    (picked : uniqueName limit [rootName] (elementTypeName rootName) = .ok name)
    (entered : walkInside limit (digestOf element) element name ⟨[], [], [rootName]⟩ =
      .ok (.reference name, r))
    (known : r.names.lookup (digestOf element) = some name) :
    Graph.ofShape limit (.union [.array (.object element) placeholder, .object beside]) rootName =
      .ok ⟨rootName, .union [.array (.reference name) placeholder, .reference name], r.table⟩ := by
  rw [Graph.ofShape, StateT.run, walk_union]
  simp only [mapM_cons_run, walk_array, walk_object, same, Registry.initial, List.lookup_nil, pickName,
    picked, entered, known, bind, Except.bind, pure, Except.pure]
  rfl

end SampleTypes
