import SampleTypes.Proofs.Graph.NamedInstances
import SampleTypes.Proofs.Graph.NamingOrder
import SampleTypes.Proofs.Shape.CheckedMerge

/-! Building unions anew keeps what conforms. So naming keeps what validates for every shape without
references, also where its unions are in no canonical order or say something twice. -/

namespace SampleTypes

open Shape (mapFields unionOf Buildable Resolved)

namespace Shape

theorem Buildable.rebuilt {s : Shape} (buildable : Buildable s) : Buildable s.rebuilt := by
  induction buildable with
  | primitive kind => exact .primitive kind
  | array placeholder element ih => exact .array placeholder ih
  | object distinct shapes ih =>
    rw [rebuilt_object, buildable_object, keys_mapFields, mapFields, List.forall_mem_map]
    exact ⟨distinct, ih⟩
  | @union variants several single shapes ih =>
    have nonempty : variants.map Shape.rebuilt ≠ [] := by
      rw [Ne, List.map_eq_nil_iff]
      rintro rfl
      simp at several
    rw [rebuilt_union]
    exact (computes_union nonempty (List.forall_mem_map.mpr ih)).buildable
  | reference name => exact .reference name

/-! A union built anew refers to nothing new. -/

theorem mem_references_of_unionOf {shapes : List Shape} {name : String}
    (here : name ∈ (unionOf shapes).references) : ∃ s ∈ shapes, name ∈ s.references := by
  have source : ∀ v ∈ canonicalVariants shapes, name ∈ v.references →
      ∃ s ∈ shapes, name ∈ s.references := by
    intro v member inside
    obtain ⟨s, present, within⟩ := mem_variants_of_unionOf member
    refine ⟨s, present, ?_⟩
    cases s with
    | union variants => exact mem_references_of_variant within inside
    | _ => exact List.mem_singleton.mp within ▸ inside
  rw [unionOf] at here
  split at here
  · rename_i s only
    exact source s (only ▸ List.mem_singleton.mpr rfl) here
  · rw [references, variantReferences_eq, List.mem_flatMap] at here
    obtain ⟨v, member, inside⟩ := here
    exact source v member inside

theorem mem_references_of_rebuilt {s : Shape} {name : String} (here : name ∈ s.rebuilt.references) :
    name ∈ s.references := by
  induction s with
  | primitive kind => exact here
  | array e placeholder ih => exact ih here
  | object fields ih =>
    rw [rebuilt_object, references, fieldReferences_eq, mapFields, List.flatMap_map,
      List.mem_flatMap] at here
    obtain ⟨entry, member, inside⟩ := here
    exact mem_references_of_field member (ih entry member inside)
  | union variants ih =>
    rw [rebuilt_union] at here
    obtain ⟨s, present, inside⟩ := mem_references_of_unionOf here
    obtain ⟨v, member, rfl⟩ := List.mem_map.mp present
    exact mem_references_of_variant member (ih v member inside)
  | reference other => exact here

end Shape

theorem Table.lookup_rebuilt (table : Table) (name : String) :
    table.rebuilt.lookup name = (table.lookup name).map (mapFields Shape.rebuilt) :=
  Entries.lookup_map (fun _ fields => mapFields Shape.rebuilt fields) name table

theorem Graph.check_rebuilt {g : Graph} (checked : g.check = .ok ()) : g.rebuilt.check = .ok () := by
  apply Graph.check_of_references checked
  · intro name
    rw [Graph.rebuilt, Table.lookup_rebuilt, Option.isSome_map]
  · intro name here
    rcases List.mem_append.mp here with inRoot | inTable
    · exact List.mem_append_left _ (Shape.mem_references_of_rebuilt inRoot)
    · apply List.mem_append_right
      rw [Graph.rebuilt, Table.rebuilt, List.flatMap_map, List.mem_flatMap] at inTable
      obtain ⟨entry, member, inside⟩ := inTable
      apply List.mem_flatMap.mpr
      refine ⟨entry, member, Shape.mem_references_of_rebuilt (s := .object entry.2) ?_⟩
      rw [Shape.rebuilt_object]
      exact inside

/-! What conforms. -/

variable {table : Table}

theorem conforms_unionOf {v : Value} {shapes : List Shape} (buildable : ∀ s ∈ shapes, Buildable s) :
    Conforms table v (unionOf shapes) ↔ ∃ s ∈ shapes, Conforms table v s := by
  have flat := Shape.buildable_offered buildable
  obtain ⟨_, normals⟩ := Shape.keys_distinct Shape.normal
    fun s here t there => Shape.beq_iff_normal (flat s here).1 (flat t there).1
  have byNormal : ∀ variants : List Shape, (∃ w ∈ variants, Conforms table v w) ↔
      ∃ n ∈ variants.map Shape.normal, Conforms table v n := by
    intro variants
    simp only [List.mem_map, exists_exists_and_eq_and, Conforms.normal_iff]
  calc Conforms table v (unionOf shapes)
      ↔ ∃ w ∈ Shape.canonicalVariants shapes, Conforms table v w := by
        rw [unionOf]
        split
        · rename_i s only
          simp [only]
        · exact Conforms.union_iff
    _ ↔ ∃ w ∈ Shape.distinct (shapes.flatMap Shape.variants), Conforms table v w := by
        simp only [Shape.canonicalVariants, mem_sort]
    _ ↔ ∃ n ∈ (Shape.distinct (shapes.flatMap Shape.variants)).map Shape.normal,
          Conforms table v n := byNormal _
    _ ↔ ∃ n ∈ (shapes.flatMap Shape.variants).map Shape.normal, Conforms table v n := by
        simp only [normals]
    _ ↔ ∃ w ∈ shapes.flatMap Shape.variants, Conforms table v w := (byNormal _).symm
    _ ↔ ∃ s ∈ shapes, ∃ w ∈ s.variants, Conforms table v w := by
        simp only [List.mem_flatMap]
        constructor
        · rintro ⟨w, ⟨s, member, inside⟩, conforms⟩
          exact ⟨s, member, w, inside, conforms⟩
        · rintro ⟨s, member, w, inside, conforms⟩
          exact ⟨w, ⟨s, member, inside⟩, conforms⟩
    _ ↔ ∃ s ∈ shapes, Conforms table v s := by simp only [← Conforms.iff_variants]

/-- The value conforms to a shape exactly if it does so once unions are built anew in the shape and in
the table. -/
def KeepsRebuilt (table : Table) (v : Value) : Prop :=
  ∀ s, Buildable s → (Conforms table.rebuilt v s.rebuilt ↔ Conforms table v s)

theorem keepsRebuilt_object {v : Value} (inner : ∀ entry ∈ v.entries, KeepsRebuilt table entry.2)
    {fields : Fields} (buildable : Buildable (.object fields)) :
    Conforms table.rebuilt v (.object (mapFields Shape.rebuilt fields)) ↔
      Conforms table v (.object fields) := by
  obtain ⟨_, shapes⟩ := Shape.buildable_object.mp buildable
  cases v with
  | object entries =>
    apply Conforms.object_mapFields
    intro entry here field within
    exact inner entry here _ (shapes field within)
  | _ => constructor <;> intro conforms <;> cases conforms

theorem keepsRebuilt_of_parts (entries : ∀ entry ∈ table, Buildable (.object entry.2)) {v : Value}
    (items : ∀ item ∈ v.items, KeepsRebuilt table item)
    (inner : ∀ entry ∈ v.entries, KeepsRebuilt table entry.2) : KeepsRebuilt table v := by
  intro s buildable
  induction buildable with
  | primitive kind => rw [Shape.rebuilt, Conforms.primitive_iff, Conforms.primitive_iff]
  | array placeholder element ih =>
    rw [Shape.rebuilt]
    cases v with
    | list members =>
      rw [Conforms.array_iff, Conforms.array_iff]
      exact forall₂_congr fun item here => items item here _ element
    | _ => constructor <;> intro conforms <;> cases conforms
  | object distinct shapes ih =>
    rw [Shape.rebuilt_object]
    exact keepsRebuilt_object inner (.object distinct shapes)
  | union several single shapes ih =>
    rw [Shape.rebuilt_union, conforms_unionOf, Conforms.union_iff]
    · simp only [List.mem_map, exists_exists_and_eq_and]
      exact exists_congr fun w => and_congr_right fun here => ih w here
    · exact List.forall_mem_map.mpr fun w here => (shapes w here).rebuilt
  | reference name =>
    rw [Shape.rebuilt]
    have looked := table.lookup_rebuilt name
    cases found : table.lookup name with
    | none =>
      rw [found] at looked
      constructor <;> rintro (_ | _ | _ | ⟨resolved, _⟩)
      · rw [looked] at resolved
        cases resolved
      · rw [found] at resolved
        cases resolved
    | some fields =>
      rw [found] at looked
      rw [Conforms.reference_iff looked, Conforms.reference_iff found]
      exact keepsRebuilt_object inner (entries _ (Entries.mem_of_lookup found))

theorem keepsRebuilt (entries : ∀ entry ∈ table, Buildable (.object entry.2)) (v : Value) :
    KeepsRebuilt table v := by
  induction v with
  | list items ih => exact keepsRebuilt_of_parts entries ih (List.forall_mem_nil _)
  | object members ih => exact keepsRebuilt_of_parts entries (List.forall_mem_nil _) ih
  | _ => exact keepsRebuilt_of_parts entries (List.forall_mem_nil _) (List.forall_mem_nil _)

theorem Names.buildable_table {nameOf : List UInt8 → String} {s : Shape} {g : Graph}
    (named : Names nameOf s g) (buildable : Buildable s) :
    ∀ entry ∈ g.table, Buildable (.object entry.2) := by
  rw [named.table, List.forall_mem_map]
  intro o found
  exact (buildable.of_mem_objects (mem_objects_of_discover found)).renamed_inside

theorem Names.conforms_rebuilt {nameOf : List UInt8 → String} {s : Shape} {g : Graph}
    (named : Names nameOf s g) (buildable : Buildable s) (bare : s.references = [])
    (free : s.CollisionFree) (v : Value) :
    Conforms g.rebuilt.table v g.rebuilt.root ↔ Conforms [] v s := by
  have root : Buildable g.root := by
    rw [named.root]
    exact buildable.renamed
  calc Conforms g.rebuilt.table v g.rebuilt.root
      ↔ Conforms g.table v g.root := keepsRebuilt (named.buildable_table buildable) v g.root root
    _ ↔ Conforms [] v s := named.conforms_root_of_bare bare free v

/-- A shape without references validates a value exactly if the graph that naming makes of it does, and
neither meets a dangling reference. Digests must not collide. -/
theorem isValid_of_ofShape {limit : Nat} {s : Shape} {rootName : String} {g : Graph}
    (buildable : Buildable s) (bare : s.references = []) (free : s.CollisionFree)
    (ran : Graph.ofShape limit s rootName = .ok g) (v : Value) :
    ∃ accepted, g.isValid v = .ok accepted ∧ Graph.isValid ⟨rootName, s, []⟩ v = .ok accepted := by
  obtain ⟨nameOf, h, named, rfl⟩ := exists_names_of_ofShape buildable ran
  have checked := Graph.check_rebuilt (named.check_of_bare bare)
  have closed : Table.Closed [] := fun _ _ found => by cases found
  have resolved : Resolved [] s := fun name here => by
    rw [bare] at here
    cases here
  obtain ⟨accepted, decided⟩ : ∃ accepted : Bool, accepted = true ↔ Conforms [] v s := by
    by_cases conforms : Conforms [] v s
    · exact ⟨true, by simp [conforms]⟩
    · exact ⟨false, by simp [conforms]⟩
  refine ⟨accepted, ?_, (Graph.isValid_eq_ok closed resolved).mpr decided⟩
  apply (Graph.isValid_eq_ok (Graph.closed_of_check checked) (Graph.resolved_of_check checked)).mpr
  rw [named.conforms_rebuilt buildable bare free v]
  exact decided

/-- A union in no canonical order that names null twice, a value that it takes and one that it refuses. -/
theorem isValid_of_ofShape_of_disordered :
    let fields : Fields := [("b", ⟨.union [.null, .primitive .string], true⟩), ("a", ⟨.null, false⟩)]
    let s : Shape := .union [.null, .object fields, .null]
    let taken : Value := .object [(.name "a", .null), (.name "b", .string "x")]
    let refused : Value := .object [(.name "b", .string "x")]
    ∃ g, Graph.ofShape defaultSuffixLimit s "Root" = .ok g ∧
      (∃ accepted, g.isValid taken = .ok accepted ∧
        Graph.isValid ⟨"Root", s, []⟩ taken = .ok accepted) ∧
      ∃ accepted, g.isValid refused = .ok accepted ∧
        Graph.isValid ⟨"Root", s, []⟩ refused = .ok accepted := by
  intro fields s taken refused
  have inner : Buildable (.union [.null, .primitive .string]) :=
    .union (by decide) (by decide) (by simp [Shape.null, Buildable.primitive])
  have object : Buildable (.object fields) :=
    .object (by decide) (by simpa [fields, Shape.null, Buildable.primitive] using inner)
  have buildable : Buildable s :=
    .union (by decide) (by simp [Shape.isUnion, Shape.null])
      (by simp [object, Shape.null, Buildable.primitive])
  have free : s.CollisionFree := by
    apply Shape.collisionFree_of_normal_eq
    intro o here p there
    rw [List.mem_singleton.mp here, List.mem_singleton.mp there]
  let named : Fields := [("b", ⟨.union [.primitive .string, .null], true⟩), ("a", ⟨.null, false⟩)]
  let g : Graph := ⟨"Root", .union [.reference "Root2", .null], [("Root2", named)]⟩
  have ran : Graph.ofShape defaultSuffixLimit s "Root" = .ok g := rfl
  have agree := isValid_of_ofShape buildable rfl free ran
  exact ⟨g, ran, agree taken, agree refused⟩

end SampleTypes
