import SampleTypes.Proofs.Graph.Walk
import SampleTypes.Proofs.Runs
import SampleTypes.Proofs.Shape.Key

/-! Naming does not depend on the order of fields: two shapes that agree get the same names, and tables
that differ only in the order of fields. -/

namespace SampleTypes

open Shape (digestOf mapFields Ranked)

/-! A walk leaves no object in its result, so there is nothing to rearrange in it. -/

namespace Shape

theorem mem_variants_of_unionOf {shapes : List Shape} {v : Shape}
    (here : v ∈ canonicalVariants shapes) : ∃ s ∈ shapes, v ∈ s.variants :=
  List.mem_flatMap.mp (mem_of_mem_distinct (mem_sort.mp here))

theorem outerObjects_unionOf {shapes : List Shape} (none_inside : ∀ s ∈ shapes, s.outerObjects = []) :
    (unionOf shapes).outerObjects = [] := by
  have variants : ∀ v ∈ canonicalVariants shapes, v.outerObjects = [] := by
    intro v here
    obtain ⟨s, member, inside⟩ := mem_variants_of_unionOf here
    have nothing := none_inside s member
    cases s with
    | union variants =>
      rw [outerObjects, outerObjectsOfVariants_eq, List.flatMap_eq_nil_iff] at nothing
      exact nothing v inside
    | _ => exact List.mem_singleton.mp inside ▸ nothing
  rw [unionOf]
  split
  · rename_i s only
    exact variants s (only ▸ List.mem_singleton.mpr rfl)
  · rw [outerObjects, outerObjectsOfVariants_eq, List.flatMap_eq_nil_iff]
    exact variants

end Shape

variable {limit : Nat}

theorem outerObjects_of_walk {s t : Shape} {context : String} {fixed : Option String}
    {r later : Registry} (ran : walk limit s context fixed r = .ok (t, later)) :
    t.outerObjects = [] := by
  induction s generalizing context fixed r later t with
  | primitive kind => cases ran; rfl
  | reference name => cases ran; rfl
  | array e placeholder ih =>
    rw [walk_array] at ran
    obtain ⟨⟨walked, last⟩, inner, ran⟩ := eq_ok_of_bind ran
    cases ran
    have bare : walked.outerObjects = [] := ih inner
    exact bare
  | union variants ih =>
    rw [walk_union] at ran
    obtain ⟨⟨walked, last⟩, inner, ran⟩ := eq_ok_of_bind ran
    cases ran
    exact Shape.outerObjects_unionOf (forall_of_mapM (fun v here _ _ _ first => ih v here first) inner)
  | object fields ih =>
    rw [walk_object] at ran
    cases looked : r.names.lookup (digestOf fields) with
    | some name => rw [looked] at ran; cases ran; rfl
    | none =>
      rw [looked] at ran
      obtain ⟨name, picked, ran⟩ := eq_ok_of_bind ran
      obtain ⟨⟨walked, last⟩, inner, ran⟩ := eq_ok_of_bind ran
      cases ran
      rfl

/-! Rearranged registries. -/

def arrangedEntry (entry : String × Fields) : String × Fields :=
  (entry.1, sortByName (mapFields Shape.arranged entry.2))

def Registry.arranged (r : Registry) : Registry := { r with table := r.table.map arrangedEntry }

theorem put_arranged (name : String) (fields : Fields) (table : Table) :
    Entries.put name (sortByName (mapFields Shape.arranged fields)) (table.map arrangedEntry) =
      (Entries.put name fields table).map arrangedEntry := by
  induction table with
  | nil => rfl
  | cons entry rest ih =>
    by_cases equal : entry.1 = name
    · simp [Entries.put, arrangedEntry, equal]
    · simp [Entries.put, arrangedEntry, equal, ← ih]

theorem inOrderOf_arranged {fields walked : Fields}
    (bare : ∀ entry ∈ walked, entry.2.shape.arranged = entry.2.shape) :
    inOrderOf (sortByName (mapFields Shape.arranged fields)) walked =
      sortByName (mapFields Shape.arranged (inOrderOf fields walked)) := by
  have inside : mapFields Shape.arranged (inOrderOf fields walked) =
      (mapFields Shape.arranged fields).map fun entry =>
        (entry.1, (walked.lookup entry.1).getD entry.2) := by
    rw [mapFields, inOrderOf, List.map_map, mapFields, List.map_map]
    apply List.map_congr_left
    rintro ⟨name, field⟩ here
    simp only [Function.comp_apply]
    cases found : walked.lookup name with
    | none => rfl
    | some replaced =>
      have same := bare _ (Entries.mem_of_lookup found)
      simp only [Option.getD_some, FieldSpec.map]
      rw [same]
  rw [inside, sortByName_map fun name (field : Field) => (walked.lookup name).getD field]
  rfl

theorem walkInside_arranged {fields : Fields}
    (inner : ∀ entry ∈ fields, ∀ context fixed r, walk limit entry.2.shape.arranged context fixed
      (Registry.arranged r) =
        (walk limit entry.2.shape context fixed r).map fun out => (out.1, out.2.arranged))
    (digest : List UInt8) (name : String) (r : Registry) :
    walkInside limit digest (sortByName (mapFields Shape.arranged fields)) name r.arranged =
      (walkInside limit digest fields name r).map fun out => (out.1, out.2.arranged) := by
  have items : sortByName (sortByName (mapFields Shape.arranged fields)) =
      (sortByName fields).map fun entry => (entry.1, entry.2.map Shape.arranged) := by
    rw [sortByName_idem, Shape.sortByName_mapFields]
    rfl
  have reserved : r.arranged.reserve digest name
      (sortByName (mapFields Shape.arranged fields)) =
        (r.reserve digest name fields).arranged := by
    simp only [Registry.reserve, Registry.arranged, put_arranged]
  have walks := mapM_corresponds (f := walkField limit) (g := walkField limit) (φ := Registry.arranged)
    (h := fun entry : Str × Field => (entry.1, entry.2.map Shape.arranged))
    (sortByName fields) (fun entry here r => by
      rw [walkField_run, walkField_run]
      simp only [FieldSpec.map_shape, FieldSpec.map_optional]
      rw [inner entry ((sortByName_perm fields).mem_iff.mp here)]
      cases walk limit entry.2.shape (typeNameOf entry.1) none r <;> rfl)
    (r.reserve digest name fields)
  rw [walkInside, walkInside, items, reserved, walks]
  cases ran : (sortByName fields).mapM (walkField limit) (r.reserve digest name fields) with
  | error cause => rfl
  | ok out =>
    obtain ⟨walked, later⟩ := out
    have bare : ∀ entry ∈ walked, entry.2.shape.arranged = entry.2.shape := by
      apply forall_of_mapM (P := fun entry => entry.2.shape.arranged = entry.2.shape) _ ran
      intro entry here s b next first
      rw [walkField_run] at first
      obtain ⟨⟨t, last⟩, walk, first⟩ := eq_ok_of_bind first
      cases first
      exact Shape.arranged_of_no_objects (outerObjects_of_walk walk)
    change Except.ok _ = Except.ok _
    simp only [Registry.complete, Registry.arranged]
    rw [inOrderOf_arranged bare, put_arranged]

theorem walk_arranged {s : Shape} (ranked : Ranked s) (context : String) (fixed : Option String)
    (r : Registry) :
    walk limit s.arranged context fixed r.arranged =
      (walk limit s context fixed r).map fun out => (out.1, out.2.arranged) := by
  induction ranked generalizing context fixed r with
  | primitive kind => rfl
  | array placeholder element ih =>
    rw [Shape.arranged, walk_array, walk_array, ih]
    cases walk limit _ _ _ r <;> rfl
  | @union variants several single rising shapes ih =>
    rw [Shape.arranged_union, walk_union, walk_union,
      mapM_corresponds (f := fun v => walk limit v context none) (φ := Registry.arranged) variants
        fun v here s => ih v here context none s]
    cases variants.mapM (fun v => walk limit v context none) r <;> rfl
  | @object fields distinct shapes ih =>
    have digest : digestOf (sortByName (mapFields Shape.arranged fields)) = digestOf fields := by
      rw [digestOf, digestOf, ← Shape.arranged_object, Shape.digest_arranged]
    have names : r.arranged.names = r.names := rfl
    rw [Shape.arranged_object, walk_object, walk_object, digest, names]
    cases r.names.lookup (digestOf fields) with
    | some name => rfl
    | none =>
      simp only
      change (pickName limit r.used context fixed >>= _) = _
      cases pickName limit r.used context fixed with
      | error cause => rfl
      | ok name => exact walkInside_arranged ih (digestOf fields) name r

/-! Graphs. -/

def Graph.arranged (g : Graph) : Graph := { g with table := g.table.map arrangedEntry }

theorem ofShape_arranged {s : Shape} (ranked : Ranked s) (rootName : String) :
    Graph.ofShape limit s.arranged rootName = (Graph.ofShape limit s rootName).map Graph.arranged := by
  have initial : Registry.initial s.arranged rootName = (Registry.initial s rootName).arranged := by
    cases s <;> rfl
  have walks : walk limit s.arranged rootName (some rootName) (Registry.initial s rootName).arranged =
      (walk limit s rootName (some rootName) (.initial s rootName)).map
        fun out => (out.1, out.2.arranged) := walk_arranged ranked _ _ _
  simp only [Graph.ofShape, StateT.run, initial, walks]
  cases walk limit s rootName (some rootName) (.initial s rootName) <;> rfl

theorem ofShape_of_agrees {s t : Shape} (first : Ranked s) (second : Ranked t)
    (agree : s.Agrees t) (rootName : String) :
    (Graph.ofShape limit s rootName).map Graph.arranged =
      (Graph.ofShape limit t rootName).map Graph.arranged := by
  calc (Graph.ofShape limit s rootName).map Graph.arranged
      = Graph.ofShape limit s.arranged rootName := (ofShape_arranged first rootName).symm
    _ = Graph.ofShape limit t.arranged rootName := by rw [agree]
    _ = (Graph.ofShape limit t rootName).map Graph.arranged := ofShape_arranged second rootName

end SampleTypes
