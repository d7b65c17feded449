import SampleTypes.Proofs.CheckedGeneration
import SampleTypes.Proofs.Graph.NamesInTurn
import SampleTypes.Proofs.Graph.PlainNames

/-! Every name in a graph is legal, none is reserved or given twice, and names are found for all objects
while there are fewer of them than numbers to try. -/

namespace SampleTypes

open Shape (digestOf Buildable)

/-! Names are legal. -/

theorem not_mem_reservedTypeNames (base : String) (n : Nat) :
    base ++ toString n ∉ reservedTypeNames := by
  intro reserved
  have letters : ∀ name ∈ reservedTypeNames, name.toList.any Char.isDigit = false := by decide
  exact append_toString_ne (letters _ reserved) base n rfl

theorem namingRule_legal :
    NamingRule (fun name => LegalName name ∧ name ∉ reservedTypeNames)
      fun _ context => LegalName context where
  unique legal unique := by
    rcases (chosen_of_uniqueName unique).cases with ⟨rfl, unreserved⟩ | ⟨n, rfl⟩
    · exact ⟨legal, unreserved⟩
    · exact ⟨legal.append (alphanumeric_toString n), not_mem_reservedTypeNames _ n⟩
  mono legal _ := legal
  element legal := legal.elementTypeName
  field _ := legalName_typeNameOf

theorem NamedInTurn.ne_rootName {rootName : String} {rooted : Prop} {nameOf : List UInt8 → String}
    {listed : List Occurrence} (named : NamedInTurn rootName rooted nameOf listed) (unrooted : ¬ rooted)
    {o : Occurrence} (here : o ∈ listed) : nameOf (digestOf o.2) ≠ rootName := by
  obtain ⟨before, after, split⟩ := List.append_of_mem here
  have chosen := named before o.1 o.2 after split fun isRooted => absurd isRooted unrooted
  exact fun own => chosen.not_mem (own ▸ List.mem_cons_self)

/-! Names are found. -/

/-- A registry of objects with these digests, whose names are in use and at most one name besides. -/
structure Counted (digests : List (List UInt8)) (r : Registry) : Prop where
  distinct : (Entries.keys r.names).Nodup
  inside : Entries.keys r.names ⊆ digests
  used : r.used.length ≤ r.names.length + 1

namespace Counted

variable {digests : List (List UInt8)} {r : Registry} {digest : List UInt8} {limit : Nat}

theorem initial (s : Shape) (rootName : String) : Counted digests (.initial s rootName) := by
  refine ⟨?_, ?_, ?_⟩
  · rw [names_initial]
    exact List.nodup_nil
  · rw [names_initial]
    exact List.nil_subset _
  · cases s <;> simp [Registry.initial]

theorem reserve (counted : Counted digests r) (present : digest ∈ digests)
    (unknown : digest ∉ Entries.keys r.names) (name : String) (fields : Fields) :
    Counted digests (r.reserve digest name fields) := by
  have keys : Entries.keys (r.reserve digest name fields).names = Entries.keys r.names ++ [digest] :=
    Entries.keys_append _ _
  refine ⟨?_, ?_, ?_⟩
  · rw [keys]
    exact counted.distinct.append (List.nodup_singleton _) (List.disjoint_singleton.mpr unknown)
  · rw [keys, List.append_subset]
    exact ⟨counted.inside, List.cons_subset.mpr ⟨present, List.nil_subset _⟩⟩
  · have before := counted.used
    simp only [Registry.reserve, List.length_cons, List.length_append, List.length_nil]
    omega

theorem length_used_le (counted : Counted digests r) (present : digest ∈ digests)
    (unknown : digest ∉ Entries.keys r.names) : r.used.length ≤ digests.length := by
  have distinct : (digest :: Entries.keys r.names).Nodup := List.nodup_cons.mpr ⟨unknown, counted.distinct⟩
  have inside : digest :: Entries.keys r.names ⊆ digests := List.cons_subset.mpr ⟨present, counted.inside⟩
  have fewer := (List.subperm_of_subset distinct inside).length_le
  rw [List.length_cons, Entries.keys, List.length_map] at fewer
  exact counted.used.trans fewer

theorem exists_of_pickName (counted : Counted digests r) (few : digests.length < limit - 2)
    (present : digest ∈ digests) (unknown : digest ∉ Entries.keys r.names) (context : String)
    (fixed : Option String) : ∃ name, pickName limit r.used context fixed = .ok name := by
  cases fixed with
  | some name => exact ⟨name, rfl⟩
  | none => exact exists_of_uniqueName ((counted.length_used_le present unknown).trans_lt few)

theorem exists_of_walkInside {fields : Fields} {name : String}
    (entered : Counted digests (r.reserve digest name fields))
    (inner : ∀ entry ∈ fields, ∀ {r}, Counted digests r → ∀ context, ∃ t later,
      walk limit entry.2.shape context none r = .ok (t, later) ∧ Counted digests later) :
    ∃ t later, walkInside limit digest fields name r = .ok (t, later) ∧ Counted digests later := by
  obtain ⟨walked, last, ran, counted⟩ := exists_of_mapM (I := Counted digests) (f := walkField limit)
    (sortByName fields) (fun entry here r before => by
      have member := (sortByName_perm fields).mem_iff.mp here
      obtain ⟨t, later, walk, after⟩ := inner entry member before (typeNameOf entry.1)
      refine ⟨(entry.1, ⟨t, entry.2.optional⟩), later, ?_, after⟩
      rw [walkField_run, walk]
      rfl) entered
  refine ⟨.reference name, last.complete name (inOrderOf fields walked), ?_,
    counted.distinct, counted.inside, counted.used⟩
  rw [walkInside, ran]
  rfl

theorem exists_of_walk (few : digests.length < limit - 2) {s : Shape}
    (present : ∀ o ∈ s.objects, digestOf o ∈ digests) (counted : Counted digests r) (context : String)
    (fixed : Option String) :
    ∃ t later, walk limit s context fixed r = .ok (t, later) ∧ Counted digests later := by
  induction s generalizing r context fixed with
  | primitive kind => exact ⟨_, _, rfl, counted⟩
  | reference name => exact ⟨_, _, rfl, counted⟩
  | array e placeholder ih =>
    obtain ⟨t, later, inner, after⟩ := ih present counted (elementTypeName context) none
    refine ⟨.array t placeholder, later, ?_, after⟩
    rw [walk_array, inner]
    rfl
  | union variants ih =>
    obtain ⟨walked, later, inner, after⟩ := exists_of_mapM (I := Counted digests) variants
      (fun v here r before =>
        ih v here (fun o inside => present o (Shape.mem_objects_union.mpr ⟨v, here, inside⟩)) before context
          none) counted
    refine ⟨.unionOf walked, later, ?_, after⟩
    rw [walk_union, inner]
    rfl
  | object fields ih =>
    rw [walk_object]
    cases looked : r.names.lookup (digestOf fields) with
    | some name => exact ⟨.reference name, r, rfl, counted⟩
    | none =>
      have own := present fields (Shape.mem_objects_object.mpr (Or.inl rfl))
      have unknown := Entries.lookup_eq_none.mp looked
      obtain ⟨name, picked⟩ := counted.exists_of_pickName few own unknown context fixed
      simp only [picked]
      exact exists_of_walkInside (counted.reserve own unknown name fields) fun entry here _ before context =>
        ih entry here (fun o inside =>
          present o (Shape.mem_objects_object.mpr (Or.inr ⟨entry, here, inside⟩))) before context none

end Counted

theorem digestOf_mem_distinct {s : Shape} (buildable : Buildable s) {o : Fields} (here : o ∈ s.objects) :
    digestOf o ∈ (Shape.distinct (s.objects.map Shape.object)).map Shape.digest := by
  have equal : ∀ first ∈ s.objects.map Shape.object, ∀ second ∈ s.objects.map Shape.object,
      (first == second) = true ↔ first.normal = second.normal := by
    intro first inside second within
    obtain ⟨p, member, rfl⟩ := List.mem_map.mp inside
    obtain ⟨q, present, rfl⟩ := List.mem_map.mp within
    exact Shape.beq_iff_normal (buildable.of_mem_objects member) (buildable.of_mem_objects present)
  -- One of the distinct objects is equal to `o`, and equal objects have one digest.
  have normals := (Shape.keys_distinct Shape.normal equal).2 (Shape.object o).normal
  obtain ⟨first, kept, same⟩ := List.mem_map.mp
    (normals.mpr (List.mem_map_of_mem (List.mem_map_of_mem here)))
  exact List.mem_map.mpr ⟨first, kept, Shape.digest_eq_of_normal same⟩

theorem exists_of_ofShape {limit : Nat} {s : Shape} (buildable : Buildable s)
    (few : (Shape.distinct (s.objects.map Shape.object)).length < limit - 2) (rootName : String) :
    ∃ g, Graph.ofShape limit s rootName = .ok g := by
  have enough : ((Shape.distinct (s.objects.map Shape.object)).map Shape.digest).length < limit - 2 := by
    rwa [List.length_map]
  obtain ⟨t, r, walk, _⟩ := Counted.exists_of_walk enough (fun o => digestOf_mem_distinct buildable)
    (.initial s rootName) rootName (some rootName)
  refine ⟨⟨rootName, t, r.table⟩, ?_⟩
  rw [Graph.ofShape, StateT.run, walk]
  rfl

/-- Naming breaks no check and finds a name for every object while there are fewer different ones than
numbers to try. All names that it gives are legal, none of them is reserved, given twice or kept for a root
that is no object. -/
theorem legal_names_of_checkedOfShape (limit : Nat) {s : Shape} {rootName : String}
    (buildable : Buildable s) (legal : LegalName rootName) (unreserved : rootName ∉ reservedTypeNames) :
    ((Shape.distinct (s.objects.map Shape.object)).length < limit - 2 →
      ∃ g, Graph.checkedOfShape limit s rootName = .ok g) ∧
      ∀ g, Graph.checkedOfShape limit s rootName = .ok g →
        (∀ name ∈ Entries.keys g.table, LegalName name ∧ name ∉ reservedTypeNames) ∧
          (Entries.keys g.table).Nodup ∧
          (s.isObject = false → rootName ∉ Entries.keys g.table) := by
  simp only [checkedOfShape_eq buildable, unchecked, mapError_eq_ok]
  refine ⟨fun few => exists_of_ofShape buildable few rootName, fun g ran => ?_⟩
  refine ⟨name_of_ofShape namingRule_legal (fun _ => ⟨legal, unreserved⟩) (fun _ => legal) ran, ?_⟩
  obtain ⟨t, r, walk, walked, rfl⟩ := exists_walk_of_ofShape buildable ran
  have keys := walked.registered.keys_table
  constructor
  · rw [keys]
    exact walked.registered.names
  · intro no_object taken
    rw [keys, walked.registered.names_eq, ← List.map_nil (f := Prod.snd), ← map_meet rootName] at taken
    obtain ⟨o, here, own⟩ := List.mem_map.mp taken
    obtain ⟨occurrence, met, rfl⟩ := List.mem_map.mp here
    exact (inTurn_of_root walk).named.ne_rootName (by simp [no_object]) met own

/-- An object in an array, whose own name would be reserved, and two numbers to try. -/
theorem legal_names_of_checkedOfShape_of_reserved :
    let s : Shape := .array (.object [("é s", ⟨.null, false⟩)]) false
    ∃ g, Graph.checkedOfShape 4 s "Dates" = .ok g ∧
      (∀ name ∈ Entries.keys g.table, LegalName name ∧ name ∉ reservedTypeNames) ∧
        (Entries.keys g.table).Nodup ∧ "Dates" ∉ Entries.keys g.table := by
  intro s
  have buildable : Buildable s :=
    .array _ (.object (by decide) (by simp [Shape.null, Buildable.primitive]))
  have legal : LegalName "Dates" := ⟨⟨'D', rfl, rfl⟩, alphanumeric_of_all rfl⟩
  obtain ⟨found, names⟩ := legal_names_of_checkedOfShape 4 buildable legal (by decide)
  obtain ⟨g, ran⟩ := found (by decide)
  obtain ⟨each, distinct, kept⟩ := names g ran
  exact ⟨g, ran, each, distinct, kept rfl⟩

end SampleTypes
