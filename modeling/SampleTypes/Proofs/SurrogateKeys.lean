import SampleTypes.Proofs.Generation
import SampleTypes.Proofs.Samples.ReadValues
import SampleTypes.Proofs.TypeScript.ForeignCharacters
import SampleTypes.Proofs.TypeScript.PropertyKeys

/-! Where surrogates in declarations come from. The names of types have none, so they stand in the name of a
field, and that is a key of an object in the samples. -/

namespace SampleTypes

open Shape (mapFields mem_objects_object mem_objects_union observed renamed variantOf)

namespace Value

inductive HasKey (name : Str) : Value → Prop where
  | here {entries : List (Key × Value)} {v : Value} (here : (.name name, v) ∈ entries) :
    HasKey name (.object entries)
  | entry {entries : List (Key × Value)} {entry : Key × Value} (here : entry ∈ entries)
      (inside : HasKey name entry.2) : HasKey name (.object entries)
  | item {items : List Value} {v : Value} (here : v ∈ items) (inside : HasKey name v) :
    HasKey name (.list items)

variable {name other : Str} {v w : Value}

theorem HasKey.of_mem_items (inside : w.HasKey name) (here : w ∈ v.items) : v.HasKey name := by
  cases v with
  | list items => exact .item here inside
  | _ => cases here

theorem HasKey.of_field? (inside : w.HasKey name) (found : v.field? other = some w) : v.HasKey name := by
  have here := Entries.mem_of_lookup found
  cases v with
  | object entries => exact .entry here inside
  | _ => cases here

theorem hasKey_of_field? (found : v.field? name = some w) : v.HasKey name := by
  have here := Entries.mem_of_lookup found
  cases v with
  | object entries => exact .here here
  | _ => cases here

end Value

namespace Shape

variable {widen : Bool} {samples : List Value} {element s : Shape} {shapeAt : Str → Shape} {φ : Family}
  {o : Fields} {field : Str × Field}

theorem exists_variant_of_mem_objects (here : o ∈ s.objects) : ∃ v ∈ s.variants, o ∈ v.objects := by
  cases s with
  | union variants => exact mem_objects_union.mp here
  | _ => exact ⟨_, List.mem_singleton.mpr rfl, here⟩

theorem mem_objects_variantOf (found : variantOf samples element shapeAt φ = some s) (here : o ∈ s.objects)
    (inside : field ∈ o) : o ∈ element.objects ∨ field.1 ∈ Samples.names samples ∨
      ∃ name ∈ Samples.names samples, o ∈ (shapeAt name).objects := by
  unfold variantOf at found
  split at found <;>
    simp only [Option.ite_none_right_eq_some, Option.some.injEq, reduceCtorEq] at found <;>
    obtain ⟨_, rfl⟩ := found
  case h_6 => exact .inl here
  case h_7 =>
    rcases mem_objects_object.mp here with rfl | ⟨entry, listed, within⟩
    · obtain ⟨name, occurs, rfl⟩ := List.mem_map.mp inside
      exact .inr (.inl occurs)
    · obtain ⟨name, occurs, rfl⟩ := List.mem_map.mp listed
      exact .inr (.inr ⟨name, occurs, within⟩)
  all_goals cases here

/-- What is observed of samples has fields for their keys only. -/
theorem hasKey_of_observed (supported : ∀ v ∈ samples, v.Supported)
    (here : o ∈ (observed widen samples).objects) (inside : field ∈ o) :
    ∃ v ∈ samples, v.HasKey field.1 := by
  induction samples using observed.induct with
  | case1 =>
    rw [observed_nil] at here
    cases here
  | case2 sample rest ihItems ihPresent =>
    obtain ⟨s, listed, within⟩ := exists_variant_of_mem_objects here
    obtain ⟨φ, _, found⟩ := (mem_variants_observed (List.cons_ne_nil sample rest)).mp listed
    -- The object is that of the samples, with their keys for fields, or it lies in an item or in a field.
    rcases mem_objects_variantOf found within inside with items | occurs | ⟨name, _, present⟩
    · obtain ⟨w, member, key⟩ := ihItems (Samples.supported_items supported) items
      obtain ⟨v, outer, item⟩ := List.mem_flatMap.mp member
      exact ⟨v, outer, key.of_mem_items item⟩
    · obtain ⟨w, member⟩ := List.exists_mem_of_ne_nil _ ((Samples.mem_names supported).mp occurs)
      obtain ⟨v, outer, found⟩ := List.mem_filterMap.mp member
      exact ⟨v, outer, Value.hasKey_of_field? found⟩
    · obtain ⟨w, member, key⟩ := ihPresent name (Samples.supported_presentAt supported name) present
      obtain ⟨v, outer, found⟩ := List.mem_filterMap.mp (List.mem_filter.mp member).1
      exact ⟨v, outer, key.of_field? found⟩

theorem supported_of_inferEach {shapes : List Shape} {i : Nat} (keyed : ∀ v ∈ samples, v.Keyed)
    (ran : inferEach widen i samples = .ok shapes) : ∀ v ∈ samples, v.Supported := by
  induction samples generalizing i shapes with
  | nil => exact List.forall_mem_nil _
  | cons v rest ih =>
    rw [List.forall_mem_cons] at keyed
    obtain ⟨s, first, ran⟩ := eq_ok_of_bind ran
    obtain ⟨others, later, _⟩ := eq_ok_of_bind ran
    have inferred := mapError_eq_ok.mp first
    have clean : ¬ v.Offends := by
      intro offends
      obtain ⟨u, failed⟩ := exists_infer_error_iff.mpr offends
      rw [inferred] at failed
      cases failed
    exact List.forall_mem_cons.mpr ⟨keyed.1.supported clean, ih keyed.2 later⟩

end Shape

section Declarations

variable {options : Options} {name : String} {samples : List Value} {g : Graph}

theorem supported_of_graphOf (keyed : ∀ v ∈ samples, v.Keyed)
    (made : graphOf options name samples = .ok g) : samples ≠ [] ∧ ∀ v ∈ samples, v.Supported := by
  obtain ⟨s, inferred, _⟩ := eq_ok_of_bind made
  replace inferred := mapError_eq_ok.mp inferred
  cases samples with
  | nil => cases inferred
  | cons v rest =>
    obtain ⟨shapes, ran, _⟩ := eq_ok_of_bind inferred
    exact ⟨List.cons_ne_nil v rest, Shape.supported_of_inferEach keyed ran⟩

theorem hasKey_of_table (keyed : ∀ v ∈ samples, v.Keyed) (made : graphOf options name samples = .ok g)
    {entry : String × Fields} (here : entry ∈ g.table) {field : Str × Field} (inside : field ∈ entry.2) :
    ∃ v ∈ samples, v.HasKey field.1 := by
  obtain ⟨nonempty, supported⟩ := supported_of_graphOf keyed made
  rw [graphOf_eq supported nonempty] at made
  obtain ⟨nameOf, named⟩ := names_of_ofShape (ranked_observed supported) (mapError_eq_ok.mp made)
  rw [named.table] at here
  obtain ⟨o, found, rfl⟩ := List.mem_map.mp here
  obtain ⟨original, member, rfl⟩ := List.mem_map.mp inside
  obtain ⟨v, sample, key⟩ :=
    Shape.hasKey_of_observed supported (Names.mem_objects_of_discover found) member
  exact ⟨v, sample, key⟩

theorem Json.mem_of_quotePoints {text : Points} {offset : Fin 0x800}
    (here : .surrogate offset ∈ quotePoints text) : .surrogate offset ∈ text := by
  rw [quotePoints, List.cons_append, List.mem_cons, List.mem_append, List.mem_singleton] at here
  rcases here with quote | inside | quote
  · cases quote
  · obtain ⟨p, member, point⟩ := List.mem_flatMap.mp inside
    cases p with
    | char c =>
      obtain ⟨_, _, same⟩ := List.mem_map.mp point
      cases same
    | surrogate other =>
      cases List.mem_singleton.mp point
      exact member
  · cases quote

theorem TypeScript.mem_of_propertyKey {name : Str} {offset : Fin 0x800}
    (here : .surrogate offset ∈ propertyKey name) : .surrogate offset ∈ name.points := by
  unfold propertyKey at here
  split at here
  · exact here
  · exact Json.mem_of_quotePoints here

/-- A surrogate in declarations stands in a key of the samples. -/
theorem hasKey_of_surrogate {typeName : Option String} {blocks : List Points}
    {warnings later : List TypeScript.Warning} (keyed : ∀ v ∈ samples, v.Keyed)
    (ran : (generate options typeName samples).run.run warnings = (.ok blocks, later))
    {offset : Fin 0x800} (here : .surrogate offset ∈ TypeScript.joinBlocks blocks) :
    ∃ v ∈ samples, ∃ name, v.HasKey name ∧ .surrogate offset ∈ name.points := by
  by_contra none_there
  obtain ⟨_, g, _, _, _, made, rendered⟩ := exists_of_generate ran
  -- Then no part of the declarations has it, since all but the keys are characters.
  have plain : ∀ text : String, Lacks (.surrogate offset) text := by
    simp [Lacks, Points.ofString]
  have keys : ∀ entry ∈ g.table, ∀ field ∈ entry.2,
      Lacks (.surrogate offset) (TypeScript.propertyKey field.1) := by
    intro entry listed field member point
    obtain ⟨v, sample, key⟩ := hasKey_of_table keyed made listed member
    exact none_there ⟨v, sample, _, key, TypeScript.mem_of_propertyKey point⟩
  have foreign : Lacks (.surrogate offset) TypeScript.declarationCharacters := by
    simp only [TypeScript.declarationCharacters, Lacks.append_iff]
    exact ⟨⟨⟨plain _, plain _⟩, plain _⟩, plain _⟩
  exact TypeScript.lacks_joinBlocks (plain _)
    (TypeScript.lacks_render foreign (fun _ _ => plain _) (plain _) keys rendered) here

end Declarations

end SampleTypes
