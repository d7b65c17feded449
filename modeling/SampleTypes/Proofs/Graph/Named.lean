import SampleTypes.Proofs.Graph.FreeNames
import SampleTypes.Proofs.Graph.Naming
import SampleTypes.Proofs.Graph.References
import SampleTypes.Proofs.Runs
import SampleTypes.Proofs.Shape.CanonicalUnions

/-! What naming yields: names in the places of objects, and a table of the objects found, each with
the names of the objects inside it. -/

namespace SampleTypes

open Shape (digestOf renamed restated mapFields Buildable Ranked)

/-- The outcome of a walk that started when `found` were the objects named. -/
structure Walked (unfinished : List (List UInt8)) (found : List Fields) (r : Registry)
    (s t : Shape) (later : Registry) : Prop where
  registered : Registered unfinished (discover s found) later
  grown : r.names <+: later.names
  known : later.Knows s
  result : t = restated later.nameOf s

section Lists

variable {α β : Type} (shapeOf : α → Shape) (build : α → Shape → β) {f : α → Naming β}
  {unfinished : List (List UInt8)}

theorem registered_of_mapM {items : List α}
    (step : ∀ a ∈ items, ∀ {found r b later}, Registered unfinished found r →
      f a r = .ok (b, later) → ∃ t, Walked unfinished found r (shapeOf a) t later ∧ b = build a t)
    {found : List Fields} {r later : Registry} {results : List β}
    (registered : Registered unfinished found r) (ran : items.mapM f r = .ok (results, later)) :
    Registered unfinished (items.foldl (fun found a => discover (shapeOf a) found) found) later ∧
      r.names <+: later.names ∧ (∀ a ∈ items, later.Knows (shapeOf a)) ∧
      results = items.map fun a => build a (restated later.nameOf (shapeOf a)) := by
  induction items generalizing found r results with
  | nil =>
    rw [List.mapM_nil] at ran
    cases ran
    exact ⟨registered, List.prefix_rfl, List.forall_mem_nil _, rfl⟩
  | cons a rest ih =>
    rw [mapM_cons_run] at ran
    obtain ⟨⟨b, next⟩, first, ran⟩ := eq_ok_of_bind ran
    obtain ⟨⟨others, last⟩, second, ran⟩ := eq_ok_of_bind ran
    cases ran
    obtain ⟨t, walked, rfl⟩ := step a List.mem_cons_self registered first
    obtain ⟨whole, grown, known, rfl⟩ := ih
      (fun c member => step c (List.mem_cons_of_mem a member)) walked.registered second
    refine ⟨whole, walked.grown.trans grown, ?_, ?_⟩
    · rw [List.forall_mem_cons]
      exact ⟨walked.known.of_prefix grown, known⟩
    · rw [List.map_cons, walked.result, walked.known.restated_eq grown]

end Lists

theorem inOrderOf_mapFields {f : Shape → Shape} {fields : Fields}
    (distinct : (Entries.keys fields).Nodup) :
    inOrderOf fields (mapFields f (sortByName fields)) = mapFields f fields := by
  apply List.map_congr_left
  rintro ⟨name, field⟩ here
  simp only
  rw [Shape.lookup_mapFields, lookup_sortByName distinct, Entries.lookup_of_mem distinct here]
  rfl

theorem prefix_foldl {α β : Type} {step : List β → α → List β} (items : List α)
    (keeps : ∀ a ∈ items, ∀ found, found <+: step found a) (found : List β) :
    found <+: items.foldl step found := by
  induction items generalizing found with
  | nil => exact List.prefix_rfl
  | cons a rest ih =>
    rw [List.forall_mem_cons] at keeps
    exact (keeps.1 found).trans (ih keeps.2 _)

theorem mem_of_foldl {α : Type} {step : List Fields → α → List Fields} {part : α → List Fields}
    {items : List α} {o : Fields} {found : List Fields}
    (source : ∀ a ∈ items, ∀ {found}, o ∈ step found a → o ∈ found ∨ o ∈ part a)
    (here : o ∈ items.foldl step found) : o ∈ found ∨ ∃ a ∈ items, o ∈ part a := by
  induction items generalizing found with
  | nil => exact Or.inl here
  | cons a rest ih =>
    rw [List.forall_mem_cons] at source
    rcases ih source.2 here with before | ⟨b, later, inside⟩
    · rcases source.1 before with old | new
      · exact Or.inl old
      · exact Or.inr ⟨a, List.mem_cons_self, new⟩
    · exact Or.inr ⟨b, List.mem_cons_of_mem a later, inside⟩

theorem prefix_discover (s : Shape) (found : List Fields) : found <+: discover s found := by
  induction s generalizing found with
  | primitive kind => exact List.prefix_rfl
  | array e placeholder ih => exact ih found
  | object fields ih =>
    rw [discover_object]
    split_ifs
    · exact List.prefix_rfl
    · apply (List.prefix_append found [fields]).trans
      apply prefix_foldl _ _
      intro entry here
      exact ih entry ((sortByName_perm fields).mem_iff.mp here)
  | union variants ih =>
    rw [discover_union]
    exact prefix_foldl variants ih found
  | reference name => exact List.prefix_rfl

theorem mem_of_discover {s : Shape} {found : List Fields} {o : Fields}
    (here : o ∈ discover s found) : o ∈ found ∨ o ∈ s.objects := by
  induction s generalizing found with
  | primitive kind => exact Or.inl here
  | array e placeholder ih => exact ih here
  | object fields ih =>
    rw [discover_object] at here
    split_ifs at here
    · exact Or.inl here
    · rcases mem_of_foldl (fun entry inside => ih entry ((sortByName_perm fields).mem_iff.mp inside))
        here with before | ⟨entry, inside, within⟩
      · rcases List.mem_append.mp before with old | new
        · exact Or.inl old
        · exact Or.inr (Shape.mem_objects_object.mpr (Or.inl (List.mem_singleton.mp new)))
      · have member := (sortByName_perm fields).mem_iff.mp inside
        exact Or.inr (Shape.mem_objects_object.mpr (Or.inr ⟨entry, member, within⟩))
  | union variants ih =>
    rw [discover_union] at here
    rcases mem_of_foldl ih here with before | ⟨v, inside, within⟩
    · exact Or.inl before
    · exact Or.inr (Shape.mem_objects_union.mpr ⟨v, inside, within⟩)
  | reference name => exact Or.inl here

namespace Walked

variable {limit : Nat} {unfinished : List (List UInt8)} {found : List Fields} {r later : Registry}
  {s t : Shape}

theorem of_known {fields : Fields} {name : String} (registered : Registered unfinished found r)
    (here : r.names.lookup (digestOf fields) = some name) :
    Walked unfinished found r (.object fields) (.reference name) r := by
  rw [registered.lookup_names, Option.ite_none_right_eq_some] at here
  obtain ⟨present, named⟩ := here
  constructor
  · rw [discover_object, if_pos present]
    exact registered
  · exact List.prefix_rfl
  · intro o inside
    rw [List.mem_singleton.mp inside, registered.digests]
    exact present
  · exact congrArg Shape.reference (Option.some.inj named).symm

theorem of_new {fields : Fields} {name : String} {walked : Fields}
    (registered : Registered unfinished found r) (distinct : (Entries.keys fields).Nodup)
    (unknown : digestOf fields ∉ found.map digestOf) (fresh : name ∉ r.names.map Prod.snd)
    (whole : Registered (digestOf fields :: unfinished)
      ((sortByName fields).foldl (fun found entry => discover entry.2.shape found) (found ++ [fields]))
      later)
    (grown : (r.reserve (digestOf fields) name fields).names <+: later.names)
    (known : ∀ entry ∈ sortByName fields, later.Knows entry.2.shape)
    (results : walked = mapFields (restated later.nameOf) (sortByName fields)) :
    Walked unfinished found r (.object fields) (.reference name)
      (later.complete name (inOrderOf fields walked)) := by
  have started := registered.reserve unknown fresh
  have here : digestOf fields ∈ Entries.keys (r.reserve (digestOf fields) name fields).names := by
    rw [started.digests, List.map_append, List.mem_append]
    exact Or.inr (List.mem_singleton.mpr rfl)
  have named : later.nameOf (digestOf fields) = name := by
    rw [Registry.nameOf_of_prefix grown here, registered.nameOf_reserve_new unknown]
  have present : fields ∈
      (sortByName fields).foldl (fun found entry => discover entry.2.shape found) (found ++ [fields]) := by
    have kept := prefix_foldl (sortByName fields)
      (fun entry _ before => prefix_discover entry.2.shape before) (found ++ [fields])
    exact kept.subset (List.mem_append_right found (List.mem_singleton.mpr rfl))
  constructor
  · rw [discover_object, if_neg unknown, results, inOrderOf_mapFields distinct]
    have completed := whole.complete present (fun busy => unknown (registered.started _ busy)) <| by
      intro entry inside inner within
      rw [← whole.digests]
      exact known entry ((sortByName_perm fields).mem_iff.mpr inside) inner within
    rwa [named] at completed
  · exact (List.prefix_append _ _).trans grown
  · intro o inside
    rw [List.mem_singleton.mp inside]
    exact (List.IsPrefix.map Prod.fst grown).subset here
  · exact congrArg Shape.reference named.symm

end Walked

theorem not_mem_of_pickName {limit : Nat} {r : Registry} {context name : String}
    {fixed : Option String} (used : ∀ name ∈ r.names.map Prod.snd, name ∈ r.used)
    (first : fixed = none ∨ r.names = []) (picked : pickName limit r.used context fixed = .ok name) :
    name ∉ r.names.map Prod.snd := by
  rcases first with rfl | empty
  · exact fun taken => not_mem_of_uniqueName picked (used name taken)
  · rw [empty]
    exact List.not_mem_nil

/-- A walk replaces objects by their names and keeps the registry's invariant. -/
theorem walked_of_run {limit : Nat} {s : Shape} (buildable : Buildable s)
    {unfinished : List (List UInt8)} {found : List Fields} {r later : Registry} {context : String}
    {fixed : Option String} {t : Shape} (registered : Registered unfinished found r)
    (first : fixed = none ∨ r.names = [])
    (ran : walk limit s context fixed r = .ok (t, later)) : Walked unfinished found r s t later := by
  induction buildable generalizing unfinished found r later context fixed t with
  | primitive kind =>
    cases ran
    exact ⟨registered, List.prefix_rfl, List.forall_mem_nil _, rfl⟩
  | reference name =>
    cases ran
    exact ⟨registered, List.prefix_rfl, List.forall_mem_nil _, rfl⟩
  | array placeholder element ih =>
    rw [walk_array] at ran
    obtain ⟨⟨walked, last⟩, inner, ran⟩ := eq_ok_of_bind ran
    cases ran
    have outcome := ih registered (Or.inl rfl) inner
    exact ⟨outcome.registered, outcome.grown, outcome.known, by rw [outcome.result]; rfl⟩
  | @union variants several single shapes ih =>
    rw [walk_union] at ran
    obtain ⟨⟨walked, last⟩, inner, ran⟩ := eq_ok_of_bind ran
    cases ran
    obtain ⟨whole, grown, known, rfl⟩ := registered_of_mapM id (fun _ t => t)
      (fun v here found r b later before first => ⟨b, ih v here before (Or.inl rfl) first, rfl⟩)
      registered inner
    constructor
    · rw [discover_union]
      exact whole
    · exact grown
    · intro o inside
      obtain ⟨v, here, within⟩ := Shape.mem_outerObjects_union.mp inside
      exact known v here o within
    · exact (Shape.restated_union variants).symm
  | @object fields distinct shapes ih =>
    rw [walk_object] at ran
    cases looked : r.names.lookup (digestOf fields) with
    | some name =>
      rw [looked] at ran
      cases ran
      exact .of_known registered looked
    | none =>
      rw [looked] at ran
      obtain ⟨name, picked, ran⟩ := eq_ok_of_bind ran
      obtain ⟨⟨walked, last⟩, inner, ran⟩ := eq_ok_of_bind ran
      cases ran
      have unknown : digestOf fields ∉ found.map digestOf := by
        rw [← registered.digests]
        exact Entries.lookup_eq_none.mp looked
      have fresh := not_mem_of_pickName registered.used first picked
      -- The object is named before its fields are walked.
      obtain ⟨whole, grown, known, results⟩ := registered_of_mapM
        (fun entry : Str × Field => entry.2.shape)
        (fun entry t => (entry.1, ⟨t, entry.2.optional⟩))
        (fun entry here found r b later before first => by
          rw [walkField_run] at first
          obtain ⟨⟨t, next⟩, walk, first⟩ := eq_ok_of_bind first
          cases first
          have member := (sortByName_perm fields).mem_iff.mp here
          exact ⟨t, ih entry member before (Or.inl rfl) walk, rfl⟩)
        (registered.reserve unknown fresh) inner
      exact .of_new registered distinct unknown fresh whole grown known results

/-- `g` is `s` with names in the places of its objects, and a table of the objects of `s`. Every object
that lies in no other one, in the root or in an entry, has its digest among those of the table. -/
structure Names (nameOf : List UInt8 → String) (s : Shape) (g : Graph) : Prop where
  root : g.root = renamed nameOf s
  table : g.table =
    (discover s []).map fun o => (nameOf (digestOf o), mapFields (renamed nameOf) o)
  distinct : ((discover s []).map digestOf).Nodup
  names : ((discover s []).map fun o => nameOf (digestOf o)).Nodup
  outer : ∀ o ∈ s.outerObjects, digestOf o ∈ (discover s []).map digestOf
  inner : ∀ o ∈ discover s [], ∀ entry ∈ o, ∀ inside ∈ entry.2.shape.outerObjects,
    digestOf inside ∈ (discover s []).map digestOf

theorem registered_initial (s : Shape) (rootName : String) :
    Registered [] [] (.initial s rootName) := by
  cases s <;> exact ⟨rfl, List.nodup_nil, List.nodup_nil, List.forall_mem_nil _,
    List.forall_mem_nil _, rfl, List.forall_mem_nil _⟩

theorem names_initial (s : Shape) (rootName : String) : (Registry.initial s rootName).names = [] := by
  cases s <;> rfl

def Table.rebuilt (table : Table) : Table :=
  table.map fun entry => (entry.1, mapFields Shape.rebuilt entry.2)

def Graph.rebuilt (g : Graph) : Graph := { g with root := g.root.rebuilt, table := g.table.rebuilt }

theorem exists_walk_of_ofShape {limit : Nat} {s : Shape} {rootName : String} {g : Graph}
    (buildable : Buildable s) (ran : Graph.ofShape limit s rootName = .ok g) :
    ∃ t r, walk limit s rootName (some rootName) (.initial s rootName) = .ok (t, r) ∧
      Walked [] [] (.initial s rootName) s t r ∧ g = ⟨rootName, t, r.table⟩ := by
  obtain ⟨⟨t, r⟩, walk, ran⟩ := eq_ok_of_bind ran
  cases ran
  exact ⟨t, r, walk, walked_of_run buildable (registered_initial s rootName)
    (Or.inr (names_initial s rootName)) walk, rfl⟩

theorem exists_names_of_ofShape {limit : Nat} {s : Shape} {rootName : String} {g : Graph}
    (buildable : Buildable s) (ran : Graph.ofShape limit s rootName = .ok g) :
    ∃ nameOf h, Names nameOf s h ∧ g = h.rebuilt := by
  obtain ⟨t, r, _, walked, rfl⟩ := exists_walk_of_ofShape buildable ran
  have registered := walked.registered
  let table : Table :=
    (discover s []).map fun o => (r.nameOf (digestOf o), mapFields (renamed r.nameOf) o)
  refine ⟨r.nameOf, ⟨rootName, renamed r.nameOf s, table⟩,
    ⟨rfl, rfl, registered.distinct, registered.nodup_keys_table, ?_, ?_⟩, ?_⟩
  · intro o here
    rw [← registered.digests]
    exact walked.known o here
  · intro o here
    exact registered.named o here List.not_mem_nil
  · have entries : r.table = table.rebuilt := by
      rw [registered.table, Table.rebuilt, List.map_map]
      apply List.map_congr_left
      intro o _
      rw [if_neg List.not_mem_nil]
      exact congrArg (Prod.mk _) (Shape.mapFields_mapFields Shape.rebuilt (renamed r.nameOf) o).symm
    rw [walked.result, entries]
    rfl

namespace Names

variable {nameOf : List UInt8 → String} {s : Shape} {g : Graph}

theorem keys_table (named : Names nameOf s g) :
    Entries.keys g.table = (discover s []).map fun o => nameOf (digestOf o) := by
  rw [named.table, Entries.keys, List.map_map]
  rfl

theorem mem_objects_of_discover {o : Fields} (found : o ∈ discover s []) : o ∈ s.objects :=
  (mem_of_discover found).resolve_left List.not_mem_nil

theorem rebuilt_eq (named : Names nameOf s g) (ranked : Ranked s) : g.rebuilt = g := by
  have table : g.table.rebuilt = g.table := by
    rw [named.table, Table.rebuilt, List.map_map]
    apply List.map_congr_left
    intro o found
    have whole := ranked.of_mem_objects (mem_objects_of_discover found)
    rw [Function.comp_apply, Shape.mapFields_mapFields]
    congr 1
    apply Shape.mapFields_congr
    intro entry here
    exact (whole.field here).rebuilt_renamed
  rw [Graph.rebuilt, table, named.root, ranked.rebuilt_renamed, ← named.root]

theorem lookup_found (named : Names nameOf s g) {o : Fields} (found : o ∈ discover s []) :
    g.table.lookup (nameOf (digestOf o)) = some (mapFields (renamed nameOf) o) := by
  apply Entries.lookup_of_mem
  · rw [named.keys_table]
    exact named.names
  · rw [named.table]
    exact List.mem_map_of_mem (f := fun o => (nameOf (digestOf o), mapFields (renamed nameOf) o)) found

end Names

theorem names_of_ofShape {limit : Nat} {s : Shape} {rootName : String} {g : Graph}
    (ranked : Ranked s) (ran : Graph.ofShape limit s rootName = .ok g) :
    ∃ nameOf, Names nameOf s g := by
  obtain ⟨nameOf, h, named, rfl⟩ := exists_names_of_ofShape ranked.buildable ran
  exact ⟨nameOf, (named.rebuilt_eq ranked).symm ▸ named⟩

/-! References in named shapes are the names of objects, and other shapes have none. -/

namespace Shape

theorem Ranked.references_eq_nil {s : Shape} (ranked : Ranked s) : s.references = [] := by
  induction ranked with
  | primitive kind => rfl
  | array placeholder element ih => exact ih
  | object distinct shapes ih =>
    rw [references, fieldReferences_eq, List.flatMap_eq_nil_iff]
    exact ih
  | union several single rising shapes ih =>
    rw [references, variantReferences_eq, List.flatMap_eq_nil_iff]
    exact ih

theorem mem_references_of_object {s : Shape} {o : Fields} (here : o ∈ s.objects) {name : String}
    (inside : name ∈ (Shape.object o).references) : name ∈ s.references := by
  induction s with
  | primitive kind => cases here
  | array e placeholder ih => exact ih here
  | object fields ih =>
    rcases mem_objects_object.mp here with rfl | ⟨entry, member, within⟩
    · exact inside
    · exact mem_references_of_field member (ih entry member within)
  | union variants ih =>
    obtain ⟨v, member, within⟩ := mem_objects_union.mp here
    exact mem_references_of_variant member (ih v member within)
  | reference name => cases here

theorem references_renamed {nameOf : List UInt8 → String} {s : Shape} (bare : s.references = []) :
    (renamed nameOf s).references = s.outerObjects.map fun o => nameOf (digestOf o) := by
  induction s with
  | primitive kind => rfl
  | array e placeholder ih => exact ih bare
  | object fields ih => rfl
  | union variants ih =>
    rw [references, variantReferences_eq, List.flatMap_eq_nil_iff] at bare
    have each : ∀ v ∈ variants,
        (renamed nameOf v).references = v.outerObjects.map fun o => nameOf (digestOf o) :=
      fun v here => ih v here (bare v here)
    calc (renamed nameOf (.union variants)).references
        = variants.flatMap fun v => (renamed nameOf v).references := by
          rw [renamed_union, references, variantReferences_eq, List.flatMap_map]
      _ = variants.flatMap fun v => v.outerObjects.map fun o => nameOf (digestOf o) := by
          simp only [List.flatMap_def, List.map_congr_left each]
      _ = (Shape.union variants).outerObjects.map fun o => nameOf (digestOf o) := by
          rw [outerObjects, outerObjectsOfVariants_eq, List.map_flatMap]
  | reference name => cases bare

theorem mem_fieldReferences_renamed {nameOf : List UInt8 → String} {o : Fields} {name : String}
    (bare : (Shape.object o).references = []) :
    name ∈ fieldReferences (mapFields (renamed nameOf) o) ↔
      ∃ entry ∈ o, ∃ inner ∈ entry.2.shape.outerObjects, nameOf (digestOf inner) = name := by
  rw [references, fieldReferences_eq, List.flatMap_eq_nil_iff] at bare
  rw [fieldReferences_eq, mapFields, List.flatMap_map, List.mem_flatMap]
  apply exists_congr
  intro entry
  apply and_congr_right
  intro here
  rw [FieldSpec.map_shape, references_renamed (bare entry here), List.mem_map]

end Shape

namespace Names

variable {nameOf : List UInt8 → String} {s : Shape} {g : Graph}

theorem isSome_lookup (named : Names nameOf s g) {fields : Fields}
    (known : digestOf fields ∈ (discover s []).map digestOf) :
    (g.table.lookup (nameOf (digestOf fields))).isSome := by
  obtain ⟨o, found, equal⟩ := List.mem_map.mp known
  rw [← equal, named.lookup_found found]
  rfl

theorem bare_found (bare : s.references = []) {o : Fields} (found : o ∈ discover s []) :
    (Shape.object o).references = [] := by
  rw [List.eq_nil_iff_forall_not_mem]
  intro name inside
  have within := Shape.mem_references_of_object (mem_objects_of_discover found) inside
  rw [bare] at within
  cases within

theorem check_of_bare (named : Names nameOf s g) (bare : s.references = []) : g.check = .ok () := by
  rw [Graph.check_eq_ok]
  intro name here
  rcases List.mem_append.mp here with inRoot | inTable
  · rw [named.root, Shape.references_renamed bare] at inRoot
    obtain ⟨o, outer, rfl⟩ := List.mem_map.mp inRoot
    exact named.isSome_lookup (named.outer o outer)
  · obtain ⟨⟨key, fields⟩, member, inside⟩ := List.mem_flatMap.mp inTable
    rw [named.table] at member
    obtain ⟨o, found, equal⟩ := List.mem_map.mp member
    cases equal
    obtain ⟨entry, field, inner, outer, rfl⟩ :=
      (Shape.mem_fieldReferences_renamed (bare_found bare found)).mp inside
    exact named.isSome_lookup (named.inner o found entry field inner outer)

theorem check (named : Names nameOf s g) (ranked : Ranked s) : g.check = .ok () :=
  named.check_of_bare ranked.references_eq_nil

end Names

end SampleTypes
