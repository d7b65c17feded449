import SampleTypes.Proofs.Graph.Named
import SampleTypes.Proofs.Graph.NamingOrder
import SampleTypes.TypeScript.Declaration

/-! When rendering succeeds, and what of a graph it depends on. -/

namespace SampleTypes.TypeScript

open Shape (mapFields)

/-- A rendering that gives this result, whatever warnings there were before. -/
def Renders {α : Type} (x : Rendering α) (a : α) : Prop :=
  ∀ warnings, ∃ later, x.run.run warnings = (.ok a, later)

section Renders

variable {α β : Type}

theorem renders_pure (a : α) : Renders (pure a) a :=
  fun warnings => ⟨warnings, rfl⟩

theorem renders_bind {x : Rendering α} {f : α → Rendering β} {a : α} {b : β} (first : Renders x a)
    (next : Renders (f a) b) : Renders (x >>= f) b := by
  intro warnings
  obtain ⟨middle, ran⟩ := first warnings
  obtain ⟨later, rest⟩ := next middle
  refine ⟨later, ?_⟩
  rw [ExceptT.run_bind, StateT.run_bind, ran]
  exact rest

theorem renders_mapM {f : α → Rendering β} {g : α → β} {items : List α}
    (each : ∀ a ∈ items, Renders (f a) (g a)) : Renders (items.mapM f) (items.map g) := by
  induction items with
  | nil => exact renders_pure []
  | cons a rest ih =>
    rw [List.forall_mem_cons] at each
    rw [List.mapM_cons]
    exact renders_bind each.1 (renders_bind (ih each.2) (renders_pure _))

end Renders

/-! What is rendered, read off the graph. -/

mutual

def plainText (explicitUnions : Bool) : Shape → String
  | .primitive kind => kindText kind
  | .reference name => name
  | .array e _ => arrayText e (plainText explicitUnions e)
  | .union variants => if explicitUnions then unionText (plainTexts explicitUnions variants) else "any"
  | .object _ => ""

def plainTexts (explicitUnions : Bool) : List Shape → List String
  | [] => []
  | v :: rest => plainText explicitUnions v :: plainTexts explicitUnions rest

end

def plainMembers (style : Style) (fields : Fields) : List Member :=
  (arrange style.alphabetize fields).map fun entry =>
    ⟨entry.1, plainText style.explicitUnions entry.2.shape, entry.2.optional⟩

/-- An interface for each entry of the table, in its order, and an alias for a root that is no object. -/
def declarations (style : Style) (g : Graph) : List Points :=
  (g.table.map fun entry => interfaceText entry.1 (plainMembers style entry.2)) ++
    if g.rootIsObject then [] else [aliasText g.rootName (plainText style.explicitUnions g.root)]

theorem plainText_union (explicitUnions : Bool) (variants : List Shape) :
    plainText explicitUnions (.union variants) =
      if explicitUnions then unionText (variants.map (plainText explicitUnions)) else "any" := by
  have inner : plainTexts explicitUnions variants = variants.map (plainText explicitUnions) := by
    induction variants with
    | nil => rfl
    | cons v rest ih => rw [plainTexts, ih, List.map_cons]
  rw [plainText, inner]

theorem typeTexts_eq (table : Table) (explicitUnions : Bool) (variants : List Shape) :
    typeTexts table explicitUnions variants = variants.mapM (typeText table explicitUnions) := by
  induction variants with
  | nil => rfl
  | cons v rest ih => rw [typeTexts, ih, List.mapM_cons]

theorem typeText_union (table : Table) (explicitUnions : Bool) (variants : List Shape) :
    typeText table explicitUnions (.union variants) =
      if explicitUnions then unionText <$> variants.mapM (typeText table explicitUnions)
      else do
        warn (.looseUnion variants.length)
        return "any" := by
  rw [typeText, typeTexts_eq]
  rfl

/-! Shapes without objects and without dangling references have a text. -/

theorem renders_typeText {table : Table} {explicitUnions : Bool} {s : Shape}
    (bare : s.outerObjects = []) (resolved : s.Resolved table) :
    Renders (typeText table explicitUnions s) (plainText explicitUnions s) := by
  induction s with
  | primitive kind => exact renders_pure _
  | array e placeholder ih =>
    rw [typeText]
    exact renders_bind (ih bare resolved) (renders_pure _)
  | object fields ih => cases bare
  | union variants ih =>
    rw [Shape.outerObjects, Shape.outerObjectsOfVariants_eq, List.flatMap_eq_nil_iff] at bare
    rw [typeText_union, plainText_union]
    cases explicitUnions with
    | true =>
      rw [if_pos rfl, if_pos rfl, map_eq_pure_bind]
      have texts : ∀ v ∈ variants, Renders (typeText table true v) (plainText true v) :=
        fun v here => ih v here (bare v here) (resolved.variant here)
      exact renders_bind (renders_mapM texts) (renders_pure _)
    | false =>
      rw [if_neg Bool.false_ne_true, if_neg Bool.false_ne_true]
      exact fun warnings => ⟨_, rfl⟩
  | reference name =>
    obtain ⟨fields, found⟩ := Option.isSome_iff_exists.mp (resolved name (List.mem_singleton.mpr rfl))
    rw [typeText, Table.resolve, found]
    exact renders_pure name

theorem mem_arrange {alphabetize : Bool} {fields : Fields} {entry : Str × Field} :
    entry ∈ arrange alphabetize fields ↔ entry ∈ fields := by
  unfold arrange
  split
  · exact (sortByName_perm fields).mem_iff
  · exact Iff.rfl

theorem renders_members {style : Style} {table : Table} {fields : Fields}
    (bare : ∀ entry ∈ fields, entry.2.shape.outerObjects = [])
    (resolved : (Shape.object fields).Resolved table) :
    Renders (members style table fields) (plainMembers style fields) := by
  apply renders_mapM
  intro entry here
  have member := mem_arrange.mp here
  exact renders_bind (renders_typeText (bare entry member) (resolved.field member)) (renders_pure _)

theorem render_of_checked {style : Style} {g : Graph} (checked : g.check = .ok ()) :
    render style g = do
      let interfaces ← g.table.mapM fun (name, fields) => interfaceBlock style g.table name fields
      if g.rootIsObject then return interfaces
      else return interfaces ++ [← aliasBlock style g.table g.rootName g.root] := by
  unfold render
  rw [checked]

theorem exists_of_render {style : Style} {g : Graph} {warnings later : List Warning} {blocks : List Points}
    (ran : (render style g).run.run warnings = (.ok blocks, later)) :
    g.check = .ok () ∧ ∃ interfaces aliases middle, blocks = interfaces ++ aliases ∧
      (g.table.mapM fun (name, fields) => interfaceBlock style g.table name fields).run.run warnings =
        (.ok interfaces, middle) ∧
      if g.rootIsObject then aliases = [] else ∃ block last,
        (aliasBlock style g.table g.rootName g.root).run.run middle = (.ok block, last) ∧
          aliases = [block] := by
  cases checked : g.check with
  | error cause =>
    unfold render at ran
    rw [checked] at ran
    cases ran
  | ok _ =>
    rw [render_of_checked checked] at ran
    obtain ⟨interfaces, middle, first, ran⟩ := exists_of_bind_run ran
    split at ran
    · rename_i object
      cases ran
      exact ⟨rfl, _, [], _, (List.append_nil _).symm, first, by rw [if_pos object]⟩
    · rename_i other
      obtain ⟨block, last, written, ran⟩ := exists_of_bind_run ran
      cases ran
      refine ⟨rfl, interfaces, [block], middle, rfl, first, ?_⟩
      rw [if_neg other]
      exact ⟨block, _, written, rfl⟩

theorem ne_nil_of_render {style : Style} {g : Graph} {warnings later : List Warning}
    {blocks : List Points} (ran : (render style g).run.run warnings = (.ok blocks, later)) :
    blocks ≠ [] := by
  obtain ⟨checked, interfaces, aliases, middle, rfl, first, last⟩ := exists_of_render ran
  split at last
  · rename_i object
    have entries := List.length_pos_iff.mpr (Graph.table_ne_nil checked object)
    rw [← length_of_mapM_run first] at entries
    exact List.append_ne_nil_of_left_ne_nil (List.ne_nil_of_length_pos entries) _
  · obtain ⟨block, _, _, rfl⟩ := last
    simp

theorem resolved_of_entry {g : Graph} (checked : g.check = .ok ()) {entry : String × Fields}
    (here : entry ∈ g.table) : (Shape.object entry.2).Resolved g.table := by
  intro name inside
  apply Graph.check_eq_ok.mp checked
  exact List.mem_append_right _ (List.mem_flatMap.mpr ⟨entry, here, inside⟩)

theorem renders_render {style : Style} {g : Graph} (checked : g.check = .ok ())
    (bareRoot : g.root.outerObjects = [])
    (bareTable : ∀ entry ∈ g.table, ∀ field ∈ entry.2, field.2.shape.outerObjects = []) :
    Renders (render style g) (declarations style g) := by
  have interfaces :
      Renders (g.table.mapM fun (name, fields) => interfaceBlock style g.table name fields)
        (g.table.map fun entry => interfaceText entry.1 (plainMembers style entry.2)) := by
    apply renders_mapM
    intro entry here
    exact renders_bind (renders_members (bareTable entry here) (resolved_of_entry checked here)) (renders_pure _)
  rw [render_of_checked checked, declarations]
  apply renders_bind interfaces
  split
  · rw [List.append_nil]
    exact renders_pure _
  · have root : Renders (typeText g.table style.explicitUnions g.root)
        (plainText style.explicitUnions g.root) :=
      renders_typeText bareRoot (Graph.resolved_of_check checked)
    exact renders_bind (renders_bind root (renders_pure _)) (renders_pure _)

/-! Rendering sorted fields does not depend on their order. -/

theorem typeText_arranged (table : Table) (explicitUnions : Bool) (s : Shape) :
    typeText table explicitUnions s.arranged = typeText table explicitUnions s := by
  induction s with
  | primitive kind => rfl
  | array e placeholder ih => simp only [Shape.arranged, typeText, ih, arrayText, Shape.tidying_arranged.isUnion]
  | object fields ih => rw [Shape.arranged_object]; rfl
  | union variants ih =>
    rw [Shape.arranged_union, typeText_union, typeText_union, List.mapM_map, List.length_map,
      mapM_congr (g := typeText table explicitUnions)]
    exact ih
  | reference name => rfl

theorem typeText_table {table other : Table}
    (same : ∀ name, (table.lookup name).isSome = (other.lookup name).isSome) (explicitUnions : Bool)
    (s : Shape) : typeText table explicitUnions s = typeText other explicitUnions s := by
  induction s with
  | primitive kind => rfl
  | array e placeholder ih => rw [typeText, typeText, ih]
  | object fields ih => rfl
  | union variants ih => rw [typeText_union, typeText_union, mapM_congr ih]
  | reference name =>
    have keys := same name
    rw [typeText, typeText, Table.resolve, Table.resolve]
    cases left : table.lookup name <;> cases right : other.lookup name <;> simp_all

theorem lookup_arranged (table : Table) (name : String) :
    (table.map arrangedEntry).lookup name =
      (table.lookup name).map fun fields => sortByName (mapFields Shape.arranged fields) :=
  Entries.lookup_map (fun _ fields => sortByName (mapFields Shape.arranged fields)) name table

theorem members_arranged {style : Style} (alphabetical : style.alphabetize = true) (table : Table)
    (fields : Fields) :
    members style (table.map arrangedEntry) (sortByName (mapFields Shape.arranged fields)) =
      members style table fields := by
  have names : ∀ name, ((table.map arrangedEntry).lookup name).isSome = (table.lookup name).isSome := by
    intro name
    rw [lookup_arranged, Option.isSome_map]
  rw [members, members, arrange, arrange, if_pos alphabetical, if_pos alphabetical, sortByName_idem,
    Shape.sortByName_mapFields, mapFields, List.mapM_map]
  apply mapM_congr
  intro entry here
  simp only [Function.comp_apply, FieldSpec.map_shape, FieldSpec.map_optional, typeText_arranged,
    typeText_table names]

theorem mem_fieldReferences_of_arranged {fields : Fields} {name : String}
    (inner : ∀ entry ∈ fields, name ∈ entry.2.shape.arranged.references →
      name ∈ entry.2.shape.references)
    (here : name ∈ Shape.fieldReferences (sortByName (mapFields Shape.arranged fields))) :
    name ∈ Shape.fieldReferences fields := by
  rw [Shape.fieldReferences_eq, List.mem_flatMap] at here ⊢
  obtain ⟨sorted, inside, within⟩ := here
  obtain ⟨entry, member, rfl⟩ := List.mem_map.mp ((sortByName_perm _).mem_iff.mp inside)
  exact ⟨entry, member, inner entry member within⟩

theorem mem_references_of_arranged {s : Shape} {name : String} (here : name ∈ s.arranged.references) :
    name ∈ s.references := by
  induction s with
  | primitive kind => exact here
  | array e placeholder ih => exact ih here
  | object fields ih =>
    rw [Shape.arranged_object] at here
    exact mem_fieldReferences_of_arranged ih here
  | union variants ih =>
    rw [Shape.arranged_union, Shape.references, Shape.variantReferences_eq, List.flatMap_map,
      List.mem_flatMap] at here
    rw [Shape.references, Shape.variantReferences_eq, List.mem_flatMap]
    obtain ⟨v, member, inside⟩ := here
    exact ⟨v, member, ih v member inside⟩
  | reference other => exact here

theorem isSome_lookup_arranged (g : Graph) (name : String) :
    (g.arranged.table.lookup name).isSome = (g.table.lookup name).isSome := by
  rw [Graph.arranged, lookup_arranged, Option.isSome_map]

theorem check_arranged {g : Graph} (checked : g.check = .ok ()) : g.arranged.check = .ok () := by
  apply Graph.check_of_references checked (isSome_lookup_arranged g)
  intro name here
  rcases List.mem_append.mp here with inRoot | inTable
  · exact List.mem_append_left _ inRoot
  · apply List.mem_append_right
    rw [Graph.arranged, List.flatMap_map, List.mem_flatMap] at inTable
    obtain ⟨entry, member, inside⟩ := inTable
    apply List.mem_flatMap.mpr
    refine ⟨entry, member, ?_⟩
    exact mem_fieldReferences_of_arranged (fun _ _ => mem_references_of_arranged) inside

theorem render_arranged {style : Style} (alphabetical : style.alphabetize = true) {g : Graph}
    (checked : g.check = .ok ()) : render style g.arranged = render style g := by
  have interfaces : (g.arranged.table.mapM fun (name, fields) =>
      interfaceBlock style g.arranged.table name fields) =
        g.table.mapM fun (name, fields) => interfaceBlock style g.table name fields := by
    rw [Graph.arranged, List.mapM_map]
    apply mapM_congr
    intro entry here
    simp only [Function.comp_apply, arrangedEntry, interfaceBlock, members_arranged alphabetical]
  have root : aliasBlock style g.arranged.table g.arranged.rootName g.arranged.root =
      aliasBlock style g.table g.rootName g.root := by
    rw [aliasBlock, aliasBlock, typeText_table (isSome_lookup_arranged g)]
    rfl
  rw [render_of_checked checked, render_of_checked (check_arranged checked), interfaces, root]
  rfl

end SampleTypes.TypeScript
