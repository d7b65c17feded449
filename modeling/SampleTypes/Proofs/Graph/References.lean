import SampleTypes.Graph.Basic
import SampleTypes.Proofs.Entries

/-! References and where they lead. -/

namespace SampleTypes

namespace Shape

theorem variantReferences_eq (variants : List Shape) :
    variantReferences variants = variants.flatMap references := by
  induction variants with
  | nil => rfl
  | cons v rest ih => rw [variantReferences, ih, List.flatMap_cons]

theorem fieldReferences_eq (fields : Fields) :
    fieldReferences fields = fields.flatMap fun entry => entry.2.shape.references := by
  induction fields with
  | nil => rfl
  | cons entry rest ih => rw [fieldReferences, ih, List.flatMap_cons]

theorem mem_references_of_variant {variants : List Shape} {v : Shape} (here : v ∈ variants)
    {name : String} (inside : name ∈ v.references) : name ∈ (Shape.union variants).references := by
  rw [references, variantReferences_eq]
  exact List.mem_flatMap.mpr ⟨v, here, inside⟩

theorem mem_references_of_field {fields : Fields} {entry : Str × Field} (here : entry ∈ fields)
    {name : String} (inside : name ∈ entry.2.shape.references) :
    name ∈ (Shape.object fields).references := by
  rw [references, fieldReferences_eq]
  exact List.mem_flatMap.mpr ⟨entry, here, inside⟩

def Resolved (table : Table) (s : Shape) : Prop := ∀ name ∈ s.references, (table.lookup name).isSome

variable {table : Table}

theorem Resolved.variant {variants : List Shape} (resolved : Resolved table (.union variants))
    {v : Shape} (here : v ∈ variants) : Resolved table v :=
  fun name inside => resolved name (mem_references_of_variant here inside)

theorem Resolved.field {fields : Fields} (resolved : Resolved table (.object fields))
    {entry : Str × Field} (here : entry ∈ fields) : Resolved table entry.2.shape :=
  fun name inside => resolved name (mem_references_of_field here inside)

end Shape

def Table.Closed (table : Table) : Prop :=
  ∀ name fields, table.lookup name = some fields → Shape.Resolved table (.object fields)

theorem Graph.check_eq_ok {g : Graph} :
    g.check = .ok () ↔ ∀ name ∈ g.references, (g.table.lookup name).isSome := by
  unfold Graph.check
  cases found : g.references.find? fun name => (g.table.lookup name).isNone with
  | none =>
    rw [List.find?_eq_none] at found
    simpa [Option.isSome_iff_ne_none] using found
  | some name =>
    have here := List.mem_of_find?_eq_some found
    have missing := List.find?_some found
    constructor
    · intro checked
      cases checked
    · intro resolved
      have present := resolved name here
      rw [← Option.not_isNone, missing] at present
      cases present

theorem Graph.check_of_references {g h : Graph} (checked : g.check = .ok ())
    (names : ∀ name, (h.table.lookup name).isSome = (g.table.lookup name).isSome)
    (fewer : ∀ name ∈ h.references, name ∈ g.references) : h.check = .ok () := by
  rw [Graph.check_eq_ok] at checked ⊢
  intro name here
  rw [names]
  exact checked name (fewer name here)

theorem Graph.resolved_of_check {g : Graph} (checked : g.check = .ok ()) : g.root.Resolved g.table :=
  fun name here => Graph.check_eq_ok.mp checked name (List.mem_append_left _ here)

theorem Graph.closed_of_check {g : Graph} (checked : g.check = .ok ()) : Table.Closed g.table := by
  intro key fields found name here
  have entry := Entries.mem_of_lookup found
  apply Graph.check_eq_ok.mp checked
  exact List.mem_append_right _ (List.mem_flatMap.mpr ⟨(key, fields), entry, here⟩)

theorem Graph.rootName_mem_keys {g : Graph} (checked : g.check = .ok ()) (object : g.rootIsObject = true) :
    g.rootName ∈ Entries.keys g.table := by
  have resolved := Graph.resolved_of_check checked
  cases root : g.root with
  | reference name =>
    rw [Graph.rootIsObject, root] at object
    rw [root] at resolved
    obtain ⟨fields, found⟩ := Option.isSome_iff_exists.mp (resolved name (List.mem_singleton.mpr rfl))
    exact of_decide_eq_true object ▸ List.mem_map_of_mem (Entries.mem_of_lookup found)
  | _ => rw [Graph.rootIsObject, root] at object; cases object

theorem Graph.table_ne_nil {g : Graph} (checked : g.check = .ok ()) (object : g.rootIsObject = true) :
    g.table ≠ [] := by
  intro nothing
  have entry := Graph.rootName_mem_keys checked object
  rw [nothing] at entry
  cases entry

end SampleTypes
