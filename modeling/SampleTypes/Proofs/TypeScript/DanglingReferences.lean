import SampleTypes.Proofs.TypeScript.Rendering

/-! Dangling references. A graph without inline objects is rendered if and only if every name that is
mentioned in it, reachable or not, has an entry, and otherwise a missing name is reported before anything
is rendered. -/

namespace SampleTypes

namespace Shape

/-- A reference to the name stands in the shape, at any depth. References are not followed. -/
inductive Mentions (name : String) : Shape → Prop where
  | reference : Mentions name (.reference name)
  | element {e : Shape} (placeholder : Bool) (inside : Mentions name e) :
      Mentions name (.array e placeholder)
  | variant {variants : List Shape} {v : Shape} (here : v ∈ variants) (inside : Mentions name v) :
      Mentions name (.union variants)
  | field {fields : Fields} {entry : Str × Field} (here : entry ∈ fields)
      (inside : Mentions name entry.2.shape) : Mentions name (.object fields)

theorem mem_references_iff {name : String} {s : Shape} : name ∈ s.references ↔ Mentions name s := by
  constructor
  · intro here
    induction s with
    | primitive kind => cases here
    | array e placeholder ih => exact .element placeholder (ih here)
    | object fields ih =>
      rw [references, fieldReferences_eq] at here
      obtain ⟨entry, member, inside⟩ := List.mem_flatMap.mp here
      exact .field member (ih entry member inside)
    | union variants ih =>
      rw [references, variantReferences_eq] at here
      obtain ⟨v, member, inside⟩ := List.mem_flatMap.mp here
      exact .variant member (ih v member inside)
    | reference other =>
      rw [references, List.mem_singleton] at here
      exact here ▸ .reference
  · intro mentions
    induction mentions with
    | reference => exact List.mem_singleton.mpr rfl
    | element placeholder inside ih => exact ih
    | variant here inside ih => exact mem_references_of_variant here ih
    | field here inside ih => exact mem_references_of_field here ih

end Shape

namespace Graph

def Mentions (g : Graph) (name : String) : Prop :=
  g.root.Mentions name ∨ ∃ entry ∈ g.table, (Shape.object entry.2).Mentions name

theorem mem_references_iff {g : Graph} {name : String} : name ∈ g.references ↔ g.Mentions name := by
  rw [references, List.mem_append, Shape.mem_references_iff, List.mem_flatMap, Mentions]
  simp only [← Shape.mem_references_iff, Shape.references]

theorem check_eq_error {g : Graph} {cause : DanglingReference} (failed : g.check = .error cause) :
    g.Mentions cause.name ∧ g.table.lookup cause.name = none := by
  rw [check] at failed
  split at failed
  · rename_i name found
    have missing := List.find?_some found
    cases failed
    exact ⟨mem_references_iff.mp (List.mem_of_find?_eq_some found), Option.isNone_iff_eq_none.mp missing⟩
  · cases failed

end Graph

namespace TypeScript

variable {g : Graph}

theorem render_of_dangling {cause : DanglingReference} (failed : g.check = .error cause) (style : Style)
    (warnings : List Warning) :
    (render style g).run.run warnings = (.error (.dangling cause), warnings) := by
  unfold render
  rw [failed]
  rfl

/-- In whatever style, rendering gives blocks if every name that is mentioned has an entry, and otherwise
reports one that has none, with no warning before. -/
theorem render_outcome (bareRoot : g.root.outerObjects = [])
    (bareTable : ∀ entry ∈ g.table, ∀ field ∈ entry.2, field.2.shape.outerObjects = [])
    (style : Style) (warnings : List Warning) :
    ((∃ blocks later, (render style g).run.run warnings = (.ok blocks, later)) ↔
        ∀ name, g.Mentions name → (g.table.lookup name).isSome) ∧
      ((¬∀ name, g.Mentions name → (g.table.lookup name).isSome) →
        ∃ name, g.Mentions name ∧ g.table.lookup name = none ∧
          (render style g).run.run warnings = (.error (.dangling ⟨name⟩), warnings)) := by
  have resolves : (∀ name, g.Mentions name → (g.table.lookup name).isSome) ↔ g.check = .ok () := by
    simp only [Graph.check_eq_ok, Graph.mem_references_iff]
  rw [resolves]
  cases checked : g.check with
  | ok _ =>
    have rendered : Renders (render style g) (declarations style g) :=
      renders_render checked bareRoot bareTable
    obtain ⟨later, ran⟩ := rendered warnings
    exact ⟨⟨fun _ => rfl, fun _ => ⟨_, later, ran⟩⟩, fun dangling => absurd rfl dangling⟩
  | error cause =>
    have ran := render_of_dangling checked style warnings
    obtain ⟨mentioned, missing⟩ := Graph.check_eq_error checked
    refine ⟨⟨?_, nofun⟩, fun _ => ⟨cause.name, mentioned, missing, ran⟩⟩
    rintro ⟨blocks, later, rendered⟩
    rw [ran] at rendered
    cases rendered

/-- A reference in a loose union of an entry that nothing refers to, in a table with a cycle. -/
theorem render_outcome_of_looseUnion :
    let cyclic : Fields := [("next", ⟨.reference "Root", true⟩)]
    let items : Shape := .array (.union [.primitive .string, .reference "Lost"]) false
    let unreached : Fields := [("items", ⟨items, false⟩)]
    let g : Graph := ⟨"Root", .reference "Root", [("Root", cyclic), ("Spare", unreached)]⟩
    let style : Style := { explicitUnions := false }
    g.root.outerObjects = [] ∧
      (∀ entry ∈ g.table, ∀ field ∈ entry.2, field.2.shape.outerObjects = []) ∧
        g.Mentions "Lost" ∧ (render style g).run.run [] = (.error (.dangling ⟨"Lost"⟩), []) := by
  intro cyclic items unreached g style
  have bareRoot : g.root.outerObjects = [] := rfl
  have bareTable : ∀ entry ∈ g.table, ∀ field ∈ entry.2, field.2.shape.outerObjects = [] := by
    simp [g, cyclic, unreached, items, Shape.outerObjects, Shape.outerObjectsOfVariants]
  have mentions : g.Mentions "Lost" := Graph.mem_references_iff.mp (by decide)
  have missing : ¬∀ name, g.Mentions name → (g.table.lookup name).isSome :=
    fun resolved => absurd (resolved "Lost" mentions) (by decide)
  obtain ⟨name, mentioned, absent, ran⟩ := (render_outcome bareRoot bareTable style []).2 missing
  refine ⟨bareRoot, bareTable, mentions, ?_⟩
  have only : name = "Lost" := by
    have here : name ∈ ["Root", "Root", "Lost"] := Graph.mem_references_iff.mpr mentioned
    rcases List.mem_cons.mp here with rfl | here
    · cases absent
    · rcases List.mem_cons.mp here with rfl | here
      · cases absent
      · exact List.mem_singleton.mp here
  rw [ran, only]

end TypeScript

end SampleTypes
