import SampleTypes.Value

/-! Induction over values, the values that samples are made of, and the texts of locations. -/

namespace SampleTypes.Value

@[elab_as_elim, induction_eliminator]
theorem induct {motive : Value → Prop} (null : motive .null) (bool : ∀ b, motive (.bool b))
    (int : ∀ i, motive (.int i)) (float : ∀ x, motive (.float x)) (string : ∀ s, motive (.string s))
    (list : ∀ items, (∀ v ∈ items, motive v) → motive (.list items))
    (object : ∀ entries, (∀ entry ∈ entries, motive entry.2) → motive (.object entries))
    (foreign : ∀ typeName, motive (.foreign typeName)) : ∀ v, motive v := by
  intro v
  refine @Value.rec motive (fun items => ∀ v ∈ items, motive v)
    (fun entries => ∀ entry ∈ entries, motive entry.2) (fun entry => motive entry.2)
    null bool int float string list object foreign ?_ ?_ ?_ ?_ ?_ v
  · exact List.forall_mem_nil _
  · intro head tail first later
    exact List.forall_mem_cons.mpr ⟨first, later⟩
  · exact List.forall_mem_nil _
  · intro head tail first later
    exact List.forall_mem_cons.mpr ⟨first, later⟩
  · intro key v ih
    exact ih

/-- A JSON value. Numbers are finite, keys are names, and no object has a key twice. -/
inductive Supported : Value → Prop where
  | null : Supported .null
  | bool (b : Bool) : Supported (.bool b)
  | int (i : Int) : Supported (.int i)
  | float {x : Binary64} (finite : x.isFinite = true) : Supported (.float x)
  | string (s : Str) : Supported (.string s)
  | list {items : List Value} (each : ∀ v ∈ items, Supported v) : Supported (.list items)
  | object {entries : List (Key × Value)} (distinct : (Entries.keys entries).Nodup)
      (named : ∀ entry ∈ entries, ∃ name, entry.1 = .name name)
      (each : ∀ entry ∈ entries, Supported entry.2) : Supported (.object entries)

theorem supported_list {items : List Value} :
    (Value.list items).Supported ↔ ∀ v ∈ items, v.Supported := by
  constructor
  · intro supported
    cases supported with
    | list each => exact each
  · exact .list

theorem supported_object {entries : List (Key × Value)} :
    (Value.object entries).Supported ↔ (Entries.keys entries).Nodup ∧
      (∀ entry ∈ entries, ∃ name, entry.1 = .name name) ∧ ∀ entry ∈ entries, entry.2.Supported := by
  constructor
  · intro supported
    cases supported with
    | object distinct named each => exact ⟨distinct, named, each⟩
  · rintro ⟨distinct, named, each⟩
    exact .object distinct named each

end SampleTypes.Value

namespace SampleTypes.Location

theorem text_eq (root : Points) (location : Location) :
    location.text root = root ++ location.flatMap Step.text := by
  induction location generalizing root with
  | nil => exact (List.append_nil root).symm
  | cons step rest ih =>
    calc
      text root (step :: rest) = text (root ++ step.text) rest := rfl
      _ = root ++ step.text ++ rest.flatMap Step.text := ih (root ++ step.text)
      _ = root ++ (step :: rest).flatMap Step.text := by
        rw [List.flatMap_cons, List.append_assoc]

end SampleTypes.Location
