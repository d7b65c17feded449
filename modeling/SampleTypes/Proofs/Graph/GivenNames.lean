import SampleTypes.Proofs.Graph.Walk
import SampleTypes.Proofs.Runs
import SampleTypes.Proofs.Shape.CanonicalUnions

/-! Which names a walk gives. A name comes of its context, and contexts come of names of fields and of the
context around an array, so what these steps keep holds of every name in a graph. -/

namespace SampleTypes

/-- Names of a kind, and contexts of which only such names come while these names are used. -/
structure NamingRule (Name : String → Prop) (Context : List String → String → Prop) : Prop where
  unique : ∀ {limit used context name}, Context used context →
    uniqueName limit used context = .ok name → Name name
  mono : ∀ {used later context}, Context used context → (∀ name ∈ used, name ∈ later) →
    Context later context
  element : ∀ {used later context}, Context used context → Context later (elementTypeName context)
  field : ∀ used name, Context used (typeNameOf name)

structure GivesNames (Name : String → Prop) (r later : Registry) : Prop where
  used : ∀ name ∈ r.used, name ∈ later.used
  keys : ∀ name ∈ Entries.keys later.table, name ∈ Entries.keys r.table ∨ Name name

namespace GivesNames

variable {Name : String → Prop} {r middle later : Registry} {name : String} {fields : Fields}

theorem refl : GivesNames Name r r := ⟨fun _ here => here, fun _ here => Or.inl here⟩

theorem trans (first : GivesNames Name r middle) (second : GivesNames Name middle later) :
    GivesNames Name r later := by
  refine ⟨fun name here => second.used name (first.used name here), ?_⟩
  intro name here
  rcases second.keys name here with before | new
  · exact first.keys name before
  · exact Or.inr new

theorem keys_put (own : Name name) (table : Table) :
    ∀ other ∈ Entries.keys (Entries.put name fields table), other ∈ Entries.keys table ∨ Name other := by
  intro other here
  rcases Entries.mem_keys_put.mp here with rfl | before
  · exact Or.inr own
  · exact Or.inl before

theorem reserve {digest : List UInt8} (own : Name name) :
    GivesNames Name r (r.reserve digest name fields) :=
  ⟨fun _ here => List.mem_cons_of_mem name here, keys_put own r.table⟩

theorem complete (own : Name name) : GivesNames Name r (r.complete name fields) :=
  ⟨fun _ here => here, keys_put own r.table⟩

end GivesNames

section Walks

variable {Name : String → Prop} {Context : List String → String → Prop} {limit : Nat}
  {r later : Registry}

theorem givesNames_of_walkInside (rule : NamingRule Name Context) {fields : Fields}
    {digest : List UInt8} {name : String} {t : Shape} (own : Name name)
    (inner : ∀ entry ∈ fields, ∀ {r later t context}, Context r.used context →
      walk limit entry.2.shape context none r = .ok (t, later) → GivesNames Name r later)
    (ran : walkInside limit digest fields name r = .ok (t, later)) : GivesNames Name r later := by
  obtain ⟨⟨walked, last⟩, fields_ran, ran⟩ := eq_ok_of_bind ran
  cases ran
  have inside : GivesNames Name (r.reserve digest name fields) last := by
    apply invariant_of_mapM (I := GivesNames Name (r.reserve digest name fields)) _ .refl fields_ran
    intro entry here s b next before first
    rw [walkField_run] at first
    obtain ⟨⟨t, after⟩, walk, first⟩ := eq_ok_of_bind first
    cases first
    exact before.trans
      (inner entry ((sortByName_perm fields).mem_iff.mp here) (rule.field _ entry.1) walk)
  exact ((GivesNames.reserve own).trans inside).trans (.complete own)

theorem givesNames_of_walk (rule : NamingRule Name Context) {s t : Shape} {context : String}
    (fit : Context r.used context) (ran : walk limit s context none r = .ok (t, later)) :
    GivesNames Name r later := by
  induction s generalizing context r later t with
  | primitive kind => cases ran; exact .refl
  | reference name => cases ran; exact .refl
  | array e placeholder ih =>
    rw [walk_array] at ran
    obtain ⟨⟨walked, last⟩, inner, ran⟩ := eq_ok_of_bind ran
    cases ran
    exact ih (rule.element fit) inner
  | union variants ih =>
    rw [walk_union] at ran
    obtain ⟨⟨walked, last⟩, inner, ran⟩ := eq_ok_of_bind ran
    cases ran
    apply invariant_of_mapM (I := GivesNames Name r) _ .refl inner
    intro v here s b next before first
    exact before.trans (ih v here (rule.mono fit before.used) first)
  | object fields ih =>
    rw [walk_object] at ran
    cases looked : r.names.lookup (Shape.digestOf fields) with
    | some name => rw [looked] at ran; cases ran; exact .refl
    | none =>
      rw [looked] at ran
      obtain ⟨name, picked, ran⟩ := eq_ok_of_bind ran
      exact givesNames_of_walkInside rule (rule.unique fit picked) ih ran

theorem walk_fixed {s : Shape} (no_object : s.isObject = false) {context : String}
    (fixed : Option String) (r : Registry) :
    walk limit s context fixed r = walk limit s context none r := by
  cases s with
  | object fields => cases no_object
  | _ => rfl

theorem rootName_of_ofShape {s : Shape} {rootName : String} {g : Graph}
    (ran : Graph.ofShape limit s rootName = .ok g) : g.rootName = rootName := by
  obtain ⟨out, _, ran⟩ := eq_ok_of_bind ran
  cases ran
  rfl

theorem name_of_ofShape (rule : NamingRule Name Context) {s : Shape} {rootName : String} {g : Graph}
    (own : s.isObject = true → Name rootName) (fit : s.isObject = false → Context [rootName] rootName)
    (ran : Graph.ofShape limit s rootName = .ok g) : ∀ name ∈ Entries.keys g.table, Name name := by
  obtain ⟨⟨t, last⟩, walked, ran⟩ := eq_ok_of_bind ran
  cases ran
  change walk limit s rootName (some rootName) (.initial s rootName) = .ok (t, last) at walked
  have start : (Registry.initial s rootName).table = [] := by cases s <;> rfl
  have gives : GivesNames Name (.initial s rootName) last := by
    cases object : s.isObject with
    | true =>
      cases s with
      | object fields =>
        rw [walk_object] at walked
        obtain ⟨name, picked, walked⟩ := eq_ok_of_bind walked
        cases picked
        exact givesNames_of_walkInside rule (own object) (fun _ _ _ _ _ _ => givesNames_of_walk rule)
          walked
      | _ => cases object
    | false =>
      rw [walk_fixed object] at walked
      have used : (Registry.initial s rootName).used = [rootName] := by
        cases s with
        | object fields => cases object
        | _ => rfl
      exact givesNames_of_walk rule (used ▸ fit object) walked
  intro name here
  rcases gives.keys name here with before | new
  · rw [start] at before
    cases before
  · exact new

end Walks

end SampleTypes
