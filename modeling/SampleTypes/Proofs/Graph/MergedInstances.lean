import SampleTypes.Proofs.Graph.Conforms
import SampleTypes.Proofs.Graph.Named
import SampleTypes.Proofs.Shape.MergeOrder

/-! Merging only widens. What conforms to a shape conforms to its merge with any other one, on either
side, unless an array was only seen empty: such an array gives up its nulls. -/

namespace SampleTypes

namespace Shape

/-- No array, at any depth, is a placeholder. -/
inductive Unmarked : Shape → Prop where
  | primitive (kind : Kind) : Unmarked (.primitive kind)
  | array {e : Shape} (element : Unmarked e) : Unmarked (.array e false)
  | object {fields : Fields} (shapes : ∀ entry ∈ fields, Unmarked entry.2.shape) :
      Unmarked (.object fields)
  | union {variants : List Shape} (shapes : ∀ v ∈ variants, Unmarked v) : Unmarked (.union variants)
  | reference (name : String) : Unmarked (.reference name)

theorem Unmarked.of_mem_variants {s v : Shape} (unmarked : Unmarked s) (here : v ∈ s.variants) :
    Unmarked v := by
  cases unmarked with
  | union shapes => exact shapes v here
  | primitive kind => exact List.mem_singleton.mp here ▸ .primitive kind
  | array element => exact List.mem_singleton.mp here ▸ .array element
  | object shapes => exact List.mem_singleton.mp here ▸ .object shapes
  | reference name => exact List.mem_singleton.mp here ▸ .reference name

theorem normal_eq_of_agrees {s t : Shape} (agree : Agrees s t) : s.normal = t.normal := by
  rw [← encoding_eq_iff, encoding, encoding, ← tidying_arranged.key s, agree, tidying_arranged.key]

end Shape

open Shape (WellFormed Unmarked merge mergeFields mergeUnlessNull mergeObjects widerKind)

namespace Conforms

variable {table : Table} {widen : Bool} {v : Value}

/-! Member by member. -/

theorem matchesKind_widerKind {j k : Kind}
    (equal : (Shape.primitive j).family widen = (Shape.primitive k).family widen)
    (matched : matchesKind v j = true) : matchesKind v (widerKind j k) = true := by
  unfold widerKind
  split
  · exact matched
  · rename_i differ
    have number : j = .integer ∨ j = .float := by
      revert equal differ
      cases widen <;> cases j <;> cases k <;> decide
    rcases number with rfl | rfl
    · cases v <;> first | rfl | cases matched
    · exact matched

theorem merge_of_members {a b : Shape} (first : WellFormed widen a) (second : WellFormed widen b)
    (joined : ∀ s ∈ a.variants, ∀ t ∈ b.variants, s.family widen = t.family widen →
      Conforms table v s → Conforms table v (merge widen s t))
    (conforms : Conforms table v a) : Conforms table v (merge widen a b) := by
  obtain ⟨s, here, chosen⟩ := iff_variants.mp conforms
  have merged := Shape.member_merge first second (s.family widen)
  rw [(Shape.member_eq_some first).mpr ⟨here, rfl⟩] at merged
  rw [iff_variants]
  cases other : Shape.member widen (s.family widen) b with
  | none =>
    rw [other] at merged
    exact ⟨s, ((Shape.member_eq_some (Shape.wellFormed_merge first second)).mp merged).1, chosen⟩
  | some t =>
    rw [other] at merged
    obtain ⟨there, equal⟩ := (Shape.member_eq_some second).mp other
    exact ⟨merge widen s t, ((Shape.member_eq_some (Shape.wellFormed_merge first second)).mp merged).1,
      joined s here t there equal.symm chosen⟩

/-! Field by field. -/

theorem merge_fields {f g : Field}
    (joined : Conforms table v f.shape → Conforms table v (merge widen f.shape g.shape))
    (fits : (v.isNull && f.optional) = false → Conforms table v f.shape)
    (needed : (v.isNull && (mergeFields widen f g).optional) = false) :
    Conforms table v (mergeFields widen f g).shape := by
  rw [Shape.mergeFields_eq, Bool.and_or_distrib_left, Bool.and_or_distrib_left, Bool.or_eq_false_iff,
    Bool.or_eq_false_iff] at needed
  obtain ⟨⟨before, _⟩, both⟩ := needed
  have conforms := fits before
  rw [Shape.mergeFields_eq, mergeUnlessNull]
  cases first : f.shape.isNull with
  | false =>
    cases second : g.shape.isNull with
    | false => exact joined conforms
    | true => exact conforms
  | true =>
    -- Only a null conforms to null, and it is needed only if the other shape is null as well.
    rw [Shape.isNull_iff.mp first, Shape.null, primitive_iff, matchesKind] at conforms
    have second : g.shape.isNull = true := by simpa [conforms, first] using both
    rw [if_pos rfl, Shape.isNull_iff.mp second, Shape.null, primitive_iff, matchesKind]
    exact conforms

theorem isIn_mergeObjects {first second : Fields} {key : Key} (known : key.isIn first = true) :
    key.isIn (mergeObjects widen first second) = true := by
  cases key with
  | other shown => cases known
  | name name =>
    rw [Key.isIn, Entries.lookup_isSome] at known
    rw [Key.isIn, Entries.lookup_isSome, Shape.keys_mergeObjects]
    exact List.mem_append_left _ known

theorem fits_mergeEntries {name : Str} {f g : Option Field} {field : Field}
    {entries : List (Key × Value)} (merged : Shape.mergeEntries widen f g = some field)
    (absent : f = none → entries.lookup (.name name) = none)
    (fits : ∀ x ∈ f, Fits table entries (name, x))
    (joined : ∀ x ∈ f, ∀ y ∈ g, ∀ v, Conforms table v x.shape →
      Conforms table v (merge widen x.shape y.shape)) : Fits table entries (name, field) := by
  cases f with
  | none =>
    have nothing := absent rfl
    cases g with
    | none => cases merged
    | some y =>
      cases merged
      refine ⟨nofun, fun v present _ => ?_⟩
      rw [nothing] at present
      cases present
  | some x =>
    obtain ⟨required, present⟩ := fits x rfl
    cases g with
    | none =>
      cases merged
      refine ⟨nofun, fun v there needed => present v there ?_⟩
      rw [Bool.and_true] at needed
      rw [needed, Bool.false_and]
    | some y =>
      cases merged
      constructor
      · intro needed
        rw [Shape.mergeFields_eq, Bool.or_eq_false_iff, Bool.or_eq_false_iff] at needed
        exact required needed.1.1
      · intro v there needed
        exact merge_fields (joined x rfl y rfl v) (present v there) needed

theorem merge_objects {first second : Fields} (distinct : (Entries.keys first).Nodup)
    (others : (Entries.keys second).Nodup)
    (joined : ∀ f ∈ first, ∀ g ∈ second, ∀ v, Conforms table v f.2.shape →
      Conforms table v (merge widen f.2.shape g.2.shape))
    {entries : List (Key × Value)} (conforms : Conforms table (.object entries) (.object first)) :
    Conforms table (.object entries) (.object (mergeObjects widen first second)) := by
  obtain ⟨known, fits⟩ := object_iff.mp conforms
  rw [object_iff]
  refine ⟨fun entry here => isIn_mergeObjects (known entry here), ?_⟩
  rintro ⟨name, field⟩ here
  have merged := Entries.lookup_of_mem (Shape.nodup_keys_mergeObjects distinct others) here
  rw [Shape.lookup_mergeObjects] at merged
  apply fits_mergeEntries merged
  · intro unknown
    rw [← Option.not_isSome_iff_eq_none, Option.isSome_iff_exists]
    rintro ⟨v, present⟩
    have there := known _ (Entries.mem_of_lookup present)
    rw [Key.isIn, unknown] at there
    cases there
  · exact fun f found => fits (name, f) (Entries.mem_of_lookup found)
  · intro f inFirst g inSecond
    exact joined (name, f) (Entries.mem_of_lookup inFirst) (name, g) (Entries.mem_of_lookup inSecond)

/-! Whole shapes. -/

theorem merge_right {a b : Shape} (first : WellFormed widen a) (second : WellFormed widen b)
    (unmarked : Unmarked a) (conforms : Conforms table v a) : Conforms table v (merge widen a b) := by
  induction first generalizing b v with
  | primitive j =>
    refine merge_of_members (.primitive j) second (fun s here t _ equal conforms => ?_) conforms
    obtain rfl := List.mem_singleton.mp here
    obtain ⟨k, rfl⟩ := Shape.primitive_of_family equal.symm
    rw [Shape.merge_primitives_of_family equal]
    exact .primitive (matchesKind_widerKind equal (primitive_iff.mp conforms))
  | @array e p element marked ih =>
    refine merge_of_members (.array element marked) second (fun s here t there equal conforms => ?_)
      conforms
    obtain rfl := List.mem_singleton.mp here
    obtain ⟨f, q, rfl⟩ := Shape.array_of_family equal.symm
    rcases second.separate.shapes _ there with _ | ⟨other, _⟩
    cases unmarked with
    | array inner =>
      cases conforms with
      | array _ each =>
        rw [Shape.merge_arrays, Bool.false_and, if_neg Bool.false_ne_true, if_neg Bool.false_ne_true]
        split
        · exact .array false each
        · exact .array false fun item here => ih other inner (each item here)
  | @object fields distinct shapes ih =>
    refine merge_of_members (.object distinct shapes) second (fun s here t there equal conforms => ?_)
      conforms
    obtain rfl := List.mem_singleton.mp here
    obtain ⟨others, rfl⟩ := Shape.object_of_family equal.symm
    rcases second.separate.shapes _ there with _ | _ | ⟨distinct', shapes'⟩
    cases unmarked with
    | object inner =>
      cases v with
      | object entries =>
        rw [Shape.merge_objects]
        refine merge_objects distinct distinct' (fun f hereF g hereG v conforms => ?_) conforms
        exact ih f hereF (shapes' g hereG) (inner f hereF) conforms
      | _ => cases conforms
  | @union variants several single families ordered shapes ih =>
    refine merge_of_members (.union several single families ordered shapes) second
      (fun s here t there _ conforms => ?_) conforms
    exact ih s here (second.separate.shapes t there) (unmarked.of_mem_variants here) conforms

theorem agrees_iff {s t : Shape} (agree : s.Agrees t) : Conforms table v s ↔ Conforms table v t := by
  rw [← normal_iff, Shape.normal_eq_of_agrees agree, normal_iff]

end Conforms

theorem validate_eq_ok {s : Shape} {widen : Bool} (wellFormed : WellFormed widen s) {rootName : String}
    {v : Value} : Graph.validate ⟨rootName, s, []⟩ v = .ok () ↔ Conforms [] v s := by
  have closed : Table.Closed [] := nofun
  have resolved : Shape.Resolved [] s := by
    intro name here
    rw [wellFormed.ranked.references_eq_nil] at here
    cases here
  exact (decides_validate closed v resolved).eq_ok

/-- Merging another shape into one without placeholders refuses no value that was accepted, and neither
does merging the one into the other. -/
theorem validate_merge {widen : Bool} {s t : Shape} (first : WellFormed widen s)
    (second : WellFormed widen t) (unmarked : Unmarked s) {rootName : String} {v : Value}
    (accepted : Graph.validate ⟨rootName, s, []⟩ v = .ok ()) :
    Graph.validate ⟨rootName, merge widen s t, []⟩ v = .ok () ∧
      Graph.validate ⟨rootName, merge widen t s, []⟩ v = .ok () := by
  rw [validate_eq_ok first] at accepted
  rw [validate_eq_ok (Shape.wellFormed_merge first second),
    validate_eq_ok (Shape.wellFormed_merge second first)]
  have merged : Conforms [] v (merge widen s t) := accepted.merge_right first second unmarked
  exact ⟨merged, (Conforms.agrees_iff (Shape.agrees_merge_comm first second)).mp merged⟩

/-- A null field that is a number elsewhere, an integer that becomes a float and a missing field, in an
array that was only seen empty elsewhere. -/
theorem validate_merge_of_nulls :
    let record : Shape := .object [("k", ⟨.null, false⟩), ("n", ⟨.primitive .integer, false⟩)]
    let s : Shape := .union [.primitive .string, .array record false]
    let t : Shape := .union [.array .null true, .object [("k", ⟨.primitive .float, false⟩)]]
    let other : Shape := .object [("n", ⟨.primitive .float, false⟩), ("k", ⟨.primitive .float, false⟩)]
    let u : Shape := .array other false
    let v : Value := .list [.object [(.name "k", .null), (.name "n", .int 7)]]
    Graph.validate ⟨"Root", s, []⟩ v = .ok () ∧
      Graph.validate ⟨"Root", merge true s t, []⟩ v = .ok () ∧
        Graph.validate ⟨"Root", merge true u s, []⟩ v = .ok () := by
  intro record s t other u v
  have inner : WellFormed true record :=
    .object (by decide) (by simp [Shape.null, WellFormed.primitive])
  have first : WellFormed true s := by
    refine .union (by decide) (by decide) (by decide) (by decide) ?_
    simpa [WellFormed.primitive] using WellFormed.array inner (by simp)
  have empty : WellFormed true (.array .null true) := .array (.primitive .null) fun _ => rfl
  have second : WellFormed true t := by
    refine .union (by decide) (by decide) (by decide) (by decide) ?_
    simpa [empty] using WellFormed.object (by decide) (by simp [WellFormed.primitive])
  have third : WellFormed true u :=
    .array (.object (by decide) (by simp [WellFormed.primitive])) (by simp)
  have unmarked : Unmarked s :=
    .union (by simpa [Unmarked.primitive] using
      Unmarked.array (.object (by simp [Shape.null, Unmarked.primitive])))
  have accepted : Graph.validate ⟨"Root", s, []⟩ v = .ok () := rfl
  exact ⟨accepted, (validate_merge first second unmarked accepted).1,
    (validate_merge first third unmarked accepted).2⟩

/-- A placeholder accepts nulls, which an array of numbers merged into it refuses. -/
example : Graph.validate ⟨"Root", .array .null true, []⟩ (.list [.null]) = .ok () ∧
    Graph.validate ⟨"Root", merge true (.array .null true) (.array (.primitive .integer) false), []⟩
      (.list [.null]) = .error (.mismatch (.wrongType "integer" "NoneType") [.index 0]) :=
  ⟨rfl, rfl⟩

end SampleTypes
