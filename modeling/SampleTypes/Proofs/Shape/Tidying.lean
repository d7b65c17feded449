import SampleTypes.Proofs.Shape.WellFormed

/-! Well-formed shapes under a map that tidies them: it keeps them well-formed, and two of them are
tidied alike when their members are. -/

namespace SampleTypes.Shape.Tidying

variable {widen : Bool} {f : Shape → Shape} {mark : Bool → Bool}

theorem family (tidying : Tidying f mark) (s : Shape) : (f s).family widen = s.family widen := by
  cases s <;> simp [tidying.primitive, tidying.array, tidying.object, tidying.union,
    tidying.reference, Shape.family]

theorem member (tidying : Tidying f mark) (φ : Family) (s : Shape) :
    Shape.member widen φ (f s) = (Shape.member widen φ s).map f := by
  rw [Shape.member, ofFamily, tidying.variants, List.find?_map, Shape.member, ofFamily]
  congr 2
  funext v
  exact congrArg (fun ψ => decide (ψ = φ)) (tidying.family v)

theorem wellFormed (tidying : Tidying f mark) {s : Shape} (wellFormed : WellFormed widen s) :
    WellFormed widen (f s) := by
  induction wellFormed with
  | primitive kind =>
    rw [tidying.primitive]
    exact .primitive kind
  | @array e p element marked ih =>
    rw [tidying.array]
    refine .array ih fun kept => ?_
    cases p with
    | true =>
      rw [marked rfl]
      exact tidying.primitive .null
    | false =>
      rw [tidying.unmarked] at kept
      cases kept
  | @object fields distinct shapes ih =>
    rw [tidying.object]
    refine .object (nodup_keys_sortByName ?_) ?_
    · rw [keys_mapFields]
      exact distinct
    · intro entry here
      obtain ⟨original, present, rfl⟩ :=
        List.mem_map.mp ((sortByName_perm (mapFields f fields)).mem_iff.mp here)
      exact ih original present
  | @union variants several single families ordered shapes ih =>
    rw [tidying.union]
    refine .union (by simpa using several) ?_ ?_ ?_ ?_
    · intro v here
      obtain ⟨w, present, rfl⟩ := List.mem_map.mp here
      rw [tidying.isUnion, single w present]
    · rw [List.map_map]
      have same : Shape.family widen ∘ f = Shape.family widen := funext tidying.family
      rw [same]
      exact families
    · rw [List.pairwise_map]
      apply (Separate.pairwise_rank_lt ⟨shapes, single, families⟩ ordered).imp
      intro v w below
      exact precedes_of_rank_lt (by rwa [tidying.rank, tidying.rank])
    · intro v here
      obtain ⟨w, present, rfl⟩ := List.mem_map.mp here
      exact ih w present

theorem eq_iff_member (tidying : Tidying f mark) {s t : Shape} (first : WellFormed widen s)
    (second : WellFormed widen t) :
    f s = f t ↔ ∀ φ, (Shape.member widen φ s).map f = (Shape.member widen φ t).map f := by
  constructor
  · intro equal φ
    rw [← tidying.member, equal, tidying.member]
  · intro same
    apply eq_of_member (tidying.wellFormed first) (tidying.wellFormed second)
    intro φ
    rw [tidying.member, tidying.member, same φ]

theorem object_eq_iff (tidying : Tidying f mark) {first second : Fields}
    (distinct : (Entries.keys first).Nodup) (others : (Entries.keys second).Nodup) :
    f (.object first) = f (.object second) ↔
      ∀ name, (first.lookup name).map (FieldSpec.map f) =
        (second.lookup name).map (FieldSpec.map f) := by
  have left : (Entries.keys (mapFields f first)).Nodup := by rwa [keys_mapFields]
  have right : (Entries.keys (mapFields f second)).Nodup := by rwa [keys_mapFields]
  rw [tidying.object, tidying.object, Shape.object.injEq]
  constructor
  · intro equal name
    rw [← lookup_mapFields, ← lookup_mapFields, ← lookup_sortByName left,
      ← lookup_sortByName right, equal]
  · intro same
    apply sortByName_eq_of_lookup left right
    intro name
    rw [lookup_mapFields, lookup_mapFields, same name]

end SampleTypes.Shape.Tidying
