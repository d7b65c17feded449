import SampleTypes.Proofs.Shape.Merge

/-! Merging the fields of two objects. A null gives way to the other shape, and a field is optional when
it was, when only one object has it, or when it is null in just one of them. -/

namespace SampleTypes.Shape

variable {widen : Bool}

def mergeUnlessNull (widen : Bool) (s t : Shape) : Shape :=
  if s.isNull then t else if t.isNull then s else merge widen s t

def mergeEntries (widen : Bool) : Option Field → Option Field → Option Field
  | none, none => none
  | some f, none => some ⟨f.shape, true⟩
  | none, some g => some ⟨g.shape, true⟩
  | some f, some g => some (mergeFields widen f g)

theorem mergeFields_eq (f g : Field) :
    mergeFields widen f g =
      ⟨mergeUnlessNull widen f.shape g.shape,
        f.optional || g.optional || (f.shape.isNull != g.shape.isNull)⟩ := by
  unfold mergeFields joinField mergeUnlessNull
  cases left : f.shape.isNull <;> cases right : g.shape.isNull <;> simp
  rw [isNull_iff.mp right]

theorem fieldJoins_eq_map (fields : Fields) :
    fieldJoins widen fields =
      fields.map fun entry => (entry.1, fun f => mergeFields widen f entry.2) := by
  induction fields with
  | nil => rfl
  | cons entry rest ih => rw [fieldJoins, ih]; rfl

theorem mergeObjects_eq (first second : Fields) :
    mergeObjects widen first second =
      first.map (fun entry => (entry.1, ((second.lookup entry.1).map (mergeFields widen entry.2)).getD
        ⟨entry.2.shape, true⟩)) ++
      (second.filter fun entry => (first.lookup entry.1).isNone).map
        fun entry => (entry.1, ⟨entry.2.shape, true⟩) := by
  simp only [mergeObjects, joinFields]
  congr 1
  apply List.map_congr_left
  rintro ⟨name, field⟩ here
  simp only
  rw [fieldJoins_eq_map, Entries.lookup_map (fun _ (g : Field) f => mergeFields widen f g)]
  cases second.lookup name <;> rfl

theorem keys_mergeObjects (first second : Fields) :
    Entries.keys (mergeObjects widen first second) =
      Entries.keys first ++ (Entries.keys second).filter fun name => (first.lookup name).isNone := by
  rw [mergeObjects_eq, Entries.keys_append,
    Entries.keys_map fun name (f : Field) =>
      ((second.lookup name).map (mergeFields widen f)).getD ⟨f.shape, true⟩,
    Entries.keys_map fun _ (f : Field) => (⟨f.shape, true⟩ : Field),
    Entries.keys_filter fun name => (first.lookup name).isNone]

theorem lookup_mergeObjects (first second : Fields) (name : Str) :
    (mergeObjects widen first second).lookup name =
      mergeEntries widen (first.lookup name) (second.lookup name) := by
  rw [mergeObjects_eq, List.lookup_append,
    Entries.lookup_map fun name (f : Field) =>
      ((second.lookup name).map (mergeFields widen f)).getD ⟨f.shape, true⟩,
    Entries.lookup_map fun _ (f : Field) => (⟨f.shape, true⟩ : Field),
    Entries.lookup_filter fun name => (first.lookup name).isNone]
  cases first.lookup name <;> cases second.lookup name <;> rfl

theorem nodup_keys_mergeObjects {first second : Fields} (distinct : (Entries.keys first).Nodup)
    (others : (Entries.keys second).Nodup) :
    (Entries.keys (mergeObjects widen first second)).Nodup := by
  rw [keys_mergeObjects, List.nodup_append]
  refine ⟨distinct, others.filter _, ?_⟩
  rintro name old _ new rfl
  have absent := (List.mem_filter.mp new).2
  rw [Option.isNone_iff_eq_none] at absent
  exact Entries.lookup_eq_none.mp absent old

theorem forall_mem_mergeObjects {first second : Fields} {P : Shape → Prop}
    (distinct : (Entries.keys first).Nodup) (others : (Entries.keys second).Nodup)
    (left : ∀ entry ∈ first, P entry.2.shape) (right : ∀ entry ∈ second, P entry.2.shape)
    (both : ∀ entry ∈ first, ∀ other ∈ second, entry.2.shape.isNull = false →
      other.2.shape.isNull = false → P (merge widen entry.2.shape other.2.shape)) :
    ∀ entry ∈ mergeObjects widen first second, P entry.2.shape := by
  rintro ⟨name, field⟩ here
  have found := Entries.lookup_of_mem (nodup_keys_mergeObjects distinct others) here
  rw [lookup_mergeObjects] at found
  cases inFirst : first.lookup name with
  | none =>
    cases inSecond : second.lookup name with
    | none => rw [inFirst, inSecond] at found; cases found
    | some g =>
      rw [inFirst, inSecond] at found
      cases found
      exact right (name, g) (Entries.mem_of_lookup inSecond)
  | some f =>
    have present := Entries.mem_of_lookup inFirst
    cases inSecond : second.lookup name with
    | none =>
      rw [inFirst, inSecond] at found
      cases found
      exact left (name, f) present
    | some g =>
      rw [inFirst, inSecond, mergeEntries, mergeFields_eq] at found
      cases found
      simp only [mergeUnlessNull]
      split_ifs with null other
      · exact right (name, g) (Entries.mem_of_lookup inSecond)
      · exact left (name, f) present
      · exact both (name, f) present (name, g) (Entries.mem_of_lookup inSecond)
          (Bool.eq_false_iff.mpr null) (Bool.eq_false_iff.mpr other)

theorem wellFormed_merge {a b : Shape} (first : WellFormed widen a) (second : WellFormed widen b) :
    WellFormed widen (merge widen a b) := by
  induction first generalizing b with
  | primitive j =>
    apply (wellFormed_merge_of_members (.primitive j) second _).1
    intro v here s there equal
    obtain rfl := List.mem_singleton.mp here
    obtain ⟨k, rfl⟩ := primitive_of_family equal.symm
    rw [merge_primitives_of_family equal]
    exact .primitive _
  | @array e p element marked ih =>
    apply (wellFormed_merge_of_members (.array element marked) second _).1
    intro v here s there equal
    obtain rfl := List.mem_singleton.mp here
    obtain ⟨f, q, rfl⟩ := array_of_family equal.symm
    rcases second.separate.shapes _ there with _ | ⟨other, _⟩
    rw [merge_arrays]
    split_ifs
    · exact .array element marked
    · exact .array other (by simp)
    · exact .array element (by simp)
    · exact .array (ih other) (by simp)
  | @object fields distinct shapes ih =>
    apply (wellFormed_merge_of_members (.object distinct shapes) second _).1
    intro v here s there equal
    obtain rfl := List.mem_singleton.mp here
    obtain ⟨others, rfl⟩ := object_of_family equal.symm
    rcases second.separate.shapes _ there with _ | _ | ⟨otherwise, present⟩
    rw [merge_objects]
    apply WellFormed.object (nodup_keys_mergeObjects distinct otherwise)
    exact forall_mem_mergeObjects distinct otherwise shapes present
      fun entry here other there _ _ => ih entry here (present other there)
  | @union variants several single families ordered shapes ih =>
    apply (wellFormed_merge_of_members (.union several single families ordered shapes) second _).1
    intro v here s there _
    exact ih v here (second.separate.shapes s there)

theorem member_merge {a b : Shape} (first : WellFormed widen a) (second : WellFormed widen b)
    (φ : Family) :
    member widen φ (merge widen a b) =
      Option.merge (merge widen) (member widen φ a) (member widen φ b) :=
  (wellFormed_merge_of_members first second fun v here s there _ =>
    wellFormed_merge (first.separate.shapes v here) (second.separate.shapes s there)).2 φ

end SampleTypes.Shape
