import SampleTypes.Proofs.Shape.MergeLaws

/-! No field has a union with null for its shape. Merging keeps that: of a field, a null becomes the
flag that it may be absent, and never a variant. -/

namespace SampleTypes.Shape

variable {widen : Bool}

/-- A null, or a shape that offers none. -/
def Clear (s : Shape) : Prop := s.isUnion = true → Shape.null ∉ s.variants

inductive ClearFields : Shape → Prop where
  | primitive (kind : Kind) : ClearFields (.primitive kind)
  | array {e : Shape} (placeholder : Bool) (element : ClearFields e) :
      ClearFields (.array e placeholder)
  | object {fields : Fields} (clear : ∀ entry ∈ fields, Clear entry.2.shape)
      (shapes : ∀ entry ∈ fields, ClearFields entry.2.shape) : ClearFields (.object fields)
  | union {variants : List Shape} (shapes : ∀ v ∈ variants, ClearFields v) :
      ClearFields (.union variants)

theorem clear_of_single {s : Shape} (single : s.isUnion = false) : Clear s := by
  intro union
  rw [single] at union
  cases union

theorem Clear.null_not_mem {s : Shape} (clear : Clear s) (shape : s.isNull = false) :
    Shape.null ∉ s.variants := by
  cases union : s.isUnion with
  | true => exact clear union
  | false =>
    rw [WellFormed.variants_of_single union, List.mem_singleton]
    rintro rfl
    cases shape

theorem ClearFields.variant {s v : Shape} (clear : ClearFields s) (here : v ∈ s.variants) :
    ClearFields v := by
  cases clear with
  | union shapes => exact shapes v here
  | primitive kind => exact List.mem_singleton.mp here ▸ .primitive kind
  | array placeholder element => exact List.mem_singleton.mp here ▸ .array placeholder element
  | object clear shapes => exact List.mem_singleton.mp here ▸ .object clear shapes

theorem clearFields_of_variants {s : Shape} (shapes : ∀ v ∈ s.variants, ClearFields v) :
    ClearFields s := by
  cases s with
  | union variants => exact .union shapes
  | _ => exact shapes _ (List.mem_singleton.mpr rfl)

theorem mem_variants_merge {a b v : Shape} (first : WellFormed widen a) (second : WellFormed widen b)
    (here : v ∈ (merge widen a b).variants) :
    v ∈ a.variants ∨ v ∈ b.variants ∨ ∃ x ∈ a.variants, ∃ y ∈ b.variants,
      x.family widen = y.family widen ∧ v = merge widen x y := by
  have held := member_merge first second (v.family widen)
  rw [(member_eq_some (wellFormed_merge first second)).mpr ⟨here, rfl⟩] at held
  cases inFirst : member widen (v.family widen) a with
  | none =>
    cases inSecond : member widen (v.family widen) b with
    | none => simp [inFirst, inSecond] at held
    | some y =>
      have equal : v = y := by simpa [inFirst, inSecond] using held
      exact Or.inr (Or.inl (equal ▸ ((member_eq_some second).mp inSecond).1))
  | some x =>
    obtain ⟨left, familyX⟩ := (member_eq_some first).mp inFirst
    cases inSecond : member widen (v.family widen) b with
    | none =>
      have equal : v = x := by simpa [inFirst, inSecond] using held
      exact Or.inl (equal ▸ left)
    | some y =>
      obtain ⟨right, familyY⟩ := (member_eq_some second).mp inSecond
      have equal : v = merge widen x y := by simpa [inFirst, inSecond] using held
      exact Or.inr (Or.inr ⟨x, left, y, right, familyX.trans familyY.symm, equal⟩)

theorem null_mem_merge {a b : Shape} (first : WellFormed widen a) (second : WellFormed widen b)
    (here : Shape.null ∈ (merge widen a b).variants) :
    Shape.null ∈ a.variants ∨ Shape.null ∈ b.variants := by
  rcases mem_variants_merge first second here with left | right | ⟨x, left, y, right, _, merged⟩
  · exact Or.inl left
  · exact Or.inr right
  · have null : x = .null := eq_null_of_merge (first.separate.shapes x left)
      (second.separate.shapes y right) merged.symm
    exact Or.inl (null ▸ left)

theorem clear_merge {s t : Shape} (first : WellFormed widen s) (second : WellFormed widen t)
    (clear : Clear s) (other : Clear t) (shape : s.isNull = false) (partner : t.isNull = false) :
    Clear (merge widen s t) := by
  intro _ here
  rcases null_mem_merge first second here with left | right
  · exact clear.null_not_mem shape left
  · exact other.null_not_mem partner right

theorem clear_mergeFields {f g : Field} (first : WellFormed widen f.shape)
    (second : WellFormed widen g.shape) (clear : Clear f.shape) (other : Clear g.shape) :
    Clear (mergeFields widen f g).shape := by
  rw [mergeFields_eq]
  change Clear (mergeUnlessNull widen f.shape g.shape)
  rw [mergeUnlessNull]
  split_ifs with null partner
  · exact other
  · exact clear
  · exact clear_merge first second clear other (Bool.eq_false_iff.mpr null)
      (Bool.eq_false_iff.mpr partner)

theorem clearFields_mergeObjects {first second : Fields} (left : WellFormed widen (.object first))
    (right : WellFormed widen (.object second)) (clear : ClearFields (.object first))
    (other : ClearFields (.object second))
    (joined : ∀ entry ∈ first, ∀ other ∈ second,
      ClearFields (merge widen entry.2.shape other.2.shape)) :
    ClearFields (.object (mergeObjects widen first second)) := by
  cases left with
  | object distinct shapes =>
    cases right with
    | object others parts =>
      cases clear with
      | object clear deep =>
        cases other with
        | object others_clear others_deep =>
          constructor
          · exact forall_mem_mergeObjects distinct others clear others_clear
              fun entry here other there => clear_merge (shapes entry here) (parts other there)
                (clear entry here) (others_clear other there)
          · exact forall_mem_mergeObjects distinct others deep others_deep
              fun entry here other there _ _ => joined entry here other there

theorem clearFields_merge_of_members {a b : Shape} (first : WellFormed widen a)
    (second : WellFormed widen b) (clear : ClearFields a) (other : ClearFields b)
    (joined : ∀ x ∈ a.variants, ∀ y ∈ b.variants, x.family widen = y.family widen →
      ClearFields (merge widen x y)) : ClearFields (merge widen a b) := by
  apply clearFields_of_variants
  intro v here
  rcases mem_variants_merge first second here with left | right | ⟨x, left, y, right, equal, rfl⟩
  · exact clear.variant left
  · exact other.variant right
  · exact joined x left y right equal

theorem clearFields_merge {a b : Shape} (first : WellFormed widen a) (second : WellFormed widen b)
    (clear : ClearFields a) (other : ClearFields b) : ClearFields (merge widen a b) := by
  induction first generalizing b with
  | primitive j =>
    apply clearFields_merge_of_members (.primitive j) second clear other
    intro x left y right equal
    obtain rfl := List.mem_singleton.mp left
    obtain ⟨k, rfl⟩ := primitive_of_family equal.symm
    rw [merge_primitives_of_family equal]
    exact .primitive _
  | @array e p element marked ih =>
    apply clearFields_merge_of_members (.array element marked) second clear other
    intro x left y right equal
    obtain rfl := List.mem_singleton.mp left
    obtain ⟨f, q, rfl⟩ := array_of_family equal.symm
    rcases second.separate.shapes _ right with _ | ⟨part, _⟩
    rcases clear with _ | ⟨_, deep⟩
    rcases other.variant right with _ | ⟨_, others_deep⟩
    rw [merge_arrays]
    split_ifs
    · exact .array p deep
    · exact .array false others_deep
    · exact .array false deep
    · exact .array false (ih part deep others_deep)
  | @object fields distinct shapes ih =>
    have whole : WellFormed widen (.object fields) := .object distinct shapes
    apply clearFields_merge_of_members whole second clear other
    intro x left y right equal
    obtain rfl := List.mem_singleton.mp left
    obtain ⟨others, rfl⟩ := object_of_family equal.symm
    have partner := second.separate.shapes _ right
    have others_clear := other.variant right
    rw [merge_objects]
    apply clearFields_mergeObjects whole partner clear others_clear
    intro entry here other there
    rcases clear with _ | _ | ⟨_, deep⟩
    rcases others_clear with _ | _ | ⟨_, others_deep⟩
    rcases partner with _ | _ | ⟨_, parts⟩
    exact ih entry here (parts other there) (deep entry here) (others_deep other there)
  | @union variants several single families ordered shapes ih =>
    apply clearFields_merge_of_members (.union several single families ordered shapes) second clear other
    intro x left y right _
    exact ih x left (second.separate.shapes y right) (clear.variant left) (other.variant right)

end SampleTypes.Shape
