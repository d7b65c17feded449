import SampleTypes.Proofs.Shape.MergeFields

/-! The laws of merging. On well-formed shapes it is associative and idempotent outright, and
commutative up to the order of fields; up to that order it depends on nothing but its arguments. -/

namespace SampleTypes.Shape

variable {widen : Bool}

/-! A null is never the result of a merge with another shape. -/

theorem eq_null_of_family {s : Shape} (equal : s.family widen = .primitive .null) : s = .null := by
  cases s with
  | primitive kind => revert equal; cases widen <;> cases kind <;> simp [family, Shape.null]
  | _ => cases equal

theorem member_null (φ : Family) :
    member widen φ .null = if φ = .primitive .null then some .null else none := by
  have family : Shape.null.family widen = .primitive .null := by cases widen <;> rfl
  rw [member, show Shape.null.variants = [.null] from rfl, ofFamily]
  by_cases equal : φ = .primitive .null
  · simp [family, equal]
  · simp [family, equal, Ne.symm equal]

theorem eq_null_of_merge {a b : Shape} (first : WellFormed widen a) (second : WellFormed widen b)
    (merged : merge widen a b = .null) : a = .null := by
  have all_null : ∀ v ∈ a.variants, v = .null := by
    intro v here
    have held := member_merge first second (v.family widen)
    rw [(member_eq_some first).mpr ⟨here, rfl⟩, merged, member_null] at held
    by_contra differ
    rw [if_neg fun equal => differ (eq_null_of_family equal)] at held
    cases other : member widen (v.family widen) b <;> simp [other] at held
  apply eq_of_member first (.primitive .null)
  intro φ
  obtain ⟨v, rest, variants⟩ := List.exists_cons_of_ne_nil first.variants_ne_nil
  have present : Shape.null ∈ a.variants := by
    have here : v ∈ a.variants := by simp [variants]
    exact all_null v here ▸ here
  apply Option.ext
  intro v
  rw [member_eq_some first, show Shape.primitive .null = .null from rfl,
    member_eq_some (s := .null) (.primitive .null), show Shape.null.variants = [.null] from rfl,
    List.mem_singleton]
  constructor
  · rintro ⟨here, equal⟩
    exact ⟨all_null v here, equal⟩
  · rintro ⟨rfl, equal⟩
    exact ⟨present, equal⟩

theorem isNull_mergeUnlessNull {s t : Shape} (first : WellFormed widen s)
    (second : WellFormed widen t) :
    (mergeUnlessNull widen s t).isNull = (s.isNull && t.isNull) := by
  unfold mergeUnlessNull
  cases left : s.isNull with
  | true => simp
  | false =>
    cases right : t.isNull with
    | true => simp [left]
    | false =>
      simp only [Bool.false_eq_true, if_false, Bool.and_self]
      rw [Bool.eq_false_iff]
      intro merged
      have := eq_null_of_merge first second (isNull_iff.mp merged)
      rw [isNull_iff.mpr this] at left
      cases left

/-! Associativity. -/

theorem merge_assoc_of_members {a b c : Shape} (first : WellFormed widen a)
    (second : WellFormed widen b) (third : WellFormed widen c)
    (joined : ∀ v ∈ a.variants, ∀ w ∈ b.variants, ∀ x ∈ c.variants,
      v.family widen = w.family widen → w.family widen = x.family widen →
      merge widen (merge widen v w) x = merge widen v (merge widen w x)) :
    merge widen (merge widen a b) c = merge widen a (merge widen b c) := by
  have left := wellFormed_merge first second
  have right := wellFormed_merge second third
  apply eq_of_member (wellFormed_merge left third) (wellFormed_merge first right)
  intro φ
  rw [member_merge left third, member_merge first second, member_merge first right,
    member_merge second third]
  cases inFirst : member widen φ a with
  | none => cases member widen φ b <;> cases member widen φ c <;> rfl
  | some v =>
    cases inSecond : member widen φ b with
    | none => cases member widen φ c <;> rfl
    | some w =>
      cases inThird : member widen φ c with
      | none => rfl
      | some x =>
        obtain ⟨hereV, familyV⟩ := (member_eq_some first).mp inFirst
        obtain ⟨hereW, familyW⟩ := (member_eq_some second).mp inSecond
        obtain ⟨hereX, familyX⟩ := (member_eq_some third).mp inThird
        exact congrArg some (joined v hereV w hereW x hereX (familyV.trans familyW.symm)
          (familyW.trans familyX.symm))

theorem widerKind_assoc (j k l : Kind) :
    widerKind (widerKind j k) l = widerKind j (widerKind k l) := by
  cases j <;> cases k <;> cases l <;> rfl

theorem merge_arrays_assoc {e f g : Shape} {p q r : Bool}
    (joined : merge widen (merge widen e f) g = merge widen e (merge widen f g)) :
    merge widen (merge widen (.array e p) (.array f q)) (.array g r) =
      merge widen (.array e p) (merge widen (.array f q) (.array g r)) := by
  cases p <;> cases q <;> cases r <;> simp [merge_arrays, joined]

theorem mergeUnlessNull_assoc {s t u : Shape} (first : WellFormed widen s)
    (second : WellFormed widen t) (third : WellFormed widen u)
    (joined : merge widen (merge widen s t) u = merge widen s (merge widen t u)) :
    mergeUnlessNull widen (mergeUnlessNull widen s t) u =
      mergeUnlessNull widen s (mergeUnlessNull widen t u) := by
  have left := isNull_mergeUnlessNull first second
  have right := isNull_mergeUnlessNull second third
  unfold mergeUnlessNull at left right ⊢
  rw [left, right]
  cases s.isNull <;> cases t.isNull <;> cases u.isNull <;> simp [joined]

theorem mergeFields_assoc {f g h : Field} (first : WellFormed widen f.shape)
    (second : WellFormed widen g.shape) (third : WellFormed widen h.shape)
    (joined : merge widen (merge widen f.shape g.shape) h.shape =
      merge widen f.shape (merge widen g.shape h.shape)) :
    mergeFields widen (mergeFields widen f g) h = mergeFields widen f (mergeFields widen g h) := by
  simp only [mergeFields_eq, isNull_mergeUnlessNull first second,
    isNull_mergeUnlessNull second third, mergeUnlessNull_assoc first second third joined]
  congr 1
  cases f.shape.isNull <;> cases g.shape.isNull <;> cases h.shape.isNull <;>
    cases f.optional <;> cases g.optional <;> cases h.optional <;> rfl

theorem mergeEntries_assoc {f g h : Option Field} (first : ∀ x ∈ f, WellFormed widen x.shape)
    (second : ∀ y ∈ g, WellFormed widen y.shape) (third : ∀ z ∈ h, WellFormed widen z.shape)
    (joined : ∀ x ∈ f, ∀ y ∈ g, ∀ z ∈ h, merge widen (merge widen x.shape y.shape) z.shape =
      merge widen x.shape (merge widen y.shape z.shape)) :
    mergeEntries widen (mergeEntries widen f g) h =
      mergeEntries widen f (mergeEntries widen g h) := by
  cases f with
  | none => cases g <;> cases h <;> simp [mergeEntries, mergeFields_eq]
  | some x =>
    cases g with
    | none => cases h <;> simp [mergeEntries, mergeFields_eq]
    | some y =>
      cases h with
      | none => simp [mergeEntries, mergeFields_eq]
      | some z =>
        exact congrArg some (mergeFields_assoc (first x rfl) (second y rfl) (third z rfl)
          (joined x rfl y rfl z rfl))

theorem mergeObjects_assoc {first second third : Fields}
    (one : WellFormed widen (.object first)) (two : WellFormed widen (.object second))
    (three : WellFormed widen (.object third))
    (joined : ∀ x ∈ first, ∀ y ∈ second, ∀ z ∈ third,
      merge widen (merge widen x.2.shape y.2.shape) z.2.shape =
        merge widen x.2.shape (merge widen y.2.shape z.2.shape)) :
    mergeObjects widen (mergeObjects widen first second) third =
      mergeObjects widen first (mergeObjects widen second third) := by
  rcases one with _ | _ | ⟨distinct, shapes⟩
  rcases two with _ | _ | ⟨distinct', shapes'⟩
  rcases three with _ | _ | ⟨distinct'', shapes''⟩
  apply Entries.eq_of_keys_of_lookup
    (nodup_keys_mergeObjects (nodup_keys_mergeObjects distinct distinct') distinct'')
  · simp only [keys_mergeObjects, lookup_mergeObjects, List.filter_append, List.filter_filter,
      List.append_assoc]
    congr 2
    apply List.filter_congr
    intro name _
    cases first.lookup name <;> cases second.lookup name <;> rfl
  · intro name
    simp only [lookup_mergeObjects]
    apply mergeEntries_assoc
    · exact fun x found => shapes (name, x) (Entries.mem_of_lookup found)
    · exact fun y found => shapes' (name, y) (Entries.mem_of_lookup found)
    · exact fun z found => shapes'' (name, z) (Entries.mem_of_lookup found)
    · intro x inFirst y inSecond z inThird
      exact joined (name, x) (Entries.mem_of_lookup inFirst) (name, y)
        (Entries.mem_of_lookup inSecond) (name, z) (Entries.mem_of_lookup inThird)

theorem merge_assoc {a b c : Shape} (first : WellFormed widen a) (second : WellFormed widen b)
    (third : WellFormed widen c) :
    merge widen (merge widen a b) c = merge widen a (merge widen b c) := by
  induction first generalizing b c with
  | primitive j =>
    apply merge_assoc_of_members (.primitive j) second third
    intro v here w _ x _ left right
    obtain rfl := List.mem_singleton.mp here
    obtain ⟨k, rfl⟩ := primitive_of_family left.symm
    obtain ⟨l, rfl⟩ := primitive_of_family right.symm
    rw [merge_primitives_of_family left, merge_primitives_of_family right,
      merge_primitives_of_family ((family_widerKind left).trans right),
      merge_primitives_of_family (left.trans ((family_widerKind right).trans right.symm).symm),
      widerKind_assoc]
  | @array e p element marked ih =>
    apply merge_assoc_of_members (.array element marked) second third
    intro v here w hereW x hereX left right
    obtain rfl := List.mem_singleton.mp here
    obtain ⟨f, q, rfl⟩ := array_of_family left.symm
    obtain ⟨g, r, rfl⟩ := array_of_family right.symm
    rcases second.separate.shapes _ hereW with _ | ⟨middle, _⟩
    rcases third.separate.shapes _ hereX with _ | ⟨last, _⟩
    exact merge_arrays_assoc (ih middle last)
  | @object fields distinct shapes ih =>
    apply merge_assoc_of_members (.object distinct shapes) second third
    intro v here w hereW x hereX left right
    obtain rfl := List.mem_singleton.mp here
    obtain ⟨others, rfl⟩ := object_of_family left.symm
    obtain ⟨rest, rfl⟩ := object_of_family right.symm
    have two := second.separate.shapes _ hereW
    have three := third.separate.shapes _ hereX
    rw [merge_objects, merge_objects, merge_objects, merge_objects,
      mergeObjects_assoc (.object distinct shapes) two three]
    intro x hereX y hereY z hereZ
    rcases two with _ | _ | ⟨_, middle⟩
    rcases three with _ | _ | ⟨_, last⟩
    exact ih x hereX (middle y hereY) (last z hereZ)
  | @union variants several single families ordered shapes ih =>
    apply merge_assoc_of_members (.union several single families ordered shapes) second third
    intro v here w hereW x hereX _ _
    exact ih v here (second.separate.shapes w hereW) (third.separate.shapes x hereX)

/-! Idempotence. -/

theorem mergeFields_self {f : Field} (joined : merge widen f.shape f.shape = f.shape) :
    mergeFields widen f f = f := by
  rw [mergeFields_eq, mergeUnlessNull, joined]
  simp

theorem mergeObjects_self {fields : Fields} (distinct : (Entries.keys fields).Nodup)
    (joined : ∀ entry ∈ fields, merge widen entry.2.shape entry.2.shape = entry.2.shape) :
    mergeObjects widen fields fields = fields := by
  apply Entries.eq_of_keys_of_lookup (nodup_keys_mergeObjects distinct distinct)
  · have none_left : ((Entries.keys fields).filter fun name => (fields.lookup name).isNone) = [] := by
      rw [List.filter_eq_nil_iff]
      intro name present absent
      rw [Option.isNone_iff_eq_none] at absent
      exact Entries.lookup_eq_none.mp absent present
    rw [keys_mergeObjects, none_left, List.append_nil]
  · intro name
    rw [lookup_mergeObjects]
    cases found : fields.lookup name with
    | none => rfl
    | some f =>
      exact congrArg some (mergeFields_self (joined (name, f) (Entries.mem_of_lookup found)))

theorem merge_self_of_members {a : Shape} (wellFormed : WellFormed widen a)
    (joined : ∀ v ∈ a.variants, merge widen v v = v) : merge widen a a = a := by
  apply eq_of_member (wellFormed_merge wellFormed wellFormed) wellFormed
  intro φ
  rw [member_merge wellFormed wellFormed]
  cases found : member widen φ a with
  | none => rfl
  | some v => exact congrArg some (joined v ((member_eq_some wellFormed).mp found).1)

theorem merge_self {a : Shape} (wellFormed : WellFormed widen a) : merge widen a a = a := by
  induction wellFormed with
  | primitive kind => rw [merge_primitives, mergeKinds, if_pos rfl]
  | @array e p element marked ih => cases p <;> simp [merge_arrays, ih]
  | object distinct shapes ih => rw [merge_objects, mergeObjects_self distinct ih]
  | union several single families ordered shapes ih =>
    exact merge_self_of_members (.union several single families ordered shapes) ih

end SampleTypes.Shape
