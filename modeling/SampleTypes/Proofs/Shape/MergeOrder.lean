import SampleTypes.Proofs.Shape.MergeLaws
import SampleTypes.Proofs.Shape.Tidying

/-! Merging up to the order of fields: the order of the two shapes does not matter, nor does the order
of the fields in either. -/

namespace SampleTypes.Shape

variable {widen : Bool}

/-! Agreement, member by member and name by name. -/

theorem agrees_of_member {s t : Shape} (first : WellFormed widen s) (second : WellFormed widen t)
    (same : ∀ φ, (member widen φ s).map arranged = (member widen φ t).map arranged) :
    Agrees s t :=
  (tidying_arranged.eq_iff_member first second).mpr same

theorem member_of_agrees (widen : Bool) {s t : Shape} (agree : Agrees s t) (φ : Family) :
    (member widen φ s).map arranged = (member widen φ t).map arranged := by
  calc (member widen φ s).map arranged
      = member widen φ s.arranged := (tidying_arranged.member φ s).symm
    _ = member widen φ t.arranged := by rw [agree]
    _ = (member widen φ t).map arranged := tidying_arranged.member φ t

theorem agrees_object {first second : Fields} (distinct : (Entries.keys first).Nodup)
    (others : (Entries.keys second).Nodup) :
    Agrees (.object first) (.object second) ↔
      ∀ name, (first.lookup name).map (FieldSpec.map arranged) =
        (second.lookup name).map (FieldSpec.map arranged) :=
  tidying_arranged.object_eq_iff distinct others

theorem agrees_array {e f : Shape} {p q : Bool} :
    Agrees (.array e p) (.array f q) ↔ Agrees e f ∧ p = q := by
  simp [Agrees, arranged]

theorem agrees_merge_of_members {a b c d : Shape} (first : WellFormed widen a)
    (second : WellFormed widen b) (third : WellFormed widen c) (fourth : WellFormed widen d)
    (same : ∀ φ, (Option.merge (merge widen) (member widen φ a) (member widen φ b)).map arranged =
      (Option.merge (merge widen) (member widen φ c) (member widen φ d)).map arranged) :
    Agrees (merge widen a b) (merge widen c d) := by
  apply agrees_of_member (wellFormed_merge first second) (wellFormed_merge third fourth)
  intro φ
  rw [member_merge first second, member_merge third fourth, same φ]

/-! Commutativity. -/

theorem agrees_merge_comm_of_members {a b : Shape} (first : WellFormed widen a)
    (second : WellFormed widen b)
    (joined : ∀ v ∈ a.variants, ∀ w ∈ b.variants, v.family widen = w.family widen →
      Agrees (merge widen v w) (merge widen w v)) :
    Agrees (merge widen a b) (merge widen b a) := by
  apply agrees_merge_of_members first second second first
  intro φ
  cases inFirst : member widen φ a with
  | none => cases member widen φ b <;> rfl
  | some v =>
    cases inSecond : member widen φ b with
    | none => rfl
    | some w =>
      obtain ⟨here, family⟩ := (member_eq_some first).mp inFirst
      obtain ⟨there, family'⟩ := (member_eq_some second).mp inSecond
      exact congrArg some (joined v here w there (family.trans family'.symm))

theorem agrees_mergeFields_comm {f g : Field}
    (joined : Agrees (merge widen f.shape g.shape) (merge widen g.shape f.shape)) :
    (mergeFields widen f g).map arranged = (mergeFields widen g f).map arranged := by
  rw [mergeFields_eq, mergeFields_eq, FieldSpec.map, FieldSpec.map, FieldSpec.mk.injEq]
  constructor
  · simp only [mergeUnlessNull]
    cases left : f.shape.isNull <;> cases right : g.shape.isNull
    · exact joined
    · rfl
    · rfl
    · rw [isNull_iff.mp left, isNull_iff.mp right]
  · cases f.optional <;> cases g.optional <;> cases f.shape.isNull <;> cases g.shape.isNull <;> rfl

theorem agrees_mergeObjects_comm {first second : Fields} (distinct : (Entries.keys first).Nodup)
    (others : (Entries.keys second).Nodup)
    (joined : ∀ x ∈ first, ∀ y ∈ second,
      Agrees (merge widen x.2.shape y.2.shape) (merge widen y.2.shape x.2.shape)) :
    Agrees (.object (mergeObjects widen first second))
      (.object (mergeObjects widen second first)) := by
  rw [agrees_object (nodup_keys_mergeObjects distinct others)
    (nodup_keys_mergeObjects others distinct)]
  intro name
  rw [lookup_mergeObjects, lookup_mergeObjects]
  cases inFirst : first.lookup name with
  | none => cases second.lookup name <;> rfl
  | some f =>
    cases inSecond : second.lookup name with
    | none => rfl
    | some g =>
      exact congrArg some (agrees_mergeFields_comm
        (joined (name, f) (Entries.mem_of_lookup inFirst) (name, g)
          (Entries.mem_of_lookup inSecond)))

theorem widerKind_comm (j k : Kind) : widerKind j k = widerKind k j := by
  cases j <;> cases k <;> rfl

theorem agrees_merge_comm {a b : Shape} (first : WellFormed widen a)
    (second : WellFormed widen b) : Agrees (merge widen a b) (merge widen b a) := by
  induction first generalizing b with
  | primitive j =>
    apply agrees_merge_comm_of_members (.primitive j) second
    intro v here w _ equal
    obtain rfl := List.mem_singleton.mp here
    obtain ⟨k, rfl⟩ := primitive_of_family equal.symm
    rw [merge_primitives_of_family equal, merge_primitives_of_family equal.symm, widerKind_comm]
    rfl
  | @array e p element marked ih =>
    apply agrees_merge_comm_of_members (.array element marked) second
    intro v here w there equal
    obtain rfl := List.mem_singleton.mp here
    obtain ⟨f, q, rfl⟩ := array_of_family equal.symm
    rcases second.separate.shapes _ there with _ | ⟨other, marked'⟩
    rw [merge_arrays, merge_arrays]
    cases p <;> cases q
    · simpa [agrees_array] using ih other
    · rfl
    · rfl
    · rw [marked rfl, marked' rfl]
      rfl
  | @object fields distinct shapes ih =>
    apply agrees_merge_comm_of_members (.object distinct shapes) second
    intro v here w there equal
    obtain rfl := List.mem_singleton.mp here
    obtain ⟨others, rfl⟩ := object_of_family equal.symm
    rcases second.separate.shapes _ there with _ | _ | ⟨distinct', shapes'⟩
    rw [merge_objects, merge_objects]
    exact agrees_mergeObjects_comm distinct distinct' fun x here y there =>
      ih x here (shapes' y there)
  | @union variants several single families ordered shapes ih =>
    apply agrees_merge_comm_of_members (.union several single families ordered shapes) second
    intro v here w there _
    exact ih v here (second.separate.shapes w there)

/-! Congruence. -/

theorem none_or_some_of_map_eq {α β : Type} {f : α → β} {x y : Option α} (same : x.map f = y.map f) :
    (x = none ∧ y = none) ∨ ∃ a b, x = some a ∧ y = some b ∧ f a = f b := by
  cases x <;> cases y <;> simp_all

theorem family_of_agrees (widen : Bool) {s t : Shape} (agree : Agrees s t) :
    s.family widen = t.family widen := by
  calc s.family widen = s.arranged.family widen := (tidying_arranged.family s).symm
    _ = t.arranged.family widen := by rw [agree]
    _ = t.family widen := tidying_arranged.family t

theorem isNull_of_agrees {s t : Shape} (agree : Agrees s t) : s.isNull = t.isNull := by
  calc s.isNull = s.arranged.isNull := (tidying_arranged.isNull s).symm
    _ = t.arranged.isNull := by rw [agree]
    _ = t.isNull := tidying_arranged.isNull t

theorem agrees_merge_of_agrees_members {a b c d : Shape} (first : WellFormed widen a)
    (second : WellFormed widen b) (third : WellFormed widen c) (fourth : WellFormed widen d)
    (left : Agrees a c) (right : Agrees b d)
    (joined : ∀ v ∈ a.variants, ∀ w ∈ b.variants, ∀ x ∈ c.variants, ∀ y ∈ d.variants,
      v.family widen = w.family widen → Agrees v x → Agrees w y →
      Agrees (merge widen v w) (merge widen x y)) :
    Agrees (merge widen a b) (merge widen c d) := by
  apply agrees_merge_of_members first second third fourth
  intro φ
  have ofLeft := member_of_agrees widen left φ
  have ofRight := member_of_agrees widen right φ
  rcases none_or_some_of_map_eq ofLeft with ⟨inFirst, inThird⟩ | ⟨v, x, inFirst, inThird, here⟩
  · simpa [inFirst, inThird] using ofRight
  · rcases none_or_some_of_map_eq ofRight with ⟨inSecond, inFourth⟩ | ⟨w, y, inSecond, inFourth, there⟩
    · simpa [inFirst, inSecond, inThird, inFourth] using here
    · rw [inFirst, inSecond, inThird, inFourth]
      obtain ⟨hereV, familyV⟩ := (member_eq_some first).mp inFirst
      obtain ⟨hereW, familyW⟩ := (member_eq_some second).mp inSecond
      exact congrArg some (joined v hereV w hereW x ((member_eq_some third).mp inThird).1
        y ((member_eq_some fourth).mp inFourth).1 (familyV.trans familyW.symm) here there)

theorem agrees_mergeFields {f g h i : Field} (left : f.map arranged = h.map arranged)
    (right : g.map arranged = i.map arranged)
    (joined : Agrees (merge widen f.shape g.shape) (merge widen h.shape i.shape)) :
    (mergeFields widen f g).map arranged = (mergeFields widen h i).map arranged := by
  obtain ⟨shapeF, optionalF⟩ := FieldSpec.mk.inj left
  obtain ⟨shapeG, optionalG⟩ := FieldSpec.mk.inj right
  rw [mergeFields_eq, mergeFields_eq, FieldSpec.map, FieldSpec.map, FieldSpec.mk.injEq]
  simp only [mergeUnlessNull, isNull_of_agrees shapeF, isNull_of_agrees shapeG, optionalF,
    optionalG, and_true]
  split_ifs
  · exact shapeG
  · exact shapeF
  · exact joined

theorem agrees_mergeObjects {first second third fourth : Fields}
    (one : (Entries.keys first).Nodup) (two : (Entries.keys second).Nodup)
    (three : (Entries.keys third).Nodup) (four : (Entries.keys fourth).Nodup)
    (left : Agrees (.object first) (.object third))
    (right : Agrees (.object second) (.object fourth))
    (joined : ∀ f ∈ first, ∀ g ∈ second, ∀ h ∈ third, ∀ i ∈ fourth, Agrees f.2.shape h.2.shape →
      Agrees g.2.shape i.2.shape →
      Agrees (merge widen f.2.shape g.2.shape) (merge widen h.2.shape i.2.shape)) :
    Agrees (.object (mergeObjects widen first second)) (.object (mergeObjects widen third fourth)) := by
  rw [agrees_object (nodup_keys_mergeObjects one two) (nodup_keys_mergeObjects three four)]
  intro name
  have ofLeft := (agrees_object one three).mp left name
  have ofRight := (agrees_object two four).mp right name
  rw [lookup_mergeObjects, lookup_mergeObjects]
  rcases none_or_some_of_map_eq ofLeft with ⟨inFirst, inThird⟩ | ⟨f, h, inFirst, inThird, here⟩
  · rcases none_or_some_of_map_eq ofRight with ⟨inSecond, inFourth⟩ | ⟨g, i, inSecond, inFourth, there⟩
    · rw [inFirst, inSecond, inThird, inFourth]
    · rw [inFirst, inSecond, inThird, inFourth]
      simpa [mergeEntries, FieldSpec.map] using congrArg FieldSpec.shape there
  · rcases none_or_some_of_map_eq ofRight with ⟨inSecond, inFourth⟩ | ⟨g, i, inSecond, inFourth, there⟩
    · rw [inFirst, inSecond, inThird, inFourth]
      simpa [mergeEntries, FieldSpec.map] using congrArg FieldSpec.shape here
    · rw [inFirst, inSecond, inThird, inFourth]
      exact congrArg some (agrees_mergeFields here there
        (joined (name, f) (Entries.mem_of_lookup inFirst) (name, g) (Entries.mem_of_lookup inSecond)
          (name, h) (Entries.mem_of_lookup inThird) (name, i) (Entries.mem_of_lookup inFourth)
          (congrArg FieldSpec.shape here) (congrArg FieldSpec.shape there)))

theorem agrees_merge_arrays {e f g h : Shape} {p q r t : Bool}
    (left : Agrees (.array e p) (.array g r)) (right : Agrees (.array f q) (.array h t))
    (joined : Agrees e g → Agrees f h → Agrees (merge widen e f) (merge widen g h)) :
    Agrees (merge widen (.array e p) (.array f q)) (merge widen (.array g r) (.array h t)) := by
  obtain ⟨first, rfl⟩ := agrees_array.mp left
  obtain ⟨second, rfl⟩ := agrees_array.mp right
  rw [merge_arrays, merge_arrays]
  split_ifs
  · exact left
  · exact agrees_array.mpr ⟨second, rfl⟩
  · exact agrees_array.mpr ⟨first, rfl⟩
  · exact agrees_array.mpr ⟨joined first second, rfl⟩

theorem agrees_merge {a b c d : Shape} (first : WellFormed widen a) (second : WellFormed widen b)
    (third : WellFormed widen c) (fourth : WellFormed widen d) (left : Agrees a c)
    (right : Agrees b d) : Agrees (merge widen a b) (merge widen c d) := by
  induction first generalizing b c d with
  | primitive j =>
    apply agrees_merge_of_agrees_members (.primitive j) second third fourth left right
    intro v hereV w hereW x hereX y hereY equal here there
    obtain rfl := List.mem_singleton.mp hereV
    obtain ⟨k, rfl⟩ := primitive_of_family equal.symm
    obtain ⟨l, rfl⟩ := primitive_of_family (family_of_agrees widen here).symm
    obtain ⟨m, rfl⟩ := primitive_of_family (family_of_agrees widen there).symm
    rw [Shape.primitive.inj here, Shape.primitive.inj there]
    rfl
  | @array e p element marked ih =>
    apply agrees_merge_of_agrees_members (.array element marked) second third fourth left right
    intro v hereV w hereW x hereX y hereY equal here there
    obtain rfl := List.mem_singleton.mp hereV
    obtain ⟨f, q, rfl⟩ := array_of_family equal.symm
    obtain ⟨g, r, rfl⟩ := array_of_family (family_of_agrees widen here).symm
    obtain ⟨h, t, rfl⟩ := array_of_family (family_of_agrees widen there).symm
    rcases second.separate.shapes _ hereW with _ | ⟨two, _⟩
    rcases third.separate.shapes _ hereX with _ | ⟨three, _⟩
    rcases fourth.separate.shapes _ hereY with _ | ⟨four, _⟩
    exact agrees_merge_arrays here there (ih two three four)
  | @object fields distinct shapes ih =>
    apply agrees_merge_of_agrees_members (.object distinct shapes) second third fourth left right
    intro v hereV w hereW x hereX y hereY equal here there
    obtain rfl := List.mem_singleton.mp hereV
    obtain ⟨_, rfl⟩ := object_of_family equal.symm
    obtain ⟨_, rfl⟩ := object_of_family (family_of_agrees widen here).symm
    obtain ⟨_, rfl⟩ := object_of_family (family_of_agrees widen there).symm
    rcases second.separate.shapes _ hereW with _ | _ | ⟨two, shapes₂⟩
    rcases third.separate.shapes _ hereX with _ | _ | ⟨three, shapes₃⟩
    rcases fourth.separate.shapes _ hereY with _ | _ | ⟨four, shapes₄⟩
    rw [merge_objects, merge_objects]
    apply agrees_mergeObjects distinct two three four here there
    intro f hereF g hereG h hereH i hereI
    exact ih f hereF (shapes₂ g hereG) (shapes₃ h hereH) (shapes₄ i hereI)
  | @union variants several single families ordered shapes ih =>
    apply agrees_merge_of_agrees_members (.union several single families ordered shapes) second
      third fourth left right
    intro v hereV w hereW x hereX y hereY _ here there
    exact ih v hereV (second.separate.shapes w hereW) (third.separate.shapes x hereX)
      (fourth.separate.shapes y hereY) here there

/-- Merging well-formed shapes is commutative up to the order of fields. It is associative and
idempotent with the order of fields and every placeholder mark kept. -/
theorem merge_semilattice {a b c : Shape} (first : WellFormed widen a) (second : WellFormed widen b)
    (third : WellFormed widen c) :
    Agrees (merge widen a b) (merge widen b a) ∧
      merge widen (merge widen a b) c = merge widen a (merge widen b c) ∧
      merge widen a a = a := by
  refine ⟨?_, ?_, ?_⟩
  · exact agrees_merge_comm first second
  · exact merge_assoc first second third
  · exact merge_self first

/-- Unions that meet an object, placeholder arrays and fields that are null or absent elsewhere. -/
theorem merge_semilattice_of_placeholders :
    let record (k m : Shape) : Shape := .object [("k", ⟨k, false⟩), ("m", ⟨m, true⟩)]
    let a : Shape := .union [.primitive .integer, .array .null true, record .null (.array .null true)]
    let b : Shape := .object [("m", ⟨.array (.primitive .float) false, false⟩), ("n", ⟨.null, false⟩)]
    let c : Shape := .union [.primitive .float, .array (record .null .null) false, .null]
    Agrees (merge true a b) (merge true b a) ∧
      merge true (merge true a b) c = merge true a (merge true b c) ∧ merge true a a = a := by
  intro record a b c
  have empty : WellFormed true (.array .null true) := .array (.primitive .null) fun _ => rfl
  have floats : WellFormed true (.array (.primitive .float) false) := .array (.primitive .float) (by simp)
  have nulls : WellFormed true (record .null .null) :=
    .object (by decide) (by simp [Shape.null, WellFormed.primitive])
  have first : WellFormed true a := by
    refine .union (by decide) (by decide) (by decide) (by decide) ?_
    simp only [List.forall_mem_cons]
    refine ⟨.primitive .integer, empty, .object (by decide) ?_, List.forall_mem_nil _⟩
    simpa [Shape.null, WellFormed.primitive] using empty
  have second : WellFormed true b :=
    .object (by decide) (by simpa [Shape.null, WellFormed.primitive] using floats)
  have third : WellFormed true c := by
    refine .union (by decide) (by decide) (by decide) (by decide) ?_
    simp only [List.forall_mem_cons]
    exact ⟨.primitive .float, .array nulls (by simp), .primitive .null, List.forall_mem_nil _⟩
  exact merge_semilattice first second third

end SampleTypes.Shape
