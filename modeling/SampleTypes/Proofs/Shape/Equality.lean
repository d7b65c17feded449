import Mathlib.Data.List.Perm.Subperm
import SampleTypes.Proofs.Shape.Encoding
import SampleTypes.Proofs.Shape.Tidying

/-! Equality of shapes. Shapes that can be built are equal exactly if they have one normal form, so
equality looks past the order of fields and placeholder marks and past nothing else. -/

namespace SampleTypes.Shape

/-- Shapes that can be built. No object has a name twice, and a union has at least two variants, none
of them a union. -/
inductive Buildable : Shape → Prop where
  | primitive (kind : Kind) : Buildable (.primitive kind)
  | array {e : Shape} (placeholder : Bool) (element : Buildable e) : Buildable (.array e placeholder)
  | object {fields : Fields} (distinct : (Entries.keys fields).Nodup)
      (shapes : ∀ entry ∈ fields, Buildable entry.2.shape) : Buildable (.object fields)
  | union {variants : List Shape} (several : 2 ≤ variants.length)
      (single : ∀ v ∈ variants, v.isUnion = false) (shapes : ∀ v ∈ variants, Buildable v) :
      Buildable (.union variants)
  | reference (name : String) : Buildable (.reference name)

theorem buildable_array {e : Shape} {placeholder : Bool} :
    Buildable (.array e placeholder) ↔ Buildable e := by
  constructor
  · intro buildable
    cases buildable with
    | array _ element => exact element
  · exact .array placeholder

theorem buildable_object {fields : Fields} :
    Buildable (.object fields) ↔
      (Entries.keys fields).Nodup ∧ ∀ entry ∈ fields, Buildable entry.2.shape := by
  constructor
  · intro buildable
    cases buildable with
    | object distinct shapes => exact ⟨distinct, shapes⟩
  · intro both
    exact .object both.1 both.2

theorem buildable_union {variants : List Shape} :
    Buildable (.union variants) ↔ 2 ≤ variants.length ∧ (∀ v ∈ variants, v.isUnion = false) ∧
      ∀ v ∈ variants, Buildable v := by
  constructor
  · intro buildable
    cases buildable with
    | union several single shapes => exact ⟨several, single, shapes⟩
  · intro all
    exact .union all.1 all.2.1 all.2.2

theorem Tidying.buildable_iff {f : Shape → Shape} {mark : Bool → Bool} (tidying : Tidying f mark)
    {s : Shape} : Buildable (f s) ↔ Buildable s := by
  induction s with
  | primitive kind => rw [tidying.primitive]
  | array e placeholder ih => rw [tidying.array, buildable_array, buildable_array, ih]
  | object fields ih =>
    have keys : (Entries.keys (sortByName (mapFields f fields))).Nodup ↔
        (Entries.keys fields).Nodup := by
      rw [(Entries.keys_perm (sortByName_perm (mapFields f fields))).nodup_iff, keys_mapFields]
    have shapes : (∀ entry ∈ sortByName (mapFields f fields), Buildable entry.2.shape) ↔
        ∀ entry ∈ fields, Buildable entry.2.shape := by
      simp only [(sortByName_perm (mapFields f fields)).mem_iff]
      rw [mapFields, List.forall_mem_map]
      exact forall₂_congr ih
    rw [tidying.object, buildable_object, buildable_object, keys, shapes]
  | union variants ih =>
    simp only [tidying.union, buildable_union, List.length_map, List.forall_mem_map, tidying.isUnion]
    exact and_congr_right fun _ => and_congr_right fun _ => forall₂_congr ih
  | reference name => rw [tidying.reference]

theorem Buildable.of_normal_eq {s t : Shape} (buildable : Buildable s) (equal : s.normal = t.normal) :
    Buildable t := by
  rw [← tidying_normal.buildable_iff, ← equal, tidying_normal.buildable_iff]
  exact buildable

/-! Equality, one kind of shape at a time. -/

theorem beq_array {e f : Shape} {p q : Bool} :
    (Shape.array e p == Shape.array f q) = true ↔ (e == f) = true := by
  change (Shape.array e p).same (.array f q) = true ↔ _
  rw [same]
  exact Iff.rfl

theorem sameFields_iff {fields others : Fields} :
    sameFields fields others = true ↔ ∀ entry ∈ fields, ∃ other,
      others.lookup entry.1 = some other ∧ (entry.2.shape == other.shape) = true ∧
        entry.2.optional = other.optional := by
  induction fields with
  | nil => simp [sameFields]
  | cons entry rest ih =>
    rw [sameFields, Bool.and_eq_true, ih, List.forall_mem_cons]
    apply and_congr_left
    intro _
    cases others.lookup entry.1 with
    | none => simp
    | some other => simp [BEq.beq]

theorem beq_object {fields others : Fields} :
    (Shape.object fields == Shape.object others) = true ↔ fields.length = others.length ∧
      ∀ entry ∈ fields, ∃ other, others.lookup entry.1 = some other ∧
        (entry.2.shape == other.shape) = true ∧ entry.2.optional = other.optional := by
  change (Shape.object fields).same (.object others) = true ↔ _
  rw [same, Bool.and_eq_true, beq_iff_eq, sameFields_iff]

theorem sameVariants_iff {variants others : List Shape} :
    sameVariants variants others = true ↔
      List.Forall₂ (fun v w => (v == w) = true) variants others := by
  induction variants generalizing others with
  | nil => cases others <;> simp [sameVariants]
  | cons v rest ih =>
    cases others with
    | nil => simp [sameVariants]
    | cons w others =>
      rw [sameVariants, Bool.and_eq_true, ih, List.forall₂_cons]
      exact Iff.rfl

theorem beq_union {variants others : List Shape} :
    (Shape.union variants == Shape.union others) = true ↔
      List.Forall₂ (fun v w => (v == w) = true) variants others := by
  change (Shape.union variants).same (.union others) = true ↔ _
  rw [same, sameVariants_iff]

section Fields

variable {fields others : Fields}

theorem lookup_normal_eq (distinct : (Entries.keys fields).Nodup) (length : fields.length = others.length)
    (inside : ∀ entry ∈ fields,
      (others.lookup entry.1).map (·.map normal) = some (entry.2.map normal)) (name : Str) :
    (fields.lookup name).map (·.map normal) = (others.lookup name).map (·.map normal) := by
  cases found : fields.lookup name with
  | some field => exact (inside (name, field) (Entries.mem_of_lookup found)).symm
  | none =>
    have keys : Entries.keys fields ⊆ Entries.keys others := by
      intro key here
      obtain ⟨entry, member, rfl⟩ := List.mem_map.mp here
      rw [← Entries.lookup_isSome, ← Option.isSome_map (f := (·.map normal)), inside entry member]
      rfl
    have perm : (Entries.keys fields).Perm (Entries.keys others) := by
      apply (List.subperm_of_subset distinct keys).perm_of_length_le
      simp [Entries.keys, length]
    have absent : name ∉ Entries.keys others := by
      rw [← perm.mem_iff]
      exact Entries.lookup_eq_none.mp found
    rw [Entries.lookup_eq_none.mpr absent]

theorem map_normal_eq {field other : Field} :
    field.map normal = other.map normal ↔
      field.shape.normal = other.shape.normal ∧ field.optional = other.optional := by
  rw [FieldSpec.map, FieldSpec.map, FieldSpec.mk.injEq]

theorem beq_object_iff (distinct : (Entries.keys fields).Nodup)
    (others_distinct : (Entries.keys others).Nodup)
    (shapes : ∀ entry ∈ fields, ∀ other ∈ others,
      (entry.2.shape == other.2.shape) = true ↔ entry.2.shape.normal = other.2.shape.normal) :
    (Shape.object fields == Shape.object others) = true ↔
      (Shape.object fields).normal = (Shape.object others).normal := by
  have inside : ∀ entry ∈ fields, (∃ other, others.lookup entry.1 = some other ∧
      (entry.2.shape == other.shape) = true ∧ entry.2.optional = other.optional) ↔
        (others.lookup entry.1).map (·.map normal) = some (entry.2.map normal) := by
    intro entry here
    cases found : others.lookup entry.1 with
    | none => simp
    | some other =>
      have member := Entries.mem_of_lookup found
      simp only [Option.some.injEq, exists_eq_left', Option.map_some]
      rw [shapes entry here _ member, eq_comm (a := other.map normal), map_normal_eq]
  rw [beq_object, forall₂_congr inside]
  constructor
  · intro equal
    rw [tidying_normal.object_eq_iff distinct others_distinct]
    exact lookup_normal_eq distinct equal.1 equal.2
  · intro equal
    constructor
    · rw [tidying_normal.object, tidying_normal.object, Shape.object.injEq] at equal
      have lengths := congrArg List.length equal
      simpa only [(sortByName_perm _).length_eq, mapFields, List.length_map] using lengths
    · intro entry here
      rw [tidying_normal.object_eq_iff distinct others_distinct] at equal
      rw [← equal, Entries.lookup_of_mem distinct here]
      rfl

end Fields

theorem forall₂_congr_of_mem {α β : Type} {R S : α → β → Prop} {items : List α} {others : List β}
    (same : ∀ a ∈ items, ∀ b ∈ others, R a b ↔ S a b) :
    List.Forall₂ R items others ↔ List.Forall₂ S items others := by
  rw [List.forall₂_iff_zip, List.forall₂_iff_zip]
  apply and_congr_right
  intro _
  apply forall₂_congr
  intro a b
  apply imp_congr_right
  intro here
  obtain ⟨left, right⟩ := List.of_mem_zip here
  exact same a left b right

theorem normal_union_eq_iff {variants others : List Shape} :
    (Shape.union variants).normal = (Shape.union others).normal ↔
      List.Forall₂ (fun v w => v.normal = w.normal) variants others := by
  rw [normal_union, normal_union, Shape.union.injEq, ← List.forall₂_eq_eq_eq,
    List.forall₂_map_left_iff, List.forall₂_map_right_iff]

theorem beq_union_iff {variants others : List Shape}
    (shapes : ∀ v ∈ variants, ∀ w ∈ others, (v == w) = true ↔ v.normal = w.normal) :
    (Shape.union variants == Shape.union others) = true ↔
      (Shape.union variants).normal = (Shape.union others).normal := by
  rw [beq_union, normal_union_eq_iff]
  exact forall₂_congr_of_mem shapes

theorem ctorIdx_eq_of_beq {s t : Shape} (equal : (s == t) = true) : s.ctorIdx = t.ctorIdx := by
  change s.same t = true at equal
  cases s <;> cases t <;> first | rfl | cases equal

theorem ctorIdx_normal (s : Shape) : s.normal.ctorIdx = s.ctorIdx := by
  cases s <;> rw [normal] <;> rfl

theorem ctorIdx_eq_of_normal {s t : Shape} (equal : s.normal = t.normal) : s.ctorIdx = t.ctorIdx := by
  rw [← ctorIdx_normal s, equal, ctorIdx_normal t]

theorem beq_iff_normal_of_kinds {s t : Shape} (differ : (s.ctorIdx == t.ctorIdx) = false) :
    (s == t) = true ↔ s.normal = t.normal := by
  rw [beq_eq_false_iff_ne] at differ
  constructor
  · intro equal
    exact absurd (ctorIdx_eq_of_beq equal) differ
  · intro equal
    exact absurd (ctorIdx_eq_of_normal equal) differ

/-- Equality is equality of normal forms. -/
theorem beq_iff_normal {s t : Shape} (first : Buildable s) (second : Buildable t) :
    (s == t) = true ↔ s.normal = t.normal := by
  induction first generalizing t with
  | primitive kind =>
    cases second with
    | primitive other => simp [BEq.beq, same, normal]
    | _ => exact beq_iff_normal_of_kinds rfl
  | array placeholder element ih =>
    cases second with
    | array other part => simp only [beq_array, ih part, normal, Shape.array.injEq, and_true]
    | _ => exact beq_iff_normal_of_kinds rfl
  | object distinct shapes ih =>
    cases second with
    | object others parts =>
      exact beq_object_iff distinct others fun entry here other there =>
        ih entry here (parts other there)
    | _ => exact beq_iff_normal_of_kinds rfl
  | union several single shapes ih =>
    cases second with
    | union _ _ parts => exact beq_union_iff fun v here w there => ih v here (parts w there)
    | _ => exact beq_iff_normal_of_kinds rfl
  | reference name =>
    cases second with
    | reference other => simp [BEq.beq, same, normal]
    | _ => exact beq_iff_normal_of_kinds rfl

end SampleTypes.Shape
