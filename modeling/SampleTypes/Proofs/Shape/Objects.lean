import SampleTypes.Graph.Naming
import SampleTypes.Proofs.Shape.WellFormed

/-! The objects in a shape, and the shape that is left when names stand in their places. -/

namespace SampleTypes.Shape

def digestOf (fields : Fields) : List UInt8 := (Shape.object fields).digest

/-- Shapes without references whose unions list their variants by rising rank. -/
inductive Ranked : Shape → Prop where
  | primitive (kind : Kind) : Ranked (.primitive kind)
  | array {e : Shape} (placeholder : Bool) (element : Ranked e) : Ranked (.array e placeholder)
  | object {fields : Fields} (distinct : (Entries.keys fields).Nodup)
      (shapes : ∀ entry ∈ fields, Ranked entry.2.shape) : Ranked (.object fields)
  | union {variants : List Shape} (several : 2 ≤ variants.length)
      (single : ∀ v ∈ variants, v.isUnion = false)
      (rising : variants.Pairwise fun v w => v.rank < w.rank)
      (shapes : ∀ v ∈ variants, Ranked v) : Ranked (.union variants)

theorem WellFormed.ranked {widen : Bool} {s : Shape} (wellFormed : WellFormed widen s) :
    Ranked s := by
  induction wellFormed with
  | primitive kind => exact .primitive kind
  | array element marked ih => exact .array _ ih
  | object distinct shapes ih => exact .object distinct ih
  | union several single families ordered shapes ih =>
    exact .union several single (Separate.pairwise_rank_lt ⟨shapes, single, families⟩ ordered) ih

theorem Ranked.nodup_keys {fields : Fields} (ranked : Ranked (.object fields)) :
    (Entries.keys fields).Nodup := by
  cases ranked with
  | object distinct _ => exact distinct

theorem Ranked.field {fields : Fields} (ranked : Ranked (.object fields)) {entry : Str × Field}
    (here : entry ∈ fields) : Ranked entry.2.shape := by
  cases ranked with
  | object _ shapes => exact shapes entry here

mutual

/-- The objects of a shape that lie in no other object of it. -/
def outerObjects : Shape → List Fields
  | .object fields => [fields]
  | .array e _ => e.outerObjects
  | .union variants => outerObjectsOfVariants variants
  | .primitive _ => []
  | .reference _ => []

def outerObjectsOfVariants : List Shape → List Fields
  | [] => []
  | v :: rest => v.outerObjects ++ outerObjectsOfVariants rest

end

mutual

def objects : Shape → List Fields
  | .object fields => fields :: objectsOfFields fields
  | .array e _ => e.objects
  | .union variants => objectsOfVariants variants
  | .primitive _ => []
  | .reference _ => []

def objectsOfFields : Fields → List Fields
  | [] => []
  | (_, field) :: rest => field.shape.objects ++ objectsOfFields rest

def objectsOfVariants : List Shape → List Fields
  | [] => []
  | v :: rest => v.objects ++ objectsOfVariants rest

end

mutual

/-- A name in the place of every object that lies in no other one. -/
def renamed (nameOf : List UInt8 → String) : Shape → Shape
  | .object fields => .reference (nameOf (digestOf fields))
  | .array e placeholder => .array (renamed nameOf e) placeholder
  | .union variants => .union (renamedVariants nameOf variants)
  | .primitive kind => .primitive kind
  | .reference name => .reference name

def renamedVariants (nameOf : List UInt8 → String) : List Shape → List Shape
  | [] => []
  | v :: rest => renamed nameOf v :: renamedVariants nameOf rest

end

mutual

def rebuilt : Shape → Shape
  | .object fields => .object (rebuiltFields fields)
  | .array e placeholder => .array e.rebuilt placeholder
  | .union variants => unionOf (rebuiltVariants variants)
  | .primitive kind => .primitive kind
  | .reference name => .reference name

def rebuiltFields : Fields → Fields
  | [] => []
  | (name, field) :: rest => (name, ⟨field.shape.rebuilt, field.optional⟩) :: rebuiltFields rest

def rebuiltVariants : List Shape → List Shape
  | [] => []
  | v :: rest => v.rebuilt :: rebuiltVariants rest

end

/-- A shape as a walk leaves it: names stand in the places of objects, and unions are built anew. -/
def restated (nameOf : List UInt8 → String) (s : Shape) : Shape := (renamed nameOf s).rebuilt

theorem outerObjectsOfVariants_eq (variants : List Shape) :
    outerObjectsOfVariants variants = variants.flatMap outerObjects := by
  induction variants with
  | nil => rfl
  | cons v rest ih => rw [outerObjectsOfVariants, ih, List.flatMap_cons]

theorem renamedVariants_eq (nameOf : List UInt8 → String) (variants : List Shape) :
    renamedVariants nameOf variants = variants.map (renamed nameOf) := by
  induction variants with
  | nil => rfl
  | cons v rest ih => rw [renamedVariants, ih, List.map_cons]

theorem rebuilt_object (fields : Fields) :
    (Shape.object fields).rebuilt = .object (mapFields rebuilt fields) := by
  have inner : rebuiltFields fields = mapFields rebuilt fields := by
    induction fields with
    | nil => rfl
    | cons entry rest ih => rw [rebuiltFields, ih]; rfl
  rw [rebuilt, inner]

theorem rebuilt_union (variants : List Shape) :
    (Shape.union variants).rebuilt = unionOf (variants.map rebuilt) := by
  have inner : rebuiltVariants variants = variants.map rebuilt := by
    induction variants with
    | nil => rfl
    | cons v rest ih => rw [rebuiltVariants, ih, List.map_cons]
  rw [rebuilt, inner]

theorem mem_objects_object {fields o : Fields} :
    o ∈ (Shape.object fields).objects ↔ o = fields ∨ ∃ entry ∈ fields, o ∈ entry.2.shape.objects := by
  have inner : objectsOfFields fields = fields.flatMap fun entry => entry.2.shape.objects := by
    induction fields with
    | nil => rfl
    | cons entry rest ih => rw [objectsOfFields, ih, List.flatMap_cons]
  rw [objects, inner, List.mem_cons, List.mem_flatMap]

theorem mem_objects_union {variants : List Shape} {o : Fields} :
    o ∈ (Shape.union variants).objects ↔ ∃ v ∈ variants, o ∈ v.objects := by
  have inner : objectsOfVariants variants = variants.flatMap objects := by
    induction variants with
    | nil => rfl
    | cons v rest ih => rw [objectsOfVariants, ih, List.flatMap_cons]
  rw [objects, inner, List.mem_flatMap]

theorem mem_outerObjects_union {variants : List Shape} {o : Fields} :
    o ∈ (Shape.union variants).outerObjects ↔ ∃ v ∈ variants, o ∈ v.outerObjects := by
  rw [outerObjects, outerObjectsOfVariants_eq, List.mem_flatMap]

theorem mem_objects_trans {s : Shape} {o p : Fields} (outer : o ∈ s.objects)
    (inner : p ∈ (Shape.object o).objects) : p ∈ s.objects := by
  induction s with
  | primitive kind => cases outer
  | array e placeholder ih => exact ih outer
  | object fields ih =>
    rcases mem_objects_object.mp outer with rfl | ⟨entry, here, inside⟩
    · exact inner
    · exact mem_objects_object.mpr (Or.inr ⟨entry, here, ih entry here inside⟩)
  | union variants ih =>
    obtain ⟨v, here, inside⟩ := mem_objects_union.mp outer
    exact mem_objects_union.mpr ⟨v, here, ih v here inside⟩
  | reference name => cases outer

theorem Ranked.of_mem_objects {s : Shape} (ranked : Ranked s) {o : Fields} (here : o ∈ s.objects) :
    Ranked (.object o) := by
  induction ranked with
  | primitive kind => cases here
  | array placeholder element ih => exact ih here
  | object distinct shapes ih =>
    rcases mem_objects_object.mp here with rfl | ⟨entry, member, inside⟩
    · exact .object distinct shapes
    · exact ih entry member inside
  | union several single rising shapes ih =>
    obtain ⟨v, member, inside⟩ := mem_objects_union.mp here
    exact ih v member inside

variable {nameOf : List UInt8 → String}

theorem renamed_union (variants : List Shape) :
    renamed nameOf (.union variants) = .union (variants.map (renamed nameOf)) := by
  rw [renamed, renamedVariants_eq]

theorem isUnion_renamed (s : Shape) : (renamed nameOf s).isUnion = s.isUnion := by
  cases s <;> rfl

theorem renamed_congr {other : List UInt8 → String} {s : Shape}
    (agree : ∀ fields ∈ s.outerObjects, nameOf (digestOf fields) = other (digestOf fields)) :
    renamed nameOf s = renamed other s := by
  induction s with
  | primitive kind => rfl
  | array e placeholder ih => rw [renamed, renamed, ih agree]
  | object fields ih => rw [renamed, renamed, agree fields (List.mem_singleton.mpr rfl)]
  | union variants ih =>
    rw [renamed_union, renamed_union]
    congr 1
    apply List.map_congr_left
    intro v here
    apply ih v here
    intro fields inside
    apply agree
    exact mem_outerObjects_union.mpr ⟨v, here, inside⟩
  | reference name => rfl

theorem restated_union (variants : List Shape) :
    restated nameOf (.union variants) = unionOf (variants.map (restated nameOf)) := by
  rw [restated, renamed_union, rebuilt_union, List.map_map]
  rfl

theorem restated_congr {other : List UInt8 → String} {s : Shape}
    (agree : ∀ fields ∈ s.outerObjects, nameOf (digestOf fields) = other (digestOf fields)) :
    restated nameOf s = restated other s := by
  rw [restated, restated, renamed_congr agree]

theorem outerObjects_renamed (s : Shape) : (renamed nameOf s).outerObjects = [] := by
  induction s with
  | primitive kind => rfl
  | array e placeholder ih => exact ih
  | object fields ih => rfl
  | union variants ih =>
    rw [renamed_union, outerObjects, outerObjectsOfVariants_eq, List.flatMap_map]
    exact List.flatMap_eq_nil_iff.mpr ih
  | reference name => rfl

theorem arranged_of_no_objects {s : Shape} (none_inside : s.outerObjects = []) : s.arranged = s := by
  induction s with
  | primitive kind => rfl
  | array e placeholder ih => rw [arranged, ih none_inside]
  | object fields ih => cases none_inside
  | union variants ih =>
    rw [outerObjects, outerObjectsOfVariants_eq, List.flatMap_eq_nil_iff] at none_inside
    rw [arranged_union]
    congr 1
    rw [List.map_congr_left fun v here => ih v here (none_inside v here), List.map_id']
  | reference name => rfl

/-! The ranks of a union stay apart when references take the place of objects. -/

theorem rank_renamed (s : Shape) :
    (renamed nameOf s).rank = if s.rank = 5 then 6 else s.rank := by
  cases s with
  | primitive kind => cases kind <;> rfl
  | _ => rfl

theorem Ranked.rank_ne {s : Shape} (ranked : Ranked s) : s.rank ≠ 6 := by
  cases ranked with
  | primitive kind => cases kind <;> decide
  | _ => simp [rank, rank?]

theorem rank_eq_of_same {s t : Shape} (equal : (s == t) = true) : s.rank = t.rank := by
  change s.same t = true at equal
  cases s <;> cases t <;> simp_all [same, rank, rank?]

theorem canonicalVariants_of_rising {shapes : List Shape} (single : ∀ s ∈ shapes, s.isUnion = false)
    (rising : shapes.Pairwise fun s t => s.rank < t.rank) : canonicalVariants shapes = shapes := by
  rw [canonicalVariants, flatMap_variants single, distinct_eq_self, sort_eq_self]
  · exact rising.imp precedes_of_rank_lt
  · apply rising.imp
    intro s t below
    rw [Bool.eq_false_iff]
    intro equal
    have := rank_eq_of_same equal
    omega

theorem rising_renamed {variants : List Shape}
    (rising : variants.Pairwise fun v w => v.rank < w.rank) (shapes : ∀ v ∈ variants, Ranked v) :
    (variants.map (renamed nameOf)).Pairwise fun v w => v.rank < w.rank := by
  rw [List.pairwise_map]
  apply rising.imp_of_mem
  intro v w here there below
  have first := (shapes v here).rank_ne
  have second := (shapes w there).rank_ne
  rw [rank_renamed, rank_renamed]
  split_ifs <;> omega

theorem unionOf_renamed {variants : List Shape} (several : 2 ≤ variants.length)
    (single : ∀ v ∈ variants, v.isUnion = false)
    (rising : variants.Pairwise fun v w => v.rank < w.rank) (shapes : ∀ v ∈ variants, Ranked v) :
    unionOf (variants.map (renamed nameOf)) = renamed nameOf (.union variants) := by
  have apart : (variants.map (renamed nameOf)).Pairwise fun v w => v.rank < w.rank :=
    rising_renamed rising shapes
  have alone : ∀ s ∈ variants.map (renamed nameOf), s.isUnion = false := by
    intro s here
    obtain ⟨v, member, rfl⟩ := List.mem_map.mp here
    rw [isUnion_renamed, single v member]
  rw [unionOf, canonicalVariants_of_rising alone apart, renamed_union]
  split
  · rename_i s only
    have length := congrArg List.length only
    rw [List.length_map, List.length_singleton] at length
    omega
  · rfl

theorem Ranked.rebuilt_renamed {s : Shape} (ranked : Ranked s) :
    (renamed nameOf s).rebuilt = renamed nameOf s := by
  induction ranked with
  | primitive kind => rfl
  | array placeholder element ih => rw [renamed, rebuilt, ih]
  | object distinct shapes ih => rfl
  | union several single rising shapes ih =>
    rw [renamed_union, rebuilt_union, List.map_map, ← renamed_union,
      ← unionOf_renamed several single rising shapes]
    congr 1
    exact List.map_congr_left ih

end SampleTypes.Shape
