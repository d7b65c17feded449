import SampleTypes.Proofs.Shape.Equality
import SampleTypes.Proofs.Shape.Objects

/-! Shapes without references whose unions are canonical. Each of their unions lists its variants by
rising rank. -/

namespace SampleTypes.Shape

def isArray : Shape → Bool
  | .array _ _ => true
  | _ => false

def isObject : Shape → Bool
  | .object _ => true
  | _ => false

/-- Shapes without references in which every union is free of duplicates and in canonical order, and
has at most one array and at most one object. -/
inductive Canonical : Shape → Prop where
  | primitive (kind : Kind) : Canonical (.primitive kind)
  | array {e : Shape} (placeholder : Bool) (element : Canonical e) : Canonical (.array e placeholder)
  | object {fields : Fields} (distinct : (Entries.keys fields).Nodup)
      (shapes : ∀ entry ∈ fields, Canonical entry.2.shape) : Canonical (.object fields)
  | union {variants : List Shape} (several : 2 ≤ variants.length)
      (single : ∀ v ∈ variants, v.isUnion = false)
      (unequal : variants.Pairwise fun v w => (v == w) = false)
      (ordered : variants.Pairwise (precedes · ·))
      (arrays : variants.countP isArray ≤ 1) (objects : variants.countP isObject ≤ 1)
      (shapes : ∀ v ∈ variants, Canonical v) : Canonical (.union variants)

theorem pairwise_of_countP_le_one {α : Type} {test : α → Bool} {items : List α}
    (few : items.countP test ≤ 1) : items.Pairwise fun a b => (test a && test b) = false := by
  induction items with
  | nil => exact List.Pairwise.nil
  | cons a rest ih =>
    rw [List.countP_cons] at few
    refine List.pairwise_cons.mpr ⟨?_, ih (by omega)⟩
    intro b later
    cases passed : test a with
    | false => rfl
    | true =>
      have none_left : rest.countP test = 0 := by simpa [passed] using few
      rw [List.countP_eq_zero] at none_left
      simpa using none_left b later

/-- Of the shapes without references that are no unions, only arrays and objects have a rank in common
without being equal. -/
theorem Canonical.rank_ne {v w : Shape} (first : Canonical v) (second : Canonical w)
    (single : v.isUnion = false) (other : w.isUnion = false) (unequal : (v == w) = false)
    (arrays : (v.isArray && w.isArray) = false) (objects : (v.isObject && w.isObject) = false) :
    v.rank ≠ w.rank := by
  cases first with
  | union => cases single
  | primitive j =>
    cases second with
    | union => cases other
    | primitive k =>
      have kinds : j ≠ k := by simpa [BEq.beq, same] using unequal
      revert kinds
      cases j <;> cases k <;> decide
    | _ => cases j <;> simp [rank, rank?]
  | array =>
    cases second with
    | union => cases other
    | primitive k => cases k <;> simp [rank, rank?]
    | array => cases arrays
    | object => simp [rank, rank?]
  | object =>
    cases second with
    | union => cases other
    | primitive k => cases k <;> simp [rank, rank?]
    | array => simp [rank, rank?]
    | object => cases objects

theorem Canonical.ranked {s : Shape} (canonical : Canonical s) : Ranked s := by
  induction canonical with
  | primitive kind => exact .primitive kind
  | array placeholder element ih => exact .array placeholder ih
  | object distinct shapes ih => exact .object distinct ih
  | union several single unequal ordered arrays objects shapes ih =>
    refine .union several single ?_ ih
    have apart := unequal.and ((pairwise_of_countP_le_one arrays).and (pairwise_of_countP_le_one objects))
    apply (ordered.and apart).imp_of_mem
    rintro v w here there ⟨before, unequal, arrays, objects⟩
    apply Nat.lt_of_le_of_ne (rank_le_of_precedes before)
    exact (shapes v here).rank_ne (shapes w there) (single v here) (single w there) unequal arrays
      objects

theorem rank_of_isArray {s : Shape} (array : s.isArray = true) : s.rank = 4 := by
  cases s with
  | array e placeholder => rfl
  | _ => cases array

theorem rank_of_isObject {s : Shape} (object : s.isObject = true) : s.rank = 5 := by
  cases s with
  | object fields => rfl
  | _ => cases object

theorem Canonical.pair {v w : Shape} (first : Canonical v) (second : Canonical w)
    (single : v.isUnion = false) (other : w.isUnion = false) (below : v.rank < w.rank) :
    Canonical (.union [v, w]) := by
  have few : ∀ (test : Shape → Bool) (r : Nat), (∀ s : Shape, test s = true → s.rank = r) →
      [v, w].countP test ≤ 1 := by
    intro test r alike
    have apart : ¬ (test v = true ∧ test w = true) := by
      intro both
      have left := alike v both.1
      have right := alike w both.2
      omega
    rw [List.countP_cons, List.countP_singleton]
    split_ifs <;> simp_all
  refine .union (Nat.le_refl 2) (by simp [single, other]) ?_
    (List.pairwise_pair.mpr (precedes_of_rank_lt below)) (few isArray 4 fun _ => rank_of_isArray)
    (few isObject 5 fun _ => rank_of_isObject) (by simp [first, second])
  rw [List.pairwise_pair, Bool.eq_false_iff]
  exact fun equal => absurd (rank_eq_of_same equal) (Nat.ne_of_lt below)

theorem Ranked.buildable {s : Shape} (ranked : Ranked s) : Buildable s := by
  induction ranked with
  | primitive kind => exact .primitive kind
  | array placeholder element ih => exact .array placeholder ih
  | object distinct shapes ih => exact .object distinct ih
  | union several single rising shapes ih => exact .union several single ih

theorem Buildable.renamed {nameOf : List UInt8 → String} {s : Shape} (buildable : Buildable s) :
    Buildable (renamed nameOf s) := by
  induction buildable with
  | primitive kind => exact .primitive kind
  | array placeholder element ih => exact .array placeholder ih
  | object distinct shapes ih => exact .reference _
  | union several single shapes ih =>
    rw [renamed_union, buildable_union, List.length_map, List.forall_mem_map, List.forall_mem_map]
    exact ⟨several, fun v here => (isUnion_renamed v).trans (single v here), ih⟩
  | reference name => exact .reference name

theorem Buildable.of_mem_objects {s : Shape} (buildable : Buildable s) {o : Fields}
    (here : o ∈ s.objects) : Buildable (.object o) := by
  induction buildable with
  | primitive kind => cases here
  | array placeholder element ih => exact ih here
  | object distinct shapes ih =>
    rcases mem_objects_object.mp here with rfl | ⟨entry, member, inside⟩
    · exact .object distinct shapes
    · exact ih entry member inside
  | union several single shapes ih =>
    obtain ⟨v, member, inside⟩ := mem_objects_union.mp here
    exact ih v member inside
  | reference name => cases here

theorem Buildable.renamed_inside {nameOf : List UInt8 → String} {o : Fields}
    (buildable : Buildable (.object o)) :
    Buildable (.object (mapFields (Shape.renamed nameOf) o)) := by
  obtain ⟨distinct, shapes⟩ := buildable_object.mp buildable
  rw [buildable_object, keys_mapFields, mapFields, List.forall_mem_map]
  exact ⟨distinct, fun entry here => (shapes entry here).renamed⟩

end SampleTypes.Shape
