import SampleTypes.Proofs.Runs
import SampleTypes.Proofs.Shape.Equality
import SampleTypes.Proofs.Shape.MergeFields
import SampleTypes.Shape.CheckedMerge

/-! No check fails when shapes that can be built are merged, and what comes of it can be built. -/

namespace SampleTypes.Shape

variable {widen : Bool}

structure Computes (x : Merging Shape) (s : Shape) : Prop where
  result : x = .ok s
  buildable : Buildable s

namespace Buildable

theorem variant {s v : Shape} (buildable : Buildable s) (here : v ∈ s.variants) :
    Buildable v ∧ v.isUnion = false := by
  cases buildable with
  | union several single shapes => exact ⟨shapes v here, single v here⟩
  | primitive kind => rw [List.mem_singleton.mp here]; exact ⟨.primitive kind, rfl⟩
  | array placeholder element =>
    rw [List.mem_singleton.mp here]
    exact ⟨.array placeholder element, rfl⟩
  | object distinct shapes => rw [List.mem_singleton.mp here]; exact ⟨.object distinct shapes, rfl⟩
  | reference name => rw [List.mem_singleton.mp here]; exact ⟨.reference name, rfl⟩

theorem variants_ne_nil {s : Shape} (buildable : Buildable s) : s.variants ≠ [] := by
  cases buildable with
  | union several single shapes =>
    rintro rfl
    simp at several
  | _ => exact List.cons_ne_nil _ _

end Buildable

/-! Building unions. -/

theorem distinct_ne_nil {shapes : List Shape} (nonempty : shapes ≠ []) : distinct shapes ≠ [] := by
  induction shapes using List.reverseRecOn with
  | nil => exact absurd rfl nonempty
  | append_singleton shapes s _ =>
    rw [distinct_concat]
    split_ifs with known
    · rintro empty
      rw [empty] at known
      cases known
    · simp

theorem place_of_single {s : Shape} (single : s.isUnion = false) : place s = .ok s.rank := by
  cases s with
  | primitive kind => cases kind <;> rfl
  | union variants => cases single
  | _ => rfl

theorem union?_of_single {variants : List Shape} (several : 2 ≤ variants.length)
    (single : ∀ v ∈ variants, v.isUnion = false) : union? variants = .ok (.union variants) := by
  have flat : variants.any isUnion = false := by simpa using single
  rw [union?, if_neg (by omega), flat, if_neg Bool.false_ne_true]

theorem unionOf_of_several {shapes : List Shape} (several : 2 ≤ (canonicalVariants shapes).length) :
    unionOf shapes = .union (canonicalVariants shapes) := by
  rw [unionOf]
  split
  · rename_i s only
    rw [only] at several
    simp at several
  · rfl

theorem buildable_offered {shapes : List Shape} (buildable : ∀ s ∈ shapes, Buildable s) :
    ∀ v ∈ shapes.flatMap variants, Buildable v ∧ v.isUnion = false := by
  intro v here
  obtain ⟨s, member, inside⟩ := List.mem_flatMap.mp here
  exact (buildable s member).variant inside

theorem distinct_offered_ne_nil {shapes : List Shape} (nonempty : shapes ≠ [])
    (buildable : ∀ s ∈ shapes, Buildable s) : distinct (shapes.flatMap variants) ≠ [] := by
  apply distinct_ne_nil
  obtain ⟨s, rest, rfl⟩ := List.exists_cons_of_ne_nil nonempty
  simp [(buildable s List.mem_cons_self).variants_ne_nil]

theorem computes_union {shapes : List Shape} (nonempty : shapes ≠ [])
    (buildable : ∀ s ∈ shapes, Buildable s) : Computes (checkedUnion shapes) (unionOf shapes) := by
  have variants : ∀ v ∈ distinct (shapes.flatMap variants), Buildable v ∧ v.isUnion = false :=
    fun v here => buildable_offered buildable v (mem_of_mem_distinct here)
  have some_variant := distinct_offered_ne_nil nonempty buildable
  have perm := sort_perm precedes (distinct (shapes.flatMap Shape.variants))
  have sorted : ∀ v ∈ canonicalVariants shapes, Buildable v ∧ v.isUnion = false :=
    fun v here => variants v (perm.mem_iff.mp here)
  rw [checkedUnion]
  split
  · rename_i none_left
    exact absurd none_left some_variant
  · rename_i s only
    rw [unionOf, canonicalVariants, only]
    exact ⟨rfl, (variants s (by simp [only])).1⟩
  · rename_i many
    have several : 2 ≤ (canonicalVariants shapes).length := by
      rw [canonicalVariants, perm.length_eq]
      exact two_le_length some_variant many
    have places := mapM_eq_ok fun v here => place_of_single (variants v here).2
    have single : ∀ v ∈ canonicalVariants shapes, v.isUnion = false := fun v here => (sorted v here).2
    rw [unionOf_of_several several, places]
    constructor
    · change (union? (canonicalVariants shapes)).mapError _ = _
      rw [union?_of_single several single]
      rfl
    · exact .union several single fun v here => (sorted v here).1

theorem computes_union_pair {a b : Shape} (first : Buildable a) (second : Buildable b) :
    Computes (checkedUnion [a, b]) (unionOf [a, b]) :=
  computes_union (List.cons_ne_nil a [b]) (by simp [first, second])

/-! Absorbing variants. -/

theorem checkedAbsorb_eq {checked : Shape → Merging Shape} {join : Shape → Shape} {s : Shape}
    {shapes : List Shape} (each : ∀ v ∈ shapes, Computes (checked v) (join v)) :
    checkedAbsorb widen checked s shapes = .ok (absorb widen join s shapes) := by
  induction shapes with
  | nil => rfl
  | cons v rest ih =>
    rw [List.forall_mem_cons] at each
    rw [checkedAbsorb, absorb]
    split_ifs
    · rw [each.1.result]
      rfl
    · rw [ih each.2]
      rfl

theorem absorb_ne_nil {join : Shape → Shape} {s : Shape} {shapes : List Shape} :
    absorb widen join s shapes ≠ [] := by
  cases shapes with
  | nil => exact List.cons_ne_nil s []
  | cons v rest =>
    rw [absorb]
    split_ifs <;> exact List.cons_ne_nil _ _

section Joins

variable {s a : Shape}

theorem computes_into {checked : Shape → Merging Shape} {join : Shape → Shape}
    (each : ∀ v, Buildable v → v.isUnion = false → Computes (checked v) (join v))
    (second : Buildable s) (first : Buildable a) :
    Computes (checkedInto widen checked s a) (mergeInto widen join s a) := by
  cases first with
  | @union variants several single shapes =>
    have joined : ∀ v ∈ variants, Computes (checked v) (join v) :=
      fun v here => each v (shapes v here) (single v here)
    rw [checkedInto, mergeInto, checkedAbsorb_eq joined]
    apply computes_union absorb_ne_nil
    intro v here
    rcases mem_absorb here with old | rfl | ⟨w, member, _, rfl⟩
    · exact shapes v old
    · exact second
    · exact (joined w member).buildable
  | primitive kind => exact each _ (.primitive kind) rfl
  | array placeholder element => exact each _ (.array placeholder element) rfl
  | object distinct shapes => exact each _ (.object distinct shapes) rfl
  | reference name => exact each _ (.reference name) rfl

theorem computes_primitive (k : Kind) (first : Buildable a) :
    Computes (checkedPrimitive widen k a) (joinPrimitive widen k a) := by
  have apart := computes_union_pair first (.primitive k)
  cases first with
  | primitive j =>
    rw [checkedPrimitive, joinPrimitive, mergeKinds]
    split_ifs
    · exact ⟨rfl, .primitive j⟩
    · exact ⟨rfl, .primitive .float⟩
    · exact apart
  | _ => exact apart

theorem computes_reference (n : String) (first : Buildable a) :
    Computes (checkedReference n a) (joinReference n a) := by
  have apart := computes_union_pair first (.reference n)
  cases first with
  | reference m =>
    rw [checkedReference, joinReference]
    split_ifs
    · exact ⟨rfl, .reference m⟩
    · exact apart
  | _ => exact apart

theorem computes_array {checked : Shape → Merging Shape} {mergeElement : Shape → Shape} {f : Shape}
    {q : Bool} (each : ∀ e, Buildable e → Computes (checked e) (mergeElement e)) (second : Buildable f)
    (first : Buildable a) : Computes (checkedArray checked f q a) (joinArray mergeElement f q a) := by
  have apart := computes_union_pair first (.array q second)
  cases first with
  | array p element =>
    rw [checkedArray, joinArray]
    split_ifs
    · exact ⟨rfl, .array _ element⟩
    · exact ⟨rfl, .array _ second⟩
    · exact ⟨rfl, .array _ element⟩
    · rw [(each _ element).result]
      exact ⟨rfl, .array _ (each _ element).buildable⟩
  | _ => exact apart

end Joins

/-! Objects. -/

theorem checkedField_eq {checked : Shape → Merging Shape} {mergeShape : Shape → Shape} {g f : Field}
    (each : Computes (checked f.shape) (mergeShape f.shape)) :
    checkedField checked g f = .ok (joinField mergeShape g f) := by
  simp only [checkedField, joinField]
  split_ifs
  · rfl
  · rfl
  · rfl
  · rw [each.result]
    rfl

theorem checkedFieldJoins_eq_map (fields : Fields) :
    checkedFieldJoins widen fields =
      fields.map fun entry => (entry.1, fun f => checkedMergeFields widen f entry.2) := by
  induction fields with
  | nil => rfl
  | cons entry rest ih => rw [checkedFieldJoins, ih]; rfl

section Objects

variable {first second : Fields}

theorem checkedFields_eq (shapes : ∀ entry ∈ first, Buildable entry.2.shape)
    (each : ∀ entry ∈ second, ∀ s, Buildable s →
      Computes (checkedMerge widen s entry.2.shape) (merge widen s entry.2.shape)) :
    checkedFields (checkedFieldJoins widen second) second first =
      .ok (mergeObjects widen first second) := by
  have kept : ∀ entry ∈ first, checkedEntry (checkedFieldJoins widen second) entry =
      .ok (entry.1, ((second.lookup entry.1).map (mergeFields widen entry.2)).getD
        ⟨entry.2.shape, true⟩) := by
    rintro ⟨name, field⟩ here
    rw [checkedEntry, checkedFieldJoins_eq_map,
      Entries.lookup_map fun _ (g : Field) f => checkedMergeFields widen f g]
    cases found : second.lookup name with
    | none => rfl
    | some g =>
      have merged : checkedMergeFields widen field g = .ok (mergeFields widen field g) :=
        checkedField_eq (each _ (Entries.mem_of_lookup found) _ (shapes _ here))
      simp only [Option.map_some, merged]
      rfl
  rw [checkedFields, mergeObjects_eq, mapM_eq_ok kept]
  rfl

theorem computes_object {a : Shape} (other : Buildable (.object second))
    (each : ∀ entry ∈ second, ∀ s, Buildable s →
      Computes (checkedMerge widen s entry.2.shape) (merge widen s entry.2.shape))
    (first : Buildable a) :
    Computes (checkedObject (checkedFieldJoins widen second) second a)
      (joinObject (fieldJoins widen second) second a) := by
  have apart := computes_union_pair first other
  cases first with
  | @object fields distinct shapes =>
    obtain ⟨others, parts⟩ := buildable_object.mp other
    rw [checkedObject, checkedFields_eq shapes each]
    refine ⟨rfl, .object (nodup_keys_mergeObjects distinct others) ?_⟩
    exact forall_mem_mergeObjects distinct others shapes parts
      fun entry here other there _ _ => (each other there _ (shapes entry here)).buildable
  | _ => exact apart

end Objects

theorem checkedAbsorbAll_eq {shapes incoming : List Shape} (nonempty : shapes ≠ [])
    (buildable : ∀ v ∈ shapes, Buildable v) (arriving : ∀ s ∈ incoming, Buildable s)
    (each : ∀ s ∈ incoming, ∀ v, Buildable v → Computes (checkedMerge widen v s) (merge widen v s)) :
    checkedAbsorbAll widen shapes incoming = .ok (absorbAll widen shapes incoming) ∧
      absorbAll widen shapes incoming ≠ [] ∧ ∀ v ∈ absorbAll widen shapes incoming, Buildable v := by
  induction incoming generalizing shapes with
  | nil =>
    rw [checkedAbsorbAll, absorbAll]
    exact ⟨rfl, nonempty, buildable⟩
  | cons s rest ih =>
    rw [List.forall_mem_cons] at arriving each
    have joined : ∀ v ∈ shapes, Computes (checkedMerge widen v s) (merge widen v s) :=
      fun v here => each.1 v (buildable v here)
    rw [checkedAbsorbAll, absorbAll, checkedAbsorb_eq joined]
    apply ih absorb_ne_nil _ arriving.2 each.2
    intro v here
    rcases mem_absorb here with old | rfl | ⟨w, member, _, rfl⟩
    · exact buildable v old
    · exact arriving.1
    · exact (joined w member).buildable

/-- Merging shapes that can be built raises nothing and gives their merge, which can be built too. -/
theorem computes_merge {a b : Shape} (first : Buildable a) (second : Buildable b) :
    Computes (checkedMerge widen a b) (merge widen a b) := by
  induction second generalizing a with
  | primitive k =>
    rw [checkedMerge, merge]
    exact computes_into (fun v shape _ => computes_primitive k shape) (.primitive k) first
  | array q second ih =>
    rw [checkedMerge, merge]
    exact computes_into (fun v shape _ => computes_array (fun e part => ih part) second shape)
      (.array q second) first
  | @object fields distinct shapes ih =>
    have other : Buildable (.object fields) := .object distinct shapes
    rw [checkedMerge, merge]
    exact computes_into
      (fun v shape _ => computes_object other (fun entry here s part => ih entry here part) shape)
      other first
  | union several single shapes ih =>
    rw [checkedMerge, merge]
    obtain ⟨result, nonempty, variants⟩ := checkedAbsorbAll_eq first.variants_ne_nil
      (fun v here => (first.variant here).1) shapes fun s here v part => ih s here part
    rw [result]
    exact computes_union nonempty variants
  | reference n =>
    rw [checkedMerge, merge]
    exact computes_into (fun v shape _ => computes_reference n shape) (.reference n) first

end SampleTypes.Shape
