import SampleTypes.Proofs.Samples.Members

/-! Samples observed in two parts: the shapes of the parts merge into the shape of the whole. -/

namespace SampleTypes

namespace Samples

variable {samples : List Value}

theorem items_of_no_list (absent : samples.any Value.isList = false) : items samples = [] := by
  rw [items, List.flatMap_eq_nil_iff]
  intro v here
  have other := List.any_eq_false.mp absent v here
  cases v <;> first | rfl | exact absurd rfl other

theorem entries_of_no_object (absent : samples.any Value.isObject = false) :
    ∀ v ∈ samples, v.entries = [] := by
  intro v here
  have other := List.any_eq_false.mp absent v here
  cases v <;> first | rfl | exact absurd rfl other

theorem names_of_no_object (absent : samples.any Value.isObject = false) : names samples = [] := by
  have none_left : (samples.flatMap fun v => v.entries.map fun entry => entry.1.text) = [] := by
    rw [List.flatMap_eq_nil_iff]
    intro v here
    rw [entries_of_no_object absent v here]
    rfl
  rw [names, none_left]
  rfl

theorem valuesAt_of_no_object (absent : samples.any Value.isObject = false) (name : Str) :
    valuesAt name samples = [] := by
  rw [valuesAt, List.filterMap_eq_nil_iff]
  intro v here
  rw [Value.field?, entries_of_no_object absent v here]
  rfl

theorem missingAt_of_no_object (absent : samples.any Value.isObject = false) (name : Str) :
    missingAt name samples = false := by
  rw [missingAt, List.any_eq_false]
  intro v here
  simp [List.any_eq_false.mp absent v here]

theorem mem_names (supported : ∀ v ∈ samples, v.Supported) {name : Str} :
    name ∈ names samples ↔ valuesAt name samples ≠ [] := by
  rw [names, List.mem_eraseDups, valuesAt, Ne, List.filterMap_eq_nil_iff]
  push Not
  constructor
  · intro occurs
    obtain ⟨v, here, inside⟩ := List.mem_flatMap.mp occurs
    obtain ⟨⟨key, w⟩, present, text⟩ := List.mem_map.mp inside
    refine ⟨v, here, ?_⟩
    have valid := supported v here
    cases valid with
    | object distinct named each =>
      obtain ⟨other, spelled⟩ := named _ present
      have key_eq : key = .name name := by
        simp only at spelled text
        rw [spelled] at text ⊢
        exact congrArg Key.name text
      rw [Value.field?, Value.entries, ← Option.isSome_iff_ne_none, Entries.lookup_isSome, ← key_eq]
      exact List.mem_map_of_mem (f := Prod.fst) present
    | _ => cases present
  · rintro ⟨v, here, found⟩
    obtain ⟨w, found⟩ := Option.ne_none_iff_exists'.mp found
    have present := Entries.mem_of_lookup found
    exact List.mem_flatMap.mpr ⟨v, here, List.mem_map.mpr ⟨_, present, rfl⟩⟩

theorem missingAt_of_not_mem (object : samples.any Value.isObject = true) {name : Str}
    (absent : valuesAt name samples = []) : missingAt name samples = true := by
  obtain ⟨v, here, isObject⟩ := List.any_eq_true.mp object
  rw [valuesAt, List.filterMap_eq_nil_iff] at absent
  rw [missingAt, List.any_eq_true]
  exact ⟨v, here, by simp [isObject, absent v here]⟩

theorem any_isNull_or_present {name : Str} (occurs : valuesAt name samples ≠ [])
    (none_present : presentAt name samples = []) :
    (valuesAt name samples).any Value.isNull = true := by
  obtain ⟨v, here⟩ := List.exists_mem_of_ne_nil _ occurs
  rw [presentAt, List.filter_eq_nil_iff] at none_present
  rw [List.any_eq_true]
  exact ⟨v, here, by simpa using none_present v here⟩

end Samples

namespace Shape

variable {widen : Bool}

def observedFields (widen : Bool) (samples : List Value) : Fields :=
  (Samples.names samples).map fun name =>
    (name, ⟨observed widen (Samples.presentAt name samples), Samples.optionalAt name samples⟩)

theorem keys_observedFields (samples : List Value) :
    Entries.keys (observedFields widen samples) = Samples.names samples := by
  simp [Entries.keys, observedFields, Function.comp_def]

theorem variantOfAll_object {samples : List Value} : variantOfAll widen samples .object =
    if samples.any Value.isObject then some (.object (observedFields widen samples)) else none := rfl

theorem nodup_keys_observedFields (samples : List Value) :
    (Entries.keys (observedFields widen samples)).Nodup := by
  rw [keys_observedFields]
  exact Samples.nodup_names samples

theorem lookup_observedFields (samples : List Value) (name : Str) :
    (observedFields widen samples).lookup name =
      if name ∈ Samples.names samples then
        some ⟨observed widen (Samples.presentAt name samples), Samples.optionalAt name samples⟩
      else none := by
  unfold observedFields
  induction Samples.names samples with
  | nil => rfl
  | cons other rest ih =>
    by_cases equal : name = other
    · simp [equal]
    · have differ : (name == other) = false := beq_eq_false_iff_ne.mpr equal
      simp [List.lookup_cons, differ, equal, ih]

theorem isNull_observed_presentAt (name : Str) (samples : List Value) :
    (observed widen (Samples.presentAt name samples)).isNull =
      (Samples.presentAt name samples).isEmpty := by
  cases present : Samples.presentAt name samples with
  | nil => rw [observed_nil]; rfl
  | cons v rest =>
    rw [← present, isNull_observed fun w here => Samples.not_null_of_presentAt here, present]
    · rfl
    · rw [present]
      exact List.cons_ne_nil v rest

section Append

variable {first second : List Value}

theorem merge_ifAny {s : Shape} (idem : merge widen s s = s) (test : Value → Bool) :
    Option.merge (merge widen) (if first.any test then some s else none)
        (if second.any test then some s else none) =
      if (first ++ second).any test then some s else none := by
  rw [List.any_append]
  cases first.any test <;> cases second.any test <;> simp [idem]

theorem merge_numbers :
    Option.merge (merge true)
        (if first.any Value.isNumber then
          some (.primitive (if first.any Value.isFloat then .float else .integer)) else none)
        (if second.any Value.isNumber then
          some (.primitive (if second.any Value.isFloat then .float else .integer)) else none) =
      if (first ++ second).any Value.isNumber then
        some (.primitive (if (first ++ second).any Value.isFloat then .float else .integer))
      else none := by
  have numbers : ∀ samples : List Value,
      samples.any Value.isNumber = false → samples.any Value.isFloat = false := by
    intro samples absent
    rw [List.any_eq_false] at absent ⊢
    intro v here
    simp [Value.isFloat, absent v here]
  rw [List.any_append, List.any_append]
  cases inFirst : first.any Value.isNumber with
  | false => simp [numbers first inFirst]
  | true =>
    cases inSecond : second.any Value.isNumber with
    | false => simp [numbers second inSecond]
    | true =>
      cases first.any Value.isFloat <;> cases second.any Value.isFloat <;>
        simp [merge_primitives, mergeKinds]

theorem merge_observedArrays
    (joined : Samples.items first ≠ [] → Samples.items second ≠ [] →
      merge widen (observed widen (Samples.items first)) (observed widen (Samples.items second)) =
        observed widen (Samples.items first ++ Samples.items second)) :
    merge widen (.array (observed widen (Samples.items first)) (Samples.items first).isEmpty)
        (.array (observed widen (Samples.items second)) (Samples.items second).isEmpty) =
      .array (observed widen (Samples.items (first ++ second)))
        (Samples.items (first ++ second)).isEmpty := by
  rw [merge_arrays, Samples.items_append]
  cases inFirst : Samples.items first with
  | nil =>
    cases inSecond : Samples.items second with
    | nil => rfl
    | cons w rest => rfl
  | cons v others =>
    cases inSecond : Samples.items second with
    | nil => simp
    | cons w rest =>
      have merged := joined (by simp [inFirst]) (by simp [inSecond])
      rw [inFirst, inSecond] at merged
      simp [merged]

theorem merge_variantOf_array
    (joined : Samples.items first ≠ [] → Samples.items second ≠ [] →
      merge widen (observed widen (Samples.items first)) (observed widen (Samples.items second)) =
        observed widen (Samples.items first ++ Samples.items second)) :
    Option.merge (merge widen) (variantOfAll widen first .array) (variantOfAll widen second .array) =
      variantOfAll widen (first ++ second) .array := by
  simp only [variantOfAll, variantOf, List.any_append]
  cases inFirst : first.any Value.isList with
  | false => simp [Samples.items_append, Samples.items_of_no_list inFirst]
  | true =>
    cases inSecond : second.any Value.isList with
    | false => simp [Samples.items_append, Samples.items_of_no_list inSecond]
    | true => simp [merge_observedArrays joined]

/-! A name that occurs in both parts. A part where it is only null counts as a null. -/

theorem mergeUnlessNull_observed {name : Str}
    (joined : Samples.presentAt name first ≠ [] → Samples.presentAt name second ≠ [] →
      merge widen (observed widen (Samples.presentAt name first))
          (observed widen (Samples.presentAt name second)) =
        observed widen (Samples.presentAt name first ++ Samples.presentAt name second)) :
    mergeUnlessNull widen (observed widen (Samples.presentAt name first))
        (observed widen (Samples.presentAt name second)) =
      observed widen (Samples.presentAt name (first ++ second)) := by
  rw [mergeUnlessNull, isNull_observed_presentAt, isNull_observed_presentAt, Samples.presentAt_append]
  by_cases left : Samples.presentAt name first = []
  · simp [left]
  · by_cases right : Samples.presentAt name second = []
    · simp [left, right]
    · simp [left, right, joined left right]

theorem optionalAt_append {name : Str} (inFirst : Samples.valuesAt name first ≠ [])
    (inSecond : Samples.valuesAt name second ≠ []) :
    Samples.optionalAt name (first ++ second) =
      (Samples.optionalAt name first || Samples.optionalAt name second ||
        ((Samples.presentAt name first).isEmpty != (Samples.presentAt name second).isEmpty)) := by
  have flags : ∀ m₁ n₁ e₁ m₂ n₂ e₂ : Bool, (e₁ = true → n₁ = true) → (e₂ = true → n₂ = true) →
      (m₁ || m₂ || (n₁ || n₂) && !(e₁ && e₂)) =
        (m₁ || n₁ && !e₁ || (m₂ || n₂ && !e₂) || (e₁ != e₂)) := by decide
  simp only [Samples.optionalAt, Samples.missingAt_append, Samples.valuesAt_append, List.any_append,
    Samples.isEmpty_presentAt_append]
  apply flags
  · intro nothing
    exact Samples.any_isNull_or_present inFirst (List.isEmpty_iff.mp nothing)
  · intro nothing
    exact Samples.any_isNull_or_present inSecond (List.isEmpty_iff.mp nothing)

theorem lookup_merge_observedFields {name : Str}
    (objects : first.any Value.isObject = true) (others : second.any Value.isObject = true)
    (supported : ∀ v ∈ first, v.Supported) (valid : ∀ v ∈ second, v.Supported)
    (joined : Samples.presentAt name first ≠ [] → Samples.presentAt name second ≠ [] →
      merge widen (observed widen (Samples.presentAt name first))
          (observed widen (Samples.presentAt name second)) =
        observed widen (Samples.presentAt name first ++ Samples.presentAt name second)) :
    mergeEntries widen ((observedFields widen first).lookup name)
        ((observedFields widen second).lookup name) =
      (observedFields widen (first ++ second)).lookup name := by
  have both : ∀ v ∈ first ++ second, v.Supported := by
    intro v here
    exact (List.mem_append.mp here).elim (supported v) (valid v)
  simp only [lookup_observedFields, Samples.mem_names supported, Samples.mem_names valid,
    Samples.mem_names both, Samples.valuesAt_append]
  by_cases inFirst : Samples.valuesAt name first = []
  · have lacking := Samples.missingAt_of_not_mem objects inFirst
    by_cases inSecond : Samples.valuesAt name second = []
    · simp [inFirst, inSecond, mergeEntries]
    · simp [inFirst, inSecond, mergeEntries, Samples.presentAt, Samples.valuesAt_append,
        Samples.optionalAt, Samples.missingAt_append, lacking]
  · by_cases inSecond : Samples.valuesAt name second = []
    · have lacking := Samples.missingAt_of_not_mem others inSecond
      simp [inFirst, inSecond, mergeEntries, Samples.presentAt, Samples.valuesAt_append,
        Samples.optionalAt, Samples.missingAt_append, lacking]
    · simp [inFirst, inSecond, mergeEntries, mergeFields_eq, mergeUnlessNull_observed joined,
        optionalAt_append inFirst inSecond, isNull_observed_presentAt]

theorem mergeObjects_observedFields
    (objects : first.any Value.isObject = true) (others : second.any Value.isObject = true)
    (supported : ∀ v ∈ first, v.Supported) (valid : ∀ v ∈ second, v.Supported)
    (joined : ∀ name, Samples.presentAt name first ≠ [] → Samples.presentAt name second ≠ [] →
      merge widen (observed widen (Samples.presentAt name first))
          (observed widen (Samples.presentAt name second)) =
        observed widen (Samples.presentAt name first ++ Samples.presentAt name second)) :
    mergeObjects widen (observedFields widen first) (observedFields widen second) =
      observedFields widen (first ++ second) := by
  apply Entries.eq_of_keys_of_lookup
    (nodup_keys_mergeObjects (nodup_keys_observedFields first) (nodup_keys_observedFields second))
  · rw [keys_mergeObjects, keys_observedFields, keys_observedFields, keys_observedFields,
      Samples.names_append]
    congr 1
    apply List.filter_congr
    intro name _
    rw [lookup_observedFields]
    by_cases present : name ∈ Samples.names first <;> simp [present]
  · intro name
    rw [lookup_mergeObjects]
    exact lookup_merge_observedFields objects others supported valid (joined name)

theorem merge_variantOf_object
    (supported : ∀ v ∈ first, v.Supported) (valid : ∀ v ∈ second, v.Supported)
    (joined : ∀ name, Samples.presentAt name first ≠ [] → Samples.presentAt name second ≠ [] →
      merge widen (observed widen (Samples.presentAt name first))
          (observed widen (Samples.presentAt name second)) =
        observed widen (Samples.presentAt name first ++ Samples.presentAt name second)) :
    Option.merge (merge widen) (variantOfAll widen first .object)
        (variantOfAll widen second .object) =
      variantOfAll widen (first ++ second) .object := by
  have absent : ∀ samples, samples.any Value.isObject = false → ∀ name,
      Samples.presentAt name samples = [] ∧ Samples.valuesAt name samples = [] := by
    intro samples none_left name
    have values := Samples.valuesAt_of_no_object none_left name
    exact ⟨by rw [Samples.presentAt, values]; rfl, values⟩
  simp only [variantOfAll, variantOf, List.any_append]
  cases inFirst : first.any Value.isObject with
  | false =>
    simp [Samples.names_append, Samples.names_of_no_object inFirst, Samples.presentAt_append,
      Samples.optionalAt, Samples.missingAt_append, Samples.valuesAt_append, absent first inFirst,
      Samples.missingAt_of_no_object inFirst]
  | true =>
    cases inSecond : second.any Value.isObject with
    | false =>
      simp [Samples.names_append, Samples.names_of_no_object inSecond, Samples.presentAt_append,
        Samples.optionalAt, Samples.missingAt_append, Samples.valuesAt_append, absent second inSecond,
        Samples.missingAt_of_no_object inSecond]
    | true =>
      simp only [Bool.or_self, if_true, Option.merge_some_some, Option.some.injEq]
      change merge widen (.object (observedFields widen first)) (.object (observedFields widen second)) =
        .object (observedFields widen (first ++ second))
      rw [merge_objects, mergeObjects_observedFields inFirst inSecond supported valid joined]

/-- The shape of two parts merged is the shape of the whole. -/
theorem merge_observed (supported : ∀ v ∈ first, v.Supported) (valid : ∀ v ∈ second, v.Supported)
    (some_first : first ≠ []) (some_second : second ≠ []) :
    merge widen (observed widen first) (observed widen second) =
      observed widen (first ++ second) := by
  induction first using observed.induct generalizing second with
  | case1 => exact absurd rfl some_first
  | case2 sample rest ihItems ihPresent =>
    have left : WellFormed widen (observed widen (sample :: rest)) := wellFormed_observed supported
    have right : WellFormed widen (observed widen second) := wellFormed_observed valid
    have both : ∀ v ∈ sample :: rest ++ second, v.Supported := by
      intro v here
      exact (List.mem_append.mp here).elim (supported v) (valid v)
    have items := ihItems (Samples.supported_items supported)
      (Samples.supported_items valid)
    have present := fun name => ihPresent name
      (Samples.supported_presentAt supported name) (Samples.supported_presentAt valid name)
    -- Both sides are well-formed, so they need only have the same member of each family.
    apply eq_of_member (wellFormed_merge left right) (wellFormed_observed both)
    intro φ
    rw [member_merge left right, member_observed some_first, member_observed some_second,
      member_observed (by simp)]
    by_cases listed : φ ∈ families widen
    · rw [if_pos listed, if_pos listed, if_pos listed]
      cases φ with
      | primitive kind => cases kind <;> exact merge_ifAny (merge_self (.primitive _)) _
      | number =>
        cases widen with
        | true => exact merge_numbers
        | false => simp [families] at listed
      | array => exact merge_variantOf_array items
      | object => exact merge_variantOf_object supported valid present
      | union => rfl
      | reference name => rfl
    · simp [listed]

end Append

end Shape

end SampleTypes
