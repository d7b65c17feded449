import SampleTypes.Proofs.FirstOccurrences
import SampleTypes.Proofs.Samples.Observed
import SampleTypes.Proofs.Shape.FieldNulls

/-! The shape of supported samples is well-formed, its members are the variants of the kinds that occur
among the samples, and no field of it has a union with null for its shape. -/

namespace SampleTypes

namespace Samples

theorem items_append (first second : List Value) :
    items (first ++ second) = items first ++ items second :=
  List.flatMap_append

theorem valuesAt_append (name : Str) (first second : List Value) :
    valuesAt name (first ++ second) = valuesAt name first ++ valuesAt name second :=
  List.filterMap_append

theorem presentAt_append (name : Str) (first second : List Value) :
    presentAt name (first ++ second) = presentAt name first ++ presentAt name second := by
  rw [presentAt, valuesAt_append, List.filter_append]
  rfl

theorem isEmpty_presentAt_append (name : Str) (first second : List Value) :
    (presentAt name (first ++ second)).isEmpty =
      ((presentAt name first).isEmpty && (presentAt name second).isEmpty) := by
  rw [presentAt_append]
  cases presentAt name first <;> rfl

theorem missingAt_append (name : Str) (first second : List Value) :
    missingAt name (first ++ second) = (missingAt name first || missingAt name second) :=
  List.any_append

theorem nodup_names (samples : List Value) : (names samples).Nodup := nodup_eraseDups _

theorem names_append (first second : List Value) :
    names (first ++ second) =
      names first ++ (names second).filter fun name => decide (name ∉ names first) := by
  rw [names, List.flatMap_append, List.eraseDups_append, List.removeAll, eraseDups_filter]
  congr 1
  apply List.filter_congr
  intro name _
  have occurs : name ∈ names first ↔
      name ∈ first.flatMap fun v => v.entries.map fun entry => entry.1.text := List.mem_eraseDups
  by_cases present : name ∈ names first
  · simp [present, occurs.mp present]
  · simp [present, mt occurs.mpr present]

end Samples

namespace Value

theorem supported_items {v : Value} (supported : v.Supported) : ∀ w ∈ v.items, w.Supported := by
  cases supported with
  | list each => exact each
  | _ => exact List.forall_mem_nil _

theorem supported_of_field? {name : Str} {v w : Value} (supported : v.Supported)
    (found : v.field? name = some w) : w.Supported := by
  have here := Entries.mem_of_lookup found
  cases supported with
  | object distinct named each => exact each _ here
  | _ => cases here

end Value

namespace Samples

variable {samples : List Value}

theorem supported_items (supported : ∀ v ∈ samples, v.Supported) :
    ∀ v ∈ items samples, v.Supported := by
  intro w here
  obtain ⟨v, member, inside⟩ := List.mem_flatMap.mp here
  exact Value.supported_items (supported v member) w inside

theorem supported_presentAt (supported : ∀ v ∈ samples, v.Supported) (name : Str) :
    ∀ v ∈ presentAt name samples, v.Supported := by
  intro w here
  obtain ⟨v, member, found⟩ := List.mem_filterMap.mp (List.mem_filter.mp here).1
  exact Value.supported_of_field? (supported v member) found

theorem not_null_of_presentAt {name : Str} {v : Value} (here : v ∈ presentAt name samples) :
    v.isNull = false := by
  simpa using (List.mem_filter.mp here).2

end Samples

namespace Shape

variable {widen : Bool}

def variantOfAll (widen : Bool) (samples : List Value) (φ : Family) : Option Shape :=
  variantOf samples (observed widen (Samples.items samples))
    (fun name => observed widen (Samples.presentAt name samples)) φ

theorem variantOfAll_number {samples : List Value} : variantOfAll widen samples .number =
    if samples.any Value.isNumber then
      some (.primitive (if samples.any Value.isFloat then .float else .integer))
    else none := rfl

theorem variantOfAll_array {samples : List Value} : variantOfAll widen samples .array =
    if samples.any Value.isList then
      some (.array (observed widen (Samples.items samples)) (Samples.items samples).isEmpty)
    else none := rfl

theorem observed_nil : observed widen [] = .null := by rw [observed]

theorem observed_of_ne_nil {samples : List Value} (nonempty : samples ≠ []) :
    observed widen samples = standing ((families widen).filterMap (variantOfAll widen samples)) := by
  cases samples with
  | nil => exact absurd rfl nonempty
  | cons sample rest =>
    rw [observed]
    rfl

/-! The variants of the samples, kind by kind. -/

section Variants

variable {samples : List Value} {element : Shape} {shapeAt : Str → Shape} {φ : Family} {s : Shape}

theorem family_variantOf (listed : φ ∈ families widen)
    (found : variantOf samples element shapeAt φ = some s) :
    s.family widen = φ ∧ s.isUnion = false := by
  cases widen <;> simp only [families, List.mem_append, List.mem_cons, List.not_mem_nil, or_false,
    if_true, Bool.false_eq_true, if_false] at listed
  · rcases listed with (rfl | rfl | rfl) | rfl | rfl | rfl | rfl <;>
      simp only [variantOf, Option.ite_none_right_eq_some, Option.some.injEq] at found <;>
      obtain ⟨_, rfl⟩ := found <;> exact ⟨rfl, rfl⟩
  · rcases listed with (rfl | rfl) | rfl | rfl | rfl | rfl <;>
      simp only [variantOf, Option.ite_none_right_eq_some, Option.some.injEq] at found <;>
      obtain ⟨_, rfl⟩ := found <;> refine ⟨?_, rfl⟩
    all_goals try rfl
    split <;> rfl

theorem wellFormed_variantOf (wellFormed : WellFormed widen element)
    (marked : Samples.items samples = [] → element = .null)
    (fields : ∀ name, WellFormed widen (shapeAt name))
    (found : variantOf samples element shapeAt φ = some s) : WellFormed widen s := by
  unfold variantOf at found
  split at found <;>
    simp only [Option.ite_none_right_eq_some, Option.some.injEq, reduceCtorEq] at found <;>
    obtain ⟨_, rfl⟩ := found
  all_goals try exact .primitive _
  · exact .array wellFormed fun empty => marked (by simpa using empty)
  · apply WellFormed.object
    · rw [Entries.keys, List.map_map]
      simpa [Function.comp_def] using Samples.nodup_names samples
    · intro entry here
      obtain ⟨name, _, rfl⟩ := List.mem_map.mp here
      exact fields name

theorem clearFields_variantOf (items : ClearFields element) (fields : ∀ name, ClearFields (shapeAt name))
    (clear : ∀ name, Clear (shapeAt name))
    (found : variantOf samples element shapeAt φ = some s) : ClearFields s := by
  unfold variantOf at found
  split at found <;>
    simp only [Option.ite_none_right_eq_some, Option.some.injEq, reduceCtorEq] at found <;>
    obtain ⟨_, rfl⟩ := found
  all_goals try exact .primitive _
  · exact .array _ items
  · constructor
    · intro entry here
      obtain ⟨name, _, rfl⟩ := List.mem_map.mp here
      exact clear name
    · intro entry here
      obtain ⟨name, _, rfl⟩ := List.mem_map.mp here
      exact fields name

end Variants

/-- The bounds between which the ranks of a family lie. -/
def familyRanks : Family → Nat × Nat
  | .primitive .boolean => (0, 0)
  | .primitive .integer => (1, 1)
  | .primitive .float => (2, 2)
  | .number => (1, 2)
  | .primitive .string => (3, 3)
  | .array => (4, 4)
  | .object => (5, 5)
  | .reference _ => (6, 6)
  | .primitive .null => (7, 7)
  | .union => (8, 8)

theorem rank_of_family (widen : Bool) (s : Shape) :
    (familyRanks (s.family widen)).1 ≤ s.rank ∧ s.rank ≤ (familyRanks (s.family widen)).2 := by
  cases s with
  | primitive kind => cases widen <;> cases kind <;> decide
  | _ => simp [family, familyRanks, rank, rank?]

theorem families_ordered (widen : Bool) :
    (families widen).Pairwise fun φ ψ => (familyRanks φ).2 < (familyRanks ψ).1 := by
  cases widen <;> decide

theorem nodup_families (widen : Bool) : (families widen).Nodup := by
  cases widen <;> decide

/-! Choosing one shape for each family of a list. -/

section Choice

variable {listed : List Family} {part : Family → Option Shape}

theorem ofFamily_filterMap (distinct : listed.Nodup)
    (own : ∀ φ ∈ listed, ∀ s, part φ = some s → s.family widen = φ) (φ : Family) :
    ofFamily widen φ (listed.filterMap part) = if φ ∈ listed then part φ else none := by
  induction listed with
  | nil => rfl
  | cons ψ rest ih =>
    rw [List.nodup_cons] at distinct
    have later := ih distinct.2 fun χ here => own χ (List.mem_cons_of_mem ψ here)
    cases found : part ψ with
    | none =>
      rw [List.filterMap_cons_none found, later]
      by_cases equal : φ = ψ
      · simp [equal, distinct.1, found]
      · simp [equal]
    | some s =>
      have family := own ψ List.mem_cons_self s found
      rw [List.filterMap_cons_some found]
      by_cases equal : φ = ψ
      · simp [ofFamily, equal, family, found]
      · have skipped : ofFamily widen φ (s :: rest.filterMap part) =
            ofFamily widen φ (rest.filterMap part) := by
          rw [ofFamily, List.find?_cons_of_neg (by simpa [family] using Ne.symm equal)]
          rfl
        simp [skipped, later, equal]

theorem families_filterMap (own : ∀ φ ∈ listed, ∀ s, part φ = some s → s.family widen = φ) :
    (listed.filterMap part).map (family widen) = listed.filter fun φ => (part φ).isSome := by
  induction listed with
  | nil => rfl
  | cons ψ rest ih =>
    have later := ih fun χ here => own χ (List.mem_cons_of_mem ψ here)
    cases found : part ψ with
    | none => simp [found, later]
    | some s => simp [found, later, own ψ List.mem_cons_self s found]

theorem ordered_filterMap (ordered : listed.Pairwise fun φ ψ => (familyRanks φ).2 < (familyRanks ψ).1)
    (own : ∀ φ ∈ listed, ∀ s, part φ = some s → s.family widen = φ) :
    (listed.filterMap part).Pairwise (precedes · ·) := by
  rw [List.pairwise_filterMap]
  apply ordered.imp_of_mem
  intro φ ψ here there below s first t second
  apply precedes_of_rank_lt
  have upper := (rank_of_family widen s).2
  have lower := (rank_of_family widen t).1
  rw [own φ here s first] at upper
  rw [own ψ there t second] at lower
  omega

end Choice

theorem variants_standing {shapes : List Shape} (single : ∀ s ∈ shapes, s.isUnion = false) :
    (standing shapes).variants = shapes := by
  rcases shapes with _ | ⟨s, _ | ⟨t, rest⟩⟩
  · rfl
  · exact WellFormed.variants_of_single (single s List.mem_cons_self)
  · rfl

theorem wellFormed_standing {shapes : List Shape} (separate : Separate widen shapes)
    (ordered : shapes.Pairwise (precedes · ·)) (nonempty : shapes ≠ []) :
    WellFormed widen (standing shapes) := by
  rcases shapes with _ | ⟨s, _ | ⟨t, rest⟩⟩
  · exact absurd rfl nonempty
  · exact separate.shapes s List.mem_cons_self
  · exact .union (by simp) separate.single separate.families ordered separate.shapes

theorem variantOf_of_mem (widen : Bool) {samples : List Value} {v : Value} (supported : v.Supported)
    (here : v ∈ samples) (element : Shape) (shapeAt : Str → Shape) :
    ∃ φ ∈ families widen, (variantOf samples element shapeAt φ).isSome ∧
      (φ = .primitive .null → v.isNull = true) := by
  have any : ∀ {test : Value → Bool}, test v = true → samples.any test = true :=
    fun passed => List.any_eq_true.mpr ⟨v, here, passed⟩
  have number : v.isNumber = true → ∃ φ ∈ families widen,
      (variantOf samples element shapeAt φ).isSome ∧ (φ = .primitive .null → v.isNull = true) := by
    intro passed
    cases widen with
    | true => exact ⟨.number, by simp [families], by simp only [variantOf, any passed]; rfl, by simp⟩
    | false =>
      cases integer : v.isInteger with
      | true =>
        exact ⟨.primitive .integer, by simp [families],
          by simp only [variantOf, any integer]; rfl, by simp⟩
      | false =>
        have float : v.isFloat = true := by rw [Value.isFloat, passed, integer]; rfl
        exact ⟨.primitive .float, by simp [families], by simp only [variantOf, any float]; rfl, by simp⟩
  cases supported with
  | null =>
    have passed : samples.any Value.isNull = true := any rfl
    exact ⟨.primitive .null, by simp [families], by simp only [variantOf, passed]; rfl, fun _ => rfl⟩
  | bool b =>
    have passed : samples.any Value.isBoolean = true := any rfl
    exact ⟨.primitive .boolean, by simp [families], by simp only [variantOf, passed]; rfl, by simp⟩
  | int i => exact number rfl
  | float finite => exact number rfl
  | string s =>
    have passed : samples.any Value.isString = true := any rfl
    exact ⟨.primitive .string, by simp [families], by simp only [variantOf, passed]; rfl, by simp⟩
  | list each =>
    have passed : samples.any Value.isList = true := any rfl
    exact ⟨.array, by simp [families], by simp only [variantOf, passed]; rfl, by simp⟩
  | object distinct named each =>
    have passed : samples.any Value.isObject = true := any rfl
    exact ⟨.object, by simp [families], by simp only [variantOf, passed]; rfl, by simp⟩

section Observed

variable {samples : List Value}

theorem own_variantOfAll :
    ∀ φ ∈ families widen, ∀ s, variantOfAll widen samples φ = some s → s.family widen = φ :=
  fun _ listed _ found => (family_variantOf listed found).1

theorem single_variantsOfAll :
    ∀ s ∈ (families widen).filterMap (variantOfAll widen samples), s.isUnion = false := by
  intro s here
  obtain ⟨φ, listed, found⟩ := List.mem_filterMap.mp here
  exact (family_variantOf listed found).2

theorem variantsOfAll_ne_nil (supported : ∀ v ∈ samples, v.Supported) (nonempty : samples ≠ []) :
    (families widen).filterMap (variantOfAll widen samples) ≠ [] := by
  obtain ⟨v, rest, rfl⟩ := List.exists_cons_of_ne_nil nonempty
  obtain ⟨φ, listed, occurs, _⟩ := variantOf_of_mem widen
    (supported v List.mem_cons_self) List.mem_cons_self
    (observed widen (Samples.items (v :: rest)))
    fun name => observed widen (Samples.presentAt name (v :: rest))
  obtain ⟨s, found⟩ := Option.isSome_iff_exists.mp occurs
  exact List.ne_nil_of_mem (List.mem_filterMap.mpr ⟨φ, listed, found⟩)

theorem wellFormed_observed (supported : ∀ v ∈ samples, v.Supported) :
    WellFormed widen (observed widen samples) := by
  induction samples using observed.induct with
  | case1 => exact observed_nil ▸ .primitive .null
  | case2 sample rest ihItems ihPresent =>
    have items := ihItems (Samples.supported_items supported)
    have present := fun name => ihPresent name (Samples.supported_presentAt supported name)
    rw [observed_of_ne_nil (List.cons_ne_nil sample rest)]
    apply wellFormed_standing _ (ordered_filterMap (families_ordered widen) own_variantOfAll)
      (variantsOfAll_ne_nil supported (List.cons_ne_nil sample rest))
    constructor
    · intro s here
      obtain ⟨φ, _, found⟩ := List.mem_filterMap.mp here
      apply wellFormed_variantOf items _ present found
      intro empty
      rw [empty, observed_nil]
    · exact single_variantsOfAll
    · rw [families_filterMap own_variantOfAll]
      exact (nodup_families widen).filter _

theorem member_observed (nonempty : samples ≠ []) (φ : Family) :
    member widen φ (observed widen samples) =
      if φ ∈ families widen then variantOfAll widen samples φ else none := by
  rw [observed_of_ne_nil nonempty, member, variants_standing single_variantsOfAll,
    ofFamily_filterMap (nodup_families widen) own_variantOfAll]

theorem mem_variants_observed (nonempty : samples ≠ []) {s : Shape} :
    s ∈ (observed widen samples).variants ↔
      ∃ φ ∈ families widen, variantOfAll widen samples φ = some s := by
  rw [observed_of_ne_nil nonempty, variants_standing single_variantsOfAll, List.mem_filterMap]

theorem clear_observed (present : ∀ v ∈ samples, v.isNull = false) :
    Clear (observed widen samples) := by
  cases samples with
  | nil =>
    rw [observed_nil]
    exact clear_of_single rfl
  | cons v rest =>
    intro _ here
    obtain ⟨φ, listed, found⟩ := (mem_variants_observed (List.cons_ne_nil v rest)).mp here
    have null : Shape.null.family widen = .primitive .null := by cases widen <;> rfl
    have absent : (v :: rest).any Value.isNull = false := by simpa using present
    rw [← (family_variantOf listed found).1, null] at found
    simp [variantOfAll, variantOf, absent] at found

theorem clearFields_observed : ClearFields (observed widen samples) := by
  induction samples using observed.induct with
  | case1 => exact observed_nil ▸ .primitive .null
  | case2 sample rest ihItems ihPresent =>
    apply clearFields_of_variants
    intro v here
    obtain ⟨φ, _, found⟩ := (mem_variants_observed (List.cons_ne_nil sample rest)).mp here
    apply clearFields_variantOf ihItems ihPresent _ found
    exact fun name => clear_observed fun v here => Samples.not_null_of_presentAt here

theorem isNull_observed (present : ∀ v ∈ samples, v.isNull = false) (nonempty : samples ≠ []) :
    (observed widen samples).isNull = false := by
  rw [Bool.eq_false_iff]
  intro null
  have absent : samples.any Value.isNull = false := by simpa using present
  have held : member widen (.primitive .null) (observed widen samples) = _ :=
    member_observed nonempty (.primitive .null)
  rw [isNull_iff.mp null, member_null, if_pos rfl] at held
  simp [variantOfAll, variantOf, absent] at held

end Observed

end Shape

end SampleTypes
