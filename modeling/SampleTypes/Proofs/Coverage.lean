import SampleTypes.Proofs.Graph.NamedInstances
import SampleTypes.Proofs.Samples.Inference

/-! What is inferred from samples covers them. Every sample is an instance of the shape, and stays one
when objects get names. -/

namespace SampleTypes

namespace Samples

variable {samples : List Value} {name : Str}

theorem mem_items {v w : Value} (here : v ∈ samples) (inside : w ∈ v.items) : w ∈ items samples :=
  List.mem_flatMap.mpr ⟨v, here, inside⟩

theorem mem_valuesAt {v w : Value} (here : v ∈ samples) (found : v.field? name = some w) :
    w ∈ valuesAt name samples :=
  List.mem_filterMap.mpr ⟨v, here, found⟩

theorem mem_presentAt {v w : Value} (here : v ∈ samples) (found : v.field? name = some w)
    (present : w.isNull = false) : w ∈ presentAt name samples :=
  List.mem_filter.mpr ⟨mem_valuesAt here found, by simp [present]⟩

theorem isSome_field?_of_required (required : optionalAt name samples = false) {v : Value}
    (here : v ∈ samples) (object : v.isObject = true) : (v.field? name).isSome := by
  have nowhere : missingAt name samples = false := (Bool.or_eq_false_iff.mp required).1
  have held := List.any_eq_false.mp nowhere v here
  simpa [object, Option.isSome_iff_ne_none] using held

theorem presentAt_of_required (required : optionalAt name samples = false) {v w : Value}
    (here : v ∈ samples) (found : v.field? name = some w) (null : w.isNull = true) :
    presentAt name samples = [] := by
  have some_null : (valuesAt name samples).any Value.isNull = true :=
    List.any_eq_true.mpr ⟨w, mem_valuesAt here found, null⟩
  have alone := (Bool.or_eq_false_iff.mp required).2
  rw [some_null, Bool.true_and] at alone
  simpa using alone

end Samples

open Samples (items names presentAt optionalAt)

variable {widen : Bool} {table : Table} {samples : List Value}

namespace Shape

theorem conforms_standing {shapes : List Shape} {v : Value} {w : Shape} (here : w ∈ shapes)
    (conforms : Conforms table v w) : Conforms table v (standing shapes) := by
  rcases shapes with _ | ⟨s, _ | ⟨t, rest⟩⟩
  · cases here
  · exact List.mem_singleton.mp here ▸ conforms
  · exact .union here conforms

theorem fits_observedFields
    (present : ∀ name, ∀ w ∈ presentAt name samples,
      Conforms table w (observed widen (presentAt name samples)))
    {entries : List (Key × Value)} (here : .object entries ∈ samples) :
    ∀ field ∈ observedFields widen samples, Fits table entries field := by
  intro field inside
  obtain ⟨name, _, rfl⟩ := List.mem_map.mp inside
  constructor
  · intro required
    exact Samples.isSome_field?_of_required required here rfl
  · intro w found needed
    cases null : w.isNull with
    | false => exact present name w (Samples.mem_presentAt here found null)
    | true =>
      have required : optionalAt name samples = false := by simpa [null] using needed
      rw [Samples.presentAt_of_required required here found null, observed_nil]
      exact .primitive null

theorem isIn_observedFields (supported : ∀ v ∈ samples, v.Supported) {entries : List (Key × Value)}
    (here : .object entries ∈ samples) :
    ∀ entry ∈ entries, entry.1.isIn (observedFields widen samples) = true := by
  intro entry inside
  obtain ⟨_, named, _⟩ := Value.supported_object.mp (supported _ here)
  obtain ⟨name, spelled⟩ := named entry inside
  have occurs : name ∈ names samples := by
    apply List.mem_eraseDups.mpr
    refine List.mem_flatMap.mpr ⟨_, here, List.mem_map.mpr ⟨entry, inside, ?_⟩⟩
    rw [spelled]
    rfl
  rw [spelled, Key.isIn, Entries.lookup_isSome, keys_observedFields]
  exact occurs

theorem matchesKind_integer {v : Value} (integer : v.isInteger = true) :
    matchesKind v .integer = true := by
  rw [Value.isInteger] at integer
  rw [matchesKind]
  cases integral : v.toInt? with
  | none =>
    rw [integral] at integer
    cases integer
  | some i => rfl

theorem matchesKind_float {v : Value} (number : v.isNumber = true) : matchesKind v .float = true := by
  cases v <;> first | rfl | cases number

theorem conforms_number {v : Value} (here : v ∈ samples) (number : v.isNumber = true) :
    ∃ φ ∈ families widen, ∃ w, variantOfAll widen samples φ = some w ∧ Conforms table v w := by
  have any : ∀ {test : Value → Bool}, test v = true → samples.any test = true :=
    fun passed => List.any_eq_true.mpr ⟨v, here, passed⟩
  have float : Conforms table v (.primitive .float) := .primitive (matchesKind_float number)
  cases integer : v.isInteger with
  | true =>
    have whole : Conforms table v (.primitive .integer) := .primitive (matchesKind_integer integer)
    cases widen with
    | true =>
      refine ⟨.number, by simp [families], _, if_pos (any number), ?_⟩
      split
      · exact float
      · exact whole
    | false => exact ⟨.primitive .integer, by simp [families], _, if_pos (any integer), whole⟩
  | false =>
    have fractional : v.isFloat = true := by rw [Value.isFloat, number, integer]; rfl
    cases widen with
    | true =>
      refine ⟨.number, by simp [families], _, if_pos (any number), ?_⟩
      rw [if_pos (any fractional)]
      exact float
    | false => exact ⟨.primitive .float, by simp [families], _, if_pos (any fractional), float⟩

theorem conforms_variant (supported : ∀ v ∈ samples, v.Supported)
    (each : ∀ item ∈ items samples, Conforms table item (observed widen (items samples)))
    (present : ∀ name, ∀ w ∈ presentAt name samples,
      Conforms table w (observed widen (presentAt name samples)))
    {v : Value} (here : v ∈ samples) :
    ∃ φ ∈ families widen, ∃ w, variantOfAll widen samples φ = some w ∧ Conforms table v w := by
  have any : ∀ {test : Value → Bool}, test v = true → samples.any test = true :=
    fun passed => List.any_eq_true.mpr ⟨v, here, passed⟩
  cases supported v here with
  | null => exact ⟨.primitive .null, by simp [families], _, if_pos (any rfl), .primitive rfl⟩
  | bool b => exact ⟨.primitive .boolean, by simp [families], _, if_pos (any rfl), .primitive rfl⟩
  | int i => exact conforms_number here rfl
  | float finite => exact conforms_number here rfl
  | string s => exact ⟨.primitive .string, by simp [families], _, if_pos (any rfl), .primitive rfl⟩
  | list _ =>
    refine ⟨.array, by simp [families], _, if_pos (any rfl), .array _ fun item inside => ?_⟩
    exact each item (Samples.mem_items here inside)
  | object _ _ _ =>
    refine ⟨.object, by simp [families], _, if_pos (any rfl), Conforms.object_iff.mpr ⟨?_, ?_⟩⟩
    · exact isIn_observedFields supported here
    · exact fits_observedFields present here

/-- Every sample conforms to what is observed in all samples. -/
theorem conforms_observed (supported : ∀ v ∈ samples, v.Supported) :
    ∀ v ∈ samples, Conforms table v (observed widen samples) := by
  induction samples using observed.induct with
  | case1 => exact List.forall_mem_nil _
  | case2 sample rest ihItems ihPresent =>
    intro v here
    have each := ihItems (Samples.supported_items supported)
    have present := fun name => ihPresent name (Samples.supported_presentAt supported name)
    obtain ⟨φ, listed, w, found, conforms⟩ := conforms_variant supported each present here
    rw [observed_of_ne_nil (List.cons_ne_nil sample rest)]
    exact conforms_standing (List.mem_filterMap.mpr ⟨φ, listed, found⟩) conforms

end Shape

open Shape (observed inferAll)

/-- Samples have a shape, and what naming makes of it accepts each of them, if digests do not collide. -/
theorem validate_of_inferred {samples : List Value} (supported : ∀ v ∈ samples, v.Supported)
    (nonempty : samples ≠ []) :
    ∃ s, inferAll widen samples = .ok s ∧ (s.CollisionFree → ∀ limit rootName g,
      Graph.ofShape limit s rootName = .ok g → ∀ v ∈ samples, g.validate v = .ok ()) := by
  refine ⟨observed widen samples, (Shape.inferAll_eq_ok supported nonempty).mpr rfl, ?_⟩
  intro free limit rootName g ran v here
  have wellFormed : Shape.WellFormed widen (observed widen samples) :=
    Shape.wellFormed_observed supported
  have ranked := wellFormed.ranked
  obtain ⟨nameOf, named⟩ := names_of_ofShape ranked ran
  have checked := named.check ranked
  have decides := decides_validate (Graph.closed_of_check checked) v (Graph.resolved_of_check checked)
  rw [Graph.validate, decides.eq_ok, named.conforms_root ranked free]
  exact Shape.conforms_observed supported v here

/-- A field that one object lacks and one that is an unsafe integer once, beside a null sample. -/
theorem validate_of_inferred_of_optional :
    let first : Value := .object [(.name "n", .int 1), (.name "k", .list [])]
    let second : Value := .object [(.name "n", .int (2 ^ 53))]
    ∃ s, inferAll true [first, second, .null] = .ok s ∧
      ∃ g, Graph.ofShape defaultSuffixLimit s "Root" = .ok g ∧
        ∀ v ∈ [first, second, .null], g.validate v = .ok () := by
  intro first second
  have one : Value.Supported first :=
    .object (by decide) (by simp) (by simp [Value.Supported.int, Value.Supported.list])
  have two : Value.Supported second := .object (by decide) (by simp) (by simp [Value.Supported.int])
  obtain ⟨s, inferred, covers⟩ := @validate_of_inferred true [first, second, .null]
    (by simp [one, two, Value.Supported.null]) (by simp)
  let fields : Fields := [("n", ⟨.primitive .float, false⟩), ("k", ⟨.array .null true, true⟩)]
  have shape : inferAll true [first, second, .null] = .ok (.union [.object fields, .null]) := rfl
  have known : s = .union [.object fields, .null] := Except.ok.inj (inferred.symm.trans shape)
  subst known
  have free : (Shape.union [.object fields, .null]).CollisionFree := by
    intro o here p there _
    rw [List.mem_singleton.mp here, List.mem_singleton.mp there]
  let g : Graph := ⟨"Root", .union [.reference "Root2", .null], [("Root2", fields)]⟩
  have ran : Graph.ofShape defaultSuffixLimit (.union [.object fields, .null]) "Root" = .ok g := rfl
  exact ⟨_, inferred, g, ran, covers free defaultSuffixLimit "Root" g ran⟩

end SampleTypes
