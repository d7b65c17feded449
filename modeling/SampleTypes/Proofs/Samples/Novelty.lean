import SampleTypes.Proofs.Coverage
import SampleTypes.Proofs.Shape.CanonicalUnions

/-! Values that teach nothing new. With integers widened, further values conform to the shape of some
samples exactly if their observation leaves that shape as it is, as long as no integral number is too
large to count as an integer. -/

namespace SampleTypes

namespace Value

/-- Every integral number, at any depth, is at most `2 ^ 53 - 1` in magnitude. -/
inductive Safe : Value → Prop where
  | null : Safe .null
  | bool (b : Bool) : Safe (.bool b)
  | int {i : Int} (small : i.natAbs ≤ 2 ^ 53 - 1) : Safe (.int i)
  | float {x : Binary64} (small : ∀ i, x.toInt? = some i → i.natAbs ≤ 2 ^ 53 - 1) : Safe (.float x)
  | string (s : Str) : Safe (.string s)
  | list {items : List Value} (each : ∀ v ∈ items, Safe v) : Safe (.list items)
  | object {entries : List (Key × Value)} (each : ∀ entry ∈ entries, Safe entry.2) :
      Safe (.object entries)

/-- The family of the variants that a value may conform to. -/
def family : Value → Family
  | .null => .primitive .null
  | .bool _ => .primitive .boolean
  | .int _ | .float _ => .number
  | .string _ => .primitive .string
  | .list _ => .array
  | .object _ => .object
  | .foreign _ => .union

theorem family_of_isNumber {v : Value} (number : v.isNumber = true) : v.family = .number := by
  cases v <;> first | rfl | cases number

theorem isFloat_of_safe {v : Value} (safe : v.Safe) (number : v.isNumber = true) :
    v.isFloat = !v.toInt?.isSome := by
  have integral : v.isInteger = v.toInt?.isSome := by
    rw [isInteger]
    cases found : v.toInt? with
    | none => rfl
    | some i =>
      cases safe with
      | int small => cases found; simpa using small
      | float small => simpa using small i found
      | _ => cases found
  rw [isFloat, number, integral, Bool.true_and]

end Value

namespace Samples

variable {samples : List Value}

theorem safe_items (safe : ∀ v ∈ samples, v.Safe) : ∀ v ∈ items samples, v.Safe := by
  intro w here
  obtain ⟨v, member, inside⟩ := List.mem_flatMap.mp here
  cases safe v member with
  | list each => exact each w inside
  | _ => cases inside

theorem safe_presentAt (safe : ∀ v ∈ samples, v.Safe) (name : Str) :
    ∀ v ∈ presentAt name samples, v.Safe := by
  intro w here
  obtain ⟨v, member, found⟩ := List.mem_filterMap.mp (List.mem_filter.mp here).1
  have inside := Entries.mem_of_lookup found
  cases safe v member with
  | object each => exact each _ inside
  | _ => cases inside

end Samples

open Samples (items valuesAt presentAt missingAt optionalAt)

namespace Shape

variable {samples others : List Value}

/-! Which variant a value conforms to. -/

theorem family_of_conforms {v : Value} {s : Shape} (conforms : Conforms [] v s)
    (single : s.isUnion = false) : v.family = s.family true := by
  cases conforms with
  | @primitive _ kind matched => cases kind <;> cases v <;> first | rfl | cases matched
  | array | object => rfl
  | reference resolved => cases resolved
  | union => cases single

theorem exists_variantOfAll (nonempty : samples ≠ []) {v : Value}
    (conforms : Conforms [] v (observed true samples)) :
    ∃ s, variantOfAll true samples v.family = some s ∧ Conforms [] v s := by
  obtain ⟨s, here, chosen⟩ := Conforms.iff_variants.mp conforms
  obtain ⟨φ, listed, found⟩ := (mem_variants_observed nonempty).mp here
  obtain ⟨family, single⟩ := family_variantOf listed found
  refine ⟨s, ?_, chosen⟩
  rw [family_of_conforms chosen single, family, found]

/-- Every value conforms to the variant of its family in the shape of the samples. -/
def Covers (samples others : List Value) : Prop :=
  ∀ v ∈ others, ∃ s, variantOfAll true samples v.family = some s ∧ Conforms [] v s

namespace Covers

variable {name : Str}

theorem any_append (covers : Covers samples others) {test : Value → Bool} {φ : Family}
    (kind : ∀ v, test v = true → v.family = φ) {s : Shape}
    (part : variantOfAll true samples φ = if samples.any test then some s else none) :
    (samples ++ others).any test = samples.any test := by
  rw [List.any_append, Bool.or_eq_left_iff_imp, List.any_eq_true]
  rintro ⟨v, here, passed⟩
  obtain ⟨_, found, _⟩ := covers v here
  rw [kind v passed, part, Option.ite_none_right_eq_some] at found
  exact found.1

theorem any_isNumber_append (covers : Covers samples others) :
    (samples ++ others).any Value.isNumber = samples.any Value.isNumber :=
  covers.any_append (fun _ => Value.family_of_isNumber) variantOfAll_number

theorem any_isFloat_append (covers : Covers samples others) (safe : ∀ v ∈ others, v.Safe) :
    (samples ++ others).any Value.isFloat = samples.any Value.isFloat := by
  rw [List.any_append, Bool.or_eq_left_iff_imp, List.any_eq_true]
  rintro ⟨v, here, float⟩
  have number : v.isNumber = true := (Bool.and_eq_true_iff.mp float).1
  obtain ⟨s, found, conforms⟩ := covers v here
  rw [Value.family_of_isNumber number, variantOfAll_number, Option.ite_none_right_eq_some, Option.some.injEq] at found
  by_contra whole
  rw [← found.2, if_neg whole, Conforms.primitive_iff, matchesKind] at conforms
  rw [Value.isFloat_of_safe (safe v here) number, conforms] at float
  cases float

theorem conforms_items (covers : Covers samples others) :
    ∀ item ∈ items others, Conforms [] item (observed true (items samples)) := by
  intro item here
  obtain ⟨v, member, inside⟩ := List.mem_flatMap.mp here
  obtain ⟨s, found, conforms⟩ := covers v member
  cases v with
  | list _ =>
    rw [Value.family, variantOfAll_array, Option.ite_none_right_eq_some, Option.some.injEq] at found
    rw [← found.2, Conforms.array_iff] at conforms
    exact conforms item inside
  | _ => cases inside

theorem conforms_object (covers : Covers samples others) {entries : List (Key × Value)}
    (here : .object entries ∈ others) :
    Conforms [] (.object entries) (.object (observedFields true samples)) := by
  obtain ⟨s, found, conforms⟩ := covers _ here
  rw [Value.family, variantOfAll_object, Option.ite_none_right_eq_some, Option.some.injEq] at found
  exact found.2 ▸ conforms

theorem mem_names (covers : Covers samples others) {v w : Value} (here : v ∈ others)
    (found : v.field? name = some w) : name ∈ Samples.names samples := by
  have inside := Entries.mem_of_lookup found
  cases v with
  | object entries =>
    have known := (Conforms.object_iff.mp (covers.conforms_object here)).1 _ inside
    rwa [Key.isIn, Entries.lookup_isSome, keys_observedFields] at known
  | _ => cases inside

theorem fits (covers : Covers samples others) (occurs : name ∈ Samples.names samples) {v : Value}
    (here : v ∈ others) (object : v.isObject = true) :
    Fits [] v.entries
      (name, ⟨observed true (presentAt name samples), optionalAt name samples⟩) := by
  cases v with
  | object entries =>
    exact (Conforms.object_iff.mp (covers.conforms_object here)).2 _
      (List.mem_map.mpr ⟨name, occurs, rfl⟩)
  | _ => cases object

theorem conforms_field (covers : Covers samples others) {v w : Value} (here : v ∈ others)
    (found : v.field? name = some w) (needed : (w.isNull && optionalAt name samples) = false) :
    Conforms [] w (observed true (presentAt name samples)) := by
  have object : v.isObject = true := by
    have inside := Entries.mem_of_lookup found
    cases v with
    | object entries => rfl
    | _ => cases inside
  exact (covers.fits (covers.mem_names here found) here object).2 w found needed

theorem conforms_presentAt (covers : Covers samples others) :
    ∀ w ∈ presentAt name others, Conforms [] w (observed true (presentAt name samples)) := by
  intro w here
  obtain ⟨v, member, found⟩ := List.mem_filterMap.mp (List.mem_filter.mp here).1
  apply covers.conforms_field member found
  rw [Samples.not_null_of_presentAt here, Bool.false_and]

theorem missingAt_of_required (covers : Covers samples others)
    (occurs : name ∈ Samples.names samples) (required : optionalAt name samples = false) :
    missingAt name others = false := by
  rw [missingAt, List.any_eq_false]
  intro v here lacking
  obtain ⟨object, absent⟩ := Bool.and_eq_true_iff.mp lacking
  have found : (v.field? name).isSome := (covers.fits occurs here object).1 required
  rw [Option.isNone_iff_eq_none.mp absent] at found
  cases found

theorem presentAt_of_required_null (covers : Covers samples others)
    (required : optionalAt name samples = false)
    (null : (valuesAt name others).any Value.isNull = true) : presentAt name samples = [] := by
  obtain ⟨w, here, isNull⟩ := List.any_eq_true.mp null
  obtain ⟨v, member, found⟩ := List.mem_filterMap.mp here
  have conforms := covers.conforms_field member found (by rw [required, Bool.and_false])
  by_contra nonempty
  obtain ⟨s, variant, _⟩ := exists_variantOfAll nonempty conforms
  have family : w.family = .primitive .null := by cases w <;> first | rfl | cases isNull
  rw [family, variantOfAll, variantOf, Option.ite_none_right_eq_some, List.any_eq_true] at variant
  obtain ⟨u, present, uNull⟩ := variant.1
  rw [Samples.not_null_of_presentAt present] at uNull
  cases uNull

theorem presentAt_of_nil (covers : Covers samples others) (nothing : presentAt name samples = []) :
    presentAt name others = [] := by
  by_contra nonempty
  obtain ⟨w, here⟩ := List.exists_mem_of_ne_nil _ nonempty
  have conforms := covers.conforms_presentAt w here
  rw [nothing, observed_nil, Shape.null, Conforms.primitive_iff, matchesKind,
    Samples.not_null_of_presentAt here] at conforms
  cases conforms

theorem optionalAt_append (covers : Covers samples others) (occurs : name ∈ Samples.names samples) :
    optionalAt name (samples ++ others) = optionalAt name samples := by
  -- A field may be missing somewhere (`m`), null somewhere (`n`) and null wherever it stands (`e`), in
  -- the samples or (primed) in the others. What conforms to a required field leaves it required.
  have flags : ∀ m n e m' n' e' : Bool, ((m || n && !e) = false → m' = false) →
      ((m || n && !e) = false → n' = true → e = true) → (e = true → e' = true) →
      (m || m' || (n || n') && !(e && e')) = (m || n && !e) := by decide
  simp only [optionalAt, Samples.missingAt_append, Samples.valuesAt_append, List.any_append,
    Samples.isEmpty_presentAt_append]
  apply flags
  · exact covers.missingAt_of_required occurs
  · intro required null
    exact List.isEmpty_iff.mpr (covers.presentAt_of_required_null required null)
  · intro nothing
    exact List.isEmpty_iff.mpr (covers.presentAt_of_nil (List.isEmpty_iff.mp nothing))

theorem mem_names_append (covers : Covers samples others) (supported : ∀ v ∈ samples, v.Supported)
    (valid : ∀ v ∈ others, v.Supported) :
    name ∈ Samples.names (samples ++ others) ↔ name ∈ Samples.names samples := by
  have both := List.forall_mem_append.mpr ⟨supported, valid⟩
  rw [Samples.mem_names both, Samples.valuesAt_append]
  constructor
  · intro occurs
    by_cases inFirst : valuesAt name samples = []
    · rw [inFirst, List.nil_append] at occurs
      obtain ⟨w, here⟩ := List.exists_mem_of_ne_nil _ occurs
      obtain ⟨v, member, found⟩ := List.mem_filterMap.mp here
      exact covers.mem_names member found
    · exact (Samples.mem_names supported).mpr inFirst
  · intro occurs
    exact List.append_ne_nil_of_left_ne_nil ((Samples.mem_names supported).mp occurs) _

theorem normal_objects_append (covers : Covers samples others)
    (supported : ∀ v ∈ samples, v.Supported) (valid : ∀ v ∈ others, v.Supported)
    (present : ∀ name, (observed true (presentAt name (samples ++ others))).normal =
      (observed true (presentAt name samples)).normal) :
    (Shape.object (observedFields true (samples ++ others))).normal =
      (Shape.object (observedFields true samples)).normal := by
  rw [tidying_normal.object_eq_iff (nodup_keys_observedFields _) (nodup_keys_observedFields _)]
  intro name
  rw [lookup_observedFields, lookup_observedFields]
  by_cases occurs : name ∈ Samples.names samples
  · rw [if_pos ((covers.mem_names_append supported valid).mpr occurs), if_pos occurs]
    exact congrArg some (map_normal_eq.mpr ⟨present name, covers.optionalAt_append occurs⟩)
  · rw [if_neg (mt (covers.mem_names_append supported valid).mp occurs), if_neg occurs]

/-! Covered values leave every variant as it is. -/

theorem variantOfAll_append_of_kind (covers : Covers samples others) (test : Value → Bool)
    {φ : Family} {s : Shape} (kind : ∀ v, test v = true → v.family = φ)
    (part : ∀ values, variantOfAll true values φ = if values.any test then some s else none) :
    variantOfAll true (samples ++ others) φ = variantOfAll true samples φ := by
  rw [part, part, covers.any_append kind (part samples)]

theorem variantOfAll_append_array (covers : Covers samples others)
    (items : (observed true (items (samples ++ others))).normal =
      (observed true (items samples)).normal) :
    (variantOfAll true (samples ++ others) .array).map normal =
      (variantOfAll true samples .array).map normal := by
  have lists : (samples ++ others).any Value.isList = samples.any Value.isList := by
    refine covers.any_append (fun v list => ?_) variantOfAll_array
    cases v <;> first | rfl | cases list
  rw [variantOfAll_array, variantOfAll_array, lists]
  split
  · simp only [Option.map_some, normal, items]
  · rfl

theorem variantOfAll_append_object (covers : Covers samples others)
    (supported : ∀ v ∈ samples, v.Supported) (valid : ∀ v ∈ others, v.Supported)
    (present : ∀ name, (observed true (presentAt name (samples ++ others))).normal =
      (observed true (presentAt name samples)).normal) :
    (variantOfAll true (samples ++ others) .object).map normal =
      (variantOfAll true samples .object).map normal := by
  have objects : (samples ++ others).any Value.isObject = samples.any Value.isObject := by
    refine covers.any_append (fun v object => ?_) variantOfAll_object
    cases v <;> first | rfl | cases object
  rw [variantOfAll_object, variantOfAll_object, objects]
  split
  · exact congrArg some (covers.normal_objects_append supported valid present)
  · rfl

theorem variantOfAll_append (covers : Covers samples others)
    (supported : ∀ v ∈ samples, v.Supported) (valid : ∀ v ∈ others, v.Supported)
    (safe : ∀ v ∈ others, v.Safe)
    (items : (observed true (items (samples ++ others))).normal =
      (observed true (items samples)).normal)
    (present : ∀ name, (observed true (presentAt name (samples ++ others))).normal =
      (observed true (presentAt name samples)).normal) {φ : Family} (listed : φ ∈ families true) :
    (variantOfAll true (samples ++ others) φ).map normal =
      (variantOfAll true samples φ).map normal := by
  simp only [families, if_true, List.mem_append, List.mem_cons, List.not_mem_nil, or_false] at listed
  rcases listed with (rfl | rfl) | rfl | rfl | rfl | rfl
  · rw [covers.variantOfAll_append_of_kind Value.isBoolean _ fun _ => rfl]
    intro v boolean
    cases v <;> first | rfl | cases boolean
  · rw [variantOfAll_number, variantOfAll_number, covers.any_isNumber_append,
      covers.any_isFloat_append safe]
  · rw [covers.variantOfAll_append_of_kind Value.isString _ fun _ => rfl]
    intro v string
    cases v <;> first | rfl | cases string
  · exact covers.variantOfAll_append_array items
  · exact covers.variantOfAll_append_object supported valid present
  · rw [covers.variantOfAll_append_of_kind Value.isNull _ fun _ => rfl]
    intro v null
    cases v <;> first | rfl | cases null

end Covers

theorem observed_of_nulls (null : ∀ v ∈ samples, v = .null) : observed true samples = .null := by
  induction samples with
  | nil => exact observed_nil
  | cons v rest ih =>
    obtain ⟨rfl, later⟩ := List.forall_mem_cons.mp null
    have one : observed true [.null] = .null := observed_one .null
    by_cases empty : rest = []
    · rw [empty, one]
    · calc observed true ([.null] ++ rest)
          = merge true (observed true [.null]) (observed true rest) := by
            rw [merge_observed _ _ (List.cons_ne_nil _ _) empty]
            · simp [Value.Supported.null]
            · exact fun v here => later v here ▸ .null
        _ = merge true .null .null := by rw [one, ih later]
        _ = .null := merge_self (.primitive .null)

theorem normal_observed_append (supported : ∀ v ∈ samples, v.Supported)
    (valid : ∀ v ∈ others, v.Supported) (safe : ∀ v ∈ others, v.Safe)
    (conforms : ∀ v ∈ others, Conforms [] v (observed true samples)) :
    (observed true (samples ++ others)).normal = (observed true samples).normal := by
  -- The values in all lists, and those present in a field, conform in turn to what is observed there, so
  -- the induction follows the samples and every variant is the same before and after.
  induction samples using observed.induct generalizing others with
  | case1 =>
    rw [List.nil_append, observed_nil, observed_of_nulls]
    intro v here
    have null := conforms v here
    rw [observed_nil, Shape.null, Conforms.primitive_iff, matchesKind] at null
    cases v <;> first | rfl | cases null
  | case2 sample rest ihItems ihPresent =>
    have nonempty : sample :: rest ≠ [] := List.cons_ne_nil sample rest
    have covers : Covers (sample :: rest) others :=
      fun v here => exists_variantOfAll nonempty (conforms v here)
    have items := ihItems (Samples.supported_items supported) (Samples.supported_items valid)
      (Samples.safe_items safe) covers.conforms_items
    have present := fun name => ihPresent name (Samples.supported_presentAt supported name)
      (Samples.supported_presentAt valid name) (Samples.safe_presentAt safe name)
      covers.conforms_presentAt
    simp only [← Samples.items_append, ← Samples.presentAt_append] at items present
    have both := List.forall_mem_append.mpr ⟨supported, valid⟩
    rw [tidying_normal.eq_iff_member (wellFormed_observed both) (wellFormed_observed supported)]
    intro φ
    rw [member_observed (List.append_ne_nil_of_left_ne_nil nonempty others), member_observed nonempty]
    by_cases listed : φ ∈ families true
    · rw [if_pos listed, if_pos listed]
      exact covers.variantOfAll_append supported valid safe items present listed
    · rw [if_neg listed, if_neg listed]

/-- Further values conform to the shape of some samples exactly if all together have that shape. -/
theorem conforms_iff_normal_append (supported : ∀ v ∈ samples, v.Supported)
    (valid : ∀ v ∈ others, v.Supported) (safe : ∀ v ∈ others, v.Safe) :
    (∀ v ∈ others, Conforms [] v (observed true samples)) ↔
      (observed true (samples ++ others)).normal = (observed true samples).normal := by
  constructor
  · exact normal_observed_append supported valid safe
  · intro equal v here
    have both := List.forall_mem_append.mpr ⟨supported, valid⟩
    rw [← Conforms.normal_iff, ← equal, Conforms.normal_iff]
    exact conforms_observed both v (List.mem_append_right samples here)

end Shape

open Shape (observed infer inferAll merge)

/-- Validation accepts a value exactly if merging the shape of the value leaves the shape as it is. -/
theorem isValid_eq_merge_beq {samples : List Value} (supported : ∀ v ∈ samples, v.Supported)
    (nonempty : samples ≠ []) {v : Value} (valid : v.Supported) (safe : v.Safe) (rootName : String) :
    ∃ s t, inferAll true samples = .ok s ∧ infer true v = .ok t ∧
      Graph.isValid ⟨rootName, s, []⟩ v = .ok (merge true s t == s) := by
  refine ⟨_, _, Shape.inferAll_observed supported nonempty, Shape.infer_eq_observed valid, ?_⟩
  have whole : ∀ w ∈ samples ++ [v], w.Supported :=
    List.forall_mem_append.mpr ⟨supported, by simpa using valid⟩
  have before : (observed true samples).Ranked := (Shape.wellFormed_observed supported).ranked
  have after : (observed true (samples ++ [v])).Ranked := (Shape.wellFormed_observed whole).ranked
  have resolved : Shape.Resolved [] (observed true samples) := by
    intro name here
    rw [before.references_eq_nil] at here
    cases here
  have closed : Table.Closed [] := by
    intro _ _ found
    cases found
  rw [Graph.isValid_eq_ok closed resolved]
  calc (merge true (observed true samples) (observed true [v]) == observed true samples) = true
      ↔ (observed true (samples ++ [v]) == observed true samples) = true := by
        rw [Shape.merge_observed supported (by simpa using valid) nonempty (List.cons_ne_nil v [])]
    _ ↔ (observed true (samples ++ [v])).normal = (observed true samples).normal :=
        Shape.beq_iff_normal after.buildable before.buildable
    _ ↔ ∀ w ∈ [v], Conforms [] w (observed true samples) :=
        (Shape.conforms_iff_normal_append supported (by simpa using valid) (by simpa using safe)).symm
    _ ↔ Conforms [] v (observed true samples) := List.forall_mem_singleton

/-- An integer among floats, and a list of nulls where only an empty list was seen. -/
theorem isValid_eq_merge_beq_of_placeholder :
    let first : Value := .object [(.name "n", .float ⟨0x3FE0000000000000⟩), (.name "k", .list [])]
    let second : Value := .object [(.name "n", .int 2)]
    let v : Value := .object [(.name "k", .list [.null]), (.name "n", .int 7)]
    ∃ s t, inferAll true [first, second] = .ok s ∧ infer true v = .ok t ∧
      Graph.isValid ⟨"Root", s, []⟩ v = .ok (merge true s t == s) ∧ (merge true s t == s) = true := by
  intro first second v
  have one : first.Supported := .object (by decide) (by simp) (by
    simpa [Value.supported_list] using Value.Supported.float (by decide))
  have two : second.Supported := .object (by decide) (by simp) (by simp [Value.Supported.int])
  have valid : v.Supported := .object (by decide) (by simp) (by
    simp [Value.supported_list, Value.Supported.null, Value.Supported.int])
  have nulls : Value.Safe (.list [.null]) := .list (by simp [Value.Safe.null])
  have safe : v.Safe := .object (by simpa [nulls] using Value.Safe.int (by decide))
  obtain ⟨s, t, inferred, seen, agrees⟩ := @isValid_eq_merge_beq [first, second]
    (by simp [one, two]) (List.cons_ne_nil _ _) v valid safe "Root"
  have shape : inferAll true [first, second] =
      .ok (.object [("n", ⟨.primitive .float, false⟩), ("k", ⟨.array .null true, true⟩)]) := rfl
  have teaches : infer true v =
      .ok (.object [("k", ⟨.array .null false, false⟩), ("n", ⟨.primitive .integer, false⟩)]) := rfl
  rw [shape, Except.ok.injEq] at inferred
  rw [teaches, Except.ok.injEq] at seen
  subst inferred seen
  exact ⟨_, _, shape, teaches, agrees, rfl⟩

end SampleTypes
