import SampleTypes.Proofs.Samples.Append

/-! Inference computes the shape that is observed of all samples at once. -/

namespace SampleTypes

namespace Shape

variable {widen : Bool}

/-! One sample. -/

section One

def ofOne (widen : Bool) : Value → Shape
  | .null => .null
  | .bool _ => .primitive .boolean
  | .string _ => .primitive .string
  | .list items => .array (observed widen items) items.isEmpty
  | .object entries => .object (observedFields widen [.object entries])
  | number => .primitive (if number.isInteger then .integer else .float)

theorem observed_number {v : Value} (number : v.isNumber = true) :
    observed widen [v] = .primitive (if v.isInteger then .integer else .float) := by
  rw [observed_of_ne_nil (List.cons_ne_nil v [])]
  cases v with
  | int i =>
    cases integer : (Value.int i).isInteger <;> cases widen <;>
      simp [families, variantOfAll, variantOf, standing, Value.isBoolean, Value.isNumber,
        Value.isString, Value.isList, Value.isObject, Value.isNull, Value.isFloat, integer]
  | float x =>
    cases integer : (Value.float x).isInteger <;> cases widen <;>
      simp [families, variantOfAll, variantOf, standing, Value.isBoolean, Value.isNumber,
        Value.isString, Value.isList, Value.isObject, Value.isNull, Value.isFloat, integer]
  | _ => cases number

theorem observed_one {v : Value} (supported : v.Supported) : observed widen [v] = ofOne widen v := by
  cases number : v.isNumber with
  | true =>
    rw [observed_number number]
    cases v <;> first | rfl | cases number
  | false =>
    have items : Samples.items [v] = v.items := List.append_nil _
    rw [observed_of_ne_nil (List.cons_ne_nil v [])]
    cases supported with
    | int | float => cases number
    | _ =>
      cases widen <;>
        simp [families, variantOfAll, variantOf, standing, ofOne, observedFields, items,
          Value.isBoolean, Value.isNumber, Value.isString, Value.isList, Value.isObject, Value.isNull,
          Value.isInteger, Value.isFloat, Value.toInt?, Value.items]

theorem observed_int (i : Int) : observed widen [.int i] = .primitive (Kind.ofInt i) := by
  rw [observed_number rfl, Kind.ofInt]
  simp only [Value.isInteger, Value.toInt?, Option.any_some, decide_eq_true_eq]
  rfl

theorem observed_float (x : Binary64) : observed widen [.float x] = .primitive (Kind.ofFloat x) := by
  rw [observed_number rfl, Kind.ofFloat]
  cases found : x.toInt? with
  | none => simp [Value.isInteger, Value.toInt?, found]
  | some i =>
    simp only [Value.isInteger, Value.toInt?, found, Option.any_some, decide_eq_true_eq, Kind.ofInt]
    rfl

variable {entries : List (Key × Value)}

theorem names_object (distinct : (Entries.keys entries).Nodup)
    (named : ∀ entry ∈ entries, ∃ name, entry.1 = .name name) :
    Samples.names [.object entries] = entries.map fun entry => entry.1.text := by
  have flat : ([Value.object entries].flatMap fun v => v.entries.map fun entry => entry.1.text) =
      entries.map fun entry => entry.1.text := List.append_nil _
  rw [Samples.names, flat]
  apply eraseDups_of_nodup
  rw [Entries.keys, List.Nodup, List.pairwise_map] at distinct
  rw [List.Nodup, List.pairwise_map]
  apply distinct.imp_of_mem
  intro first second here there differ equal
  obtain ⟨m, spelled⟩ := named first here
  obtain ⟨n, written⟩ := named second there
  rw [spelled, written] at equal differ
  exact differ (congrArg Key.name equal)

theorem valuesAt_object (distinct : (Entries.keys entries).Nodup) {name : Str} {v : Value}
    (here : (.name name, v) ∈ entries) : Samples.valuesAt name [.object entries] = [v] := by
  have found : (Value.object entries).field? name = some v := Entries.lookup_of_mem distinct here
  rw [Samples.valuesAt, List.filterMap_cons_some found, List.filterMap_nil]

/-- A null counts as no value of a field, and both are observed as null. -/
theorem observed_presentAt_object (distinct : (Entries.keys entries).Nodup) {name : Str} {v : Value}
    (here : (.name name, v) ∈ entries) :
    observed widen (Samples.presentAt name [.object entries]) = observed widen [v] := by
  rw [Samples.presentAt, valuesAt_object distinct here]
  cases v with
  | null => rw [observed_one .null]; exact observed_nil
  | _ => rfl

theorem optionalAt_object (distinct : (Entries.keys entries).Nodup) {name : Str} {v : Value}
    (here : (.name name, v) ∈ entries) : Samples.optionalAt name [.object entries] = false := by
  have found : (Value.object entries).field? name = some v := Entries.lookup_of_mem distinct here
  rw [Samples.optionalAt, Samples.presentAt, valuesAt_object distinct here, Samples.missingAt]
  cases null : v.isNull <;> simp [found, null]

theorem observedFields_object (distinct : (Entries.keys entries).Nodup)
    (named : ∀ entry ∈ entries, ∃ name, entry.1 = .name name) :
    observedFields widen [.object entries] =
      entries.map fun entry => (entry.1.text, ⟨observed widen [entry.2], false⟩) := by
  rw [observedFields, names_object distinct named, List.map_map]
  apply List.map_congr_left
  rintro ⟨key, v⟩ here
  obtain ⟨name, rfl⟩ := named _ here
  simp only [Function.comp_apply, Key.text]
  rw [observed_presentAt_object distinct here, optionalAt_object distinct here]

end One

/-! Many samples. -/

theorem foldl_merge_observed {first rest : List Value} (supported : ∀ v ∈ first, v.Supported)
    (others : ∀ v ∈ rest, v.Supported) (nonempty : first ≠ []) :
    (rest.map fun v => observed widen [v]).foldl (merge widen) (observed widen first) =
      observed widen (first ++ rest) := by
  induction rest generalizing first with
  | nil => simp
  | cons v later ih =>
    rw [List.forall_mem_cons] at others
    have one : ∀ w ∈ [v], w.Supported := by simpa using others.1
    have joined : ∀ w ∈ first ++ [v], w.Supported := by
      intro w here
      exact (List.mem_append.mp here).elim (supported w) (one w)
    calc
      ((v :: later).map fun v => observed widen [v]).foldl (merge widen) (observed widen first)
        = (later.map fun v => observed widen [v]).foldl (merge widen)
            (merge widen (observed widen first) (observed widen [v])) := rfl
      _ = (later.map fun v => observed widen [v]).foldl (merge widen)
            (observed widen (first ++ [v])) := by
          rw [merge_observed supported one nonempty (List.cons_ne_nil v [])]
      _ = observed widen (first ++ [v] ++ later) := ih joined others.2 (by simp)
      _ = observed widen (first ++ v :: later) := by rw [List.append_assoc]; rfl

theorem mergeAll?_observed {samples : List Value} (supported : ∀ v ∈ samples, v.Supported)
    (nonempty : samples ≠ []) :
    mergeAll? widen (samples.map fun v => observed widen [v]) = some (observed widen samples) := by
  obtain ⟨v, rest, rfl⟩ := List.exists_cons_of_ne_nil nonempty
  rw [List.forall_mem_cons] at supported
  rw [List.map_cons, mergeAll?, foldl_merge_observed (by simpa using supported.1) supported.2
    (List.cons_ne_nil v [])]
  rfl

theorem inferItems_observed {items : List Value}
    (each : ∀ v ∈ items, infer widen v = .ok (observed widen [v])) (i : Nat) :
    inferItems widen i items = .ok (items.map fun v => observed widen [v]) := by
  induction items generalizing i with
  | nil => rfl
  | cons v rest ih =>
    rw [List.forall_mem_cons] at each
    rw [inferItems, each.1, ih each.2]
    rfl

theorem inferEntries_observed {entries : List (Key × Value)}
    (named : ∀ entry ∈ entries, ∃ name, entry.1 = .name name)
    (each : ∀ entry ∈ entries, infer widen entry.2 = .ok (observed widen [entry.2])) :
    inferEntries widen entries =
      .ok (entries.map fun entry => (entry.1.text, ⟨observed widen [entry.2], false⟩)) := by
  induction entries with
  | nil => rfl
  | cons entry rest ih =>
    obtain ⟨key, v⟩ := entry
    rw [List.forall_mem_cons] at named each
    obtain ⟨name, rfl⟩ := named.1
    rw [inferEntries, each.1, ih named.2 each.2]
    rfl

theorem infer_eq_observed {v : Value} (supported : v.Supported) :
    infer widen v = .ok (observed widen [v]) := by
  induction supported with
  | null => rw [observed_one .null]; rfl
  | bool b => rw [observed_one (.bool b)]; rfl
  | int i => rw [observed_int]; rfl
  | float finite => rw [observed_float, infer, if_pos finite]
  | string s => rw [observed_one (.string s)]; rfl
  | @list items each ih =>
    rw [infer, inferItems_observed ih, observed_one (.list each), ofOne]
    cases items with
    | nil => rw [observed_nil]; rfl
    | cons v rest =>
      have merged : mergeAll? widen _ = _ := mergeAll?_observed each (List.cons_ne_nil v rest)
      simp only [Except.map, ofItems, merged]
      rfl
  | object distinct named each ih =>
    rw [infer, inferEntries_observed named ih, observed_one (.object distinct named each),
      ofOne, observedFields_object distinct named]
    rfl

theorem inferEach_observed {samples : List Value} (supported : ∀ v ∈ samples, v.Supported) (i : Nat) :
    inferEach widen i samples = .ok (samples.map fun v => observed widen [v]) := by
  induction samples generalizing i with
  | nil => rfl
  | cons v rest ih =>
    rw [List.forall_mem_cons] at supported
    rw [inferEach, infer_eq_observed supported.1, ih supported.2]
    rfl

theorem inferAll_eq_ok {samples : List Value} {s : Shape} (supported : ∀ v ∈ samples, v.Supported)
    (nonempty : samples ≠ []) : inferAll widen samples = .ok s ↔ s = observed widen samples := by
  have some_sample : samples.isEmpty = false := by simpa using nonempty
  have merged : inferAll widen samples = .ok (observed widen samples) := by
    rw [inferAll, some_sample, if_neg Bool.false_ne_true, inferEach_observed supported]
    change mergeAll widen (samples.map fun v => observed widen [v]) = _
    rw [mergeAll, mergeAll?_observed supported nonempty]
  rw [merged, Except.ok.injEq]
  exact eq_comm

/-- Merging sample after sample gives the shape that is read off all of them at once. -/
theorem inferAll_observed {samples : List Value} (supported : ∀ v ∈ samples, v.Supported)
    (nonempty : samples ≠ []) : inferAll widen samples = .ok (observed widen samples) :=
  (inferAll_eq_ok supported nonempty).mpr rfl

/-- A field that is null, absent and a list, beside empty lists and an unsafe integer. -/
theorem inferAll_observed_of_mixed :
    let first : Value := .object [(.name "k", .null), (.name "m", .list [])]
    let second : Value := .object [(.name "m", .list [.int (2 ^ 53), .int 1, .null])]
    let third : Value := .object [(.name "m", .list []), (.name "k", .list [.bool true])]
    inferAll false [first, .list [], second, .null, third] =
      .ok (observed false [first, .list [], second, .null, third]) := by
  intro first second third
  apply inferAll_observed _ (by simp)
  have empty : Value.Supported (.list []) := .list (List.forall_mem_nil _)
  have one : Value.Supported first :=
    .object (by decide) (by simp) (by simpa [Value.Supported.null] using empty)
  have two : Value.Supported second := by
    refine .object (by decide) (by simp) ?_
    simpa using Value.Supported.list (by simp [Value.Supported.int, Value.Supported.null])
  have three : Value.Supported third := by
    refine .object (by decide) (by simp) ?_
    simpa [empty] using Value.Supported.list (by simp [Value.Supported.bool])
  simp [one, two, three, empty, Value.Supported.null]

end Shape

end SampleTypes
