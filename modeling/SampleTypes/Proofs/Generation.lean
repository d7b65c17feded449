import SampleTypes.Generation
import SampleTypes.Proofs.Graph.GivenNames
import SampleTypes.Proofs.Samples.Rearranged
import SampleTypes.Proofs.TypeScript.Rendering

/-! Generation as a whole: what it can fail with, and what of the samples it depends on. -/

namespace SampleTypes

open Shape (observed)

variable {options : Options} {typeName : Option String} {name : String} {samples others : List Value}

theorem ranked_observed {widen : Bool} (supported : ∀ v ∈ samples, v.Supported) :
    (observed widen samples).Ranked :=
  (Shape.wellFormed_observed supported).ranked

def namedGraph (options : Options) (name : String) (samples : List Value) :
    Except NamingCollision Graph :=
  Graph.ofShape defaultSuffixLimit (observed options.widenIntegers samples) name

theorem graphOf_eq (supported : ∀ v ∈ samples, v.Supported) (nonempty : samples ≠ []) :
    graphOf options name samples = (namedGraph options name samples).mapError .naming := by
  rw [graphOf, (Shape.inferAll_eq_ok supported nonempty).mpr rfl]
  rfl

theorem generate_of_accepted (accepted : checkTypeName typeName = .ok name)
    (supported : ∀ v ∈ samples, v.Supported) (nonempty : samples ≠ []) :
    generate options typeName samples =
      match namedGraph options name samples with
      | .error cause => throw (.naming cause)
      | .ok g => (TypeScript.render options.style g).adapt .rendering := by
  have some_sample : samples.isEmpty = false := by simpa using nonempty
  rw [generate, accepted]
  change (do
    if samples.isEmpty then throw .noSamples
    let g ← ExceptT.mk (pure (graphOf options name samples))
    (TypeScript.render options.style g).adapt .rendering : Generating (List Points)) = _
  rw [some_sample, if_neg Bool.false_ne_true, graphOf_eq supported nonempty]
  cases namedGraph options name samples with
  | error cause => rfl
  | ok g => rfl

theorem exists_of_generate {blocks : List Points} {warnings later : List TypeScript.Warning}
    (ran : (generate options typeName samples).run.run warnings = (.ok blocks, later)) :
    ∃ name g middle last, checkTypeName typeName = .ok name ∧ graphOf options name samples = .ok g ∧
      (TypeScript.render options.style g).run.run middle = (.ok blocks, last) := by
  obtain ⟨name, _, accepted, ran⟩ := exists_of_bind_run ran
  cases none_left : samples.isEmpty with
  | true =>
    simp only [none_left] at ran
    cases ran
  | false =>
    simp only [none_left] at ran
    obtain ⟨g, middle, made, ran⟩ := exists_of_bind_run ran
    rw [adapt_run] at ran
    cases rendered : (TypeScript.render options.style g).run.run middle with
    | mk outcome last =>
      rw [rendered] at ran
      cases outcome with
      | error cause => cases ran
      | ok others =>
        cases ran
        exact ⟨name, g, middle, _, congrArg Prod.fst accepted, congrArg Prod.fst made, rendered⟩

theorem checkTypeName_eq_ok : checkTypeName typeName = .ok name ↔
    typeName = some name ∧ isTypeName name = true ∧ name ∉ reservedTypeNames := by
  cases typeName with
  | none => simp [checkTypeName]
  | some given =>
    rw [checkTypeName, Option.some_inj, ← List.contains_iff_mem]
    constructor
    · intro accepted
      split_ifs at accepted with invalid reserved
      cases accepted
      exact ⟨rfl, by simpa using invalid, reserved⟩
    · rintro ⟨rfl, word, unreserved⟩
      rw [word, if_neg (by decide), if_neg unreserved]

theorem exists_graph_of_generate {blocks : List Points} {warnings later : List TypeScript.Warning}
    (ran : (generate options typeName samples).run.run warnings = (.ok blocks, later)) :
    ∃ s g middle last, typeName = some g.rootName ∧ isTypeName g.rootName = true ∧
      g.rootName ∉ reservedTypeNames ∧ Graph.ofShape defaultSuffixLimit s g.rootName = .ok g ∧
      (TypeScript.render options.style g).run.run middle = (.ok blocks, last) := by
  obtain ⟨name, g, middle, last, accepted, made, rendered⟩ := exists_of_generate ran
  obtain ⟨given, word, unreserved⟩ := checkTypeName_eq_ok.mp accepted
  obtain ⟨s, _, made⟩ := eq_ok_of_bind made
  have named := mapError_eq_ok.mp made
  obtain rfl := rootName_of_ofShape named
  exact ⟨s, g, middle, last, given, word, unreserved, named, rendered⟩

theorem ne_nil_of_generate {blocks : List Points} {warnings : List TypeScript.Warning}
    (ran : (generate options typeName samples).run.run [] = (.ok blocks, warnings)) : blocks ≠ [] := by
  obtain ⟨_, _, _, _, _, _, rendered⟩ := exists_of_generate ran
  exact TypeScript.ne_nil_of_render rendered

theorem renders_namedGraph {g : Graph} (supported : ∀ v ∈ samples, v.Supported)
    (named : namedGraph options name samples = .ok g) (style : TypeScript.Style) :
    g.check = .ok () ∧ TypeScript.Renders (TypeScript.render style g) (TypeScript.declarations style g) := by
  have ranked : (observed options.widenIntegers samples).Ranked := ranked_observed supported
  obtain ⟨nameOf, names⟩ := names_of_ofShape ranked named
  have checked := names.check ranked
  refine ⟨checked, TypeScript.renders_render checked ?_ ?_⟩
  · rw [names.root, Shape.outerObjects_renamed]
  · rw [names.table]
    intro entry here field inside
    obtain ⟨o, _, rfl⟩ := List.mem_map.mp here
    obtain ⟨original, _, rfl⟩ := List.mem_map.mp inside
    exact Shape.outerObjects_renamed _

theorem agrees_observed_of_rearranged {widen : Bool} (supported : ∀ v ∈ samples, v.Supported)
    (rearranged : Rearranged (.list samples) (.list others)) :
    (observed widen samples).Agrees (observed widen others) := by
  have valid : (Value.list samples).Supported := .list supported
  have agree : (observed widen [.list samples]).Agrees (observed widen [.list others]) :=
    Shape.agrees_of_rearranged rearranged valid
  exact ((Shape.agrees_observed_list valid (valid.rearranged rearranged)).mp agree).1

theorem nonempty_of_rearranged (supported : ∀ v ∈ samples, v.Supported)
    (rearranged : Rearranged (.list samples) (.list others)) (nonempty : samples ≠ []) :
    others ≠ [] := by
  have valid : (Value.list samples).Supported := .list supported
  have agree : (observed false [.list samples]).Agrees (observed false [.list others]) :=
    Shape.agrees_of_rearranged rearranged valid
  have empty := ((Shape.agrees_observed_list valid (valid.rearranged rearranged)).mp agree).2
  intro none_left
  rw [none_left] at empty
  exact nonempty (List.isEmpty_iff.mp empty)

theorem generate_of_named {g : Graph} (accepted : checkTypeName typeName = .ok name)
    (supported : ∀ v ∈ samples, v.Supported) (nonempty : samples ≠ [])
    (named : namedGraph options name samples = .ok g) :
    ∃ warnings, (generate options typeName samples).run.run [] =
      (.ok (TypeScript.declarations options.style g), warnings) := by
  obtain ⟨warnings, ran⟩ := (renders_namedGraph supported named options.style).2 []
  refine ⟨warnings, ?_⟩
  rw [generate_of_accepted accepted supported nonempty, named]
  change (fun out => (Except.mapError GenerationError.rendering out.1, out.2)) <$>
    (TypeScript.render options.style g).run.run [] = _
  rw [ran]
  rfl

/-- Supported samples under an accepted name are rendered unless their objects cannot be named. -/
theorem generate_outcome (accepted : checkTypeName typeName = .ok name)
    (supported : ∀ v ∈ samples, v.Supported) (nonempty : samples ≠ []) :
    (∃ blocks warnings, (generate options typeName samples).run.run [] = (.ok blocks, warnings)) ∨
      ∃ cause, (generate options typeName samples).run.run [] = (.error (.naming cause), []) := by
  cases named : namedGraph options name samples with
  | error cause =>
    rw [generate_of_accepted accepted supported nonempty, named]
    exact Or.inr ⟨cause, rfl⟩
  | ok g =>
    obtain ⟨warnings, ran⟩ := generate_of_named accepted supported nonempty named
    exact Or.inl ⟨_, warnings, ran⟩

theorem render_of_arranged_eq {style : TypeScript.Style} (alphabetical : style.alphabetize = true)
    {g h : Graph} (checked : g.check = .ok ()) (checked' : h.check = .ok ())
    (same : g.arranged = h.arranged) : TypeScript.render style g = TypeScript.render style h := by
  calc
    TypeScript.render style g = TypeScript.render style g.arranged :=
      (TypeScript.render_arranged alphabetical checked).symm
    _ = TypeScript.render style h.arranged := by rw [same]
    _ = TypeScript.render style h := TypeScript.render_arranged alphabetical checked'

/-- With fields sorted, rearranged samples give the same declarations and warnings, or the same naming
collision. -/
theorem generate_of_rearranged (alphabetical : options.alphabetizeFields = true)
    (accepted : checkTypeName typeName = .ok name) (supported : ∀ v ∈ samples, v.Supported)
    (nonempty : samples ≠ []) (rearranged : Rearranged (.list samples) (.list others)) :
    generate options typeName samples = generate options typeName others ∧
      ((∃ blocks warnings, (generate options typeName samples).run.run [] = (.ok blocks, warnings)) ∨
        ∃ cause, (generate options typeName samples).run.run [] = (.error (.naming cause), [])) := by
  refine ⟨?_, generate_outcome accepted supported nonempty⟩
  have valid : ∀ v ∈ others, v.Supported :=
    Value.supported_list.mp ((Value.Supported.list supported).rearranged rearranged)
  have filled := nonempty_of_rearranged supported rearranged nonempty
  have ranked : (observed options.widenIntegers samples).Ranked :=
    (Shape.wellFormed_observed supported).ranked
  have ranked' : (observed options.widenIntegers others).Ranked :=
    (Shape.wellFormed_observed valid).ranked
  have graphs : (namedGraph options name samples).map Graph.arranged =
      (namedGraph options name others).map Graph.arranged :=
    ofShape_of_agrees ranked ranked' (agrees_observed_of_rearranged supported rearranged) name
  rw [generate_of_accepted accepted supported nonempty, generate_of_accepted accepted valid filled]
  cases first : namedGraph options name samples with
  | error cause =>
    cases second : namedGraph options name others with
    | error other =>
      rw [first, second] at graphs
      cases graphs
      rfl
    | ok h =>
      rw [first, second] at graphs
      cases graphs
  | ok g =>
    cases second : namedGraph options name others with
    | error other =>
      rw [first, second] at graphs
      cases graphs
    | ok h =>
      rw [first, second] at graphs
      have arranged : g.arranged = h.arranged := Except.ok.inj graphs
      have checked := (renders_namedGraph supported first options.style).1
      have checked' := (renders_namedGraph valid second options.style).1
      have same : TypeScript.render options.style g = TypeScript.render options.style h :=
        render_of_arranged_eq alphabetical checked checked' arranged
      simp only [same]

/-- Samples permuted and repeated, and inside them entries and items as well. -/
theorem generate_of_rearranged_of_nested :
    let first : Value := .object [(.name "b", .list [.int 1, .object [(.name "x", .null)]]),
      (.name "a", .null)]
    let second : Value := .object [(.name "a", .object [(.name "x", .bool true)])]
    let turned : Value := .object [(.name "a", .null),
      (.name "b", .list [.object [(.name "x", .null)], .int 1, .int 1])]
    let options : Options := { explicitUnions := false }
    generate options (some "Root") [first, second] =
        generate options (some "Root") [second, turned, first] ∧
      ((∃ blocks warnings,
          (generate options (some "Root") [first, second]).run.run [] = (.ok blocks, warnings)) ∨
        ∃ cause,
          (generate options (some "Root") [first, second]).run.run [] = (.error (.naming cause), [])) := by
  intro first second turned options
  have inner : Value.Supported (.object [(.name "x", .null)]) :=
    .object (by decide) (by simp) (by simp [Value.Supported.null])
  have items : Value.Supported (.list [.int 1, .object [(.name "x", .null)]]) :=
    .list (by simp [Value.Supported.int, inner])
  have one : Value.Supported first :=
    .object (by decide) (by simp) (by simp [items, Value.Supported.null])
  have leaf : Value.Supported (.object [(.name "x", .bool true)]) :=
    .object (by decide) (by simp) (by simp [Value.Supported.bool])
  have two : Value.Supported second := .object (by decide) (by simp) (by simp [leaf])
  have repeatedPerm : ([Value.int 1, Value.int 1] ++ [Value.object [(.name "x", .null)]]).Perm
      ([Value.object [(.name "x", .null)]] ++ [Value.int 1, Value.int 1]) := List.perm_append_comm
  have repeated : Rearranged (.list [.int 1, .object [(.name "x", .null)]])
      (.list [.object [(.name "x", .null)], .int 1, .int 1]) :=
    .trans (.repeatItem (v := .int 1) (by simp)) (.permuteItems repeatedPerm)
  have turn : Rearranged first turned :=
    .trans (.entry (.name "b") [] [(.name "a", .null)] repeated) (.permuteEntries (.swap _ _ []))
  have moved : Rearranged (.list [first, second]) (.list [second, turned, first]) := by
    apply Rearranged.trans (.repeatItem (v := first) List.mem_cons_self)
    apply Rearranged.trans (.item [] [first, second] turn)
    apply Rearranged.permuteItems
    exact (List.Perm.cons turned (.swap second first [])).trans (.swap second turned [first])
  have accepted : checkTypeName (some "Root") = .ok "Root" := by decide
  exact generate_of_rearranged rfl accepted (by simp [one, two]) (by simp) moved

end SampleTypes
