import SampleTypes.CheckedGeneration
import SampleTypes.Proofs.Generation
import SampleTypes.Proofs.Samples.Produced

/-! No check fails when supported samples are turned into declarations. -/

namespace SampleTypes

open Shape (digestOf observed Buildable)

/-! Inferring. -/

namespace Shape

variable {widen : Bool}

theorem checkedMergeAll_observed {first : Value} {rest : List Value}
    (supported : ∀ v ∈ first :: rest, v.Supported) :
    checkedMergeAll widen (observed widen [first]) (rest.map fun v => observed widen [v]) =
      .ok (observed widen (first :: rest)) := by
  have sound : ∀ v ∈ first :: rest, Sound widen (observed widen [v]) :=
    fun v here => sound_of_infer (supported v here) (infer_eq_observed (supported v here))
  rw [checkedMergeAll_of_sound (sound first List.mem_cons_self) (List.forall_mem_map.mpr
    fun v here => sound v (List.mem_cons_of_mem first here))]
  rw [List.forall_mem_cons] at supported
  rw [foldl_merge_observed (by simpa using supported.1) supported.2 (List.cons_ne_nil first [])]
  rfl

theorem checkedOfItems_observed {items : List Value} (supported : ∀ v ∈ items, v.Supported) :
    checkedOfItems widen (items.map fun v => observed widen [v]) = .ok (observed widen [.list items]) := by
  rw [observed_one (.list supported), ofOne]
  cases items with
  | nil => rw [observed_nil]; rfl
  | cons first rest =>
    rw [List.map_cons, checkedOfItems, checkedMergeAll_observed supported]
    rfl

theorem checkedInferItems_observed {items : List Value}
    (each : ∀ v ∈ items, checkedInfer widen v = .ok (observed widen [v])) (i : Nat) :
    checkedInferItems widen i items = .ok (items.map fun v => observed widen [v]) := by
  induction items generalizing i with
  | nil => rfl
  | cons v rest ih =>
    rw [List.forall_mem_cons] at each
    rw [checkedInferItems, each.1, ih each.2]
    rfl

theorem checkedInferEntries_observed {entries : List (Key × Value)}
    (named : ∀ entry ∈ entries, ∃ name, entry.1 = .name name)
    (each : ∀ entry ∈ entries, checkedInfer widen entry.2 = .ok (observed widen [entry.2])) :
    checkedInferEntries widen entries =
      .ok (entries.map fun entry => (entry.1.text, ⟨observed widen [entry.2], false⟩)) := by
  induction entries with
  | nil => rfl
  | cons entry rest ih =>
    obtain ⟨key, v⟩ := entry
    rw [List.forall_mem_cons] at named each
    obtain ⟨name, rfl⟩ := named.1
    rw [checkedInferEntries, each.1, ih named.2 each.2]
    rfl

theorem checkedInfer_of_leaf {v : Value} (no_list : v.isList = false) (no_object : v.isObject = false) :
    checkedInfer widen v = unchecked (infer widen v) := by
  cases v with
  | list items => cases no_list
  | object entries => cases no_object
  | _ => rfl

theorem checkedInfer_observed {v : Value} (supported : v.Supported) :
    checkedInfer widen v = .ok (observed widen [v]) := by
  induction supported with
  | @list items each ih =>
    rw [checkedInfer, checkedInferItems_observed ih]
    change checking (checkedOfItems widen (items.map fun v => observed widen [v])) = _
    rw [checkedOfItems_observed each]
    rfl
  | object distinct named each ih =>
    rw [checkedInfer, checkedInferEntries_observed named ih,
      observed_one (.object distinct named each), ofOne, observedFields_object distinct named]
    rfl
  | null => rw [checkedInfer_of_leaf rfl rfl, infer_eq_observed .null]; rfl
  | bool b => rw [checkedInfer_of_leaf rfl rfl, infer_eq_observed (.bool b)]; rfl
  | int i => rw [checkedInfer_of_leaf rfl rfl, infer_eq_observed (.int i)]; rfl
  | float finite => rw [checkedInfer_of_leaf rfl rfl, infer_eq_observed (.float finite)]; rfl
  | string s => rw [checkedInfer_of_leaf rfl rfl, infer_eq_observed (.string s)]; rfl

theorem checkedInferEach_observed {samples : List Value} (supported : ∀ v ∈ samples, v.Supported)
    (i : Nat) :
    checkedInferEach widen i samples = .ok (samples.map fun v => observed widen [v]) := by
  induction samples generalizing i with
  | nil => rfl
  | cons v rest ih =>
    rw [List.forall_mem_cons] at supported
    rw [checkedInferEach, checkedInfer_observed supported.1, ih supported.2]
    rfl

theorem checkedInferAll_observed {samples : List Value} (supported : ∀ v ∈ samples, v.Supported)
    (nonempty : samples ≠ []) : checkedInferAll widen samples = .ok (observed widen samples) := by
  obtain ⟨first, rest, rfl⟩ := List.exists_cons_of_ne_nil nonempty
  rw [checkedInferAll, checkedInferEach_observed supported]
  change checking (checkedMergeAll widen (observed widen [first])
    (rest.map fun v => observed widen [v])) = _
  rw [checkedMergeAll_observed supported]
  rfl

end Shape

/-! Walking. The unions that a walk puts together can be built, and a walked field keeps its name. -/

section Walking

variable {limit : Nat} {context : String} {fixed : Option String}

theorem ne_nil_of_walks {variants walked : List Shape} {r later : Registry}
    (several : 2 ≤ variants.length)
    (ran : variants.mapM (fun v => walk limit v context none) r = .ok (walked, later)) : walked ≠ [] := by
  have lengths := congrArg List.length
    (map_of_mapM (p := fun _ => ()) (q := fun _ => ()) (fun _ _ _ _ _ _ => rfl) ran)
  rw [List.length_map, List.length_map] at lengths
  exact List.ne_nil_of_length_pos (by omega)

theorem buildable_of_walk {s t : Shape} (buildable : Buildable s) {r later : Registry}
    (ran : walk limit s context fixed r = .ok (t, later)) : Buildable t := by
  induction buildable generalizing context fixed r later t with
  | primitive kind => cases ran; exact .primitive kind
  | reference name => cases ran; exact .reference name
  | array placeholder element ih =>
    rw [walk_array] at ran
    obtain ⟨⟨walked, last⟩, inner, ran⟩ := eq_ok_of_bind ran
    cases ran
    exact .array placeholder (ih inner)
  | @union variants several single shapes ih =>
    rw [walk_union] at ran
    obtain ⟨⟨walked, last⟩, inner, ran⟩ := eq_ok_of_bind ran
    cases ran
    have parts := forall_of_mapM (fun v here _ _ _ first => ih v here first) inner
    exact (Shape.computes_union (ne_nil_of_walks several inner) parts).buildable
  | @object fields distinct shapes ih =>
    rw [walk_object] at ran
    cases looked : r.names.lookup (digestOf fields) with
    | some name => rw [looked] at ran; cases ran; exact .reference name
    | none =>
      rw [looked] at ran
      obtain ⟨name, picked, ran⟩ := eq_ok_of_bind ran
      obtain ⟨⟨walked, last⟩, inner, ran⟩ := eq_ok_of_bind ran
      cases ran
      exact .reference name

def checkedWalkField (limit : Nat) (entry : Str × Field) : CheckedNaming (Str × Field) := do
  return (entry.1, ⟨← checkedWalk limit entry.2.shape (typeNameOf entry.1) none, entry.2.optional⟩)

def checkedWalkInside (limit : Nat) (digest : List UInt8) (fields : Fields) (name : String) :
    CheckedNaming Shape := do
  modify fun registry => registry.reserve digest name fields
  let walked ← (sortByName fields).mapM (checkedWalkField limit)
  let ordered ← StateT.lift (checkedInOrderOf fields walked)
  modify fun registry => registry.complete name ordered
  return .reference name

theorem checkedFieldWalks_eq (limit : Nat) (fields : Fields) :
    checkedFieldWalks limit fields =
      fields.map fun entry => (entry.1, checkedWalk limit entry.2.shape, entry.2.optional) := by
  induction fields with
  | nil => rfl
  | cons entry rest ih => rw [checkedFieldWalks, ih]; rfl

theorem checkedVariantWalks_eq (limit : Nat) (variants : List Shape) :
    checkedVariantWalks limit variants = variants.map (checkedWalk limit) := by
  induction variants with
  | nil => rfl
  | cons v rest ih => rw [checkedVariantWalks, ih]; rfl

theorem checkedWalkFields_eq (limit : Nat) (fields : Fields) :
    checkedWalkFields (checkedFieldWalks limit fields) =
      (sortByName fields).mapM (checkedWalkField limit) := by
  rw [checkedWalkFields, checkedFieldWalks_eq,
    sortByName_map (fun _ (field : Field) => (checkedWalk limit field.shape, field.optional)),
    List.mapM_map]
  rfl

theorem checkedWalk_array (e : Shape) (placeholder : Bool) (r : Registry) :
    checkedWalk limit (.array e placeholder) context fixed r = do
      let (walked, later) ← checkedWalk limit e (elementTypeName context) none r
      return (.array walked placeholder, later) := by
  rw [checkedWalk]
  rfl

theorem checkedWalk_union (variants : List Shape) (r : Registry) :
    checkedWalk limit (.union variants) context fixed r = do
      let (walked, later) ← variants.mapM (fun v => checkedWalk limit v context none) r
      return (← checking (Shape.checkedUnion walked), later) := by
  simp only [checkedWalk, checkedVariantWalks_eq, List.mapM_map]
  rfl

theorem checkedWalk_object (fields : Fields) (r : Registry) :
    checkedWalk limit (.object fields) context fixed r =
      match r.names.lookup (digestOf fields) with
      | some name => .ok (.reference name, r)
      | none => unchecked (pickName limit r.used context fixed) >>= fun name =>
        checkedWalkInside limit (digestOf fields) fields name r := by
  rw [checkedWalk, checkedNameObject, checkedWalkFields_eq]
  change (match r.names.lookup (digestOf fields) with
    | some name => _
    | none => _ : CheckedNaming Shape) r = _
  cases r.names.lookup (digestOf fields) with
  | some name => rfl
  | none =>
    cases fixed with
    | some name => rfl
    | none =>
      simp only [pickName]
      change (Except.bind _ _) = _
      cases uniqueName limit r.used context <;> rfl

theorem checkedInOrderOf_eq {fields walked : Fields}
    (kept : Entries.keys walked = Entries.keys (sortByName fields)) :
    checkedInOrderOf fields walked = .ok (inOrderOf fields walked) := by
  apply mapM_eq_ok
  rintro ⟨name, field⟩ here
  have present : name ∈ Entries.keys walked := by
    rw [kept]
    exact List.mem_map_of_mem ((sortByName_perm fields).mem_iff.mpr here)
  obtain ⟨found, looked⟩ := Option.isSome_iff_exists.mp (Entries.lookup_isSome.mpr present)
  simp only [looked]
  rfl

theorem checkedWalkInside_eq {fields : Fields}
    (each : ∀ entry ∈ fields, ∀ context fixed r, checkedWalk limit entry.2.shape context fixed r =
      unchecked (walk limit entry.2.shape context fixed r)) (digest : List UInt8) (name : String)
    (r : Registry) :
    checkedWalkInside limit digest fields name r = unchecked (walkInside limit digest fields name r) := by
  have walks : ∀ s, (sortByName fields).mapM (checkedWalkField limit) s =
      unchecked ((sortByName fields).mapM (walkField limit) s) := by
    apply mapM_mapError
    intro entry here s
    rw [walkField_run, mapError_bind]
    change (checkedWalk limit entry.2.shape (typeNameOf entry.1) none s >>= _) = _
    rw [each entry ((sortByName_perm fields).mem_iff.mp here)]
    rfl
  rw [walkInside]
  change ((sortByName fields).mapM (checkedWalkField limit) (r.reserve digest name fields) >>= _) = _
  rw [walks]
  cases ran : (sortByName fields).mapM (walkField limit) (r.reserve digest name fields) with
  | error cause => rfl
  | ok out =>
    have kept : Entries.keys out.1 = Entries.keys (sortByName fields) := by
      apply map_of_mapM _ ran
      intro entry _ s b later first
      rw [walkField_run] at first
      obtain ⟨⟨t, next⟩, _, first⟩ := eq_ok_of_bind first
      cases first
      rfl
    change ((checkedInOrderOf fields out.1 >>= _) >>= _) = _
    rw [checkedInOrderOf_eq kept]
    rfl

theorem checkedWalk_eq {s : Shape} (buildable : Buildable s) (context : String) (fixed : Option String)
    (r : Registry) :
    checkedWalk limit s context fixed r = unchecked (walk limit s context fixed r) := by
  induction buildable generalizing context fixed r with
  | primitive kind => rfl
  | reference name => rfl
  | array placeholder element ih =>
    rw [checkedWalk_array, walk_array, ih, unchecked, unchecked, mapError_bind]
    rfl
  | @union variants several single shapes ih =>
    have walks : ∀ s, variants.mapM (fun v => checkedWalk limit v context none) s =
        unchecked (variants.mapM (fun v => walk limit v context none) s) :=
      mapM_mapError fun v here s => ih v here context none s
    rw [checkedWalk_union, walk_union, walks]
    cases ran : variants.mapM (fun v => walk limit v context none) r with
    | error cause => rfl
    | ok out =>
      have parts := forall_of_mapM (fun v here _ _ _ first => buildable_of_walk (shapes v here) first) ran
      change (checking (Shape.checkedUnion out.1) >>= _) = _
      rw [(Shape.computes_union (ne_nil_of_walks several ran) parts).result]
      rfl
  | object distinct shapes ih =>
    rw [checkedWalk_object, walk_object]
    cases r.names.lookup (digestOf _) with
    | some name => rfl
    | none =>
      simp only [checkedWalkInside_eq ih]
      rw [unchecked, unchecked, mapError_bind]
      rfl

theorem checkedOfShape_eq {s : Shape} (buildable : Buildable s) (rootName : String) :
    Graph.checkedOfShape limit s rootName = unchecked (Graph.ofShape limit s rootName) := by
  change (checkedWalk limit s rootName (some rootName) (.initial s rootName) >>= _) =
    unchecked (walk limit s rootName (some rootName) (.initial s rootName) >>= _)
  rw [checkedWalk_eq buildable, unchecked, unchecked, mapError_bind]
  rfl

end Walking

/-! Generating. -/

variable {options : Options} {typeName : Option String} {name : String} {samples : List Value}

theorem checkedGraphOf_eq (supported : ∀ v ∈ samples, v.Supported) (nonempty : samples ≠ []) :
    checkedGraphOf options name samples = unchecked (graphOf options name samples) := by
  have buildable : Buildable (observed options.widenIntegers samples) :=
    (ranked_observed supported).buildable
  rw [checkedGraphOf, Shape.checkedInferAll_observed supported nonempty, graphOf_eq supported nonempty]
  change (Graph.checkedOfShape defaultSuffixLimit _ name).mapError _ = _
  rw [checkedOfShape_eq buildable, namedGraph]
  cases Graph.ofShape defaultSuffixLimit (observed options.widenIntegers samples) name <;> rfl

theorem checkedGenerate_eq (supported : ∀ v ∈ samples, v.Supported) (nonempty : samples ≠ []) :
    checkedGenerate options typeName samples =
      (generate options typeName samples).adapt .reported := by
  have some_sample : samples.isEmpty = false := by simpa using nonempty
  rw [checkedGenerate, generate, some_sample]
  cases checkTypeName typeName with
  | error cause => rfl
  | ok name =>
    change (ExceptT.mk (pure (checkedGraphOf options name samples)) >>= fun g =>
        (TypeScript.render options.style g).adapt fun cause => Stop.reported (.rendering cause)) =
      ExceptT.adapt Stop.reported (ExceptT.mk (pure (graphOf options name samples)) >>= fun g =>
        (TypeScript.render options.style g).adapt GenerationError.rendering)
    rw [checkedGraphOf_eq supported nonempty]
    cases graphOf options name samples with
    | error cause => rfl
    | ok g =>
      have rendering := adapt_adapt GenerationError.rendering Stop.reported
        (TypeScript.render options.style g)
      exact rendering.symm

end SampleTypes
