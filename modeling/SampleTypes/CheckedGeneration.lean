import SampleTypes.Generation
import SampleTypes.Shape.CheckedMerge

/-!
Generation with the checks that can fail on the way: shapes are merged with `checkedMerge`, a walk
checks each union that it builds anew, and finds the walked fields of an object by their names. When
no check fails, the result is that of `generate`.
-/

namespace SampleTypes

/-- A check on the generator's own results that did not hold. -/
inductive BrokenCheck where
  | merging (cause : MergeError)
  | missingField (name : Str)
  deriving DecidableEq, Repr

def BrokenCheck.message : BrokenCheck → String
  | .merging cause => cause.message
  | .missingField name => Text.quoted name.points

inductive Stop (ε : Type) where
  | reported (cause : ε)
  | broken (check : BrokenCheck)
  deriving DecidableEq, Repr

def Stop.map {ε ε' : Type} (f : ε → ε') : Stop ε → Stop ε'
  | .reported cause => .reported (f cause)
  | .broken check => .broken check

abbrev Checked (ε : Type) := Except (Stop ε)

def unchecked {ε α : Type} (x : Except ε α) : Checked ε α := x.mapError .reported

def checking {ε α : Type} (x : Merging α) : Checked ε α :=
  x.mapError fun cause => .broken (.merging cause)

namespace Shape

def checkedOfItems (widen : Bool) : List Shape → Merging Shape
  | [] => return .array null true
  | first :: rest => return .array (← checkedMergeAll widen first rest) false

mutual

def checkedInfer (widen : Bool) : Value → Checked Unsupported Shape
  | .list items => do checking (checkedOfItems widen (← checkedInferItems widen 0 items))
  | .object entries => return .object (← checkedInferEntries widen entries)
  | v => unchecked (infer widen v)

def checkedInferItems (widen : Bool) : Nat → List Value → Checked Unsupported (List Shape)
  | _, [] => return []
  | i, item :: rest => do
    let s ← (checkedInfer widen item).mapError (.map (.under (.index i)))
    return s :: (← checkedInferItems widen (i + 1) rest)

def checkedInferEntries (widen : Bool) : List (Key × Value) → Checked Unsupported Fields
  | [] => return []
  | (.other shown, _) :: _ => throw (.reported ⟨.keyNotName shown, []⟩)
  | (.name name, item) :: rest => do
    let s ← (checkedInfer widen item).mapError (.map (.under (.key name)))
    return (name, ⟨s, false⟩) :: (← checkedInferEntries widen rest)

end

def checkedInferEach (widen : Bool) : Nat → List Value → Checked InferenceError (List Shape)
  | _, [] => return []
  | i, sample :: rest => do
    let s ← (checkedInfer widen sample).mapError (.map (.unsupported i))
    return s :: (← checkedInferEach widen (i + 1) rest)

def checkedInferAll (widen : Bool) (samples : List Value) : Checked InferenceError Shape := do
  if samples.isEmpty then throw (.reported .noSamples)
  match ← checkedInferEach widen 0 samples with
  | [] => throw (.reported .noShapes)
  | first :: rest => checking (checkedMergeAll widen first rest)

end Shape

abbrev CheckedNaming := StateT Registry (Checked NamingCollision)

abbrev CheckedWalk := (context : String) → (fixed : Option String) → CheckedNaming Shape

def checkedWalkFields (walks : List (Str × CheckedWalk × Bool)) : CheckedNaming Fields :=
  (sortByName walks).mapM fun (name, walk, optional) => do
    return (name, ⟨← walk (typeNameOf name) none, optional⟩)

def checkedInOrderOf (fields walked : Fields) : Checked NamingCollision Fields :=
  fields.mapM fun (name, _) =>
    match walked.lookup name with
    | some field => return (name, field)
    | none => throw (.broken (.missingField name))

def checkedNameObject (limit : Nat) (fields : Fields) (walks : List (Str × CheckedWalk × Bool)) :
    CheckedWalk :=
  fun context fixed => do
    let digest := (Shape.object fields).digest
    let registry ← get
    match registry.names.lookup digest with
    | some name => return .reference name
    | none =>
      let name ← match fixed with
        | some name => pure name
        | none => StateT.lift (unchecked (uniqueName limit registry.used context))
      set (registry.reserve digest name fields)
      let walked ← checkedWalkFields walks
      let ordered ← StateT.lift (checkedInOrderOf fields walked)
      modify fun registry => { registry with table := Entries.put name ordered registry.table }
      return .reference name

mutual

def checkedWalk (limit : Nat) : Shape → CheckedWalk
  | .object fields => checkedNameObject limit fields (checkedFieldWalks limit fields)
  | .array e placeholder => fun context _ => do
    return .array (← checkedWalk limit e (elementTypeName context) none) placeholder
  | .union variants => fun context _ => do
    let walked ← (checkedVariantWalks limit variants).mapM fun walk => walk context none
    StateT.lift (checking (Shape.checkedUnion walked))
  | .primitive kind => fun _ _ => return .primitive kind
  | .reference name => fun _ _ => return .reference name

def checkedFieldWalks (limit : Nat) : Fields → List (Str × CheckedWalk × Bool)
  | [] => []
  | (name, field) :: rest =>
    (name, checkedWalk limit field.shape, field.optional) :: checkedFieldWalks limit rest

def checkedVariantWalks (limit : Nat) : List Shape → List CheckedWalk
  | [] => []
  | v :: rest => checkedWalk limit v :: checkedVariantWalks limit rest

end

def Graph.checkedOfShape (limit : Nat) (root : Shape) (rootName : String) :
    Checked NamingCollision Graph := do
  let (named, registry) ←
    (checkedWalk limit root rootName (some rootName)).run (.initial root rootName)
  return ⟨rootName, named, registry.table⟩

def checkedGraphOf (options : Options) (name : String) (samples : List Value) :
    Checked GenerationError Graph := do
  let s ← (Shape.checkedInferAll options.widenIntegers samples).mapError (.map .inference)
  (Graph.checkedOfShape defaultSuffixLimit s name).mapError (.map .naming)

abbrev CheckedGenerating := ExceptT (Stop GenerationError) (StateM (List TypeScript.Warning))

def checkedGenerate (options : Options) (typeName : Option String) (samples : List Value) :
    CheckedGenerating (List Points) := do
  let name ← ExceptT.mk (pure (unchecked (checkTypeName typeName)))
  if samples.isEmpty then throw (.reported .noSamples)
  let g ← ExceptT.mk (pure (checkedGraphOf options name samples))
  (TypeScript.render options.style g).adapt fun cause => .reported (.rendering cause)

end SampleTypes
