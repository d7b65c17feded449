import SampleTypes.Graph.Naming
import SampleTypes.Shape.Inference
import SampleTypes.TypeScript.Declaration

/-!
From samples to declarations: infer one shape, name its objects, render the graph. The type name is
checked before the samples are looked at.
-/

namespace SampleTypes

structure Options where
  alphabetizeFields : Bool := true
  explicitUnions : Bool := true
  widenIntegers : Bool := true
  deriving DecidableEq, Repr

def Options.style (options : Options) : TypeScript.Style :=
  ⟨options.alphabetizeFields, options.explicitUnions⟩

inductive GenerationError where
  | invalidTypeName (shown : String)
  | reservedTypeName (name : String)
  | noSamples
  | inference (cause : InferenceError)
  | naming (cause : NamingCollision)
  | rendering (cause : TypeScript.RenderError)
  deriving DecidableEq, Repr

def GenerationError.message : GenerationError → Points
  | .invalidTypeName shown =>
    "Type name '" ++ shown ++ "' must start with a letter and contain only letters and numbers"
  | .reservedTypeName name => "Type name '" ++ name ++ "' would shadow a TypeScript global"
  | .noSamples => "At least one JSON sample is required"
  | .inference cause => cause.message
  | .naming cause => cause.message
  | .rendering (.dangling cause) => cause.message
  | .rendering .unnamedObject => "An object is rendered only under its name"

abbrev Generating := ExceptT GenerationError (StateM (List TypeScript.Warning))

def defaultTypeName : String := "ApiTypes"

/-- A type name may be left out by mistake, and is then shown as `None`. -/
def checkTypeName : Option String → Except GenerationError String
  | none => .error (.invalidTypeName "None")
  | some name =>
    if !isTypeName name then .error (.invalidTypeName name)
    else if reservedTypeNames.contains name then .error (.reservedTypeName name)
    else .ok name

def graphOf (options : Options) (name : String) (samples : List Value) :
    Except GenerationError Graph := do
  let s ← (Shape.inferAll options.widenIntegers samples).mapError .inference
  (Graph.ofShape defaultSuffixLimit s name).mapError .naming

def generate (options : Options) (typeName : Option String) (samples : List Value) :
    Generating (List Points) := do
  let name ← ExceptT.mk (pure (checkTypeName typeName))
  if samples.isEmpty then throw .noSamples
  let g ← ExceptT.mk (pure (graphOf options name samples))
  (TypeScript.render options.style g).adapt .rendering

def generateBatch (options : Options) (sources : List (String × List Value)) :
    Generating (List (String × List Points)) :=
  sources.mapM fun (name, samples) => do
    return (name, ← generate options (some name) samples)

end SampleTypes
