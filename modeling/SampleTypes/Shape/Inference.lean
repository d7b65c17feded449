import SampleTypes.Shape.Merge

/-!
Inferring shapes from samples. A number is an integer when it is integral and at most `2 ^ 53 - 1`
in magnitude, however it is written. Inference fails at the first part of a sample, from left to
right, that is no JSON value.
-/

namespace SampleTypes

inductive Offence where
  | nonFinite (x : Binary64)
  | keyNotName (shown : String)
  | foreignType (typeName : String)
  deriving DecidableEq, Repr

def Offence.message : Offence → String
  | .nonFinite x => "Non-finite number " ++ x.text "nan" "inf" ++ " is not valid JSON"
  | .keyNotName shown => "Object key " ++ shown ++ " is not a string"
  | .foreignType typeName => "Value of type " ++ typeName ++ " is not a JSON value"

/-- An offence and where it stands. A bad key stands at its object. -/
structure Unsupported where
  offence : Offence
  location : Location
  deriving DecidableEq, Repr

def Unsupported.path (root : Points) (u : Unsupported) : Points := u.location.text root

def Unsupported.message (root : Points) (u : Unsupported) : Points :=
  u.offence.message ++ " at " ++ u.path root

def Unsupported.under (step : Step) (u : Unsupported) : Unsupported :=
  { u with location := step :: u.location }

def safeIntegerMax : Nat := Nat.pow 2 53 - 1

def Kind.ofInt (i : Int) : Kind := if i.natAbs ≤ safeIntegerMax then .integer else .float

def Kind.ofFloat (x : Binary64) : Kind :=
  match x.toInt? with
  | some i => Kind.ofInt i
  | none => .float

namespace Shape

def ofItems (widen : Bool) (items : List Shape) : Shape :=
  match mergeAll? widen items with
  | none => .array null true
  | some element => .array element false

mutual

def infer (widen : Bool) : Value → Except Unsupported Shape
  | .null => .ok null
  | .bool _ => .ok (.primitive .boolean)
  | .string _ => .ok (.primitive .string)
  | .int i => .ok (.primitive (Kind.ofInt i))
  | .float x =>
    if x.isFinite then .ok (.primitive (Kind.ofFloat x)) else .error ⟨.nonFinite x, []⟩
  | .list items => (inferItems widen 0 items).map (ofItems widen)
  | .object entries => (inferEntries widen entries).map .object
  | .foreign typeName => .error ⟨.foreignType typeName, []⟩

def inferItems (widen : Bool) : Nat → List Value → Except Unsupported (List Shape)
  | _, [] => .ok []
  | i, item :: rest => do
    let s ← (infer widen item).mapError (.under (.index i))
    return s :: (← inferItems widen (i + 1) rest)

def inferEntries (widen : Bool) : List (Key × Value) → Except Unsupported Fields
  | [] => .ok []
  | (.other shown, _) :: _ => .error ⟨.keyNotName shown, []⟩
  | (.name name, item) :: rest => do
    let s ← (infer widen item).mapError (.under (.key name))
    return (name, ⟨s, false⟩) :: (← inferEntries widen rest)

end

end Shape

inductive InferenceError where
  | noSamples
  | noShapes
  | unsupported (sample : Nat) (cause : Unsupported)
  deriving DecidableEq, Repr

def sampleRoot (sample : Nat) : String := "#[" ++ toString sample ++ "]"

def InferenceError.message : InferenceError → Points
  | .noSamples => "At least one sample is required"
  | .noShapes => "Cannot merge an empty sequence of shapes"
  | .unsupported sample cause => cause.message (sampleRoot sample)

namespace Shape

def mergeAll (widen : Bool) (shapes : List Shape) : Except InferenceError Shape :=
  match mergeAll? widen shapes with
  | none => .error .noShapes
  | some s => .ok s

def inferEach (widen : Bool) : Nat → List Value → Except InferenceError (List Shape)
  | _, [] => .ok []
  | i, sample :: rest => do
    let s ← (infer widen sample).mapError (.unsupported i)
    return s :: (← inferEach widen (i + 1) rest)

def inferAll (widen : Bool) (samples : List Value) : Except InferenceError Shape :=
  if samples.isEmpty then .error .noSamples
  else do mergeAll widen (← inferEach widen 0 samples)

end Shape

end SampleTypes
