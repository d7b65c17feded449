import SampleTypes.Shape.Merge
import SampleTypes.Text.Quoted

/-!
Merging with the checks that can fail on the way. The variants of a union are put in order by their
places, which a union among them would not have, and a union is checked once more when it is built.
When no check fails, the result is that of `merge`.
-/

namespace SampleTypes

inductive MergeError where
  | noPlace (kindName : String)
  | refused (cause : ShapeError)
  deriving DecidableEq, Repr

def MergeError.message : MergeError → String
  | .noPlace kindName => Text.quoted kindName
  | .refused cause => cause.message

abbrev Merging := Except MergeError

namespace Shape

def place (s : Shape) : Merging Nat :=
  match s.rank? with
  | some rank => .ok rank
  | none => .error (.noPlace s.kindName)

def checkedUnion (shapes : List Shape) : Merging Shape :=
  match distinct (shapes.flatMap variants) with
  | [] => .error (.refused .noVariants)
  | [s] => .ok s
  | flat => do
    let _ ← flat.mapM place
    (union? (sort precedes flat)).mapError .refused

def checkedAbsorb (widen : Bool) (join : Shape → Merging Shape) (s : Shape) :
    List Shape → Merging (List Shape)
  | [] => return [s]
  | v :: rest =>
    if v.family widen = s.family widen then return (← join v) :: rest
    else return v :: (← checkedAbsorb widen join s rest)

def checkedInto (widen : Bool) (join : Shape → Merging Shape) (s a : Shape) : Merging Shape :=
  match a with
  | .union variants => do checkedUnion (← checkedAbsorb widen join s variants)
  | a => join a

def checkedPrimitive (widen : Bool) (k : Kind) : Shape → Merging Shape
  | .primitive j =>
    if j = k then return .primitive j
    else if widen && ((j, k) = (.integer, .float) || (j, k) = (.float, .integer)) then
      return .primitive .float
    else checkedUnion [.primitive j, .primitive k]
  | a => checkedUnion [a, .primitive k]

def checkedReference (n : String) : Shape → Merging Shape
  | .reference m => if m = n then return .reference m else checkedUnion [.reference m, .reference n]
  | a => checkedUnion [a, .reference n]

def checkedArray (mergeElement : Shape → Merging Shape) (f : Shape) (q : Bool) : Shape → Merging Shape
  | .array e p =>
    if p && q then return .array e p
    else if p then return .array f false
    else if q then return .array e false
    else return .array (← mergeElement e) false
  | a => checkedUnion [a, .array f q]

def checkedField (mergeShape : Shape → Merging Shape) (g f : Field) : Merging Field :=
  let optional := f.optional || g.optional
  if f.shape.isNull && g.shape.isNull then return ⟨null, optional⟩
  else if f.shape.isNull then return ⟨g.shape, true⟩
  else if g.shape.isNull then return ⟨f.shape, true⟩
  else return ⟨← mergeShape f.shape, optional⟩

def checkedEntry (joins : List (Str × (Field → Merging Field))) (entry : Str × Field) :
    Merging (Str × Field) :=
  match joins.lookup entry.1 with
  | some join => return (entry.1, ← join entry.2)
  | none => return (entry.1, ⟨entry.2.shape, true⟩)

def checkedFields (joins : List (Str × (Field → Merging Field))) (second first : Fields) :
    Merging Fields := do
  let kept ← first.mapM (checkedEntry joins)
  let added := second.filter fun (name, _) => (first.lookup name).isNone
  return kept ++ added.map fun (name, field) => (name, { field with optional := true })

def checkedObject (joins : List (Str × (Field → Merging Field))) (second : Fields) :
    Shape → Merging Shape
  | .object first => return .object (← checkedFields joins second first)
  | a => checkedUnion [a, .object second]

mutual

def checkedMerge (widen : Bool) (a : Shape) : Shape → Merging Shape
  | .primitive k => checkedInto widen (checkedPrimitive widen k) (.primitive k) a
  | .reference n => checkedInto widen (checkedReference n) (.reference n) a
  | .array f q => checkedInto widen (checkedArray (fun e => checkedMerge widen e f) f q) (.array f q) a
  | .object second =>
    checkedInto widen (checkedObject (checkedFieldJoins widen second) second) (.object second) a
  | .union incoming => do checkedUnion (← checkedAbsorbAll widen a.variants incoming)

def checkedAbsorbAll (widen : Bool) (variants : List Shape) : List Shape → Merging (List Shape)
  | [] => return variants
  | s :: rest => do
    checkedAbsorbAll widen (← checkedAbsorb widen (fun v => checkedMerge widen v s) s variants) rest

def checkedFieldJoins (widen : Bool) : Fields → List (Str × (Field → Merging Field))
  | [] => []
  | (name, g) :: rest =>
    (name, checkedField (fun s => checkedMerge widen s g.shape) g) :: checkedFieldJoins widen rest

end

def checkedMergeFields (widen : Bool) (f g : Field) : Merging Field :=
  checkedField (fun s => checkedMerge widen s g.shape) g f

def checkedMergeAll (widen : Bool) (first : Shape) (rest : List Shape) : Merging Shape :=
  rest.foldlM (checkedMerge widen) first

end Shape

end SampleTypes
