import SampleTypes.Shape.Union

/-!
Merging shapes seen for the same type. Arrays merge their elements and objects their fields; shapes
of different kinds become variants of a union. A null joins a union, except in a field, where it
makes the field optional. With `widen`, integers merge with floats into floats.
-/

namespace SampleTypes

/-- Shapes of one family are merged with each other and never stand side by side in a union. -/
inductive Family where
  | primitive (kind : Kind)
  | number
  | array
  | object
  | union
  | reference (name : String)
  deriving DecidableEq, Repr

namespace Shape

def family (widen : Bool) : Shape → Family
  | .primitive kind =>
    if widen && (kind = .integer || kind = .float) then .number else .primitive kind
  | .array _ _ => .array
  | .object _ => .object
  | .union _ => .union
  | .reference name => .reference name

/-- Joins `s` into the first variant of its family, or appends it. -/
def absorb (widen : Bool) (join : Shape → Shape) (s : Shape) : List Shape → List Shape
  | [] => [s]
  | v :: rest =>
    if v.family widen = s.family widen then join v :: rest else v :: absorb widen join s rest

/-- Merges `a` with a shape `s` that is no union, where `join` merges `s` into one that is none. -/
def mergeInto (widen : Bool) (join : Shape → Shape) (s a : Shape) : Shape :=
  match a with
  | .union variants => unionOf (absorb widen join s variants)
  | a => join a

def mergeKinds (widen : Bool) (j k : Kind) : Shape :=
  if j = k then .primitive j
  else if widen && ((j, k) = (.integer, .float) || (j, k) = (.float, .integer)) then
    .primitive .float
  else unionOf [.primitive j, .primitive k]

def joinPrimitive (widen : Bool) (k : Kind) : Shape → Shape
  | .primitive j => mergeKinds widen j k
  | a => unionOf [a, .primitive k]

def joinReference (n : String) : Shape → Shape
  | .reference m => if m = n then .reference m else unionOf [.reference m, .reference n]
  | a => unionOf [a, .reference n]

/-- An array that was only seen empty takes the element of the other one. -/
def joinArray (mergeElement : Shape → Shape) (f : Shape) (q : Bool) : Shape → Shape
  | .array e p =>
    if p && q then .array e p
    else if p then .array f false
    else if q then .array e false
    else .array (mergeElement e) false
  | a => unionOf [a, .array f q]

/-- Two observations of one field. The shape that is not null stands, and a null beside it makes
the field optional. -/
def joinField (mergeShape : Shape → Shape) (g f : Field) : Field :=
  let optional := f.optional || g.optional
  if f.shape.isNull && g.shape.isNull then ⟨null, optional⟩
  else if f.shape.isNull then ⟨g.shape, true⟩
  else if g.shape.isNull then ⟨f.shape, true⟩
  else ⟨mergeShape f.shape, optional⟩

/-- The fields of the first object, then the new ones of the second. A field that only one of them
has is optional. `joins` holds, for each field of the second, how it merges into another. -/
def joinFields (joins : List (Str × (Field → Field))) (second first : Fields) : Fields :=
  let kept := first.map fun (name, field) =>
    match joins.lookup name with
    | some join => (name, join field)
    | none => (name, { field with optional := true })
  let added := second.filter fun (name, _) => (first.lookup name).isNone
  kept ++ added.map fun (name, field) => (name, { field with optional := true })

def joinObject (joins : List (Str × (Field → Field))) (second : Fields) : Shape → Shape
  | .object first => .object (joinFields joins second first)
  | a => unionOf [a, .object second]

mutual

def merge (widen : Bool) (a : Shape) : Shape → Shape
  | .primitive k => mergeInto widen (joinPrimitive widen k) (.primitive k) a
  | .reference n => mergeInto widen (joinReference n) (.reference n) a
  | .array f q => mergeInto widen (joinArray (fun e => merge widen e f) f q) (.array f q) a
  | .object second =>
    mergeInto widen (joinObject (fieldJoins widen second) second) (.object second) a
  | .union incoming => unionOf (absorbAll widen a.variants incoming)

def absorbAll (widen : Bool) (variants : List Shape) : List Shape → List Shape
  | [] => variants
  | s :: rest => absorbAll widen (absorb widen (fun v => merge widen v s) s variants) rest

def fieldJoins (widen : Bool) : Fields → List (Str × (Field → Field))
  | [] => []
  | (name, g) :: rest =>
    (name, joinField (fun s => merge widen s g.shape) g) :: fieldJoins widen rest

end

def mergeFields (widen : Bool) (f g : Field) : Field :=
  joinField (fun s => merge widen s g.shape) g f

def mergeAll? (widen : Bool) : List Shape → Option Shape
  | [] => none
  | s :: rest => some (rest.foldl (merge widen) s)

def mergeSteps (widen : Bool) : List Shape → List Shape
  | [] => []
  | s :: rest => steps s rest
where
  steps (merged : Shape) : List Shape → List Shape
    | [] => [merged]
    | s :: rest => merged :: steps (merge widen merged s) rest

end Shape

end SampleTypes
