import SampleTypes.Shape.Canonical

/-!
Unions. `unionOf` takes nested unions apart, keeps one of equal shapes and puts the rest in order of
kind and then of canonical text; one shape alone is no union.
-/

namespace SampleTypes

inductive ShapeError where
  | unknownKind (name : String)
  | tooFewVariants
  | nestedUnion
  | noVariants
  deriving DecidableEq, Repr

def ShapeError.message : ShapeError → String
  | .unknownKind name => "Unknown primitive kind '" ++ name ++ "'"
  | .tooFewVariants => "A union needs at least two variants"
  | .nestedUnion => "Unions must not be nested"
  | .noVariants => "A union needs at least one variant"

namespace Shape

def distinct (shapes : List Shape) : List Shape :=
  shapes.foldl (fun kept s => if kept.contains s then kept else kept ++ [s]) []

def rank (s : Shape) : Nat := s.rank?.getD 8

/-- The order of variants: by rank, and by canonical text within a rank. -/
def precedes (s t : Shape) : Bool :=
  s.rank < t.rank || (s.rank == t.rank && decide (s.key ≤ t.key))

def canonicalVariants (shapes : List Shape) : List Shape :=
  sort precedes (distinct (shapes.flatMap variants))

def unionOf (shapes : List Shape) : Shape :=
  match canonicalVariants shapes with
  | [s] => s
  | variants => .union variants

def unionOf? (shapes : List Shape) : Except ShapeError Shape :=
  if shapes.isEmpty then .error .noVariants else .ok (unionOf shapes)

/-! Shapes that are written out by hand are checked when they are built. -/

def primitive? (name : String) : Except ShapeError Shape :=
  match Kind.ofName? name with
  | some kind => .ok (.primitive kind)
  | none => .error (.unknownKind name)

/-- A union of exactly these variants in this order. -/
def union? (variants : List Shape) : Except ShapeError Shape :=
  if variants.length < 2 then .error .tooFewVariants
  else if variants.any isUnion then .error .nestedUnion
  else .ok (.union variants)

end Shape

end SampleTypes
