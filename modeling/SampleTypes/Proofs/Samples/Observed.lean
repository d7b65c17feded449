import Mathlib.Algebra.Group.Int.Defs
import Mathlib.Algebra.Group.Nat.Defs
import SampleTypes.Proofs.Entries
import SampleTypes.Proofs.Value
import SampleTypes.Shape.Inference

/-! What samples have in common, read off all of them at once: which kinds occur, the items of all
lists together, and field by field the values in all objects together. -/

namespace SampleTypes

namespace Value

def isBoolean : Value → Bool
  | .bool _ => true
  | _ => false

def isNumber : Value → Bool
  | .int _ => true
  | .float _ => true
  | _ => false

def isString : Value → Bool
  | .string _ => true
  | _ => false

def isList : Value → Bool
  | .list _ => true
  | _ => false

def isObject : Value → Bool
  | .object _ => true
  | _ => false

/-- An integral number of at most `2 ^ 53 - 1` in magnitude. -/
def isInteger (v : Value) : Bool := v.toInt?.any fun i => decide (i.natAbs ≤ 2 ^ 53 - 1)

def isFloat (v : Value) : Bool := v.isNumber && !v.isInteger

def items : Value → List Value
  | .list items => items
  | _ => []

def entries : Value → List (Key × Value)
  | .object entries => entries
  | _ => []

def field? (name : Str) (v : Value) : Option Value := v.entries.lookup (.name name)

end Value

namespace Samples

def items (samples : List Value) : List Value := samples.flatMap Value.items

/-- The names that occur in objects, in the order of their first occurrence. -/
def names (samples : List Value) : List Str :=
  (samples.flatMap fun v => v.entries.map fun entry => entry.1.text).eraseDups

def valuesAt (name : Str) (samples : List Value) : List Value :=
  samples.filterMap (Value.field? name)

def presentAt (name : Str) (samples : List Value) : List Value :=
  (valuesAt name samples).filter fun v => !v.isNull

def missingAt (name : Str) (samples : List Value) : Bool :=
  samples.any fun v => v.isObject && (v.field? name).isNone

/-- A field is optional when an object lacks it, or when it is null in one and not null in another. -/
def optionalAt (name : Str) (samples : List Value) : Bool :=
  missingAt name samples ||
    (valuesAt name samples).any Value.isNull && !(presentAt name samples).isEmpty

theorem sizeOf_append (first second : List Value) :
    sizeOf (first ++ second) + 1 = sizeOf first + sizeOf second := by
  induction first with
  | nil => simp [Nat.add_comm]
  | cons v rest ih =>
    simp only [List.cons_append, List.cons.sizeOf_spec]
    omega

theorem sizeOf_flatMap {part : Value → List Value} (smaller : ∀ v, sizeOf (part v) ≤ sizeOf v)
    (samples : List Value) :
    sizeOf (samples.flatMap part) + samples.length ≤ sizeOf samples := by
  induction samples with
  | nil => simp
  | cons v rest ih =>
    have joined := sizeOf_append (part v) (rest.flatMap part)
    have bound := smaller v
    simp only [List.flatMap_cons, List.length_cons, List.cons.sizeOf_spec]
    omega

theorem sizeOf_items {samples : List Value} (nonempty : samples ≠ []) :
    sizeOf (items samples) < sizeOf samples := by
  have smaller : ∀ v : Value, sizeOf v.items ≤ sizeOf v := by
    intro v
    cases v <;> simp [Value.items]
  have bound := sizeOf_flatMap smaller samples
  have length := List.length_pos_iff.mpr nonempty
  unfold items
  omega

theorem sizeOf_field? {name : Str} {v w : Value} (found : v.field? name = some w) :
    sizeOf w + 2 ≤ sizeOf v := by
  have here := Entries.mem_of_lookup found
  cases v with
  | object entries =>
    have bound := List.sizeOf_lt_of_mem here
    simp only [Value.entries, Prod.mk.sizeOf_spec, Value.object.sizeOf_spec] at bound ⊢
    omega
  | _ => cases here

theorem sizeOf_presentAt (name : Str) {samples : List Value} (nonempty : samples ≠ []) :
    sizeOf (presentAt name samples) < sizeOf samples := by
  have gathered : presentAt name samples =
      samples.flatMap fun v => (v.field? name).toList.filter fun w => !w.isNull := by
    rw [presentAt, valuesAt, List.filterMap_eq_flatMap_toList, List.filter_flatMap]
  have smaller : ∀ v : Value,
      sizeOf ((v.field? name).toList.filter fun w => !w.isNull) ≤ sizeOf v := by
    intro v
    cases found : v.field? name with
    | none => cases v <;> simp
    | some w =>
      have bound := sizeOf_field? found
      cases null : w.isNull <;> simp [null] <;> omega
  rw [gathered]
  have bound := sizeOf_flatMap smaller samples
  have length := List.length_pos_iff.mpr nonempty
  omega

end Samples

namespace Shape

/-- The kinds of samples in their order in a union. With `widen` all numbers are of one kind. -/
def families (widen : Bool) : List Family :=
  [.primitive .boolean] ++
    (if widen then [.number] else [.primitive .integer, .primitive .float]) ++
    [.primitive .string, .array, .object, .primitive .null]

def variantOf (samples : List Value) (element : Shape) (shapeAt : Str → Shape) :
    Family → Option Shape
  | .primitive .boolean => if samples.any Value.isBoolean then some (.primitive .boolean) else none
  | .primitive .integer => if samples.any Value.isInteger then some (.primitive .integer) else none
  | .primitive .float => if samples.any Value.isFloat then some (.primitive .float) else none
  | .number =>
    if samples.any Value.isNumber then
      some (.primitive (if samples.any Value.isFloat then .float else .integer))
    else none
  | .primitive .string => if samples.any Value.isString then some (.primitive .string) else none
  | .array =>
    if samples.any Value.isList then some (.array element (Samples.items samples).isEmpty) else none
  | .object =>
    if samples.any Value.isObject then
      some (.object ((Samples.names samples).map fun name =>
        (name, ⟨shapeAt name, Samples.optionalAt name samples⟩)))
    else none
  | .primitive .null => if samples.any Value.isNull then some .null else none
  | .union => none
  | .reference _ => none

def standing : List Shape → Shape
  | [s] => s
  | shapes => .union shapes

/-- The shape of samples, read off all of them at once. No samples at all are as good as nulls. -/
def observed (widen : Bool) : List Value → Shape
  | [] => .null
  | sample :: rest =>
    standing ((families widen).filterMap
      (variantOf (sample :: rest) (observed widen (Samples.items (sample :: rest)))
        fun name => observed widen (Samples.presentAt name (sample :: rest))))
termination_by samples => sizeOf samples
decreasing_by
  · exact Samples.sizeOf_items nofun
  · exact Samples.sizeOf_presentAt name nofun

end Shape

end SampleTypes
