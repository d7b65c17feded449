import SampleTypes.Graph.Basic
import SampleTypes.TypeName

/-!
Naming objects. A walk over a shape gives each distinct object a name and puts a reference in its
place. Equal objects have one fingerprint and get one name; the table lists objects in the order in
which the walk first meets them, a parent before its fields, fields by name.
-/

namespace SampleTypes

structure NamingCollision where
  base : String
  deriving DecidableEq, Repr

def NamingCollision.message (c : NamingCollision) : String :=
  "Could not find a unique name for '" ++ c.base ++ "'"

structure Registry where
  table : Table
  names : List (List UInt8 × String)
  used : List String
  deriving Repr

def defaultSuffixLimit : Nat := 10000

/-- The first free name among `base` with suffix `suffix`, with the next one, `count` in all. -/
def firstFree? (used : List String) (base : String) : (count suffix : Nat) → Option String
  | 0, _ => none
  | count + 1, suffix =>
    let candidate := base ++ toString suffix
    if used.contains candidate then firstFree? used base count (suffix + 1) else some candidate

/-- The base itself if it is free and not reserved, else with the least free suffix from 2 on and
below the limit. -/
def uniqueName (limit : Nat) (used : List String) (base : String) : Except NamingCollision String :=
  if !used.contains base && !reservedTypeNames.contains base then .ok base
  else match firstFree? used base (limit - 2) 2 with
    | some name => .ok name
    | none => .error ⟨base⟩

abbrev Naming := StateT Registry (Except NamingCollision)

/-- Names the objects of a shape, given the name of its context and, for a root, its own name. -/
abbrev Walk := (context : String) → (fixed : Option String) → Naming Shape

def Registry.reserve (registry : Registry) (digest : List UInt8) (name : String) (fields : Fields) :
    Registry :=
  { table := Entries.put name fields registry.table
    names := registry.names ++ [(digest, name)]
    used := name :: registry.used }

def walkFields (walks : List (Str × Walk × Bool)) : Naming Fields :=
  (sortByName walks).mapM fun (name, walk, optional) => do
    return (name, ⟨← walk (typeNameOf name) none, optional⟩)

def inOrderOf (fields walked : Fields) : Fields :=
  fields.map fun (name, field) => (name, (walked.lookup name).getD field)

def nameObject (limit : Nat) (fields : Fields) (walks : List (Str × Walk × Bool)) : Walk :=
  fun context fixed => do
    let digest := (Shape.object fields).digest
    let registry ← get
    match registry.names.lookup digest with
    | some name => return .reference name
    | none =>
      let name ← match fixed with
        | some name => pure name
        | none => StateT.lift (uniqueName limit registry.used context)
      set (registry.reserve digest name fields)
      let walked ← walkFields walks
      modify fun registry =>
        { registry with table := Entries.put name (inOrderOf fields walked) registry.table }
      return .reference name

mutual

def walk (limit : Nat) : Shape → Walk
  | .object fields => nameObject limit fields (fieldWalks limit fields)
  | .array e placeholder => fun context _ => do
    return .array (← walk limit e (elementTypeName context) none) placeholder
  | .union variants => fun context _ => do
    return .unionOf (← (variantWalks limit variants).mapM fun walk => walk context none)
  | .primitive kind => fun _ _ => return .primitive kind
  | .reference name => fun _ _ => return .reference name

def fieldWalks (limit : Nat) : Fields → List (Str × Walk × Bool)
  | [] => []
  | (name, field) :: rest => (name, walk limit field.shape, field.optional) :: fieldWalks limit rest

def variantWalks (limit : Nat) : List Shape → List Walk
  | [] => []
  | v :: rest => walk limit v :: variantWalks limit rest

end

/-- The name of a root that is no object is kept free for its own declaration. -/
def Registry.initial (root : Shape) (rootName : String) : Registry :=
  match root with
  | .object _ => ⟨[], [], []⟩
  | _ => ⟨[], [], [rootName]⟩

def Graph.ofShape (limit : Nat) (root : Shape) (rootName : String) : Except NamingCollision Graph := do
  let (named, registry) ← (walk limit root rootName (some rootName)).run (.initial root rootName)
  return ⟨rootName, named, registry.table⟩

end SampleTypes
