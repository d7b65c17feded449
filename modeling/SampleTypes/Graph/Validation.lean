import SampleTypes.Graph.Basic

/-!
Validating values. A primitive matches by type, where an integer may be any integral number and a
float any number; a list matches an array if its items match the element; an object needs every
required field, no unknown one, and a match in each, null being welcome in an optional field; a
union needs one matching variant. Validation recurses on the value, so cycles of references do no
harm, and reports the first mismatch with its location.
-/

namespace SampleTypes

inductive Mismatch where
  | wrongType (expected actual : String)
  | unexpectedField (name : Str)
  | missingField (name : Str)
  | noVariant
  deriving DecidableEq, Repr

def Mismatch.message : Mismatch → Points
  | .wrongType expected actual => "Expected " ++ expected ++ ", got " ++ actual
  | .unexpectedField name => "Unexpected field '" ++ name.points ++ "'"
  | .missingField name => "Missing required field '" ++ name.points ++ "'"
  | .noVariant => "Value matches no union variant"

inductive ValidationError where
  | mismatch (cause : Mismatch) (location : Location)
  | dangling (cause : DanglingReference)
  deriving DecidableEq, Repr

def ValidationError.message : ValidationError → Points
  | .mismatch cause location => cause.message ++ " at " ++ location.text "#"
  | .dangling cause => cause.message

def ValidationError.under (step : Step) : ValidationError → ValidationError
  | .mismatch cause location => .mismatch cause (step :: location)
  | .dangling cause => .dangling cause

abbrev Verdict := Except ValidationError Unit

def Verdict.mismatch (cause : Mismatch) : Verdict := .error (.mismatch cause [])

/-- How one value fares against each kind of shape other than unions and references. -/
structure Checks where
  primitive : Kind → Verdict
  array : (element : Shape) → Verdict
  object : Fields → Verdict

mutual

def checkShape (table : Table) (checks : Checks) : Shape → Verdict
  | .primitive kind => checks.primitive kind
  | .array e _ => checks.array e
  | .object fields => checks.object fields
  | .reference name =>
    match table.resolve name with
    | .ok fields => checks.object fields
    | .error cause => .error (.dangling cause)
  | .union variants => checkVariants table checks variants

/-- The first match wins. A mismatch is forgotten and a dangling reference is not. -/
def checkVariants (table : Table) (checks : Checks) : List Shape → Verdict
  | [] => .mismatch .noVariant
  | v :: rest =>
    match checkShape table checks v with
    | .ok () => .ok ()
    | .error (.mismatch _ _) => checkVariants table checks rest
    | .error (.dangling cause) => .error (.dangling cause)

end

def matchesKind (v : Value) : Kind → Bool
  | .null => v.isNull
  | .boolean => match v with
    | .bool _ => true
    | _ => false
  | .string => match v with
    | .string _ => true
    | _ => false
  | .integer => v.toInt?.isSome
  | .float => match v with
    | .int _ | .float _ => true
    | _ => false

def checkKind (v : Value) (kind : Kind) : Verdict :=
  if matchesKind v kind then .ok () else .mismatch (.wrongType kind.name v.typeName)

def wrongType (v : Value) (expected : String) : Verdict :=
  .mismatch (.wrongType expected v.typeName)

structure EntryCheck where
  isNull : Bool
  check : Shape → Verdict

def Key.isIn (fields : Fields) : Key → Bool
  | .name field => (fields.lookup field).isSome
  | .other _ => false

def checkUnknown (fields : Fields) (entries : List (Key × EntryCheck)) : Verdict :=
  match entries.find? fun (key, _) => !key.isIn fields with
  | some (key, _) => .mismatch (.unexpectedField (key.text))
  | none => .ok ()

def checkField (entries : List (Key × EntryCheck)) (name : Str) (field : Field) : Verdict :=
  match entries.lookup (.name name) with
  | none => if field.optional then .ok () else .mismatch (.missingField name)
  | some entry =>
    if entry.isNull && field.optional then .ok ()
    else (entry.check field.shape).mapError (.under (.key name))

def checkFields (entries : List (Key × EntryCheck)) : Fields → Verdict
  | [] => .ok ()
  | (name, field) :: rest => do
    checkField entries name field
    checkFields entries rest

/-- Unknown fields are reported before missing and mismatching ones. -/
def checkObject (entries : List (Key × EntryCheck)) (fields : Fields) : Verdict := do
  checkUnknown fields entries
  checkFields entries fields

mutual

def validate (table : Table) : Value → Shape → Verdict
  | .list items => checkShape table
    { primitive := checkKind (.list items)
      array := validateItems table 0 items
      object := fun _ => wrongType (.list items) "object" }
  | .object entries => checkShape table
    { primitive := checkKind (.object entries)
      array := fun _ => wrongType (.object entries) "array"
      object := checkObject (entryChecks table entries) }
  | v => checkShape table
    { primitive := checkKind v
      array := fun _ => wrongType v "array"
      object := fun _ => wrongType v "object" }

def validateItems (table : Table) : Nat → List Value → Shape → Verdict
  | _, [], _ => .ok ()
  | i, item :: rest, element => do
    (validate table item element).mapError (.under (.index i))
    validateItems table (i + 1) rest element

def entryChecks (table : Table) : List (Key × Value) → List (Key × EntryCheck)
  | [] => []
  | (key, v) :: rest => (key, ⟨v.isNull, validate table v⟩) :: entryChecks table rest

end

def Graph.validate (g : Graph) (v : Value) : Verdict := SampleTypes.validate g.table v g.root

def Graph.isValid (g : Graph) (v : Value) : Except DanglingReference Bool :=
  match g.validate v with
  | .ok () => .ok true
  | .error (.mismatch _ _) => .ok false
  | .error (.dangling cause) => .error cause

end SampleTypes
