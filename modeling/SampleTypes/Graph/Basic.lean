import SampleTypes.Shape.Union

/-!
Named types: a root shape and a table of the objects that references point to. References may form
cycles and need not all be in the table; `Graph.check` finds the first that is not.
-/

namespace SampleTypes

structure DanglingReference where
  name : String
  deriving DecidableEq, Repr

def DanglingReference.message (d : DanglingReference) : String :=
  "Reference to unknown type '" ++ d.name ++ "'"

abbrev Table := List (String × Fields)

def Table.resolve (table : Table) (name : String) : Except DanglingReference Fields :=
  match table.lookup name with
  | some fields => .ok fields
  | none => .error ⟨name⟩

structure Graph where
  rootName : String
  root : Shape
  table : Table
  deriving Repr

namespace Graph

/-- The root is an object under its own name, not an array, primitive, union or other reference. -/
def rootIsObject (g : Graph) : Bool :=
  match g.root with
  | .reference name => name = g.rootName
  | _ => false

def references (g : Graph) : List String :=
  g.root.references ++ g.table.flatMap fun (_, fields) => Shape.fieldReferences fields

def check (g : Graph) : Except DanglingReference Unit :=
  match g.references.find? fun name => (g.table.lookup name).isNone with
  | some name => .error ⟨name⟩
  | none => .ok ()

def toJson (g : Graph) : Value :=
  Shape.record [("root", g.root.toJson),
    ("types", Shape.record (g.table.map fun (name, fields) => (↑name, Shape.toJson (.object fields))))]

end Graph

end SampleTypes
