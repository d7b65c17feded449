import SampleTypes.TypeScript.Expression
import SampleTypes.TypeScript.Property

/-!
Declarations. Every object of a graph becomes an interface with one line per field, and a root that
is no object a type alias after them. A file is its blocks with a blank line between them.
-/

namespace SampleTypes.TypeScript

structure Member where
  name : Str
  type : String
  optional : Bool
  deriving DecidableEq, Repr

def indent : String := "    "

def Member.text (m : Member) : Points :=
  indent ++ propertyKey m.name ++ (if m.optional then "?" else "") ++ ": " ++ m.type ++ ";"

def interfaceText (name : String) (members : List Member) : Points :=
  let lines : Points := members.flatMap fun m => m.text ++ "\n"
  "export interface " ++ name ++ " \x7b\n" ++ lines ++ "\x7d"

def aliasText (name type : String) : Points := "export type " ++ name ++ " = " ++ type ++ ";"

def arrange (alphabetize : Bool) (fields : Fields) : Fields :=
  if alphabetize then sortByName fields else fields

def members (style : Style) (table : Table) (fields : Fields) : Rendering (List Member) :=
  (arrange style.alphabetize fields).mapM fun (name, field) => do
    return ⟨name, ← typeText table style.explicitUnions field.shape, field.optional⟩

def interfaceBlock (style : Style) (table : Table) (name : String) (fields : Fields) :
    Rendering Points :=
  return interfaceText name (← members style table fields)

def aliasBlock (style : Style) (table : Table) (name : String) (s : Shape) : Rendering Points :=
  return aliasText name (← typeText table style.explicitUnions s)

/-- The blocks of a graph. References are checked first, so that nothing is rendered, and no warning
given, when one of them dangles. -/
def render (style : Style) (g : Graph) : Rendering (List Points) := do
  match g.check with
  | .error cause => throw (.dangling cause)
  | .ok () => pure ()
  let interfaces ← g.table.mapM fun (name, fields) => interfaceBlock style g.table name fields
  if g.rootIsObject then return interfaces
  else return interfaces ++ [← aliasBlock style g.table g.rootName g.root]

def joinBlocks (blocks : List Points) : Points := List.intercalate "\n\n" blocks ++ "\n"

def renderText (style : Style) (g : Graph) : Rendering Points :=
  return joinBlocks (← render style g)

end SampleTypes.TypeScript
