import SampleTypes.Graph.Basic

/-!
Type expressions. Integers and floats are both numbers, so a union shows each text once. Loose
unions are written `any`, with a warning for each.
-/

namespace SampleTypes.TypeScript

inductive Warning where
  | looseUnion (variants : Nat)
  deriving DecidableEq, Repr

def Warning.message : Warning → String
  | .looseUnion variants => "Rendering union of " ++ toString variants ++ " variants as 'any'"

inductive RenderError where
  | dangling (cause : DanglingReference)
  | unnamedObject
  deriving DecidableEq, Repr

/-- Rendering keeps the warnings given so far even when it fails. -/
abbrev Rendering := ExceptT RenderError (StateM (List Warning))

def warn (warning : Warning) : Rendering Unit :=
  modify fun warnings => warnings ++ [warning]

structure Style where
  alphabetize : Bool := true
  explicitUnions : Bool := true
  deriving DecidableEq, Repr

def kindText : Kind → String
  | .null => "null"
  | .boolean => "boolean"
  | .string => "string"
  | .integer => "number"
  | .float => "number"

def separator : String := " | "

def holdsSeparator : List Char → Bool
  | [] => false
  | c :: rest => separator.toList.isPrefixOf (c :: rest) || holdsSeparator rest

/-- An array of a union needs parentheses, unless all variants have one text. -/
def arrayText (element : Shape) (text : String) : String :=
  if element.isUnion && holdsSeparator text.toList then "(" ++ text ++ ")[]" else text ++ "[]"

def unionText (texts : List String) : String := separator.intercalate texts.eraseDups

mutual

def typeText (table : Table) (explicitUnions : Bool) : Shape → Rendering String
  | .primitive kind => return kindText kind
  | .reference name =>
    match table.resolve name with
    | .ok _ => return name
    | .error cause => throw (.dangling cause)
  | .array e _ => return arrayText e (← typeText table explicitUnions e)
  | .union variants =>
    if explicitUnions then return unionText (← typeTexts table explicitUnions variants)
    else do
      warn (.looseUnion variants.length)
      return "any"
  | .object _ => throw .unnamedObject

def typeTexts (table : Table) (explicitUnions : Bool) : List Shape → Rendering (List String)
  | [] => return []
  | v :: rest => return (← typeText table explicitUnions v) :: (← typeTexts table explicitUnions rest)

end

end SampleTypes.TypeScript
