import SampleTypes.Text.Points

/-!
Names of types. A type name is an ASCII letter followed by ASCII letters and digits. `typeNameOf`
makes one from any object key, and `elementTypeName` names the elements of an array after the array.
-/

namespace SampleTypes

/-- Drops one line feed at the end. The end of a name may be followed by one. -/
def beforeFinalLineFeed (text : List Char) : List Char :=
  if text.getLast? = some '\n' then text.dropLast else text

def isWord (first rest : Char → Bool) (text : List Char) : Bool :=
  match beforeFinalLineFeed text with
  | [] => false
  | c :: others => first c && others.all rest

def isTypeName (name : String) : Bool := isWord Char.isAlpha Char.isAlphanum name.toList

/-- Names of the target language that a declaration must not shadow. -/
def reservedTypeNames : List String :=
  ["Array", "BigInt", "Boolean", "Date", "Error", "Function", "JSON", "Map", "Math", "Number",
   "Object", "Partial", "Promise", "Readonly", "Record", "RegExp", "Required", "Set", "String",
   "Symbol"]

def joinWords : (atStart : Bool) → Points → List Char
  | _, [] => []
  | atStart, .char c :: rest =>
    if c.isAlphanum then (if atStart then c.toUpper else c) :: joinWords false rest
    else joinWords true rest
  | _, .surrogate _ :: rest => joinWords true rest

def startsWithLetter : List Char → Bool
  | [] => false
  | c :: _ => !c.isDigit

def typeNameOf (name : Str) : String :=
  let joined := joinWords true name.points
  if startsWithLetter joined then String.ofList joined else "Type" ++ String.ofList joined

def singularChars (name : List Char) : List Char :=
  let endsWith (ending : String) : Bool := ending.toList.isSuffixOf name
  if 3 < name.length && endsWith "ies" then name.take (name.length - 3) ++ ['y']
  else if 1 < name.length && endsWith "s" && !(endsWith "ss" || endsWith "us" || endsWith "is") then
    name.dropLast
  else name

def singular (name : String) : String := String.ofList (singularChars name.toList)

def elementTypeName (name : String) : String :=
  let element := singular name
  if element != name || "Element".toList.isSuffixOf name.toList then element
  else name ++ "Element"

end SampleTypes
