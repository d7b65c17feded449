import SampleTypes.Json.Writer
import SampleTypes.TypeName

/-!
Property keys. An identifier stands as it is, and any other name is quoted.
-/

namespace SampleTypes.TypeScript

def isIdentifierStart (c : Char) : Bool := c.isAlpha || c = '_' || c = '$'

def isIdentifierPart (c : Char) : Bool := c.isAlphanum || c = '_' || c = '$'

def isIdentifier (name : String) : Bool := isWord isIdentifierStart isIdentifierPart name.toList

def propertyKey (name : Str) : Points :=
  if name.string?.any isIdentifier then name.points else Json.quotePoints name.points

end SampleTypes.TypeScript
