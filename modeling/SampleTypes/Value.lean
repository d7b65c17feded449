import SampleTypes.Entries
import SampleTypes.Number.Decimal
import SampleTypes.Text.Points

/-!
Sample values. Text yields nulls, booleans, numbers, strings, lists and objects whose keys are
names. A value built by a program may also hold foreign parts: a value of some other type, or an
object key that is no name. `Location` says where in a value something stands.
-/

namespace SampleTypes

/-- An object key: a name, or something else that is shown as `shown`. Every other key is taken to have
such a text, which an integer of more than 4300 digits has not. -/
inductive Key where
  | name (name : Str)
  | other (shown : String)
  deriving DecidableEq, Repr

def Key.text : Key → Str
  | .name text => text
  | .other shown => shown

inductive Value where
  | null
  | bool (b : Bool)
  | int (i : Int)
  | float (x : Binary64)
  | string (s : Str)
  | list (items : List Value)
  | object (entries : List (Key × Value))
  | foreign (typeName : String)
  deriving Repr

def Value.typeName : Value → String
  | .null => "NoneType"
  | .bool _ => "bool"
  | .int _ => "int"
  | .float _ => "float"
  | .string _ => "str"
  | .list _ => "list"
  | .object _ => "dict"
  | .foreign name => name

def Value.toInt? : Value → Option Int
  | .int i => some i
  | .float x => x.toInt?
  | _ => none

def Value.isNull : Value → Bool
  | .null => true
  | _ => false

def Value.asKey : Value → Key
  | .string name => .name name
  | .null => .other "None"
  | .bool b => .other (if b then "True" else "False")
  | .int i => .other (toString i)
  | .float x => .other (x.text "nan" "inf")
  | v => .other v.typeName

inductive Step where
  | index (i : Nat)
  | key (name : Str)
  deriving DecidableEq, Repr

abbrev Location := List Step

def Step.text : Step → Points
  | .index i => "/" ++ toString i
  | .key name => "/" ++ name.points

def Location.text (root : Points) (location : Location) : Points :=
  location.foldl (fun text step => text ++ step.text) root

def Value.at? : Value → Location → Option Value
  | v, [] => some v
  | .list items, .index i :: rest => items[i]?.bind fun item => item.at? rest
  | .object entries, .key name :: rest => (entries.lookup (.name name)).bind fun item => item.at? rest
  | _, _ :: _ => none

end SampleTypes
