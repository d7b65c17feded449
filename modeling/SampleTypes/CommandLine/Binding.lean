import SampleTypes.Value

/-!
Binding parameters to parsed options. A parameter takes the input, the output, the value of an
option, the opposite of a flag, or a fixed text. A parameter whose option was not parsed, or whose
output is empty, stays unbound.
-/

namespace SampleTypes.CommandLine

inductive Binding where
  | input
  | output
  | optionOff (name : String)
  | option (name : String)
  | fixed (text : String)
  deriving DecidableEq, Repr

def Binding.ofText (text : String) : Binding :=
  if text = "input_file_path" then .input
  else if text = "output_file_path" then .output
  else if "not args.".toList.isPrefixOf text.toList then
    .optionOff (String.ofList (text.toList.drop 9))
  else if "args.".toList.isPrefixOf text.toList then .option (String.ofList (text.toList.drop 5))
  else .fixed text

/-- Null, false, zeros and empty texts, lists and objects count as off. -/
def isOff : Value → Bool
  | .null => true
  | .bool b => !b
  | .int i => i = 0
  | .float x => x.isZero
  | .string s => s.points.isEmpty
  | .list items => items.isEmpty
  | .object entries => entries.isEmpty
  | .foreign _ => false

structure Sources where
  options : List (String × Value)
  input : Value
  output : Option String
  deriving Repr

def Binding.value? (sources : Sources) : Binding → Option Value
  | .input => some sources.input
  | .output => match sources.output with
    | none | some "" => none
    | some path => some (.string path)
  | .optionOff name => (sources.options.lookup name).map fun v => .bool (isOff v)
  | .option name => sources.options.lookup name
  | .fixed text => some (.string text)

def bind (sources : Sources) (bindings : List (String × Binding)) : List (String × Value) :=
  bindings.filterMap fun (parameter, binding) => (binding.value? sources).map (parameter, ·)

end SampleTypes.CommandLine
