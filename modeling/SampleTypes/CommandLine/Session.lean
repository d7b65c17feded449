import SampleTypes.CommandLine.Command

/-!
One run of the program. Without inputs the standard input is kept in a temporary file and read from
there; without an output the declarations go to a temporary file and then to standard output. Both
files are removed at the end, whatever happened. Standard output takes any text, also that of a path,
which is printed only with a named output.
-/

namespace SampleTypes.CommandLine

structure Temporaries where
  input : String
  output : String
  deriving DecidableEq, Repr

structure Report where
  exitCode : Nat
  stdout : Points
  warnings : List TypeScript.Warning
  tree : FileTree

structure MissingParameter where
  name : String
  deriving DecidableEq, Repr

def MissingParameter.message (m : MissingParameter) : String :=
  "convert_json_to_typescript() missing 1 required positional argument: '" ++ m.name ++ "'"

def asText : Value → Option String
  | .string s => s.string?
  | _ => none

def asSources : Value → List String
  | .string s => s.string?.toList
  | .list items => items.filterMap asText
  | _ => []

def asFlag (v : Option Value) : Bool := (v.map fun v => !isOff v).getD true

def asInteger : Option Value → Int
  | some (.int i) => i
  | _ => 0

def jobOf (parameters : List (String × Value)) : Except MissingParameter Job :=
  match (parameters.lookup "ts_file_path").bind asText with
  | none => .error ⟨"ts_file_path"⟩
  | some out => .ok
    { sources := ((parameters.lookup "input_sources").map asSources).getD []
      out
      typeName := ((parameters.lookup "type_name").bind asText).getD defaultTypeName
      options :=
        { alphabetizeFields := asFlag (parameters.lookup "alphabetize_fields")
          explicitUnions := asFlag (parameters.lookup "explicit_unions")
          widenIntegers := asFlag (parameters.lookup "widen_int_to_float") }
      limit := asInteger (parameters.lookup "sample_size")
      splitRootArray := asFlag (parameters.lookup "split_root_array") }

/-- The input of a command: what was named, or the temporary copy of standard input. -/
def inputOf (temporaries : Temporaries) (options : List (String × Value)) : Value :=
  match options.lookup "input" with
  | some (.list (item :: rest)) => .list (item :: rest)
  | _ => .string temporaries.input

def usesStdin (options : List (String × Value)) : Bool :=
  match options.lookup "input" with
  | some (.list (_ :: _)) => false
  | _ => true

def shownInput : Value → Points
  | .string s => s.points
  | v => Text.quotedList (asSources v)

def outOf (options : List (String × Value)) : Option String := (options.lookup "out").bind asText

/-- Creates a temporary file. Only the system refuses that, and then nothing is there to read. -/
def createTemporary (tree : FileTree) (path text : String) : FileTree :=
  match tree.write path.toList (Text.Utf8.encode text.toList) with
  | .ok after => after
  | .error _ => tree

def removeFile (tree : FileTree) (path : String) : FileTree :=
  match tree.locate path.toList with
  | .ok place => { tree with files := tree.files.filter fun file => file.1 != place }
  | .error _ => tree

def errorText (message : Points) : Points := "Error:  " ++ message ++ "\n"

def jobFor (temporaries : Temporaries) (command : Command) (options : List (String × Value)) :
    Except MissingParameter Job :=
  let output := (outOf options).getD temporaries.output
  jobOf (bind ⟨options, inputOf temporaries options, some output⟩ command.parameters)

/-- Runs a command on the prepared files. With a named output, messages say what is done. -/
def runCommand (world : World) (temporaries : Temporaries) (command : Command)
    (options : List (String × Value)) : Report :=
  let announced : Points :=
    match outOf options with
    | none | some "" => ""
    | some out =>
      "Executing " ++ command.description ++ " with input " ++ shownInput (inputOf temporaries options) ++
        " and output " ++ out ++ "\n"
  match jobFor temporaries command options with
  | .error missing => ⟨1, announced ++ errorText missing.message, [], world.tree⟩
  | .ok job =>
    let result := job.run world
    match result.outcome with
    | .error cause => ⟨1, announced ++ errorText cause.message, result.warnings, result.tree⟩
    | .ok path =>
      match outOf options with
      | some _ => ⟨0, announced ++ "Type file saved to: " ++ path ++ "\n", result.warnings, result.tree⟩
      | none =>
        match readText result.tree path path with
        | .ok text => ⟨0, text, result.warnings, result.tree⟩
        | .error cause => ⟨1, errorText cause.message, result.warnings, result.tree⟩

def createTemporaries (temporaries : Temporaries) (options : List (String × Value))
    (stdin : String) (tree : FileTree) : FileTree :=
  let withInput :=
    if usesStdin options then createTemporary tree temporaries.input stdin else tree
  if (outOf options).isNone then createTemporary withInput temporaries.output "" else withInput

def removeTemporaries (temporaries : Temporaries) (options : List (String × Value))
    (tree : FileTree) : FileTree :=
  let withoutInput := if usesStdin options then removeFile tree temporaries.input else tree
  if (outOf options).isNone then removeFile withoutInput temporaries.output else withoutInput

def runInvocation (world : World) (temporaries : Temporaries) (stdin : String) :
    Invocation → Report
  | .usageError => ⟨2, "", [], world.tree⟩
  | .show text => ⟨0, text, [], world.tree⟩
  | .run command options =>
    let tree := createTemporaries temporaries options stdin world.tree
    let report := runCommand { world with tree } temporaries command options
    { report with tree := removeTemporaries temporaries options report.tree }

def run (world : World) (temporaries : Temporaries) (stdin : String) (args : List String) : Report :=
  runInvocation world temporaries stdin (Invocation.ofArguments args)

end SampleTypes.CommandLine
