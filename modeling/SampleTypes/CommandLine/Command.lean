import SampleTypes.CommandLine.Arguments
import SampleTypes.CommandLine.Binding
import SampleTypes.Conversion

/-!
The program's command line: its options, the one command with its options and the parameters that
they are bound to, and the help texts.
-/

namespace SampleTypes.CommandLine

def programName : String := "typesgen"

def versionText : String := programName ++ " 0.1.0\n"

def topGrammar : Grammar :=
  { options := [("-h", .help), ("--help", .help), ("--version", .flag "version"),
      ("--verbose", .flag "verbose")]
    operands := .command }

def topDefaults : List (String × Value) := [("version", .bool false), ("verbose", .bool false)]

structure Command where
  name : String
  description : String
  grammar : Grammar
  defaults : List (String × Value)
  parameters : List (String × Binding)
  help : String

def helpText (lines : List String) : String := String.join (lines.map (· ++ "\n"))

def topHelp : String := helpText [
  "usage: typesgen [-h] [--version] [--verbose] \x7bjson2ts\x7d ...",
  "",
  "Generate TypeScript type declarations from JSON samples.",
  "",
  "positional arguments:",
  "  \x7bjson2ts\x7d",
  "    json2ts   Generate TypeScript type declarations from JSON samples",
  "",
  "options:",
  "  -h, --help  show this help message and exit",
  "  --version   Print the version of typesgen.",
  "  --verbose   Log debug output to stderr."]

def json2tsHelp : String := helpText [
  "usage: typesgen json2ts [-h] [--out OUT] [--name NAME] [--no-alphabetize]",
  "                        [--loose-unions] [--no-widen-int-to-float]",
  "                        [--sample-size SAMPLE_SIZE] [--keep-root-array]",
  "                        [input ...]",
  "",
  "positional arguments:",
  "  input                 JSON or JSON Lines files, or http(s) URLs. Reads stdin",
  "                        if omitted.",
  "",
  "options:",
  "  -h, --help            show this help message and exit",
  "  --out OUT             Output .ts file, or a directory (created if missing)",
  "                        to hold <name>.ts",
  "  --name NAME           Generated type name",
  "  --no-alphabetize      Keep fields in the order they were observed",
  "  --loose-unions        Render unions as 'any' instead of enumerating their",
  "                        members",
  "  --no-widen-int-to-float",
  "                        Keep integer and float as separate union members",
  "  --sample-size SAMPLE_SIZE",
  "                        Maximum number of samples to analyze (0 = all)",
  "  --keep-root-array     Treat a root-level array as one sample instead of one",
  "                        sample per element"]

def json2ts : Command :=
  { name := "json2ts"
    description := "Generate TypeScript type declarations from JSON samples"
    grammar :=
      { options := [("-h", .help), ("--help", .help), ("--out", .text "out"),
          ("--name", .text "name"), ("--no-alphabetize", .flag "no_alphabetize"),
          ("--loose-unions", .flag "loose_unions"),
          ("--no-widen-int-to-float", .flag "no_widen_int_to_float"),
          ("--sample-size", .integer "sample_size"), ("--keep-root-array", .flag "keep_root_array")]
        operands := .values "input" }
    defaults := [("input", .null), ("out", .null), ("name", .string defaultTypeName),
      ("no_alphabetize", .bool false), ("loose_unions", .bool false),
      ("no_widen_int_to_float", .bool false), ("sample_size", .int 0),
      ("keep_root_array", .bool false)]
    parameters := [("input_sources", .input), ("ts_file_path", .output),
      ("type_name", .option "name"), ("alphabetize_fields", .optionOff "no_alphabetize"),
      ("explicit_unions", .optionOff "loose_unions"),
      ("widen_int_to_float", .optionOff "no_widen_int_to_float"),
      ("sample_size", .option "sample_size"), ("split_root_array", .optionOff "keep_root_array")]
    help := json2tsHelp }

def commands : List Command := [json2ts]

inductive Invocation where
  | usageError
  | show (text : String)
  | run (command : Command) (options : List (String × Value))

def isSet (options : List (String × Value)) (name : String) : Bool :=
  match options.lookup name with
  | some v => !isOff v
  | none => false

def Invocation.ofOptions (options : List (String × Value)) (wanted : Invocation) : Invocation :=
  if isSet options "version" then .show versionText else wanted

/-- The command is read with its own options. After that a wish for the version comes first. -/
def Invocation.ofArguments (args : List String) : Invocation :=
  match parse topGrammar topDefaults args with
  | .usageError => .usageError
  | .help => .show topHelp
  | .parsed options [] leftover =>
    if leftover then .usageError else .ofOptions options (.show topHelp)
  | .parsed options (name :: rest) leftover =>
    match commands.find? fun command => command.name = name with
    | none => .usageError
    | some command =>
      match parse command.grammar command.defaults rest with
      | .usageError => .usageError
      | .help => .show command.help
      | .parsed own _ ownLeftover =>
        if leftover || ownLeftover then .usageError else .ofOptions options (.run command own)

end SampleTypes.CommandLine
