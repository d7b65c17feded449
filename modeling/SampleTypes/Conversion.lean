import SampleTypes.Generation
import SampleTypes.Source.Fetch

/-!
The whole conversion: load samples, generate declarations, write them to a file. Nothing is written
before the text is complete, but the file is opened before the text is encoded: a text that has no
bytes leaves it empty.
-/

namespace SampleTypes

/-- Why nothing is written. Only what the system refuses is reported as a failure to write; the others get
through as they are. -/
inductive WriteError where
  | nulCharacter
  | unwritable (target : String) (fault : FileFault) (path : String)
  | unencodable (cause : Text.Utf8.Unencodable)
  deriving DecidableEq, Repr

def WriteError.message : WriteError → String
  | .nulCharacter => FileError.nulCharacter.message
  | .unwritable target fault path =>
    "Could not write " ++ target ++ ": " ++ (FileError.system fault path).message
  | .unencodable cause => cause.message

def WriteError.ofFile (target : String) : FileError → WriteError
  | .nulCharacter => .nulCharacter
  | .system fault path => .unwritable target fault path

def fileIn (directory typeName : String) : String :=
  String.ofList (Path.join directory.toList (typeName ++ ".ts").toList)

/-- The file to write: the path itself if it ends in `.ts` and is no directory, else a file in it. -/
def targetPath (tree : FileTree) (out typeName : String) : String :=
  if tree.isDirectory out.toList || !".ts".toList.isSuffixOf out.toList then fileIn out typeName
  else out

def writeFile (target : String) (content : Bytes) : FileTree.Filing Unit := do
  let directory := Path.directoryName target.toList
  if directory ≠ [] && !(← get).holds directory then FileTree.makeDirectories directory
  FileTree.update (·.write target.toList content)

def persist (tree : FileTree) (out : String) (text : Points) (typeName : String) :
    Except WriteError String × FileTree :=
  let target := targetPath tree out typeName
  let written (content : Bytes) (outcome : Except WriteError String) :
      Except WriteError String × FileTree :=
    match (writeFile target content).run.run tree with
    | (.ok (), after) => (outcome, after)
    | (.error fault, after) => (.error (.ofFile target fault), after)
  match Text.Utf8.encodePoints text with
  | .ok content => written content (.ok target)
  | .error cause => written [] (.error (.unencodable cause))

structure Job where
  sources : List String
  out : String
  typeName : String := defaultTypeName
  options : Options := {}
  limit : Int := 0
  splitRootArray : Bool := true
  deriving DecidableEq, Repr

def Job.paths (job : Job) : List String :=
  let read := job.sources.filterMap fun source =>
    match Origin.ofSource source with
    | .ok (.file path) => some path
    | _ => none
  read ++ [job.out, fileIn job.out job.typeName]

inductive ConversionError where
  | noSources
  | fetch (cause : FetchError)
  | generation (cause : GenerationError)
  | write (cause : WriteError)
  deriving DecidableEq, Repr

def ConversionError.message : ConversionError → Points
  | .noSources => "At least one input source is required"
  | .fetch cause => cause.message
  | .generation cause => cause.message
  | .write cause => cause.message

def Job.text (job : Job) (world : World) : Except ConversionError Points × List TypeScript.Warning :=
  if job.sources.isEmpty then (.error .noSources, [])
  else match loadSamples world job.limit job.splitRootArray job.sources with
    | .error cause => (.error (.fetch cause), [])
    | .ok samples =>
      let (outcome, warnings) := (generate job.options (some job.typeName) samples).run.run []
      ((outcome.map TypeScript.joinBlocks).mapError .generation, warnings)

structure Result where
  outcome : Except ConversionError String
  tree : FileTree
  warnings : List TypeScript.Warning

def Job.run (job : Job) (world : World) : Result :=
  let (text, warnings) := job.text world
  match text with
  | .error cause => ⟨.error cause, world.tree, warnings⟩
  | .ok text =>
    let (outcome, tree) := persist world.tree job.out text job.typeName
    ⟨outcome.mapError .write, tree, warnings⟩

end SampleTypes
