import SampleTypes.CommandLine.Session

/-!
The program. It reads the files that a command may touch, runs the command on them, and writes back
what has changed. Temporary files stay in memory, and there is no network: every URL is refused.
-/

namespace SampleTypes.Disk

/-- The system's number for the fault of reading a directory as a file. -/
def directoryFault : UInt32 := 21

def node? (path : String) : IO (Option Node) := do
  match ← (IO.FS.readBinFile path).toBaseIO with
  | .ok content => return some (.file content.toList)
  | .error (.inappropriateType _ fault _) =>
    return if fault = directoryFault then some .directory else none
  | .error _ => return none

/-- Adds what is on the disk along the names of a path. -/
def survey (tree : FileTree) (here : Place) : List (List Char) → IO FileTree
  | [] => return tree
  | name :: rest => do
    if name = [] || name = ['.'] then survey tree here rest
    else if name = ['.', '.'] then survey tree (FileTree.parent here) rest
    else
      let place := here ++ [String.ofList name]
      match ← node? (FileTree.placeText place) with
      | some .directory => survey (tree.addDirectory place) place rest
      | some (.file content) => return tree.addFile place content
      | none => return tree

def surveyPath (tree : FileTree) (path : String) : IO FileTree :=
  survey tree (if path.toList.head? = some '/' then ["/"] else []) (Path.steps path.toList)

def store (before after : FileTree) : IO Unit := do
  for place in after.directories.reverse do
    unless before.directories.contains place do IO.FS.createDir (FileTree.placeText place)
  for (place, content) in after.files do
    unless before.files.lookup place = some content do
      IO.FS.writeBinFile (FileTree.placeText place) content.toByteArray

end SampleTypes.Disk

namespace SampleTypes.CommandLine

def temporaries : Temporaries := ⟨"/typesgen-input", "/typesgen-output.ts"⟩

def Invocation.paths : Invocation → List String
  | .run command options =>
    match jobFor temporaries command options with
    | .ok job => job.paths
    | .error _ => []
  | _ => []

def Invocation.readsStdin : Invocation → Bool
  | .run _ options => usesStdin options
  | _ => false

/-- Surrogates are shown as U+FFFD. -/
def shown (text : Points) : String := String.ofList (text.map fun p => p.char?.getD '\uFFFD')

def execute (args : List String) : IO UInt32 := do
  let invocation := Invocation.ofArguments args
  let stdin ← if invocation.readsStdin then (← IO.getStdin).readToEnd else pure ""
  let tree ← invocation.paths.foldlM Disk.surveyPath FileTree.empty
  let report := runInvocation ⟨tree, []⟩ temporaries stdin invocation
  Disk.store tree report.tree
  IO.print (shown report.stdout)
  report.warnings.forM fun warning => IO.eprintln warning.message
  if report.exitCode = 2 then IO.eprint topHelp
  return UInt32.ofNat report.exitCode

end SampleTypes.CommandLine

def main (args : List String) : IO UInt32 := SampleTypes.CommandLine.execute args
