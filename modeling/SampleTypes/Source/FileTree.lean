import SampleTypes.Sorting
import SampleTypes.Source.Path
import SampleTypes.Text.Quoted
import SampleTypes.Text.Utf8

/-!
A tree of files around a working directory. A place is the list of names that leads to it from
there; it may start with `..` steps, or with `/` for the top of the system, of which nothing but the
directories themselves is known. Operations fail as the operating system does, which may also refuse
them, for lack of permission say.
-/

namespace SampleTypes

inductive FileFault where
  | notFound
  | alreadyExists
  | notADirectory
  | isADirectory
  | nameTooLong
  | other (number : Nat) (text : String)
  deriving DecidableEq, Repr

def FileFault.number : FileFault → Nat
  | .notFound => 2
  | .alreadyExists => 17
  | .notADirectory => 20
  | .isADirectory => 21
  | .nameTooLong => 36
  | .other number _ => number

def FileFault.text : FileFault → String
  | .notFound => "No such file or directory"
  | .alreadyExists => "File exists"
  | .notADirectory => "Not a directory"
  | .isADirectory => "Is a directory"
  | .nameTooLong => "File name too long"
  | .other _ text => text

inductive FileError where
  | nulCharacter
  | system (fault : FileFault) (path : String)
  deriving DecidableEq, Repr

def FileError.message : FileError → String
  | .nulCharacter => "embedded null byte"
  | .system fault path =>
    "[Errno " ++ toString fault.number ++ "] " ++ fault.text ++ ": " ++ Text.quoted path

abbrev Place := List String

abbrev Bytes := List UInt8

inductive Node where
  | directory
  | file (content : Bytes)
  deriving DecidableEq, Repr

inductive Access where
  | search
  | make
  | read
  | write
  deriving DecidableEq, Repr

/-- Directories, files, and the faults with which the system refuses an access to a place. -/
structure FileTree where
  directories : List Place
  files : List (Place × Bytes)
  refusals : List ((Access × Place) × FileFault)
  deriving DecidableEq, Repr

namespace FileTree

def empty : FileTree := ⟨[], [], []⟩

def isAbove (place : Place) : Bool := place.all (· = "..") || place = ["/"]

def node? (tree : FileTree) (place : Place) : Option Node :=
  if isAbove place || tree.directories.contains place then some .directory
  else (tree.files.lookup place).map .file

def parent (place : Place) : Place :=
  if place = ["/"] then place else if place.all (· = "..") then ".." :: place else place.dropLast

def maxNameBytes : Nat := 255

def maxPathBytes : Nat := 4095

def byteLength (text : List Char) : Nat := (Text.Utf8.encode text).length

def permit (tree : FileTree) (access : Access) (place : Place) : Except FileFault Unit :=
  match tree.refusals.lookup (access, place) with
  | some fault => .error fault
  | none => .ok ()

/-- Follows the names of a path. Each but the last must lead to a directory. -/
def follow (tree : FileTree) (here : Place) : List (List Char) → Except FileFault Place
  | [] => .ok here
  | name :: rest =>
    match tree.node? here with
    | none => .error .notFound
    | some (.file _) => .error .notADirectory
    | some .directory =>
      if name = [] || name = ['.'] then tree.follow here rest
      else if name = ['.', '.'] then tree.follow (parent here) rest
      else if maxNameBytes < byteLength name then .error .nameTooLong
      else do
        tree.permit .search here
        tree.follow (here ++ [String.ofList name]) rest

/-- The place that a path names, whether or not anything is there. -/
def locate (tree : FileTree) (path : List Char) : Except FileFault Place :=
  if path.isEmpty then .error .notFound
  else if maxPathBytes < byteLength path then .error .nameTooLong
  else tree.follow (if path.head? = some '/' then ["/"] else []) (Path.steps path)

def nodeAt? (tree : FileTree) (path : List Char) : Option Node :=
  if path.contains '\x00' then none
  else match tree.locate path with
    | .ok place => tree.node? place
    | .error _ => none

def isDirectory (tree : FileTree) (path : List Char) : Bool := tree.nodeAt? path = some .directory

def holds (tree : FileTree) (path : List Char) : Bool := (tree.nodeAt? path).isSome

def atPlace {α : Type} (tree : FileTree) (access : Access) (path : List Char)
    (operation : Place → Except FileFault α) : Except FileError α :=
  if path.contains '\x00' then .error .nulCharacter
  else
    let outcome := do
      let place ← tree.locate path
      tree.permit access place
      operation place
    outcome.mapError fun fault => .system fault (String.ofList path)

def read (tree : FileTree) (path : List Char) : Except FileError Bytes :=
  tree.atPlace .read path fun place =>
    match tree.node? place with
    | none => .error .notFound
    | some .directory => .error .isADirectory
    | some (.file content) => .ok content

def putFile (tree : FileTree) (place : Place) (content : Bytes) : FileTree :=
  { tree with files := (place, content) :: tree.files.filter fun file => file.1 != place }

def write (tree : FileTree) (path : List Char) (content : Bytes) : Except FileError FileTree :=
  tree.atPlace .write path fun place =>
    match tree.node? place with
    | some .directory => .error .isADirectory
    | _ => .ok (tree.putFile place content)

def makeDirectory (tree : FileTree) (path : List Char) : Except FileError FileTree :=
  tree.atPlace .make path fun place =>
    match tree.node? place with
    | some _ => .error .alreadyExists
    | none => .ok { tree with directories := place :: tree.directories }

/-- An operation on a tree that keeps what was done before a failure. -/
abbrev Filing := ExceptT FileError (StateM FileTree)

def update (change : FileTree → Except FileError FileTree) : Filing Unit := do
  match change (← get) with
  | .ok tree => set tree
  | .error fault => throw fault

def ignoringExisting (filing : Filing Unit) : Filing Unit :=
  tryCatch filing fun
    | .system .alreadyExists _ => pure ()
    | fault => throw fault

def makeDirectories (path : List Char) : Filing Unit := do
  if _named : (Path.splitDirectory path).2 = [] then update (makeDirectory · path)
  else
    let above := (Path.splitDirectory path).1
    if above.isEmpty || (← get).holds above then update (makeDirectory · path)
    else
      ignoringExisting (makeDirectories above)
      if (Path.splitDirectory path).2 = ['.'] then pure () else update (makeDirectory · path)
termination_by path.length
decreasing_by exact Path.length_splitDirectory_lt ‹_›

/-! Contents -/

def addDirectory (tree : FileTree) (place : Place) : FileTree :=
  let above := (List.range place.length).map fun n => place.take (n + 1)
  { tree with directories := (above.filter fun p => !tree.directories.contains p) ++ tree.directories }

def addFile (tree : FileTree) (place : Place) (content : Bytes) : FileTree :=
  (tree.addDirectory place.dropLast).putFile place content

def placeText (place : Place) : String := "/".intercalate place

/-- All that stands below the working directory, by name. Directories end in a slash. -/
def listing (tree : FileTree) : List (String × Node) :=
  let isBelow (place : Place) : Bool := !isAbove place && place.head? != some ".." &&
    place.head? != some "/"
  let directories := (tree.directories.filter isBelow).map fun place =>
    (placeText place ++ "/", Node.directory)
  let files := (tree.files.filter fun file => isBelow file.1).map fun (place, content) =>
    (placeText place, Node.file content)
  sort (fun first second => decide (first.1 ≤ second.1)) (directories ++ files)

end FileTree

end SampleTypes
