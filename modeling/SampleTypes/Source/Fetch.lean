import SampleTypes.Samples
import SampleTypes.Source.FileTree
import SampleTypes.Source.Url

/-!
Fetching samples. A source is an `http` or `https` URL, a `file` URL or a plain path; a scheme of
one letter is a drive letter and makes a path too. `load` reads several sources up to a limit and
leaves those after it alone.
-/

namespace SampleTypes

structure Response where
  status : Nat
  reason : String
  body : String
  deriving DecidableEq, Repr

/-- What can be read: files, and responses by URL. Any other URL is refused. -/
structure World where
  tree : FileTree
  responses : List (String × Response)
  deriving DecidableEq, Repr

inductive RequestFault where
  | refused
  | clientError (status : Nat) (reason url : String)
  | serverError (status : Nat) (reason url : String)
  deriving DecidableEq, Repr

def RequestFault.message : RequestFault → String
  | .refused => "refused"
  | .clientError status reason url =>
    toString status ++ " Client Error: " ++ reason ++ " for url: " ++ url
  | .serverError status reason url =>
    toString status ++ " Server Error: " ++ reason ++ " for url: " ++ url

inductive FetchError where
  | badUrl (cause : UrlError)
  | unsupportedScheme (scheme : String)
  | requestFailed (source : String) (cause : RequestFault)
  | unreadable (source : String) (fault : FileFault) (path : String)
  | nulCharacter
  | undecodable (cause : Text.Utf8.Fault)
  | badContent (cause : SamplesError)
  deriving DecidableEq, Repr

def FetchError.message : FetchError → String
  | .badUrl cause => cause.message
  | .unsupportedScheme scheme => "Unsupported URL scheme: " ++ scheme
  | .requestFailed source cause => "Request for " ++ source ++ " failed: " ++ cause.message
  | .unreadable source fault path =>
    "Could not read " ++ source ++ ": " ++ (FileError.system fault path).message
  | .nulCharacter => FileError.nulCharacter.message
  | .undecodable cause => cause.message
  | .badContent cause => cause.message

def request (world : World) (url : String) : Except RequestFault String :=
  match world.responses.lookup url with
  | none => .error .refused
  | some response =>
    if 400 ≤ response.status && response.status < 500 then
      .error (.clientError response.status response.reason url)
    else if 500 ≤ response.status && response.status < 600 then
      .error (.serverError response.status response.reason url)
    else .ok response.body

/-- Text files are UTF-8, and each of their line ends is read as a line feed. -/
def readText (tree : FileTree) (source path : String) : Except FetchError String := do
  let bytes ← (tree.read path.toList).mapError fun
    | .nulCharacter => .nulCharacter
    | .system fault shown => .unreadable source fault shown
  let text ← (Text.Utf8.decode bytes).mapError .undecodable
  return String.ofList (Text.unifyNewlines text)

inductive Origin where
  | web (url : String)
  | file (path : String)
  deriving DecidableEq, Repr

def Origin.ofSource (source : String) : Except FetchError Origin := do
  let url ← (Url.parse source).mapError .badUrl
  if url.scheme = "http" || url.scheme = "https" then return .web source
  else if url.scheme = "file" then return .file (if url.host = "" then url.path else url.host)
  else if url.scheme.length ≤ 1 then return .file source
  else .error (.unsupportedScheme url.scheme)

def fetchContent (world : World) (source : String) : Except FetchError String := do
  match ← Origin.ofSource source with
  | .web url => (request world url).mapError (.requestFailed source)
  | .file path => readText world.tree source path

def fetchSamples (world : World) (splitRootArray : Bool) (source : String) :
    Except FetchError (List Value) := do
  let content ← fetchContent world source
  (Samples.parse source splitRootArray content.toList).mapError .badContent

def reachesLimit (limit : Int) (count : Nat) : Bool := decide (0 < limit) && decide (limit ≤ count)

def loadMore (world : World) (limit : Int) (splitRootArray : Bool) (loaded : List Value) :
    List String → Except FetchError (List Value)
  | [] => .ok loaded
  | source :: rest =>
    if reachesLimit limit loaded.length then .ok loaded
    else do
      let samples ← fetchSamples world splitRootArray source
      loadMore world limit splitRootArray (loaded ++ samples) rest

/-- A limit that is not positive is none. -/
def loadSamples (world : World) (limit : Int) (splitRootArray : Bool) (sources : List String) :
    Except FetchError (List Value) := do
  let loaded ← loadMore world limit splitRootArray [] sources
  return if 0 < limit then loaded.take limit.toNat else loaded

end SampleTypes
