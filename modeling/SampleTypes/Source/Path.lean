/-!
File paths as text. `split` cuts a path at its last slash, `join` puts a name under a directory, and
`steps` lists the names between slashes.
-/

namespace SampleTypes.Path

def isSlash (c : Char) : Bool := c = '/'

def dropFinalSlashes (path : List Char) : List Char :=
  if path.all isSlash then path else (path.reverse.dropWhile isSlash).reverse

def split (path : List Char) : List Char × List Char :=
  (dropFinalSlashes (path.reverse.dropWhile (!isSlash ·)).reverse,
    (path.reverse.takeWhile (!isSlash ·)).reverse)

def directoryName (path : List Char) : List Char := (split path).1

/-- As `split`, where a final slash is no name of its own. -/
def splitDirectory (path : List Char) : List Char × List Char :=
  if (split path).2 = [] then split (split path).1 else split path

/-- A name that starts with a slash stands for itself. -/
def join (directory name : List Char) : List Char :=
  if name.head? = some '/' || directory.isEmpty then name
  else if directory.getLast? = some '/' then directory ++ name
  else directory ++ '/' :: name

def steps : List Char → List (List Char)
  | [] => [[]]
  | c :: rest =>
    if c = '/' then [] :: steps rest
    else match steps rest with
      | [] => [[c]]
      | step :: others => (c :: step) :: others

theorem length_dropFinalSlashes_le (path : List Char) :
    (dropFinalSlashes path).length ≤ path.length := by
  unfold dropFinalSlashes
  split
  · exact Nat.le_refl _
  · simpa using (List.dropWhile_suffix isSlash (l := path.reverse)).length_le

theorem length_split (path : List Char) :
    (split path).1.length + (split path).2.length ≤ path.length := by
  have whole := congrArg List.length
    (List.takeWhile_append_dropWhile (p := (!isSlash ·)) (l := path.reverse))
  have head := length_dropFinalSlashes_le (path.reverse.dropWhile (!isSlash ·)).reverse
  simp only [List.length_append, List.length_reverse] at whole head
  simp only [split, List.length_reverse]
  omega

theorem length_splitDirectory_lt {path : List Char} (named : (splitDirectory path).2 ≠ []) :
    (splitDirectory path).1.length < path.length := by
  have outer := length_split path
  have inner := length_split (split path).1
  unfold splitDirectory at named ⊢
  split at named
  · rename_i unnamed
    have := List.length_pos_iff.mpr named
    rw [if_pos unnamed]
    omega
  · rename_i notEmpty
    have := List.length_pos_iff.mpr named
    rw [if_neg notEmpty]
    omega

end SampleTypes.Path
