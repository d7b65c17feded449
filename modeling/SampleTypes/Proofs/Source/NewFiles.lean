import SampleTypes.Proofs.Source.FileTree

/-! Files where there were none. They do not change where paths lead, and when they are removed the tree is
what it was. -/

namespace SampleTypes.FileTree

structure SameDirectories (before after : FileTree) : Prop where
  directories : ∀ place, after.node? place = some .directory ↔ before.node? place = some .directory
  refusals : after.refusals = before.refusals

variable {tree before after : FileTree} {path : List Char} {place other : Place} {content : Bytes}

theorem isDirectory_iff : tree.isDirectory path = true ↔ path.contains '\x00' = false ∧
    ∃ place, tree.locate path = .ok place ∧ tree.node? place = some .directory := by
  rw [isDirectory, decide_eq_true_iff, nodeAt?]
  cases path.contains '\x00' with
  | true => simp
  | false => cases tree.locate path <;> simp

namespace SameDirectories

theorem locate (same : SameDirectories before after) :
    after.locate path = .ok place ↔ before.locate path = .ok place := by
  constructor
  · exact locate_of_directories (fun here => (same.directories here).mp) same.refusals.symm
  · exact locate_of_directories (fun here => (same.directories here).mpr) same.refusals

theorem permit (same : SameDirectories before after) (access : Access) (place : Place) :
    after.permit access place = before.permit access place := by
  rw [FileTree.permit, FileTree.permit, same.refusals]

theorem isDirectory (same : SameDirectories before after) (path : List Char) :
    after.isDirectory path = before.isDirectory path := by
  rw [Bool.eq_iff_iff, isDirectory_iff, isDirectory_iff]
  simp only [same.locate, same.directories]

theorem putFile (vacant : tree.node? place ≠ some .directory) (content : Bytes) :
    SameDirectories tree (tree.putFile place content) := by
  refine ⟨fun here => ?_, rfl⟩
  rw [node?_putFile vacant]
  split
  · rename_i equal
    rw [equal]
    exact ⟨nofun, fun directory => absurd directory vacant⟩
  · exact Iff.rfl

end SameDirectories

/-- A file can be written at the path, which leads to this place in a directory that is there. -/
structure Writable (tree : FileTree) (path : List Char) (place : Place) : Prop where
  clean : path.contains '\x00' = false
  located : tree.locate path = .ok place
  permitted : tree.permit .write place = .ok ()
  vacant : tree.node? place ≠ some .directory
  above : Path.directoryName path = [] ∨ tree.isDirectory (Path.directoryName path) = true

namespace Writable

theorem write (writable : Writable tree path place) (content : Bytes) :
    tree.write path content = .ok (tree.putFile place content) :=
  write_eq_ok.mpr ⟨writable.clean, place, writable.located, writable.permitted, writable.vacant, rfl⟩

theorem isDirectory (writable : Writable tree path place) : tree.isDirectory path = false := by
  rw [Bool.eq_false_iff, ne_eq, isDirectory_iff]
  rintro ⟨_, here, located, directory⟩
  rw [writable.located] at located
  cases located
  exact writable.vacant directory

theorem holds (writable : Writable tree path place) :
    Path.directoryName path = [] ∨ tree.holds (Path.directoryName path) = true := by
  refine writable.above.imp_right fun directory => ?_
  rw [FileTree.isDirectory, decide_eq_true_iff] at directory
  rw [FileTree.holds, directory]
  rfl

theorem putFile (writable : Writable tree path place) (vacant : tree.node? other ≠ some .directory)
    (content : Bytes) : Writable (tree.putFile other content) path place := by
  have same := SameDirectories.putFile vacant content
  constructor
  · exact writable.clean
  · exact same.locate.mpr writable.located
  · rw [same.permit]
    exact writable.permitted
  · exact fun directory => writable.vacant ((same.directories place).mp directory)
  · rw [same.isDirectory]
    exact writable.above

theorem read_putFile (writable : Writable tree path place) (readable : tree.permit .read place = .ok ())
    (content : Bytes) : (tree.putFile place content).read path = .ok content := by
  have same := SameDirectories.putFile writable.vacant content
  refine read_eq_ok.mpr ⟨writable.clean, place, same.locate.mpr writable.located, ?_, ?_⟩
  · rw [same.permit]
    exact readable
  · rw [node?_putFile writable.vacant, if_pos rfl]

end Writable

/-- A new file can be made at the path, where nothing is yet. -/
structure Fresh (tree : FileTree) (path : List Char) (place : Place) : Prop
    extends Writable tree path place where
  free : tree.node? place = none

theorem Fresh.putFile (fresh : Fresh tree path place) (vacant : tree.node? other ≠ some .directory)
    (apart : place ≠ other) (content : Bytes) : Fresh (tree.putFile other content) path place where
  toWritable := fresh.toWritable.putFile vacant content
  free := by
    rw [node?_putFile vacant, if_neg apart]
    exact fresh.free

/-! Removal. -/

theorem filter_files_of_free (free : tree.node? place = none) :
    (tree.files.filter fun file => file.1 != place) = tree.files := by
  rw [List.filter_eq_self]
  intro file here
  rw [bne_iff_ne]
  rintro rfl
  unfold node? at free
  split at free
  · cases free
  · rw [Option.map_eq_none_iff, Entries.lookup_eq_none] at free
    exact free (List.mem_map_of_mem here)

theorem putFile_putFile (first second : Bytes) :
    (tree.putFile place first).putFile place second = tree.putFile place second := by
  simp [putFile, List.filter_filter]

def clear (tree : FileTree) (place : Place) : FileTree :=
  { tree with files := tree.files.filter fun file => file.1 != place }

theorem clear_putFile (free : tree.node? place = none) (content : Bytes) :
    (tree.putFile place content).clear place = tree := by
  simp [clear, putFile, filter_files_of_free free]

theorem clear_putFile_putFile (free : tree.node? place = none) (apart : other ≠ place)
    (content written : Bytes) :
    ((tree.putFile place content).putFile other written).clear place = tree.putFile other written := by
  have files : ((tree.files.filter fun file => file.1 != other).filter fun file => file.1 != place) =
      tree.files.filter fun file => file.1 != other := by
    rw [List.filter_comm, filter_files_of_free free]
  rw [clear, putFile, putFile, putFile, filter_files_of_free free]
  simp [apart, apart.symm, files, -List.filter_filter]

end SampleTypes.FileTree
