import SampleTypes.Proofs.Conversion
import SampleTypes.Proofs.Source.Fetching
import SampleTypes.Proofs.Source.NewFiles

/-! An empty file that nobody else knows of. A source that leads to it has no samples, as if the file were
not there, so the declarations of a job do not depend on it. -/

namespace SampleTypes

open FileTree (SameDirectories)

variable {world : World} {place : Place} {splitRootArray : Bool} {source path : String}

def World.withEmptyFile (world : World) (place : Place) : World :=
  { world with tree := world.tree.putFile place [] }

theorem read_withEmptyFile (free : world.tree.node? place = none) {path : List Char} {bytes : Bytes}
    (nonempty : bytes ≠ []) :
    (world.withEmptyFile place).tree.read path = .ok bytes ↔ world.tree.read path = .ok bytes := by
  have vacant : world.tree.node? place ≠ some .directory := by simp [free]
  have same := SameDirectories.putFile vacant []
  rw [World.withEmptyFile, FileTree.read_eq_ok, FileTree.read_eq_ok]
  refine and_congr_right fun _ => exists_congr fun here =>
    and_congr same.locate (and_congr ?_ ?_)
  · rw [same.permit]
  · rw [FileTree.node?_putFile vacant]
    split
    · rename_i equal
      simp [equal, free, nonempty.symm]
    · exact Iff.rfl

theorem readText_eq_ok {tree : FileTree} {text : String} : readText tree source path = .ok text ↔
    ∃ bytes characters, tree.read path.toList = .ok bytes ∧ Text.Utf8.decode bytes = .ok characters ∧
      String.ofList (Text.unifyNewlines characters) = text := by
  constructor
  · intro ran
    obtain ⟨bytes, read, ran⟩ := eq_ok_of_bind ran
    obtain ⟨characters, decoded, ran⟩ := eq_ok_of_bind ran
    exact ⟨bytes, characters, mapError_eq_ok.mp read, mapError_eq_ok.mp decoded, Except.ok.inj ran⟩
  · rintro ⟨bytes, characters, read, decoded, rfl⟩
    rw [readText, read]
    simp only [Except.mapError, bind, Except.bind, decoded]
    rfl

/-- Only what an empty file has in it tells it apart. -/
theorem readText_withEmptyFile (free : world.tree.node? place = none) {text : String}
    (nonempty : text ≠ "") :
    readText (world.withEmptyFile place).tree source path = .ok text ↔
      readText world.tree source path = .ok text := by
  rw [readText_eq_ok, readText_eq_ok]
  refine exists_congr fun bytes => exists_congr fun characters => ?_
  refine and_congr_left fun ⟨decoded, shown⟩ => read_withEmptyFile free ?_
  rintro rfl
  cases decoded
  exact nonempty shown.symm

theorem fetchContent_withEmptyFile (free : world.tree.node? place = none) {content : String}
    (nonempty : content ≠ "") :
    fetchContent (world.withEmptyFile place) source = .ok content ↔
      fetchContent world source = .ok content := by
  refine bind_ok_iff (fun _ => Iff.rfl) fun origin => ?_
  cases origin with
  | web url => exact Iff.rfl
  | file path => exact readText_withEmptyFile free nonempty

theorem fetchSamples_eq_ok {samples : List Value} :
    fetchSamples world splitRootArray source = .ok samples ↔ ∃ content, content ≠ "" ∧
      fetchContent world source = .ok content ∧
        Samples.parse source splitRootArray content.toList = .ok samples := by
  constructor
  · intro fetched
    obtain ⟨content, found, parsed⟩ := eq_ok_of_bind fetched
    refine ⟨content, ?_, found, mapError_eq_ok.mp parsed⟩
    rintro rfl
    cases parsed
  · rintro ⟨content, _, found, parsed⟩
    rw [fetchSamples, found]
    exact mapError_eq_ok.mpr parsed

theorem fetchSamples_withEmptyFile (free : world.tree.node? place = none) (samples : List Value) :
    fetchSamples (world.withEmptyFile place) splitRootArray source = .ok samples ↔
      fetchSamples world splitRootArray source = .ok samples := by
  rw [fetchSamples_eq_ok, fetchSamples_eq_ok]
  exact exists_congr fun content => and_congr_right fun nonempty =>
    and_congr_left fun _ => fetchContent_withEmptyFile free nonempty

theorem loadMore_withEmptyFile (free : world.tree.node? place = none) {limit : Int}
    {sources : List String} {loaded all : List Value} :
    loadMore (world.withEmptyFile place) limit splitRootArray loaded sources = .ok all ↔
      loadMore world limit splitRootArray loaded sources = .ok all := by
  induction sources generalizing loaded with
  | nil => exact Iff.rfl
  | cons source rest ih =>
    rw [loadMore, loadMore]
    split
    · exact Iff.rfl
    · exact bind_ok_iff (fetchSamples_withEmptyFile free) fun samples => ih

theorem loadSamples_withEmptyFile (free : world.tree.node? place = none) {limit : Int}
    {sources : List String} {samples : List Value} :
    loadSamples (world.withEmptyFile place) limit splitRootArray sources = .ok samples ↔
      loadSamples world limit splitRootArray sources = .ok samples :=
  bind_ok_iff (fun _ => loadMore_withEmptyFile free) fun _ => Iff.rfl

theorem declares_withEmptyFile (free : world.tree.node? place = none) {job : Job} {blocks : List Points} :
    job.Declares (world.withEmptyFile place) blocks ↔ job.Declares world blocks := by
  constructor
  · rintro ⟨sources, ⟨samples, warnings, loaded, ran⟩, nonempty⟩
    exact ⟨sources, ⟨samples, warnings, (loadSamples_withEmptyFile free).mp loaded, ran⟩, nonempty⟩
  · rintro ⟨sources, ⟨samples, warnings, loaded, ran⟩, nonempty⟩
    exact ⟨sources, ⟨samples, warnings, (loadSamples_withEmptyFile free).mpr loaded, ran⟩, nonempty⟩

end SampleTypes
