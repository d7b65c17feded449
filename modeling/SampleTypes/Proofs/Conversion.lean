import SampleTypes.Conversion
import SampleTypes.Proofs.Source.NewFiles
import SampleTypes.Proofs.SurrogateKeys

/-! What a conversion does to the files. A job that fails leaves them as they are, and one that succeeds
writes the declarations of its samples to one file. -/

namespace SampleTypes

open FileTree (KeepsFiles Writable Written WritesOrKeeps)

theorem writeFile_run (tree : FileTree) (target : String) (content : Bytes) :
    (writeFile target content).run.run tree =
      (if Path.directoryName target.toList ≠ [] && !tree.holds (Path.directoryName target.toList) then
        FileTree.makeDirectories (Path.directoryName target.toList) >>= fun _ =>
          FileTree.update (·.write target.toList content)
      else FileTree.update (·.write target.toList content) : FileTree.Filing Unit).run.run tree :=
  rfl

theorem writesOrKeeps_writeFile (tree : FileTree) (target : String) (content : Bytes) :
    WritesOrKeeps tree target.toList content ((writeFile target content).run.run tree) := by
  rw [writeFile_run]
  split
  · exact FileTree.writesOrKeeps_of_keeps (FileTree.keeps_makeDirectories _)
  · rw [← pure_bind () fun _ => FileTree.update (·.write target.toList content)]
    exact FileTree.writesOrKeeps_of_keeps (FileTree.keeps_pure ())

section Persisting

variable {tree after : FileTree} {out typeName path : String} {text : Points} {content : Bytes}
  {cause : Text.Utf8.Unencodable} {outcome : Except FileError Unit}

theorem persist_of_encoded (encoded : Text.Utf8.encodePoints text = .ok content)
    (ran : (writeFile (targetPath tree out typeName) content).run.run tree = (outcome, after)) :
    persist tree out text typeName =
      ((outcome.map fun _ => targetPath tree out typeName).mapError
        (.ofFile (targetPath tree out typeName)), after) := by
  unfold persist
  simp only [encoded]
  rw [ran]
  cases outcome <;> rfl

theorem persist_of_unencodable (refused : Text.Utf8.encodePoints text = .error cause)
    (ran : (writeFile (targetPath tree out typeName) []).run.run tree = (outcome, after)) :
    persist tree out text typeName =
      (outcome.mapError (.ofFile (targetPath tree out typeName)) >>= fun _ => .error (.unencodable cause),
        after) := by
  unfold persist
  simp only [refused]
  rw [ran]
  cases outcome <;> rfl

end Persisting

/-- What writing a text to a file may come to. The file has the text, or no file is changed, unless the text
has no bytes: then the file is empty, having been opened. -/
def Persisted (before : FileTree) (target : String) (text : Points) :
    Except WriteError String × FileTree → Prop
  | (.ok path, after) => path = target ∧
    ∃ content, Text.Utf8.encodePoints text = .ok content ∧ Written before target.toList content after
  | (.error (.unencodable cause), after) =>
    Text.Utf8.encodePoints text = .error cause ∧ Written before target.toList [] after
  | (.error _, after) => KeepsFiles before after

theorem persisted_of_refused {before after : FileTree} {target : String} {text : Points}
    (keeps : KeepsFiles before after) (fault : FileError) :
    Persisted before target text (.error (.ofFile target fault), after) := by
  cases fault <;> exact keeps

theorem persisted_persist (tree : FileTree) (out : String) (text : Points) (typeName : String) :
    Persisted tree (targetPath tree out typeName) text (persist tree out text typeName) := by
  cases encoded : Text.Utf8.encodePoints text with
  | ok content =>
    have result := writesOrKeeps_writeFile tree (targetPath tree out typeName) content
    cases ran : (writeFile (targetPath tree out typeName) content).run.run tree with
    | mk outcome after =>
      rw [ran] at result
      rw [persist_of_encoded encoded ran]
      cases outcome with
      | error fault => exact persisted_of_refused (result.keeps fault rfl) fault
      | ok _ => exact ⟨rfl, content, encoded, result.writes () rfl⟩
  | error cause =>
    have result := writesOrKeeps_writeFile tree (targetPath tree out typeName) []
    cases ran : (writeFile (targetPath tree out typeName) []).run.run tree with
    | mk outcome after =>
      rw [ran] at result
      rw [persist_of_unencodable encoded ran]
      cases outcome with
      | error fault => exact persisted_of_refused (result.keeps fault rfl) fault
      | ok _ => exact ⟨encoded, result.writes () rfl⟩

/-- The path that a job writes: its own output path if that ends in `.ts` and is no directory, and else
a file under it that is named after the type. -/
def Job.target (job : Job) (tree : FileTree) : String :=
  if ".ts".toList.isSuffixOf job.out.toList && !tree.isDirectory job.out.toList then job.out
  else fileIn job.out job.typeName

theorem targetPath_eq (job : Job) (tree : FileTree) :
    targetPath tree job.out job.typeName = job.target tree := by
  unfold targetPath Job.target
  cases tree.isDirectory job.out.toList <;> cases ".ts".toList.isSuffixOf job.out.toList <;> rfl

structure Job.Declares (job : Job) (world : World) (blocks : List Points) : Prop where
  sources : job.sources ≠ []
  samples : ∃ samples warnings, loadSamples world job.limit job.splitRootArray job.sources = .ok samples ∧
    (generate job.options (some job.typeName) samples).run.run [] = (.ok blocks, warnings)
  nonempty : blocks ≠ []

theorem declares_of_text {job : Job} {world : World} {text : Points}
    (made : (job.text world).1 = .ok text) :
    ∃ blocks, job.Declares world blocks ∧ text = TypeScript.joinBlocks blocks := by
  unfold Job.text at made
  split at made
  · cases made
  · rename_i some_source
    have sources : job.sources ≠ [] := by simpa using some_source
    cases loaded : loadSamples world job.limit job.splitRootArray job.sources with
    | error cause => rw [loaded] at made; cases made
    | ok samples =>
      rw [loaded] at made
      cases ran : (generate job.options (some job.typeName) samples).run.run [] with
      | mk outcome warnings =>
        simp only [ran] at made
        cases outcome with
        | error cause => cases made
        | ok blocks =>
          cases made
          exact ⟨blocks, ⟨sources, ⟨samples, warnings, loaded, ran⟩, ne_nil_of_generate ran⟩, rfl⟩

theorem ne_write_of_text {job : Job} {world : World} {cause : ConversionError}
    (failed : (job.text world).1 = .error cause) (fault : WriteError) : cause ≠ .write fault := by
  rintro rfl
  unfold Job.text at failed
  split at failed
  · cases failed
  · cases loaded : loadSamples world job.limit job.splitRootArray job.sources with
    | error cause => rw [loaded] at failed; cases failed
    | ok samples =>
      rw [loaded] at failed
      cases ran : (generate job.options (some job.typeName) samples).run.run [] with
      | mk outcome warnings =>
        simp only [ran] at failed
        cases outcome <;> cases failed

theorem run_of_text {job : Job} {world : World} {text : Points} {warnings : List TypeScript.Warning}
    {outcome : Except WriteError String} {after : FileTree}
    (made : job.text world = (.ok text, warnings))
    (persisted : persist world.tree job.out text job.typeName = (outcome, after)) :
    job.run world = ⟨outcome.mapError .write, after, warnings⟩ := by
  simp only [Job.run, made, persisted]

/-- In some object in the samples there is a key with a surrogate that stands alone. -/
def Job.HasSurrogateKey (job : Job) (world : World) : Prop :=
  ∃ samples, loadSamples world job.limit job.splitRootArray job.sources = .ok samples ∧
    ∃ v ∈ samples, ∃ name, v.HasKey name ∧ ∃ offset, .surrogate offset ∈ name.points

theorem hasSurrogateKey_of_unencodable {job : Job} {world : World} {blocks : List Points}
    {cause : Text.Utf8.Unencodable} (declares : job.Declares world blocks)
    (refused : Text.Utf8.encodePoints (TypeScript.joinBlocks blocks) = .error cause) :
    job.HasSurrogateKey world := by
  obtain ⟨samples, warnings, loaded, ran⟩ := declares.samples
  obtain ⟨offset, here⟩ := Text.Utf8.exists_surrogate_of_encodePoints refused
  obtain ⟨v, member, name, key, point⟩ := hasKey_of_surrogate (keyed_loadSamples loaded) ran here
  exact ⟨samples, loaded, v, member, name, key, offset, point⟩

/-- A job that succeeds returns the path of its target, whose content is the declarations of its samples, and
keeps all other files. One that fails keeps all files as they are, with new directories at most, unless a
surrogate in a key of the samples leaves the declarations without bytes: the target is then empty. -/
theorem run_writesOrKeeps (world : World) (job : Job) :
    match (job.run world).outcome with
    | .ok path => path = job.target world.tree ∧ ∃ blocks content, job.Declares world blocks ∧
        Text.Utf8.encodePoints (TypeScript.joinBlocks blocks) = .ok content ∧
        Written world.tree path.toList content (job.run world).tree
    | .error (.write (.unencodable _)) => job.HasSurrogateKey world ∧
        Written world.tree (job.target world.tree).toList [] (job.run world).tree
    | .error _ => KeepsFiles world.tree (job.run world).tree := by
  cases made : job.text world with
  | mk text warnings =>
    cases text with
    | error cause =>
      -- Nothing is opened before the text is complete.
      have stopped : job.run world = ⟨.error cause, world.tree, warnings⟩ := by
        simp only [Job.run, made]
      rw [stopped]
      have unwritten : ∀ fault, cause ≠ .write fault := ne_write_of_text (by rw [made])
      cases cause with
      | write fault => exact absurd rfl (unwritten fault)
      | _ => exact KeepsFiles.refl world.tree
    | ok text =>
      have complete : (job.text world).1 = .ok text := by rw [made]
      obtain ⟨blocks, declares, rfl⟩ := declares_of_text complete
      have result := persisted_persist world.tree job.out (TypeScript.joinBlocks blocks) job.typeName
      cases persisted : persist world.tree job.out (TypeScript.joinBlocks blocks) job.typeName with
      | mk outcome after =>
        rw [persisted, targetPath_eq] at result
        rw [run_of_text made persisted]
        cases outcome with
        | ok path =>
          obtain ⟨own, content, encoded, written⟩ := result
          exact ⟨own, blocks, content, declares, encoded, own ▸ written⟩
        | error cause =>
          cases cause with
          | unencodable cause => exact ⟨hasSurrogateKey_of_unencodable declares result.1, result.2⟩
          | nulCharacter => exact result
          | unwritable target fault path => exact result

/-- A key that is a surrogate. The file is opened, and with that emptied, before its text is encoded. -/
theorem run_of_surrogateKey :
    let job : Job := { sources := ["a.json"], out := "F.ts" }
    let tree := (FileTree.empty.addFile ["a.json"] (Text.Utf8.encode "\x7b\"\\ud800\": 1\x7d".toList)).addFile
      ["F.ts"] (Text.Utf8.encode "old".toList)
    let result := job.run ⟨tree, []⟩
    result.outcome = .error (.write (.unencodable ⟨33, 1, 0xD800⟩)) ∧ result.tree.read "F.ts".toList = .ok [] := by
  decide +kernel

/-! When a job succeeds. -/

theorem text_of_declares {job : Job} {world : World} {blocks : List Points}
    (declares : job.Declares world blocks) :
    (job.text world).1 = .ok (TypeScript.joinBlocks blocks) := by
  obtain ⟨samples, warnings, loaded, ran⟩ := declares.samples
  have some_source : ¬ job.sources.isEmpty = true := by simpa using declares.sources
  rw [Job.text, if_neg some_source, loaded]
  simp only [ran]
  rfl

theorem writeFile_of_holds {tree after : FileTree} {target : String} {content : Bytes}
    (there : Path.directoryName target.toList = [] ∨ tree.holds (Path.directoryName target.toList) = true)
    (writable : tree.write target.toList content = .ok after) :
    (writeFile target content).run.run tree = (.ok (), after) := by
  have no_need : ¬ (decide (Path.directoryName target.toList ≠ []) &&
      !tree.holds (Path.directoryName target.toList)) = true := by
    rcases there with none_named | held
    · simp [none_named]
    · simp [held]
  rw [writeFile_run, if_neg no_need, FileTree.update_run, writable]

section Writing

variable {job : Job} {world : World} {blocks : List Points} {place : Place} {content : Bytes}
  {cause : Text.Utf8.Unencodable} (declares : job.Declares world blocks)
  (named : ".ts".toList.isSuffixOf job.out.toList = true) (writable : Writable world.tree job.out.toList place)
include declares named writable

omit declares in
theorem writeFile_target (content : Bytes) :
    targetPath world.tree job.out job.typeName = job.out ∧
      (writeFile job.out content).run.run world.tree = (.ok (), world.tree.putFile place content) := by
  refine ⟨?_, writeFile_of_holds writable.holds (writable.write content)⟩
  rw [targetPath_eq, Job.target, named, writable.isDirectory]
  rfl

theorem run_of_declares
    (encoded : Text.Utf8.encodePoints (TypeScript.joinBlocks blocks) = .ok content) :
    (job.run world).outcome = .ok job.out ∧ (job.run world).tree = world.tree.putFile place content := by
  have complete := text_of_declares declares
  obtain ⟨target, ran⟩ := writeFile_target named writable content
  rw [← target] at ran
  cases made : job.text world with
  | mk text warnings =>
    rw [made] at complete
    cases complete
    rw [run_of_text made (persist_of_encoded encoded ran), target]
    exact ⟨rfl, rfl⟩

theorem run_of_unencodable
    (refused : Text.Utf8.encodePoints (TypeScript.joinBlocks blocks) = .error cause) :
    (job.run world).outcome = .error (.write (.unencodable cause)) ∧
      (job.run world).tree = world.tree.putFile place [] := by
  have complete := text_of_declares declares
  obtain ⟨target, ran⟩ := writeFile_target named writable []
  rw [← target] at ran
  cases made : job.text world with
  | mk text warnings =>
    rw [made] at complete
    cases complete
    rw [run_of_text made (persist_of_unencodable refused ran)]
    exact ⟨rfl, rfl⟩

end Writing

theorem run_of_undeclared {job : Job} {world : World} (undeclared : ∀ blocks, ¬ job.Declares world blocks) :
    ∃ cause warnings, job.run world = ⟨.error cause, world.tree, warnings⟩ := by
  cases made : job.text world with
  | mk text warnings =>
    cases text with
    | error cause => exact ⟨cause, warnings, by simp only [Job.run, made]⟩
    | ok text =>
      obtain ⟨blocks, declares, _⟩ := declares_of_text (by rw [made])
      exact absurd declares (undeclared blocks)

example :
    let job : Job := { sources := ["samples.json"], out := "types", typeName := "Count" }
    let world : World := ⟨FileTree.empty.addFile ["samples.json"] [49], []⟩
    (job.run world).outcome = .ok "types/Count.ts" ∧
      (job.run world).tree.read "types/Count.ts".toList =
        .ok (Text.Utf8.encode "export type Count = number;\n".toList) := by
  decide +kernel

end SampleTypes
