import SampleTypes.Proofs.CommandLine.Options
import SampleTypes.Proofs.Source.NamedFiles
import SampleTypes.Proofs.Source.SpareFiles
import SampleTypes.Proofs.TypeScript.CarriageReturns

/-! The two outputs of a command. Without a named output it prints what it would write to a file, and after
every run the temporary files are gone. -/

namespace SampleTypes.CommandLine

open FileTree (Fresh SameDirectories Writable)

variable {world : World} {tree : FileTree} {temporaries : Temporaries} {command : Command}
  {options : List (String × Value)} {job : Job} {path text stdin file : String}
  {place other inputPlace outputPlace filePlace : Place} {blocks : List Points} {content : Bytes}

/-! Temporary files. -/

theorem createTemporary_of_writable (writable : Writable tree path.toList place) (text : String) :
    createTemporary tree path text = tree.putFile place (Text.Utf8.encode text.toList) := by
  rw [createTemporary, writable.write]

theorem removeFile_of_locate (located : tree.locate path.toList = .ok place) :
    removeFile tree path = tree.clear place := by
  rw [removeFile, located]
  rfl

theorem removeFile_putFile (fresh : Fresh tree path.toList place) (content : Bytes) :
    removeFile (tree.putFile place content) path = tree := by
  rw [removeFile_of_locate (fresh.toWritable.putFile fresh.vacant content).located,
    FileTree.clear_putFile fresh.free]

theorem removeFile_putFile_putFile (fresh : Fresh tree path.toList place)
    (vacant : tree.node? other ≠ some .directory) (apart : other ≠ place) (content written : Bytes) :
    removeFile ((tree.putFile place content).putFile other written) path = tree.putFile other written := by
  have same := SameDirectories.putFile fresh.vacant content
  have still_vacant : (tree.putFile place content).node? other ≠ some .directory :=
    fun directory => vacant ((same.directories other).mp directory)
  have located := ((fresh.toWritable.putFile fresh.vacant content).putFile still_vacant written).located
  rw [removeFile_of_locate located, FileTree.clear_putFile_putFile fresh.free apart]

/-- What the system promises of the temporary files that it makes: each is a new file in a directory that is
there, no two are the same, and who asked for them may read and write them. The name of the output has the
ending that was asked for, and that of the input has none. -/
structure Temporaries.Fresh (temporaries : Temporaries) (tree : FileTree)
    (inputPlace outputPlace : Place) : Prop where
  input : FileTree.Fresh tree temporaries.input.toList inputPlace
  output : FileTree.Fresh tree temporaries.output.toList outputPlace
  readable : tree.permit .read outputPlace = .ok ()
  apart : outputPlace ≠ inputPlace
  named : ".ts".toList.isSuffixOf temporaries.output.toList = true
  plain : ∃ directory name, temporaries.input.toList = Path.join directory name ∧
    FileTree.PlainName name ∧ ¬ ".ts".toList <:+ name

theorem Temporaries.Fresh.apart_of_ending (fresh : temporaries.Fresh tree inputPlace outputPlace)
    (ending : ".ts".toList.isSuffixOf file.toList = true) (located : tree.locate file.toList = .ok place) :
    place ≠ inputPlace := by
  obtain ⟨directory, name, spelled, plain, other⟩ := fresh.plain
  obtain ⟨above, own, joined, ownPlain, ended⟩ :=
    FileTree.exists_join_of_suffix (by decide) (by decide) (List.isSuffixOf_iff_suffix.mp ending)
  have temporary := fresh.input.located
  rw [spelled] at temporary
  rw [joined] at located
  obtain ⟨_, _, rfl⟩ := FileTree.exists_of_locate_join ownPlain located
  obtain ⟨_, _, rfl⟩ := FileTree.exists_of_locate_join plain temporary
  intro same
  have names := List.singleton_injective (List.append_inj_right' same rfl)
  exact other (String.ofList_injective names ▸ ended)

def createInput (temporaries : Temporaries) (options : List (String × Value)) (stdin : String)
    (tree : FileTree) : FileTree :=
  if usesStdin options then createTemporary tree temporaries.input stdin else tree

def removeInput (temporaries : Temporaries) (options : List (String × Value)) (tree : FileTree) :
    FileTree :=
  if usesStdin options then removeFile tree temporaries.input else tree

section Inputs

variable (fresh : Fresh tree temporaries.input.toList inputPlace)
include fresh

theorem writable_createInput (writable : Writable tree path.toList place) :
    Writable (createInput temporaries options stdin tree) path.toList place := by
  unfold createInput
  split
  · rw [createTemporary_of_writable fresh.toWritable]
    exact writable.putFile fresh.vacant _
  · exact writable

theorem removeInput_createInput :
    removeInput temporaries options (createInput temporaries options stdin tree) = tree := by
  unfold removeInput createInput
  split
  · rw [createTemporary_of_writable fresh.toWritable, removeFile_putFile fresh]
  · rfl

theorem removeInput_putFile (vacant : tree.node? other ≠ some .directory) (apart : other ≠ inputPlace)
    (written : Bytes) :
    removeInput temporaries options ((createInput temporaries options stdin tree).putFile other written) =
      tree.putFile other written := by
  unfold removeInput createInput
  split
  · rw [createTemporary_of_writable fresh.toWritable, removeFile_putFile_putFile fresh vacant apart]
  · rfl

end Inputs

theorem fresh_createInput (options : List (String × Value)) (stdin : String)
    (fresh : temporaries.Fresh tree inputPlace outputPlace) :
    Fresh (createInput temporaries options stdin tree) temporaries.output.toList outputPlace := by
  unfold createInput
  split
  · rw [createTemporary_of_writable fresh.input.toWritable]
    exact fresh.output.putFile fresh.input.vacant fresh.apart _
  · exact fresh.output

theorem permit_createInput (fresh : Fresh tree temporaries.input.toList inputPlace) (access : Access)
    (place : Place) :
    (createInput temporaries options stdin tree).permit access place = tree.permit access place := by
  unfold createInput
  split
  · rw [createTemporary_of_writable fresh.toWritable]
    exact (SameDirectories.putFile fresh.vacant _).permit access place
  · rfl

/-! What a command reports. -/

theorem runCommand_of_failed {cause : ConversionError} (planned : jobFor temporaries command options = .ok job)
    (failed : (job.run world).outcome = .error cause) :
    (runCommand world temporaries command options).exitCode = 1 ∧
      (runCommand world temporaries command options).tree = (job.run world).tree := by
  simp [runCommand, planned, failed]

theorem runCommand_of_undeclared (planned : jobFor temporaries command options = .ok job)
    (undeclared : ∀ blocks, ¬ job.Declares world blocks) :
    (runCommand world temporaries command options).exitCode = 1 ∧
      (runCommand world temporaries command options).tree = world.tree := by
  obtain ⟨cause, warnings, stopped⟩ := run_of_undeclared undeclared
  have result := runCommand_of_failed planned (by rw [stopped])
  rwa [stopped] at result

theorem runCommand_of_named (planned : jobFor temporaries command options = .ok job)
    (named : outOf options = some file) (ran : (job.run world).outcome = .ok path) :
    (runCommand world temporaries command options).exitCode = 0 ∧
      (runCommand world temporaries command options).tree = (job.run world).tree := by
  simp [runCommand, planned, named, ran]

theorem runCommand_of_unnamed (planned : jobFor temporaries command options = .ok job)
    (unnamed : outOf options = none) (ran : (job.run world).outcome = .ok path)
    (read : readText (job.run world).tree path path = .ok text) :
    (runCommand world temporaries command options).exitCode = 0 ∧
      (runCommand world temporaries command options).stdout = text ∧
        (runCommand world temporaries command options).tree = (job.run world).tree := by
  simp [runCommand, planned, unnamed, ran, read]

theorem readText_putFile (writable : Writable tree path.toList place)
    (readable : tree.permit .read place = .ok ()) (free : '\r' ∉ text.toList) :
    readText (tree.putFile place (Text.Utf8.encode text.toList)) path path = .ok text := by
  refine readText_eq_ok.mpr
    ⟨_, text.toList, writable.read_putFile readable _, Text.Utf8.decode_encode text.toList, ?_⟩
  rw [unifyNewlines_of_returnFree free, String.ofList_toList]

section Commands

variable (typescript : ".ts".toList.isSuffixOf file.toList = true)
include typescript

theorem runCommand_of_unencodable {cause : Text.Utf8.Unencodable}
    (writable : Writable world.tree file.toList place)
    (planned : jobFor temporaries command options = .ok (jobTo file temporaries options))
    (declares : (jobTo file temporaries options).Declares world blocks)
    (refused : Text.Utf8.encodePoints (TypeScript.joinBlocks blocks) = .error cause) :
    (runCommand world temporaries command options).exitCode = 1 ∧
      (runCommand world temporaries command options).tree = world.tree.putFile place [] := by
  obtain ⟨failed, after⟩ := run_of_unencodable declares typescript writable refused
  obtain ⟨exit, left⟩ := runCommand_of_failed planned failed
  exact ⟨exit, left.trans after⟩

theorem runCommand_of_saved (writable : Writable world.tree file.toList place)
    (named : outOf options = some file) (declares : (jobTo file temporaries options).Declares world blocks)
    (encoded : Text.Utf8.encodePoints (TypeScript.joinBlocks blocks) = .ok content) :
    (runCommand world temporaries json2ts options).exitCode = 0 ∧
      (runCommand world temporaries json2ts options).tree = world.tree.putFile place content := by
  obtain ⟨ran, after⟩ := run_of_declares declares typescript writable encoded
  obtain ⟨exit, left⟩ := runCommand_of_named (jobFor_of_named named typescript) named ran
  exact ⟨exit, left.trans after⟩

end Commands

theorem runCommand_of_printed (fresh : Fresh world.tree temporaries.output.toList place)
    (readable : world.tree.permit .read place = .ok ())
    (typescript : ".ts".toList.isSuffixOf temporaries.output.toList = true)
    (unnamed : outOf options = none)
    (declares : (jobTo temporaries.output temporaries options).Declares world blocks)
    (encoded : Text.Utf8.encodePoints (TypeScript.joinBlocks blocks) = .ok content) :
    let report := runCommand (world.withEmptyFile place) temporaries json2ts options
    report.exitCode = 0 ∧ report.stdout = TypeScript.joinBlocks blocks ∧
      report.tree = world.tree.putFile place content := by
  obtain ⟨ran, after⟩ := run_of_declares ((declares_withEmptyFile fresh.free).mpr declares) typescript
    (fresh.toWritable.putFile fresh.vacant []) encoded
  replace after := after.trans (FileTree.putFile_putFile [] _)
  obtain ⟨printed, spelled, rfl⟩ := Text.Utf8.encodePoints_eq_ok.mp encoded
  obtain ⟨_, _, _, generated⟩ := declares.samples
  have free := returnFree_of_generate generated
  rw [spelled] at free
  -- Reading changes line ends, but there is no carriage return to change.
  have read := readText_putFile fresh.toWritable readable fun inside => free (Points.mem_ofString.mpr inside)
  rw [← after] at read
  obtain ⟨exit, stdout, left⟩ :=
    runCommand_of_unnamed (jobFor_of_unnamed unnamed typescript) unnamed ran read
  exact ⟨exit, stdout.trans spelled.symm, left.trans after⟩

/-! Whole runs. Only the output that a run was asked for is left at its end. -/

/-- The world in which a command runs, but for the temporary output. -/
def inputWorld (world : World) (temporaries : Temporaries) (options : List (String × Value))
    (stdin : String) : World :=
  { world with tree := createInput temporaries options stdin world.tree }

theorem createTemporaries_eq (tree : FileTree) : createTemporaries temporaries options stdin tree =
    if (outOf options).isNone then
      createTemporary (createInput temporaries options stdin tree) temporaries.output ""
    else createInput temporaries options stdin tree :=
  rfl

theorem removeTemporaries_eq (tree : FileTree) : removeTemporaries temporaries options tree =
    if (outOf options).isNone then removeFile (removeInput temporaries options tree) temporaries.output
    else removeInput temporaries options tree :=
  rfl

section Printing

variable (fresh : temporaries.Fresh world.tree inputPlace outputPlace) (unnamed : outOf options = none)
include fresh unnamed

theorem createTemporaries_of_unnamed :
    createTemporaries temporaries options stdin world.tree =
      (createInput temporaries options stdin world.tree).putFile outputPlace [] := by
  have own := fresh_createInput options stdin fresh
  rw [createTemporaries_eq, unnamed, if_pos Option.isNone_none,
    createTemporary_of_writable own.toWritable]
  rfl

theorem removeTemporaries_of_unnamed (content : Bytes) :
    removeTemporaries temporaries options
      ((createInput temporaries options stdin world.tree).putFile outputPlace content) = world.tree := by
  rw [removeTemporaries_eq, unnamed, if_pos Option.isNone_none,
    removeInput_putFile fresh.input fresh.output.vacant fresh.apart, removeFile_putFile fresh.output]

/-- Whatever was written to the temporary output, nothing is left once it is removed. -/
theorem runInvocation_of_unnamed
    (after : (runCommand ((inputWorld world temporaries options stdin).withEmptyFile outputPlace) temporaries
      json2ts options).tree = (inputWorld world temporaries options stdin).tree.putFile outputPlace content) :
    runInvocation world temporaries stdin (.run json2ts options) =
      { runCommand ((inputWorld world temporaries options stdin).withEmptyFile outputPlace) temporaries
          json2ts options with tree := world.tree } := by
  have left := (congrArg (removeTemporaries temporaries options) after).trans
    (removeTemporaries_of_unnamed fresh unnamed content)
  simp only [runInvocation, createTemporaries_of_unnamed fresh unnamed]
  exact congrArg (fun tree => { runCommand _ temporaries json2ts options with tree }) left

theorem printed_of_encoded
    (declares : (jobTo temporaries.output temporaries options).Declares
      (inputWorld world temporaries options stdin) blocks)
    (encoded : Text.Utf8.encodePoints (TypeScript.joinBlocks blocks) = .ok content) :
    let printed := runInvocation world temporaries stdin (.run json2ts options)
    printed.exitCode = 0 ∧ printed.stdout = TypeScript.joinBlocks blocks ∧ printed.tree = world.tree := by
  have readable : (inputWorld world temporaries options stdin).tree.permit .read outputPlace = .ok () :=
    (permit_createInput fresh.input .read outputPlace).trans fresh.readable
  obtain ⟨exit, stdout, after⟩ :=
    runCommand_of_printed (fresh_createInput options stdin fresh) readable fresh.named unnamed declares encoded
  simp only [runInvocation_of_unnamed fresh unnamed after]
  exact ⟨exit, stdout, trivial⟩

theorem printed_of_undeclared
    (undeclared : ∀ blocks, ¬ (jobTo temporaries.output temporaries options).Declares
      (inputWorld world temporaries options stdin) blocks) :
    let printed := runInvocation world temporaries stdin (.run json2ts options)
    printed.exitCode = 1 ∧ printed.tree = world.tree := by
  have own := fresh_createInput options stdin fresh
  have still_undeclared : ∀ blocks, ¬ (jobTo temporaries.output temporaries options).Declares
      ((inputWorld world temporaries options stdin).withEmptyFile outputPlace) blocks :=
    fun blocks declares => undeclared blocks ((declares_withEmptyFile own.free).mp declares)
  obtain ⟨exit, after⟩ :=
    runCommand_of_undeclared (jobFor_of_unnamed unnamed fresh.named) still_undeclared
  simp only [runInvocation_of_unnamed fresh unnamed after]
  exact ⟨exit, trivial⟩

theorem printed_of_unencodable {cause : Text.Utf8.Unencodable}
    (declares : (jobTo temporaries.output temporaries options).Declares
      (inputWorld world temporaries options stdin) blocks)
    (refused : Text.Utf8.encodePoints (TypeScript.joinBlocks blocks) = .error cause) :
    let printed := runInvocation world temporaries stdin (.run json2ts options)
    printed.exitCode = 1 ∧ printed.tree = world.tree := by
  have own := fresh_createInput options stdin fresh
  obtain ⟨exit, after⟩ := runCommand_of_unencodable fresh.named (own.toWritable.putFile own.vacant [])
    (jobFor_of_unnamed unnamed fresh.named) ((declares_withEmptyFile own.free).mpr declares) refused
  simp only [runInvocation_of_unnamed fresh unnamed (after.trans (FileTree.putFile_putFile [] []))]
  exact ⟨exit, trivial⟩

end Printing

theorem createTemporaries_of_named (named : outOf options = some file) (tree : FileTree) :
    createTemporaries temporaries options stdin tree = createInput temporaries options stdin tree := by
  rw [createTemporaries_eq, named]
  rfl

theorem removeTemporaries_of_named (named : outOf options = some file) (tree : FileTree) :
    removeTemporaries temporaries options tree = removeInput temporaries options tree := by
  rw [removeTemporaries_eq, named]
  rfl

theorem runInvocation_of_named (named : outOf options = some file) :
    runInvocation world temporaries stdin (.run command options) =
      { runCommand (inputWorld world temporaries options stdin) temporaries command options with
        tree := removeInput temporaries options
          (runCommand (inputWorld world temporaries options stdin) temporaries command options).tree } := by
  simp only [runInvocation, createTemporaries_of_named named, removeTemporaries_of_named named]
  rfl

section Saving

variable (fresh : Fresh world.tree temporaries.input.toList inputPlace)
  (typescript : ".ts".toList.isSuffixOf file.toList = true) (named : outOf options = some file)
include fresh typescript named

theorem saved_of_encoded (writable : Writable world.tree file.toList filePlace)
    (apart : filePlace ≠ inputPlace)
    (declares : (jobTo file temporaries options).Declares
      (inputWorld world temporaries options stdin) blocks)
    (encoded : Text.Utf8.encodePoints (TypeScript.joinBlocks blocks) = .ok content) :
    let saved := runInvocation world temporaries stdin (.run json2ts options)
    saved.exitCode = 0 ∧ saved.tree = world.tree.putFile filePlace content := by
  obtain ⟨exit, after⟩ :=
    runCommand_of_saved typescript (writable_createInput fresh writable) named declares encoded
  have left := (congrArg (removeInput temporaries options) after).trans
    (removeInput_putFile fresh writable.vacant apart _)
  simp only [runInvocation_of_named named]
  exact ⟨exit, left⟩

theorem saved_of_unencodable {cause : Text.Utf8.Unencodable}
    (writable : Writable world.tree file.toList filePlace) (apart : filePlace ≠ inputPlace)
    (declares : (jobTo file temporaries options).Declares
      (inputWorld world temporaries options stdin) blocks)
    (refused : Text.Utf8.encodePoints (TypeScript.joinBlocks blocks) = .error cause) :
    let saved := runInvocation world temporaries stdin (.run json2ts options)
    saved.exitCode = 1 ∧ saved.tree = world.tree.putFile filePlace [] := by
  obtain ⟨exit, after⟩ := runCommand_of_unencodable typescript (writable_createInput fresh writable)
    (jobFor_of_named named typescript) declares refused
  have left := (congrArg (removeInput temporaries options) after).trans
    (removeInput_putFile fresh writable.vacant apart _)
  simp only [runInvocation_of_named named]
  exact ⟨exit, left⟩

theorem saved_of_undeclared
    (undeclared : ∀ blocks, ¬ (jobTo file temporaries options).Declares
      (inputWorld world temporaries options stdin) blocks) :
    let saved := runInvocation world temporaries stdin (.run json2ts options)
    saved.exitCode = 1 ∧ saved.tree = world.tree := by
  obtain ⟨exit, after⟩ := runCommand_of_undeclared (jobFor_of_named named typescript) undeclared
  have left := (congrArg (removeInput temporaries options) after).trans (removeInput_createInput fresh)
  simp only [runInvocation_of_named named]
  exact ⟨exit, left⟩

end Saving

def HasSurrogateKey (world : World) (temporaries : Temporaries) (options : List (String × Value))
    (stdin : String) : Prop :=
  (jobTo temporaries.output temporaries options).HasSurrogateKey (inputWorld world temporaries options stdin)

/-- With the same options, a run without an output prints the declarations that a run with one saves, and
nothing else is left of either. If one fails, so does the other, and all files are as before, unless a
surrogate in a key leaves the declarations without bytes: the file to save to is then empty. -/
theorem printed_eq_saved (fresh : temporaries.Fresh world.tree inputPlace outputPlace)
    (unnamed : options.lookup "out" = some .null)
    (typescript : ".ts".toList.isSuffixOf file.toList = true)
    (writable : Writable world.tree file.toList filePlace) :
    let printed := runInvocation world temporaries stdin (.run json2ts options)
    let saved := runInvocation world temporaries stdin
      (.run json2ts (Entries.put "out" (.string file) options))
    printed.tree = world.tree ∧
      ((printed.exitCode = 0 ∧ saved.exitCode = 0 ∧ ∃ content,
          Text.Utf8.encodePoints printed.stdout = .ok content ∧
            saved.tree = world.tree.putFile filePlace content) ∨
        (printed.exitCode = 1 ∧ saved.exitCode = 1 ∧ (saved.tree = world.tree ∨
          HasSurrogateKey world temporaries options stdin ∧
            saved.tree = world.tree.putFile filePlace []))) := by
  have no_output : outOf options = none := by
    rw [outOf, unnamed]
    rfl
  have named := outOf_put_out options file
  have apart : filePlace ≠ inputPlace := fresh.apart_of_ending typescript writable.located
  -- both runs load the same samples with the same options
  have alike : ∀ blocks, (jobTo file temporaries (Entries.put "out" (.string file) options)).Declares
      (inputWorld world temporaries (Entries.put "out" (.string file) options) stdin) blocks ↔
        (jobTo temporaries.output temporaries options).Declares
          (inputWorld world temporaries options stdin) blocks := by
    intro blocks
    rw [jobTo_put_out, inputWorld, createInput, usesStdin_put_out]
    exact declares_jobTo file temporaries.output
  intro printed saved
  by_cases declared : ∃ blocks, (jobTo temporaries.output temporaries options).Declares
      (inputWorld world temporaries options stdin) blocks
  · obtain ⟨blocks, declares⟩ := declared
    have other := (alike blocks).mpr declares
    cases encoded : Text.Utf8.encodePoints (TypeScript.joinBlocks blocks) with
    | ok content =>
      obtain ⟨exit, stdout, removed⟩ := printed_of_encoded fresh no_output declares encoded
      obtain ⟨same_exit, left⟩ := saved_of_encoded fresh.input typescript named writable apart other encoded
      exact ⟨removed, .inl ⟨exit, same_exit, content, stdout ▸ encoded, left⟩⟩
    | error cause =>
      obtain ⟨exit, removed⟩ := printed_of_unencodable fresh no_output declares encoded
      obtain ⟨same_exit, left⟩ :=
        saved_of_unencodable fresh.input typescript named writable apart other encoded
      have key := hasSurrogateKey_of_unencodable declares encoded
      exact ⟨removed, .inr ⟨exit, same_exit, .inr ⟨key, left⟩⟩⟩
  · have undeclared := not_exists.mp declared
    obtain ⟨exit, removed⟩ := printed_of_undeclared fresh no_output undeclared
    obtain ⟨same_exit, left⟩ := saved_of_undeclared fresh.input typescript named
      fun blocks declares => undeclared blocks ((alike blocks).mp declares)
    exact ⟨removed, .inr ⟨exit, same_exit, .inl left⟩⟩

/-- Numbers from the standard input, printed and saved. -/
theorem printed_eq_saved_of_numbers :
    let world : World := ⟨⟨[["/", "tmp"]], [], []⟩, []⟩
    let temporaries : Temporaries := ⟨"/tmp/input", "/tmp/output.ts"⟩
    let printed := runInvocation world temporaries "[1, 2.5]" (.run json2ts json2ts.defaults)
    let saved := runInvocation world temporaries "[1, 2.5]"
      (.run json2ts (Entries.put "out" (.string "types.ts") json2ts.defaults))
    printed.stdout = "export type ApiTypes = number;\n" ∧ printed.tree = world.tree ∧
      ((printed.exitCode = 0 ∧ saved.exitCode = 0 ∧ ∃ content,
          Text.Utf8.encodePoints printed.stdout = .ok content ∧
            saved.tree = world.tree.putFile ["types.ts"] content) ∨
        (printed.exitCode = 1 ∧ saved.exitCode = 1 ∧ (saved.tree = world.tree ∨
          HasSurrogateKey world temporaries json2ts.defaults "[1, 2.5]" ∧
            saved.tree = world.tree.putFile ["types.ts"] []))) := by
  intro world temporaries printed saved
  have fresh : temporaries.Fresh world.tree ["/", "tmp", "input"] ["/", "tmp", "output.ts"] :=
    { input.clean := by decide +kernel
      input.located := by decide +kernel
      input.permitted := rfl
      input.vacant := by decide
      input.above := .inr (by decide +kernel)
      input.free := rfl
      output.clean := by decide +kernel
      output.located := by decide +kernel
      output.permitted := rfl
      output.vacant := by decide
      output.above := .inr (by decide +kernel)
      output.free := rfl
      readable := rfl
      apart := by decide
      named := by decide
      plain := ⟨"/tmp".toList, "input".toList, by decide, ⟨by decide, by decide, by decide, by decide⟩,
        by decide⟩ }
  have writable : Writable world.tree "types.ts".toList ["types.ts"] :=
    ⟨rfl, rfl, rfl, by decide, .inl rfl⟩
  exact ⟨by decide +kernel, printed_eq_saved fresh rfl rfl writable⟩

/-- A key that is a surrogate. The run fails, and the file to save to is left empty. -/
theorem saved_of_surrogateKey :
    let tree := (FileTree.empty.addFile ["a.json"] (Text.Utf8.encode "\x7b\"\\ud800\": 1\x7d".toList)).addFile
      ["F.ts"] (Text.Utf8.encode "old".toList)
    let saved := run ⟨tree, []⟩ ⟨"/tmp/input", "/tmp/output.ts"⟩ "" ["json2ts", "a.json", "--out", "F.ts"]
    saved.exitCode = 1 ∧ saved.tree.read "F.ts".toList = .ok [] := by
  decide +kernel

end SampleTypes.CommandLine
