import SampleTypes.Proofs.Entries
import SampleTypes.Proofs.Runs
import SampleTypes.Source.FileTree

/-! What operations do to a tree of files. Making directories leaves every file as it is, and a write
changes one file only. -/

namespace SampleTypes.FileTree

/-- The files are the same, and the directories are still there. -/
structure KeepsFiles (before after : FileTree) : Prop where
  files : ∀ place content, after.node? place = some (.file content) ↔
    before.node? place = some (.file content)
  directories : ∀ place, before.node? place = some .directory → after.node? place = some .directory
  refusals : after.refusals = before.refusals

namespace KeepsFiles

variable {before middle after : FileTree}

theorem refl (tree : FileTree) : KeepsFiles tree tree :=
  ⟨fun _ _ => Iff.rfl, fun _ here => here, rfl⟩

theorem trans (first : KeepsFiles before middle) (second : KeepsFiles middle after) :
    KeepsFiles before after :=
  ⟨fun place content => (second.files place content).trans (first.files place content),
    fun place here => second.directories place (first.directories place here),
    second.refusals.trans first.refusals⟩

end KeepsFiles

section Places

variable {tree before after : FileTree} {path : List Char} {place : Place} {content : Bytes}

theorem follow_of_directories
    (directories : ∀ here, before.node? here = some .directory → after.node? here = some .directory)
    (refusals : after.refusals = before.refusals) {steps : List (List Char)} {here : Place}
    (followed : before.follow here steps = .ok place) : after.follow here steps = .ok place := by
  induction steps generalizing here with
  | nil => exact followed
  | cons name rest ih =>
    simp only [follow] at followed ⊢
    cases node : before.node? here with
    | none => rw [node] at followed; cases followed
    | some found =>
      cases found with
      | file content => rw [node] at followed; cases followed
      | directory =>
        rw [node] at followed
        simp only [directories here node] at followed ⊢
        split_ifs at followed ⊢
        · exact ih followed
        · exact ih followed
        · obtain ⟨_, permitted, followed⟩ := eq_ok_of_bind followed
          rw [permit, refusals, ← permit, permitted]
          exact ih followed

theorem locate_of_directories
    (directories : ∀ here, before.node? here = some .directory → after.node? here = some .directory)
    (refusals : after.refusals = before.refusals) (located : before.locate path = .ok place) :
    after.locate path = .ok place := by
  unfold locate at located ⊢
  split_ifs at located ⊢ <;> exact follow_of_directories directories refusals located

theorem atPlace_eq_ok {α : Type} {access : Access} {operation : Place → Except FileFault α} {a : α} :
    tree.atPlace access path operation = .ok a ↔ path.contains '\x00' = false ∧
      ∃ place, tree.locate path = .ok place ∧ tree.permit access place = .ok () ∧
        operation place = .ok a := by
  unfold atPlace
  split
  · rename_i nul
    rw [nul]
    exact ⟨nofun, nofun⟩
  · rename_i clean
    constructor
    · intro ran
      obtain ⟨place, located, ran⟩ := eq_ok_of_bind (mapError_eq_ok.mp ran)
      obtain ⟨_, permitted, ran⟩ := eq_ok_of_bind ran
      exact ⟨Bool.eq_false_iff.mpr clean, place, located, permitted, ran⟩
    · rintro ⟨_, place, located, permitted, ran⟩
      rw [located]
      simp only [bind, Except.bind, permitted, ran]
      rfl

theorem read_eq_ok : tree.read path = .ok content ↔ path.contains '\x00' = false ∧
    ∃ place, tree.locate path = .ok place ∧ tree.permit .read place = .ok () ∧
      tree.node? place = some (.file content) := by
  rw [read, atPlace_eq_ok]
  refine and_congr_right fun _ => exists_congr fun place =>
    and_congr_right fun _ => and_congr_right fun _ => ?_
  cases tree.node? place with
  | none => exact ⟨nofun, nofun⟩
  | some found => cases found <;> simp

theorem write_eq_ok : tree.write path content = .ok after ↔ path.contains '\x00' = false ∧
    ∃ place, tree.locate path = .ok place ∧ tree.permit .write place = .ok () ∧
      tree.node? place ≠ some .directory ∧ tree.putFile place content = after := by
  rw [write, atPlace_eq_ok]
  refine and_congr_right fun _ => exists_congr fun place =>
    and_congr_right fun _ => and_congr_right fun _ => ?_
  split
  · rename_i directory
    rw [directory]
    simp
  · rename_i no_directory
    rw [Except.ok.injEq]
    exact ⟨fun same => ⟨no_directory, same⟩, fun both => both.2⟩

/-! Changes of a tree. -/

theorem not_mem_directories (no_directory : tree.node? place ≠ some .directory) :
    isAbove place = false ∧ tree.directories.contains place = false := by
  unfold node? at no_directory
  split at no_directory
  · exact absurd rfl no_directory
  · rename_i outside
    simpa using outside

theorem node?_directory (other : Place) :
    ({ tree with directories := place :: tree.directories } : FileTree).node? other =
      if other = place then some .directory else tree.node? other := by
  by_cases same : other = place
  · rw [if_pos same, node?, if_pos (by simp [same])]
  · have contained : (place :: tree.directories).contains other = tree.directories.contains other := by
      simp [same]
    rw [if_neg same, node?, node?, contained]

theorem node?_putFile (no_directory : tree.node? place ≠ some .directory) (other : Place) :
    (tree.putFile place content).node? other =
      if other = place then some (.file content) else tree.node? other := by
  obtain ⟨below, absent⟩ := not_mem_directories no_directory
  by_cases same : other = place
  · subst same
    rw [if_pos rfl, node?, putFile, below, absent]
    simp
  · have files : ((place, content) :: tree.files.filter fun file => file.1 != place).lookup other =
        tree.files.lookup other := by
      rw [List.lookup_cons, beq_eq_false_iff_ne.mpr same,
        Entries.lookup_filter fun key => key != place]
      simp [same]
    rw [if_neg same, node?, node?, putFile, files]

theorem keepsFiles_of_makeDirectory (made : tree.makeDirectory path = .ok after) :
    KeepsFiles tree after := by
  obtain ⟨_, place, _, _, ran⟩ := atPlace_eq_ok.mp made
  cases free : tree.node? place with
  | some node => rw [free] at ran; cases ran
  | none =>
    rw [free] at ran
    cases ran
    refine ⟨?_, ?_, rfl⟩
    · intro other content
      rw [node?_directory]
      split_ifs with same
      · rw [same, free]
        simp
      · rfl
    · intro other here
      rw [node?_directory]
      split_ifs
      · rfl
      · exact here

theorem exists_place_of_write (written : tree.write path content = .ok after) :
    ∃ place, path.contains '\x00' = false ∧ after.locate path = .ok place ∧
      tree.node? place ≠ some .directory ∧ ∀ other,
        after.node? other = if other = place then some (.file content) else tree.node? other := by
  obtain ⟨clean, place, located, _, no_directory, rfl⟩ := write_eq_ok.mp written
  have nodes : ∀ other, (tree.putFile place content).node? other =
      if other = place then some (.file content) else tree.node? other := node?_putFile no_directory
  have directories : ∀ here, tree.node? here = some .directory →
      (tree.putFile place content).node? here = some .directory := by
    intro here directory
    rw [nodes, if_neg]
    · exact directory
    · rintro rfl
      exact no_directory directory
  exact ⟨place, clean, locate_of_directories directories rfl located, no_directory, nodes⟩

end Places

/-! Runs of operations. -/

def Keeps {α : Type} (filing : Filing α) : Prop := ∀ tree, KeepsFiles tree (filing.run.run tree).2

section Keeps

variable {α β : Type}

theorem keeps_pure (a : α) : Keeps (pure a : Filing α) := KeepsFiles.refl

theorem keeps_throw (fault : FileError) : Keeps (throw fault : Filing α) := KeepsFiles.refl

theorem keeps_get : Keeps (get : Filing FileTree) := KeepsFiles.refl

theorem keeps_bind {x : Filing α} {f : α → Filing β} (first : Keeps x) (next : ∀ a, Keeps (f a)) :
    Keeps (x >>= f) := by
  intro tree
  have before := first tree
  rw [ExceptT.run_bind, StateT.run_bind]
  cases ran : x.run.run tree with
  | mk outcome middle =>
    rw [ran] at before
    cases outcome with
    | error fault => exact before
    | ok a => exact before.trans (next a middle)

theorem keeps_tryCatch {x : Filing α} {handle : FileError → Filing α} (first : Keeps x)
    (handled : ∀ fault, Keeps (handle fault)) : Keeps (tryCatch x handle) := by
  intro tree
  have before := first tree
  rw [ExceptT.run_tryCatch, StateT.run_bind]
  cases ran : x.run.run tree with
  | mk outcome middle =>
    rw [ran] at before
    cases outcome with
    | error fault => exact before.trans (handled fault middle)
    | ok a => exact before

theorem update_run (change : FileTree → Except FileError FileTree) (tree : FileTree) :
    (update change).run.run tree =
      match change tree with
      | .ok after => (.ok (), after)
      | .error fault => (.error fault, tree) := by
  change ((match change tree with
    | .ok after => set after
    | .error fault => throw fault : Filing Unit).run.run tree) = _
  cases change tree <;> rfl

theorem keeps_update {change : FileTree → Except FileError FileTree}
    (keeps : ∀ {tree after}, change tree = .ok after → KeepsFiles tree after) : Keeps (update change) := by
  intro tree
  rw [update_run]
  cases changed : change tree with
  | error fault => exact .refl tree
  | ok after => exact keeps changed

theorem keeps_ignoringExisting {filing : Filing Unit} (keeps : Keeps filing) :
    Keeps (ignoringExisting filing) := by
  apply keeps_tryCatch keeps
  intro fault
  split
  · exact keeps_pure ()
  · exact keeps_throw fault

theorem keeps_makeDirectory (path : List Char) : Keeps (update (makeDirectory · path)) :=
  keeps_update keepsFiles_of_makeDirectory

theorem keeps_makeDirectories (path : List Char) : Keeps (makeDirectories path) := by
  induction path using makeDirectories.induct with
  | case1 path unnamed =>
    rw [makeDirectories, dif_pos unnamed]
    exact keeps_makeDirectory path
  | case2 path named above ih =>
    rw [makeDirectories, dif_neg named]
    apply keeps_bind keeps_get
    intro tree
    split
    · exact keeps_makeDirectory path
    · apply keeps_bind (keeps_ignoringExisting ih)
      intro _
      split
      · exact keeps_pure ()
      · exact keeps_makeDirectory path

end Keeps

/-- The file at a path has this content, every other file is the same, and the directories are still
there. -/
structure Written (before : FileTree) (path : List Char) (content : Bytes) (after : FileTree) :
    Prop where
  here : after.nodeAt? path = some (.file content)
  others : ∃ place, after.locate path = .ok place ∧ ∀ other ≠ place, ∀ content,
    after.node? other = some (.file content) ↔ before.node? other = some (.file content)
  directories : ∀ place, before.node? place = some .directory → after.node? place = some .directory

theorem KeepsFiles.written {before middle after : FileTree} {path : List Char} {content : Bytes}
    (keeps : KeepsFiles before middle) (ran : middle.write path content = .ok after) :
    Written before path content after := by
  obtain ⟨place, clean, located, no_directory, nodes⟩ := exists_place_of_write ran
  constructor
  · rw [nodeAt?, clean, if_neg Bool.false_ne_true, located]
    exact (nodes place).trans (if_pos rfl)
  · refine ⟨place, located, fun other differ content => ?_⟩
    rw [nodes, if_neg differ]
    exact keeps.files other content
  · intro other directory
    have still := keeps.directories other directory
    rw [nodes, if_neg]
    · exact still
    · rintro rfl
      exact no_directory still

structure WritesOrKeeps {ε α : Type} (before : FileTree) (path : List Char) (content : Bytes)
    (result : Except ε α × FileTree) : Prop where
  keeps : ∀ cause, result.1 = .error cause → KeepsFiles before result.2
  writes : ∀ a, result.1 = .ok a → Written before path content result.2

namespace WritesOrKeeps

variable {ε α : Type} {before after : FileTree} {path : List Char} {content : Bytes}

theorem of_keepsFiles {cause : ε} (keeps : KeepsFiles before after) :
    WritesOrKeeps before path content ((.error cause, after) : Except ε α × FileTree) := by
  constructor
  · exact fun _ _ => keeps
  · intro a succeeded
    cases succeeded

theorem of_written {a : α} (written : Written before path content after) :
    WritesOrKeeps before path content ((.ok a, after) : Except ε α × FileTree) := by
  constructor
  · intro cause failed
    cases failed
  · exact fun _ _ => written

end WritesOrKeeps

theorem writesOrKeeps_of_keeps {α : Type} {x : Filing α} {tree : FileTree} {path : List Char}
    {content : Bytes} (keeps : Keeps x) :
    WritesOrKeeps tree path content
      ((x >>= fun _ => update (·.write path content)).run.run tree) := by
  have first := keeps tree
  rw [ExceptT.run_bind, StateT.run_bind]
  cases ran : x.run.run tree with
  | mk outcome middle =>
    rw [ran] at first
    cases outcome with
    | error fault => exact .of_keepsFiles first
    | ok a =>
      change WritesOrKeeps tree path content ((update (·.write path content)).run.run middle)
      rw [update_run]
      cases written : middle.write path content with
      | error fault => exact .of_keepsFiles first
      | ok after => exact .of_written (first.written written)

end SampleTypes.FileTree
