import Mathlib.Data.List.TakeWhile
import SampleTypes.Proofs.Source.FileTree

/-! Files with a plain name in a directory. The path that such a name is put under leads to the directory of
that path and from there one step down, so no file outside the directory is written. -/

namespace SampleTypes

theorem Path.steps_eq_splitOn (path : List Char) : steps path = path.splitOn '/' := by
  induction path with
  | nil => rfl
  | cons c rest ih =>
    rw [steps, ih, List.splitOn_cons_eq_if_modifyHead]
    simp only [beq_iff_eq]
    split_ifs
    · rfl
    · obtain ⟨step, others, spelled⟩ := List.exists_cons_of_ne_nil (List.splitOn_ne_nil '/' rest)
      rw [spelled]
      rfl

namespace FileTree

/-- A name that leads to something in a directory. -/
structure PlainName (name : List Char) : Prop where
  solid : '/' ∉ name
  ne_nil : name ≠ []
  ne_dot : name ≠ ['.']
  ne_dots : name ≠ ['.', '.']

/-- The directory of a path, which is the working directory if the path is empty. -/
def LeadsTo (tree : FileTree) (path : List Char) (directory : Place) : Prop :=
  if path = [] then directory = [] else tree.locate path = .ok directory

def origin (path : List Char) : Place := if path.head? = some '/' then ["/"] else []

variable {tree before after : FileTree} {path name rest : List Char} {here place : Place} {content : Bytes}

theorem PlainName.steps (plain : PlainName name) : Path.steps name = [name] := by
  rw [Path.steps_eq_splitOn, List.splitOn_eq_singleton plain.solid]

theorem PlainName.head? (plain : PlainName name) : name.head? ≠ some '/' :=
  fun slash => plain.solid (List.mem_of_head? slash)

/-! Steps. -/

theorem follow_append {first last : List (List Char)} : tree.follow here (first ++ last) = .ok place ↔
    ∃ middle, tree.follow here first = .ok middle ∧ tree.follow middle last = .ok place := by
  induction first generalizing here with
  | nil => simp [follow]
  | cons step first ih =>
    rw [List.cons_append, follow, follow]
    split
    · simp
    · simp
    · split_ifs
      · exact ih
      · exact ih
      · simp
      · cases tree.permit .search here with
        | error fault => simp [bind, Except.bind]
        | ok _ => exact ih

theorem follow_plain (plain : PlainName name) (followed : tree.follow here [name] = .ok place) :
    tree.node? here = some .directory ∧ place = here ++ [String.ofList name] := by
  rw [follow] at followed
  split at followed
  · cases followed
  · cases followed
  · rename_i directory
    refine ⟨directory, ?_⟩
    rw [if_neg (by simp [plain.ne_nil, plain.ne_dot]), if_neg plain.ne_dots] at followed
    split at followed
    · cases followed
    · obtain ⟨_, _, followed⟩ := eq_ok_of_bind followed
      exact (Except.ok.inj followed).symm

theorem locate_eq_ok : tree.locate path = .ok place ↔ path ≠ [] ∧ byteLength path ≤ maxPathBytes ∧
    tree.follow (origin path) (Path.steps path) = .ok place := by
  unfold locate
  split
  · rename_i empty
    simp [List.isEmpty_iff.mp empty]
  · rename_i filled
    rw [List.isEmpty_iff] at filled
    split
    · rename_i long
      exact ⟨nofun, fun located => absurd located.2.1 (Nat.not_le.mpr long)⟩
    · rename_i short
      exact ⟨fun followed => ⟨filled, Nat.not_lt.mp short, followed⟩, fun located => located.2.2⟩

/-! Paths. -/

theorem byteLength_append_le (path rest : List Char) : byteLength path ≤ byteLength (path ++ rest) := by
  rw [byteLength, byteLength, Text.Utf8.encode_append, List.length_append]
  exact Nat.le_add_right _ _

theorem exists_of_follow_slash (plain : PlainName name) {front : List Char}
    (followed : tree.follow here (Path.steps (front ++ '/' :: name)) = .ok place) :
    ∃ directory, tree.follow here (Path.steps front) = .ok directory ∧
      tree.node? directory = some .directory ∧ place = directory ++ [String.ofList name] := by
  have steps : Path.steps (front ++ '/' :: name) = Path.steps front ++ [name] := by
    rw [Path.steps_eq_splitOn, List.splitOn_append_cons_self, ← Path.steps_eq_splitOn,
      ← Path.steps_eq_splitOn, plain.steps]
  rw [steps] at followed
  obtain ⟨directory, reached, followed⟩ := follow_append.mp followed
  exact ⟨directory, reached, follow_plain plain followed⟩

/-- A slash stands before the name, and if there was none at the end of the path it is put in. -/
theorem exists_front_of_join (filled : path ≠ []) : ∃ front, (path = front ∨ path = front ++ ['/']) ∧
    ∀ name, name.head? ≠ some '/' → Path.join path name = front ++ '/' :: name := by
  have joined : ∀ name, name.head? ≠ some '/' → Path.join path name =
      if path.getLast? = some '/' then path ++ name else path ++ '/' :: name :=
    fun name inside => if_neg (by simp [inside, filled])
  by_cases slash : path.getLast? = some '/'
  · obtain ⟨front, rfl⟩ := List.getLast?_eq_some_iff.mp slash
    refine ⟨front, .inr rfl, fun name inside => ?_⟩
    rw [joined name inside, if_pos slash, List.append_assoc]
    rfl
  · refine ⟨path, .inl rfl, fun name inside => ?_⟩
    rw [joined name inside, if_neg slash]

theorem PlainName.of_ending {ending : List Char} (inside : '/' ∉ name) (solid : '/' ∉ ending)
    (long : 2 < ending.length) : PlainName (name ++ ending) := by
  refine ⟨fun here => (List.mem_append.mp here).elim inside solid, ?_, ?_, ?_⟩
  all_goals
    intro same
    have length := congrArg List.length same
    simp only [List.length_append, List.length_cons, List.length_nil] at length
    omega

theorem exists_join_of_suffix {ending : List Char} (solid : '/' ∉ ending) (long : 2 < ending.length)
    (ends : ending <:+ path) :
    ∃ directory name, path = Path.join directory name ∧ PlainName name ∧ ending <:+ name := by
  obtain ⟨front, rfl⟩ := ends
  by_cases slash : '/' ∈ front.reverse
  · obtain ⟨after, before, turned, inside⟩ := List.eq_append_cons_of_mem slash
    have spelled : front = before.reverse ++ '/' :: after.reverse := by
      rw [← List.reverse_reverse front, turned]
      simp
    have plain : PlainName (after.reverse ++ ending) :=
      .of_ending (fun here => inside (List.mem_reverse.mp here)) solid long
    refine ⟨before.reverse ++ ['/'], _, ?_, plain, List.suffix_append _ _⟩
    have relative : ¬ ((after.reverse ++ ending).head? = some '/' ∨ before.reverse ++ ['/'] = []) := by
      rintro (first | empty)
      · exact plain.head? first
      · simp at empty
    rw [Path.join, if_neg (by simpa using relative), List.getLast?_concat, if_pos rfl, spelled]
    simp
  · have plain : PlainName (front ++ ending) :=
      .of_ending (fun here => slash (List.mem_reverse.mpr here)) solid long
    exact ⟨[], _, (if_pos (by simp)).symm, plain, List.suffix_append _ _⟩

theorem exists_of_locate_join (plain : PlainName name)
    (located : tree.locate (Path.join path name) = .ok place) :
    ∃ directory, tree.LeadsTo path directory ∧ place = directory ++ [String.ofList name] := by
  by_cases empty : path = []
  · refine ⟨[], by rw [LeadsTo, if_pos empty], ?_⟩
    have alone : Path.join path name = name := if_pos (by simp [empty])
    obtain ⟨_, _, followed⟩ := locate_eq_ok.mp located
    rw [alone, plain.steps, origin, if_neg plain.head?] at followed
    exact (follow_plain plain followed).2
  · obtain ⟨front, spelled, joins⟩ := exists_front_of_join empty
    have joined := joins name plain.head?
    obtain ⟨_, short, followed⟩ := locate_eq_ok.mp located
    obtain ⟨rest, longer⟩ : ∃ rest, Path.join path name = path ++ rest := by
      rcases spelled with rfl | rfl
      · exact ⟨_, joined⟩
      · exact ⟨name, by rw [joined]; simp⟩
    have start : origin (Path.join path name) = origin path := by
      rw [longer, origin, origin, List.head?_append_of_ne_nil _ empty]
    rw [longer] at short
    rw [start, joined] at followed
    obtain ⟨directory, reached, inside, same⟩ := exists_of_follow_slash plain followed
    refine ⟨directory, ?_, same⟩
    rw [LeadsTo, if_neg empty]
    refine locate_eq_ok.mpr ⟨empty, Nat.le_trans (byteLength_append_le path rest) short, ?_⟩
    rcases spelled with rfl | rfl
    · exact reached
    · rw [Path.steps_eq_splitOn, List.splitOn_append_cons_self, ← Path.steps_eq_splitOn, follow_append]
      refine ⟨directory, reached, ?_⟩
      rw [List.splitOn_nil, follow, inside]
      rfl

theorem not_isSlash_of_reverse (solid : '/' ∉ name) : ∀ c ∈ name.reverse, (!Path.isSlash c) = true := by
  intro c here
  have differ : c ≠ '/' := fun slash => solid (slash ▸ List.mem_reverse.mp here)
  simp [Path.isSlash, differ]

theorem directoryName_of_solid (solid : '/' ∉ name) : Path.directoryName name = [] := by
  rw [Path.directoryName, Path.split, List.dropWhile_eq_nil_iff.mpr (not_isSlash_of_reverse solid)]
  rfl

theorem directoryName_slash (solid : '/' ∉ name) (front : List Char) :
    Path.directoryName (front ++ '/' :: name) = Path.dropFinalSlashes (front ++ ['/']) := by
  have turned : (front ++ '/' :: name).reverse = name.reverse ++ '/' :: front.reverse := by simp
  rw [Path.directoryName, Path.split, turned, List.dropWhile_append_of_pos (not_isSlash_of_reverse solid),
    List.dropWhile_cons_of_neg (by decide), List.reverse_cons, List.reverse_reverse]

theorem directoryName_join (plain : PlainName name) (path : List Char) :
    Path.directoryName (Path.join path name) = Path.directoryName (Path.join path []) := by
  by_cases empty : path = []
  · have alone : Path.join path name = name := if_pos (by simp [empty])
    rw [alone, directoryName_of_solid plain.solid, empty]
    rfl
  · obtain ⟨front, _, joins⟩ := exists_front_of_join empty
    rw [joins name plain.head?, joins [] nofun, directoryName_slash plain.solid,
      directoryName_slash List.not_mem_nil]

/-- The file of the name in the directory of the path has this content, and every other file is the same. -/
def WrittenIn (before : FileTree) (path : List Char) (name : String) (content : Bytes) (after : FileTree) :
    Prop :=
  ∃ directory, after.LeadsTo path directory ∧
    after.node? (directory ++ [name]) = some (.file content) ∧
    ∀ other ≠ directory ++ [name], ∀ content,
      after.node? other = some (.file content) ↔ before.node? other = some (.file content)

theorem Written.inside (plain : PlainName name)
    (written : Written before (Path.join path name) content after) :
    WrittenIn before path (String.ofList name) content after := by
  obtain ⟨place, located, others⟩ := written.others
  obtain ⟨directory, leads, rfl⟩ := exists_of_locate_join plain located
  refine ⟨directory, leads, ?_, others⟩
  have here := written.here
  rw [nodeAt?] at here
  split at here
  · cases here
  · rwa [located] at here

end FileTree

end SampleTypes
