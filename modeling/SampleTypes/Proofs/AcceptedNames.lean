import SampleTypes.Proofs.Conversion
import SampleTypes.Proofs.Graph.LegalNames
import SampleTypes.Proofs.Source.NamedFiles
import SampleTypes.Proofs.TypeScript.CarriageReturns
import SampleTypes.Proofs.TypeScript.FileReading

/-! Names that are accepted for types. They are the legal ones, whose declarations begin on one line, and
legal ones with a line feed at the end, whose declarations do not. None of them leads out of a directory. -/

namespace SampleTypes

open TypeScript (Style Warning aliasText headerLine interfaceText typeText)

/-! Acceptance. -/

section Acceptance

variable {name word : String}

theorem LegalName.lacks_lineFeed (legal : LegalName name) : Lacks '\n' name := legal.alphanumeric.lacks rfl

theorem isWord_iff {text : List Char} : isWord Char.isAlpha Char.isAlphanum text = true ↔
    LegalName (String.ofList (beforeFinalLineFeed text)) := by
  unfold isWord
  cases beforeFinalLineFeed text with
  | nil =>
    refine ⟨nofun, ?_⟩
    rintro ⟨⟨c, head, _⟩, _⟩
    cases head
  | cons c others =>
    rw [Bool.and_eq_true, List.all_eq_true]
    constructor
    · rintro ⟨letter, parts⟩
      refine ⟨⟨c, by rw [String.toList_ofList]; rfl, letter⟩, ?_⟩
      rw [Alphanumeric, String.toList_ofList, List.forall_mem_cons]
      exact ⟨by rw [Char.isAlphanum, letter]; rfl, parts⟩
    · rintro ⟨⟨d, head, letter⟩, parts⟩
      rw [Alphanumeric, String.toList_ofList, List.forall_mem_cons] at parts
      rw [String.toList_ofList] at head
      cases head
      exact ⟨letter, parts.2⟩

theorem isTypeName_iff : isTypeName name = true ↔
    LegalName name ∨ ∃ word, LegalName word ∧ name = word ++ "\n" := by
  rw [isTypeName, isWord_iff, beforeFinalLineFeed]
  constructor
  · intro legal
    split at legal
    · rename_i final
      obtain ⟨front, spelled⟩ := List.getLast?_eq_some_iff.mp final
      rw [spelled, List.dropLast_concat] at legal
      refine .inr ⟨_, legal, String.toList_injective ?_⟩
      rw [spelled, String.toList_append, String.toList_ofList]
      rfl
    · rw [String.ofList_toList] at legal
      exact .inl legal
  · rintro (legal | ⟨word, legal, rfl⟩)
    · have inner : name.toList.getLast? ≠ some '\n' :=
        fun final => legal.lacks_lineFeed (Points.mem_ofString.mpr (List.mem_of_getLast? final))
      rwa [if_neg inner, String.ofList_toList]
    · have final : (word ++ "\n").toList = word.toList ++ ['\n'] := String.toList_append
      rw [final, List.getLast?_concat, if_pos rfl, List.dropLast_concat, String.ofList_toList]
      exact legal

theorem generate_of_refused {typeName : Option String} {cause : GenerationError}
    (refused : checkTypeName typeName = .error cause) (options : Options) (samples : List Value) :
    generate options typeName samples = throw cause := by
  rw [generate, refused]
  rfl

theorem checkTypeName_of_reserved (reserved : name ∈ reservedTypeNames) :
    checkTypeName (some name) = .error (.reservedTypeName name) := by
  have word : ∀ name ∈ reservedTypeNames, isTypeName name = true := by decide
  have listed : reservedTypeNames.contains name = true := List.contains_iff_mem.mpr reserved
  rw [checkTypeName, word name reserved, listed]
  rfl

end Acceptance

/-! Declarations. -/

/-- The block declares the name on its first line: it is the interface of the name or, in one line, an
alias. -/
def DeclaredOnLine (name : String) (block : Points) : Prop :=
  (∃ lines, linesOf block = headerLine name :: lines) ∨ ∃ type, linesOf block = [aliasText name type]

section Lines

variable {name word type : String}

theorem declaredOnLine_interfaceText (free : Lacks '\n' name) (members : List TypeScript.Member) :
    DeclaredOnLine name (interfaceText name members) := by
  have others : members.map TypeScript.Member.text ++ [Points.ofString "\x7d"] ≠ [] := by simp
  left
  rw [TypeScript.interfaceText_eq, TypeScript.interfaceLines, List.cons_append,
    List.intercalate_cons_of_ne_nil others, linesOf_append (TypeScript.lacks_headerLine free)]
  exact ⟨_, rfl⟩

theorem declaredOnLine_aliasText (free : Lacks '\n' name) (plain : Lacks '\n' type) :
    DeclaredOnLine name (aliasText name type) :=
  .inr ⟨type, linesOf_of_lacks (TypeScript.lacks_aliasText (by decide) free plain)⟩

theorem head?_linesOf_of_lineFeed (free : Lacks '\n' word) {opening : String} (plain : Lacks '\n' opening)
    (rest : Points) : (linesOf (opening ++ (word ++ "\n" : String) ++ rest)).head? =
      some (opening ++ word : String) := by
  have text : Points.ofString opening ++ Points.ofString (word ++ "\n") ++ rest =
      Points.ofString (opening ++ word) ++ Points.ofString "\n" ++ rest := by
    simp only [Points.ofString_append, List.append_assoc]
  have line : Lacks '\n' (opening ++ word : String) := by
    rw [Points.ofString_append, Lacks.append_iff]
    exact ⟨plain, free⟩
  rw [text, linesOf_append line]
  rfl

end Lines

namespace TypeScript

variable {style : Style} {g : Graph} {warnings later : List Warning} {blocks : List Points}

theorem forall_of_render {P : String → Points → Prop}
    (interfaces : ∀ name ∈ Entries.keys g.table, ∀ members, P name (interfaceText name members))
    (root : ∀ {type before after}, (typeText g.table style.explicitUnions g.root).run.run before =
      (.ok type, after) → P g.rootName (aliasText g.rootName type))
    (ran : (render style g).run.run warnings = (.ok blocks, later)) :
    (∀ block ∈ blocks, ∃ name ∈ g.rootName :: Entries.keys g.table, P name block) ∧
      ∃ block ∈ blocks, P g.rootName block := by
  obtain ⟨checked, inner, aliases, middle, rfl, first, last⟩ := exists_of_render ran
  have entries : ∀ entry ∈ g.table, ∀ {block before after},
      (interfaceBlock style g.table entry.1 entry.2).run.run before = (.ok block, after) →
        P entry.1 block := by
    intro entry here block before after written
    obtain ⟨members, _, _, written⟩ := exists_of_bind_run written
    cases written
    exact interfaces entry.1 (List.mem_map_of_mem here) members
  have each : ∀ block ∈ inner, ∃ name ∈ g.rootName :: Entries.keys g.table, P name block := by
    refine forall_of_mapM_run ?_ first
    intro entry here before block after written
    exact ⟨entry.1, List.mem_cons_of_mem _ (List.mem_map_of_mem here), entries entry here written⟩
  split at last
  · rename_i object
    rw [last, List.append_nil]
    refine ⟨each, ?_⟩
    obtain ⟨entry, here, same⟩ := List.mem_map.mp (Graph.rootName_mem_keys checked object)
    obtain ⟨block, inside, _, _, written⟩ := exists_of_mem_mapM_run here first
    exact ⟨block, inside, same ▸ entries entry here written⟩
  · obtain ⟨block, _, written, rfl⟩ := last
    obtain ⟨type, _, typed, written⟩ := exists_of_bind_run written
    cases written
    rw [List.forall_mem_append, List.forall_mem_singleton]
    have own := root typed
    exact ⟨⟨each, g.rootName, List.mem_cons_self, own⟩, _, List.mem_append_right _ List.mem_cons_self, own⟩

end TypeScript

section Generation

variable {name word : String} {options : Options} {samples : List Value} {blocks : List Points}
  {warnings later : List Warning}

theorem declaredOnLine_of_generate (legal : LegalName name)
    (ran : (generate options (some name) samples).run.run warnings = (.ok blocks, later)) :
    (∀ block ∈ blocks, ∃ own, LegalName own ∧ DeclaredOnLine own block) ∧
      ∃ block ∈ blocks, DeclaredOnLine name block := by
  obtain ⟨s, g, _, _, given, _, unreserved, made, rendered⟩ := exists_graph_of_generate ran
  obtain rfl := Option.some.inj given
  have names : ∀ own ∈ Entries.keys g.table, LegalName own := fun own here =>
    (name_of_ofShape namingRule_legal (fun _ => ⟨legal, unreserved⟩) (fun _ => legal) made own here).1
  have free : ∀ own ∈ Entries.keys g.table, Lacks '\n' own := fun own here => (names own here).lacks_lineFeed
  obtain ⟨each, root⟩ := TypeScript.forall_of_render (P := DeclaredOnLine)
    (fun own here members => declaredOnLine_interfaceText (free own here) members)
    (fun typed => declaredOnLine_aliasText legal.lacks_lineFeed
      (TypeScript.lacks_typeText (by decide) free typed))
    rendered
  refine ⟨fun block here => ?_, root⟩
  obtain ⟨own, listed, declared⟩ := each block here
  exact ⟨own, (List.forall_mem_cons.mpr ⟨legal, names⟩) own listed, declared⟩

theorem head?_linesOf_of_generate (legal : LegalName word)
    (ran : (generate options (some (word ++ "\n")) samples).run.run warnings = (.ok blocks, later)) :
    ∃ block ∈ blocks, (linesOf block).head? = some ("export interface " ++ word : String) ∨
      (linesOf block).head? = some ("export type " ++ word : String) := by
  obtain ⟨s, g, _, _, given, _, _, _, rendered⟩ := exists_graph_of_generate ran
  obtain ⟨_, block, here, spelled⟩ := TypeScript.forall_of_render
    (P := fun own block => (∃ members, block = interfaceText own members) ∨
      ∃ type, block = aliasText own type)
    (fun _ _ members => .inl ⟨members, rfl⟩) (fun {type _ _} _ => .inr ⟨type, rfl⟩) rendered
  rw [← Option.some.inj given] at spelled
  refine ⟨block, here, ?_⟩
  rcases spelled with ⟨members, rfl⟩ | ⟨type, rfl⟩
  · left
    unfold interfaceText
    rw [List.append_assoc, List.append_assoc]
    exact head?_linesOf_of_lineFeed legal.lacks_lineFeed (by decide) _
  · right
    unfold aliasText
    rw [List.append_assoc, List.append_assoc]
    exact head?_linesOf_of_lineFeed legal.lacks_lineFeed (by decide) _

end Generation

/-! Files. -/

section Files

variable {name : String}

theorem plainName_of_isTypeName (accepted : isTypeName name = true) :
    FileTree.PlainName (name ++ ".ts").toList := by
  have solid : '/' ∉ name.toList := not_mem_of_isWord accepted (by decide) rfl rfl
  have filled : name.toList ≠ [] := by
    intro nothing
    rw [isTypeName, nothing] at accepted
    cases accepted
  have long : 3 < (name ++ ".ts").toList.length := by
    rw [String.toList_append, List.length_append]
    exact Nat.lt_add_of_pos_left (List.length_pos_iff.mpr filled)
  refine ⟨?_, ?_, ?_, ?_⟩
  · rw [String.toList_append, List.mem_append, not_or]
    exact ⟨solid, by decide⟩
  all_goals
    intro same
    rw [same] at long
    exact absurd long (by decide)

theorem writtenIn_of_written (accepted : isTypeName name = true) {tree after : FileTree} {out : String}
    {content : Bytes} (written : FileTree.Written tree (targetPath tree out name).toList content after) :
    targetPath tree out name = out ∧ FileTree.Written tree out.toList content after ∨
      targetPath tree out name = fileIn out name ∧
        FileTree.WrittenIn tree out.toList (name ++ ".ts") content after := by
  unfold targetPath at written ⊢
  split
  · rename_i inner
    right
    rw [if_pos inner, fileIn, String.toList_ofList] at written
    have inside := written.inside (plainName_of_isTypeName accepted)
    rw [String.ofList_toList] at inside
    exact ⟨rfl, inside⟩
  · rename_i own
    left
    rw [if_neg own] at written
    exact ⟨rfl, written⟩

theorem directoryName_fileIn (accepted : isTypeName name = true) (out : String) :
    Path.directoryName (fileIn out name).toList = Path.directoryName (Path.join out.toList []) := by
  rw [fileIn, String.toList_ofList]
  exact FileTree.directoryName_join (plainName_of_isTypeName accepted) out.toList

end Files

structure NameContract (name : String) : Prop where
  accepted : isTypeName name = true ↔ LegalName name ∨ ∃ word, LegalName word ∧ name = word ++ "\n"
  refused : isTypeName name = false → ∀ options samples,
    generate options (some name) samples = throw (.invalidTypeName name)
  reserved : name ∈ reservedTypeNames → ∀ options samples,
    generate options (some name) samples = throw (.reservedTypeName name)
  declared : LegalName name → ∀ options samples warnings blocks later,
    (generate options (some name) samples).run.run warnings = (.ok blocks, later) →
      (∀ block ∈ blocks, ∃ own, LegalName own ∧ DeclaredOnLine own block) ∧
        ∃ block ∈ blocks, DeclaredOnLine name block
  broken : ∀ word, LegalName word → name = word ++ "\n" → ∀ options samples warnings blocks later,
    (generate options (some name) samples).run.run warnings = (.ok blocks, later) →
      ∃ block ∈ blocks, (linesOf block).head? = some ("export interface " ++ word : String) ∨
        (linesOf block).head? = some ("export type " ++ word : String)
  written : isTypeName name = true → ∀ tree out text,
    match persist tree out text name with
    | (.ok path, after) => ∃ content, Text.Utf8.encodePoints text = .ok content ∧
      (path = out ∧ FileTree.Written tree out.toList content after ∨
        path = fileIn out name ∧ FileTree.WrittenIn tree out.toList (name ++ ".ts") content after)
    | (.error (.unencodable _), after) => FileTree.Written tree out.toList [] after ∨
      FileTree.WrittenIn tree out.toList (name ++ ".ts") [] after
    | (.error _, after) => FileTree.KeepsFiles tree after
  directory : isTypeName name = true → ∀ out,
    Path.directoryName (fileIn out name).toList = Path.directoryName (Path.join out.toList [])

/-- A name is accepted if it is legal, up to a line feed at the end. One that is not accepted or reserved is
refused whatever the samples are. A legal name is declared on one line, and a file under an accepted name is
written to the directory of the output; a line feed at the end breaks the line of the declaration. -/
theorem nameContract (name : String) : NameContract name := by
  constructor
  · exact isTypeName_iff
  · intro invalid options samples
    have refused : checkTypeName (some name) = .error (.invalidTypeName name) := by
      rw [checkTypeName, invalid]
      rfl
    exact generate_of_refused refused options samples
  · exact fun reserved => generate_of_refused (checkTypeName_of_reserved reserved)
  · exact fun legal _ _ _ _ _ => declaredOnLine_of_generate legal
  · rintro word legal rfl _ _ _ _ _
    exact head?_linesOf_of_generate legal
  · intro accepted tree out text
    have result := persisted_persist tree out text name
    cases persisted : persist tree out text name with
    | mk outcome after =>
      rw [persisted] at result
      cases outcome with
      | ok path =>
        obtain ⟨rfl, content, encoded, written⟩ := result
        exact ⟨content, encoded, writtenIn_of_written accepted written⟩
      | error cause =>
        cases cause with
        | unencodable _ => exact (writtenIn_of_written accepted result.2).imp And.right And.right
        | nulCharacter => exact result
        | unwritable _ _ _ => exact result
  · exact fun accepted => directoryName_fileIn accepted

/-- A name of two characters is accepted and splits its declaration. -/
theorem isTypeName_of_lineFeed : isTypeName "A\n" = true ∧ ¬LegalName "A\n" ∧
    (generate {} (some "A\n") [.int 1]).run.run [] = (.ok ["export type A\n = number;"], []) := by
  refine ⟨rfl, fun legal => ?_, rfl⟩
  exact absurd (legal.alphanumeric '\n' (by decide)) (by decide)

end SampleTypes
