import Mathlib.Data.List.Basic
import SampleTypes.Proofs.Text.Blocks
import SampleTypes.Proofs.TypeName
import SampleTypes.Proofs.TypeScript.ForeignCharacters
import SampleTypes.Proofs.TypeScript.PropertyKeys

/-! A file of declarations read back. Its blank lines stand between blocks only, and from a block of an
interface its name and its members are read, whatever the names of the members are. -/

namespace SampleTypes.TypeScript

/-! Reading. -/

/-- The name that a key stands for, and the text after the key. -/
def readKey : List Char → Option (Str × List Char)
  | '"' :: opened =>
    match Json.scan '"' opened with
    | (.string name, rest) => some (name, rest)
    | _ => none
  | text =>
    let word := String.ofList (text.takeWhile isIdentifierPart)
    some (word, text.dropWhile isIdentifierPart)

def readMark : List Char → Bool × List Char
  | '?' :: rest => (true, rest)
  | rest => (false, rest)

/-- The type of a member ends at the last semicolon of its line. -/
def readMember (line : Points) : Option Member := do
  let (name, marked) ← readKey (← (Json.spelled line).dropPrefix? indent.toList)
  let (optional, typed) := readMark marked
  let type ← (← typed.dropPrefix? ": ".toList).dropSuffix? ";".toList
  return ⟨name, String.ofList type, optional⟩

def headerStart : Points := "export interface "

def headerEnd : Points := " \x7b"

def readHeader (line : Points) : Option String := do
  let name ← (← line.dropPrefix? headerStart).dropSuffix? headerEnd
  Points.string? name

def readInterface (block : Points) : Option (String × List Member) :=
  match linesOf block with
  | [] => none
  | header :: lines => do
    let name ← readHeader header
    let members ← (← lines.dropSuffix? [Points.ofString "\x7d"]).mapM readMember
    return (name, members)

def headerLine (name : String) : Points := headerStart ++ name ++ headerEnd

def interfaceLines (name : String) (members : List Member) : List Points :=
  headerLine name :: members.map Member.text ++ [Points.ofString "\x7d"]

/-- The member says of the field its name, whether it is optional, and the text of its type. -/
def Describes (style : Style) (table : Table) (m : Member) (field : Str × Field) : Prop :=
  m.name = field.1 ∧ m.optional = field.2.optional ∧
    Renders (typeText table style.explicitUnions field.2.shape) m.type

/-- A block is the interface of an entry by its lines, and it is read as that: as the name and the members,
one for each field in the order of the style. -/
def ReadsBack (style : Style) (table : Table) (entry : String × Fields) (block : Points) : Prop :=
  ∃ ms, Renders (members style table entry.2) ms ∧
    List.Forall₂ (Describes style table) ms (arrange style.alphabetize entry.2) ∧
    linesOf block = interfaceLines entry.1 ms ∧ readInterface block = some (entry.1, ms)

/-! Members. -/

section Members

variable {name : Str} {rest : List Char} {m : Member}

theorem exists_of_ends (word : isWordName name = true) (ends : name.points.getLast? ≠ some '\n') :
    ∃ text : String, name = text ∧ Identifier text.toList := by
  obtain ⟨text, rfl, identifier⟩ := exists_of_isWordName word
  refine ⟨text, rfl, ?_⟩
  have inner : text.toList.getLast? ≠ some '\n' := by
    intro final
    rw [Str.points_ofString, Points.ofString, List.getLast?_map, final] at ends
    exact ends rfl
  rwa [isIdentifier_iff, beforeFinalLineFeed, if_neg inner] at identifier

theorem isIdentifierPart_of_start {c : Char} (start : isIdentifierStart c = true) :
    isIdentifierPart c = true := by
  simp only [isIdentifierStart, isIdentifierPart, Char.isAlphanum, Bool.or_eq_true] at start ⊢
  tauto

theorem Identifier.parts {text : List Char} (word : Identifier text) :
    ∀ c ∈ text, isIdentifierPart c = true := by
  obtain ⟨c, others, rfl, start, parts⟩ := word
  exact List.forall_mem_cons.mpr ⟨isIdentifierPart_of_start start, parts⟩

theorem readKey_propertyKey (ends : name.points.getLast? ≠ some '\n') {c : Char}
    (stop : isIdentifierPart c = false) :
    readKey (Json.spelled (propertyKey name) ++ c :: rest) = some (name, c :: rest) := by
  cases word : isWordName name with
  | true =>
    rw [propertyKey_of_word word]
    obtain ⟨text, rfl, identifier⟩ := exists_of_ends word ends
    have parts := identifier.parts
    obtain ⟨d, others, spelled, start, _⟩ := identifier
    have unquoted : d ≠ '"' := by
      rintro rfl
      cases start
    have read : readKey (text.toList ++ c :: rest) =
        some (Str.ofString (String.ofList ((text.toList ++ c :: rest).takeWhile isIdentifierPart)),
          (text.toList ++ c :: rest).dropWhile isIdentifierPart) := by
      rw [spelled, List.cons_append, readKey]
      simpa using unquoted
    rw [Str.points_ofString, Json.spelled_ofString, read, List.takeWhile_append_of_pos parts,
      List.dropWhile_append_of_pos parts, List.takeWhile_cons_of_neg (by simp [stop]),
      List.dropWhile_cons_of_neg (by simp [stop]), List.append_nil, String.ofList_toList]
  | false =>
    rw [propertyKey_of_other word, Json.spelled_quotePoints]
    obtain ⟨opened, spelled, scanned⟩ := Json.scan_quoteChars .unicode name (c :: rest)
    rw [spelled, readKey, scanned]

theorem lacks_propertyKey (ends : name.points.getLast? ≠ some '\n') : Lacks '\n' (propertyKey name) := by
  cases word : isWordName name with
  | true =>
    rw [propertyKey_of_word word]
    obtain ⟨text, rfl, identifier⟩ := exists_of_ends word ends
    intro inside
    exact absurd (identifier.parts '\n' (Points.mem_ofString.mp inside)) (by decide)
  | false =>
    rw [propertyKey_of_other word]
    exact fun inside => absurd (Json.space_le_of_mem_quotePoints inside) (by decide)

theorem readMember_text (ends : m.name.points.getLast? ≠ some '\n') : readMember m.text = some m := by
  have typed : (m.type.toList ++ ";".toList).dropSuffix? ";".toList = some m.type.toList :=
    List.dropSuffix?_eq_some_iff.mpr ⟨_, rfl, beq_self_eq_true _⟩
  -- The key ends before the mark or, where there is none, before the colon.
  obtain ⟨c, rest, spelled, stop, mark⟩ : ∃ c rest,
      (if m.optional then "?" else "").toList ++ ": ".toList ++ (m.type.toList ++ ";".toList) = c :: rest ∧
        isIdentifierPart c = false ∧
        readMark (c :: rest) = (m.optional, ": ".toList ++ (m.type.toList ++ ";".toList)) := by
    cases m.optional with
    | true => exact ⟨'?', _, rfl, rfl, rfl⟩
    | false => exact ⟨':', _, rfl, rfl, rfl⟩
  have text : Json.spelled m.text = indent.toList ++ (Json.spelled (propertyKey m.name) ++ c :: rest) := by
    rw [← spelled]
    simp only [Member.text, Json.spelled_append, Json.spelled_ofString, List.append_assoc]
  rw [readMember, text, List.dropPrefix?_append_of_beq _ (beq_self_eq_true _)]
  simp only [Option.bind_eq_bind, Option.bind_some, readKey_propertyKey ends stop, mark,
    List.dropPrefix?_append_of_beq _ (beq_self_eq_true ": ".toList), typed, String.ofList_toList,
    Option.pure_def]

end Members

/-! Interfaces. -/

section Interfaces

variable {name : String} {ms : List Member}

theorem interfaceText_eq (name : String) (ms : List Member) :
    interfaceText name ms = List.intercalate "\n" (interfaceLines name ms) := by
  have opened : Points.ofString " \x7b\n" = headerEnd ++ "\n" := rfl
  unfold interfaceText interfaceLines headerLine
  rw [intercalate_concat, List.flatMap_cons, List.flatMap_map, opened]
  simp only [List.append_assoc]
  rfl

theorem ne_nil_of_interfaceLines : [] ∉ interfaceLines name ms := by
  intro here
  rw [interfaceLines, List.cons_append, List.mem_cons, List.mem_append, List.mem_singleton] at here
  rcases here with header | member | brace
  · cases header
  · obtain ⟨m, _, blank⟩ := List.mem_map.mp member
    cases blank
  · cases brace

theorem lacks_headerLine (own : Lacks '\n' name) : Lacks '\n' (headerLine name) := by
  rw [headerLine, Lacks.append_iff, Lacks.append_iff]
  exact ⟨⟨by decide, own⟩, by decide⟩

theorem lacks_interfaceLines (own : Lacks '\n' name) (each : ∀ m ∈ ms, Lacks '\n' m.text) :
    ∀ line ∈ interfaceLines name ms, Lacks '\n' line := by
  have brace : Lacks '\n' "\x7d" := by decide
  simp only [interfaceLines, List.forall_mem_append, List.forall_mem_cons, List.forall_mem_map]
  exact ⟨⟨lacks_headerLine own, each⟩, brace, List.forall_mem_nil _⟩

theorem linesOf_interfaceText (own : Lacks '\n' name) (each : ∀ m ∈ ms, Lacks '\n' m.text) :
    linesOf (interfaceText name ms) = interfaceLines name ms := by
  have nonempty : interfaceLines name ms ≠ [] := by simp [interfaceLines]
  rw [interfaceText_eq, linesOf_intercalate nonempty (lacks_interfaceLines own each)]

theorem readHeader_headerLine (name : String) : readHeader (headerLine name) = some name := by
  have ended : (Points.ofString name ++ headerEnd).dropSuffix? headerEnd = some (Points.ofString name) :=
    List.dropSuffix?_eq_some_iff.mpr ⟨_, rfl, beq_self_eq_true _⟩
  rw [readHeader, headerLine, List.append_assoc, List.dropPrefix?_append_of_beq _ (beq_self_eq_true _)]
  simp only [Option.bind_eq_bind, Option.bind_some, ended, Points.string?_ofString]

theorem readInterface_interfaceText (own : Lacks '\n' name) (each : ∀ m ∈ ms, Lacks '\n' m.text)
    (ends : ∀ m ∈ ms, m.name.points.getLast? ≠ some '\n') :
    readInterface (interfaceText name ms) = some (name, ms) := by
  have closed : (ms.map Member.text ++ [Points.ofString "\x7d"]).dropSuffix? [Points.ofString "\x7d"] =
      some (ms.map Member.text) :=
    List.dropSuffix?_eq_some_iff.mpr ⟨_, rfl, beq_self_eq_true _⟩
  have read : (ms.map Member.text).mapM readMember = some ms := by
    have each : ∀ m ∈ ms, (readMember ∘ Member.text) m = pure m := fun m here => readMember_text (ends m here)
    rw [List.mapM_map, mapM_congr each, List.mapM_pure, List.map_id']
    rfl
  rw [readInterface, linesOf_interfaceText own each, interfaceLines, List.cons_append]
  simp only [readHeader_headerLine, Option.bind_eq_bind, Option.bind_some, closed, read, Option.pure_def]

end Interfaces

/-! Files. -/

section Files

variable {style : Style} {g : Graph}

theorem exists_entry_of_plainMembers {fields : Fields} {m : Member} (here : m ∈ plainMembers style fields) :
    ∃ entry ∈ fields, m.name = entry.1 ∧ m.type = plainText style.explicitUnions entry.2.shape := by
  obtain ⟨entry, member, rfl⟩ := List.mem_map.mp here
  exact ⟨entry, mem_arrange.mp member, rfl, rfl⟩

theorem lacks_plainText {table : Table} (names : ∀ name ∈ Entries.keys table, Lacks '\n' name)
    {explicitUnions : Bool} {s : Shape} (bare : s.outerObjects = []) (resolved : s.Resolved table) :
    Lacks '\n' (plainText explicitUnions s) := by
  obtain ⟨later, ran⟩ := renders_typeText bare resolved []
  exact lacks_typeText (by decide) names ran

theorem lacks_plainMembers (style : Style) (checked : g.check = .ok ())
    (names : ∀ name ∈ Entries.keys g.table, Lacks '\n' name) {entry : String × Fields}
    (here : entry ∈ g.table) (bare : ∀ field ∈ entry.2, field.2.shape.outerObjects = [])
    (ends : ∀ field ∈ entry.2, field.1.points.getLast? ≠ some '\n') :
    ∀ m ∈ plainMembers style entry.2, Lacks '\n' m.text := by
  intro m member
  obtain ⟨field, inside, name, type⟩ := exists_entry_of_plainMembers member
  apply lacks_member (by decide)
  · rw [name]
    exact lacks_propertyKey (ends field inside)
  · rw [type]
    exact lacks_plainText names (bare field inside) ((resolved_of_entry checked here).field inside)

theorem describes_plainMembers {table : Table} {fields : Fields}
    (bare : ∀ field ∈ fields, field.2.shape.outerObjects = [])
    (resolved : (Shape.object fields).Resolved table) :
    List.Forall₂ (Describes style table) (plainMembers style fields) (arrange style.alphabetize fields) := by
  rw [plainMembers, List.forall₂_map_left_iff, List.forall₂_same]
  intro field here
  have inside := mem_arrange.mp here
  exact ⟨rfl, rfl, renders_typeText (bare field inside) (resolved.field inside)⟩

def declarationLines (style : Style) (g : Graph) : List (List Points) :=
  (g.table.map fun entry => interfaceLines entry.1 (plainMembers style entry.2)) ++
    if g.rootIsObject then [] else [[aliasText g.rootName (plainText style.explicitUnions g.root)]]

theorem declarations_eq (style : Style) (g : Graph) :
    declarations style g = (declarationLines style g).map fun lines => List.intercalate "\n" lines := by
  rw [declarations, declarationLines, List.map_append, List.map_map]
  congr 1
  · exact List.map_congr_left fun entry _ => interfaceText_eq _ _
  · split
    · rfl
    · simp

theorem declarationLines_ne_nil (checked : g.check = .ok ()) : declarationLines style g ≠ [] := by
  rw [declarationLines]
  split
  · rename_i object
    simpa using Graph.table_ne_nil checked object
  · simp

theorem forall_declarationLines {P : List Points → Prop}
    (interfaces : ∀ entry ∈ g.table, P (interfaceLines entry.1 (plainMembers style entry.2)))
    (root : P [aliasText g.rootName (plainText style.explicitUnions g.root)]) :
    ∀ lines ∈ declarationLines style g, P lines := by
  rw [declarationLines, List.forall_mem_append, List.forall_mem_map]
  refine ⟨interfaces, ?_⟩
  split
  · exact List.forall_mem_nil _
  · exact List.forall_mem_singleton.mpr root

theorem blocksOf_declarations (checked : g.check = .ok ()) (bareRoot : g.root.outerObjects = [])
    (bareTable : ∀ entry ∈ g.table, ∀ field ∈ entry.2, field.2.shape.outerObjects = [])
    (own : Lacks '\n' g.rootName) (names : ∀ name ∈ Entries.keys g.table, Lacks '\n' name)
    (ends : ∀ entry ∈ g.table, ∀ field ∈ entry.2, field.1.points.getLast? ≠ some '\n') :
    blocksOf (List.intercalate "\n\n" (declarations style g)) = declarations style g := by
  rw [declarations_eq]
  apply blocksOf_intercalate (declarationLines_ne_nil checked)
  · apply forall_declarationLines <;> simp [interfaceLines]
  · apply forall_declarationLines (P := fun lines => [] ∉ lines)
    · exact fun _ _ => ne_nil_of_interfaceLines
    · nofun
  · apply forall_declarationLines
    · intro entry here
      apply lacks_interfaceLines (names entry.1 (List.mem_map_of_mem here))
      exact lacks_plainMembers style checked names here (bareTable entry here) (ends entry here)
    · rw [List.forall_mem_singleton]
      exact lacks_aliasText (by decide) own (lacks_plainText names bareRoot (Graph.resolved_of_check checked))

/-- Cut at its blank lines, the text of a file gives back its blocks, and from the block of each entry the
name and the members of the interface are read. -/
theorem renderText_readsBack (style : Style) (checked : g.check = .ok ())
    (bareRoot : g.root.outerObjects = [])
    (bareTable : ∀ entry ∈ g.table, ∀ field ∈ entry.2, field.2.shape.outerObjects = [])
    (legal : ∀ name ∈ g.rootName :: Entries.keys g.table, LegalName name)
    (ends : ∀ entry ∈ g.table, ∀ field ∈ entry.2, field.1.points.getLast? ≠ some '\n') :
    ∃ blocks body, Renders (render style g) blocks ∧ Renders (renderText style g) (body ++ "\n") ∧
      blocksOf body = blocks ∧
        ∃ interfaces aliases, blocks = interfaces ++ aliases ∧
          List.Forall₂ (ReadsBack style g.table) g.table interfaces ∧
          (aliases = [] ∨ ∃ type, aliases = [aliasText g.rootName type]) := by
  rw [List.forall_mem_cons] at legal
  have own : Lacks '\n' g.rootName := legal.1.alphanumeric.lacks rfl
  have names : ∀ name ∈ Entries.keys g.table, Lacks '\n' name :=
    fun name here => (legal.2 name here).alphanumeric.lacks rfl
  have rendered : Renders (render style g) (declarations style g) :=
    renders_render checked bareRoot bareTable
  refine ⟨declarations style g, List.intercalate "\n\n" (declarations style g), rendered,
    renders_bind rendered (renders_pure _), ?_, _, _, rfl, ?_, ?_⟩
  · exact blocksOf_declarations checked bareRoot bareTable own names ends
  · rw [List.forall₂_map_right_iff, List.forall₂_same]
    intro entry here
    have name := names entry.1 (List.mem_map_of_mem here)
    have lines := lacks_plainMembers style checked names here (bareTable entry here) (ends entry here)
    refine ⟨plainMembers style entry.2,
      renders_members (bareTable entry here) (resolved_of_entry checked here),
      describes_plainMembers (bareTable entry here) (resolved_of_entry checked here),
      linesOf_interfaceText name lines, readInterface_interfaceText name lines ?_⟩
    intro m member
    obtain ⟨field, inside, same, _⟩ := exists_entry_of_plainMembers member
    rw [same]
    exact ends entry here field inside
  · split
    · exact Or.inl rfl
    · exact Or.inr ⟨_, rfl⟩

/-- A key with everything in it that stands between the parts of a line, between lines and between
blocks. -/
theorem renderText_readsBack_of_delimiters :
    let fields : Fields :=
      [("a\"?: b;\n\x7d\n\n\x7b", ⟨.array (.reference "Item") false, true⟩),
        ("$b", ⟨.union [.reference "Item", .primitive .float], false⟩)]
    let g : Graph := ⟨"Items", .array (.reference "Item") false, [("Item", fields)]⟩
    ∃ body, Renders (renderText ⟨true, true⟩ g) (body ++ "\n") ∧
      ∃ block ∈ blocksOf body, ReadsBack ⟨true, true⟩ g.table ("Item", fields) block ∧
        readInterface block = some ("Item", [⟨"$b", "Item | number", false⟩,
          ⟨"a\"?: b;\n\x7d\n\n\x7b", "Item[]", true⟩]) := by
  intro fields g
  have checked : g.check = .ok () := rfl
  have bareTable : ∀ entry ∈ g.table, ∀ field ∈ entry.2, field.2.shape.outerObjects = [] := by
    intro entry here field inside
    rw [List.mem_singleton.mp here] at inside
    rcases List.mem_pair.mp inside with rfl | rfl <;> rfl
  have legal : ∀ name ∈ g.rootName :: Entries.keys g.table, LegalName name := by
    have root : LegalName "Items" := ⟨⟨'I', rfl, rfl⟩, alphanumeric_of_all rfl⟩
    have item : LegalName "Item" := ⟨⟨'I', rfl, rfl⟩, alphanumeric_of_all rfl⟩
    simp [g, Entries.keys, root, item]
  have ends : ∀ entry ∈ g.table, ∀ field ∈ entry.2, field.1.points.getLast? ≠ some '\n' := by
    intro entry here field inside
    rw [List.mem_singleton.mp here] at inside
    rcases List.mem_pair.mp inside with rfl | rfl <;> decide
  obtain ⟨_, body, _, text, rfl, interfaces, _, blocks, read, _⟩ :=
    renderText_readsBack ⟨true, true⟩ checked rfl bareTable legal ends
  obtain ⟨block, rest, reads, _, rfl⟩ := List.forall₂_cons_left_iff.mp read
  refine ⟨body, text, block, ?_, reads, ?_⟩
  · rw [blocks]
    exact List.mem_append_left _ List.mem_cons_self
  · obtain ⟨ms, rendered, _, _, members⟩ := reads
    obtain ⟨later, ran⟩ := rendered []
    cases ran
    exact members

end Files

end SampleTypes.TypeScript
