import SampleTypes.Proofs.Text.Characters
import SampleTypes.Proofs.TypeScript.Rendering

/-! What is in no name, and of no use in declarations, is in no declaration. -/

namespace SampleTypes.TypeScript

def typeCharacters : Points := "null boolean string number any ()[]|"

section Characters

variable {p : Point} {table : Table} {explicitUnions : Bool} {warnings later : List Warning} {text : String}

theorem lacks_kindText (foreign : Lacks p typeCharacters) (kind : Kind) : Lacks p (kindText kind) := by
  apply Lacks.of_subset foreign
  cases kind <;> decide

theorem lacks_arrayText (foreign : Lacks p typeCharacters) (free : Lacks p text) (e : Shape) :
    Lacks p (arrayText e text) := by
  have opened : Lacks p "(" := Lacks.of_subset foreign (by decide)
  have closed : Lacks p ")[]" := Lacks.of_subset foreign (by decide)
  have brackets : Lacks p "[]" := Lacks.of_subset foreign (by decide)
  unfold arrayText
  split
  · simp only [Points.ofString_append, Lacks.append_iff]
    exact ⟨⟨opened, free⟩, closed⟩
  · rw [Points.ofString_append, Lacks.append_iff]
    exact ⟨free, brackets⟩

theorem lacks_typeText (foreign : Lacks p typeCharacters) (names : ∀ name ∈ Entries.keys table, Lacks p name)
    {s : Shape} (ran : (typeText table explicitUnions s).run.run warnings = (.ok text, later)) :
    Lacks p text := by
  induction s generalizing warnings later text with
  | primitive kind =>
    cases ran
    exact lacks_kindText foreign kind
  | reference name =>
    rw [typeText, Table.resolve] at ran
    cases found : table.lookup name with
    | none =>
      rw [found] at ran
      cases ran
    | some fields =>
      rw [found] at ran
      cases ran
      exact names name (Entries.lookup_isSome.mp (by rw [found]; rfl))
  | array e placeholder ih =>
    rw [typeText] at ran
    obtain ⟨inner, middle, first, ran⟩ := exists_of_bind_run ran
    cases ran
    exact lacks_arrayText foreign (ih first) e
  | union variants ih =>
    rw [typeText_union] at ran
    cases explicitUnions with
    | true =>
      rw [if_pos rfl, map_eq_pure_bind] at ran
      obtain ⟨texts, middle, first, ran⟩ := exists_of_bind_run ran
      cases ran
      have each : ∀ text ∈ texts, Lacks p text :=
        forall_of_mapM_run (fun v member _ _ _ ran => ih v member ran) first
      rw [unionText, Points.ofString_intercalate]
      apply Lacks.intercalate (Lacks.of_subset foreign (by decide))
      rw [List.forall_mem_map]
      exact fun text here => each text (List.mem_eraseDups.mp here)
    | false =>
      rw [if_neg Bool.false_ne_true] at ran
      cases ran
      exact Lacks.of_subset foreign (by decide)
  | object fields ih => cases ran

def memberCharacters : Points := " ?:;"

theorem lacks_member (foreign : Lacks p memberCharacters) {m : Member} (key : Lacks p (propertyKey m.name))
    (type : Lacks p m.type) : Lacks p m.text := by
  have within {text : String} : Points.ofString text ⊆ memberCharacters → Lacks p text := Lacks.of_subset foreign
  have mark : Lacks p (if m.optional then "?" else "" : String) := by split <;> exact within (by decide)
  simp only [Member.text, Lacks.append_iff]
  exact ⟨⟨⟨⟨⟨within (by decide), key⟩, mark⟩, within (by decide)⟩, type⟩, within (by decide)⟩

def interfaceCharacters : Points := "export interface \x7b\x7d\n"

theorem lacks_interfaceText (foreign : Lacks p interfaceCharacters) {name : String} {members : List Member}
    (own : Lacks p name) (each : ∀ m ∈ members, Lacks p m.text) : Lacks p (interfaceText name members) := by
  have within {text : String} : Points.ofString text ⊆ interfaceCharacters → Lacks p text := Lacks.of_subset foreign
  have lines : Lacks p (members.flatMap fun m => m.text ++ Points.ofString "\n") := by
    intro inside
    obtain ⟨m, here, point⟩ := List.mem_flatMap.mp inside
    exact Lacks.append_iff.mpr ⟨each m here, within (by decide)⟩ point
  unfold interfaceText
  simp only [Lacks.append_iff]
  exact ⟨⟨⟨⟨within (by decide), own⟩, within (by decide)⟩, lines⟩, within (by decide)⟩

def aliasCharacters : Points := "export type =;"

theorem lacks_aliasText (foreign : Lacks p aliasCharacters) {name type : String} (own : Lacks p name)
    (plain : Lacks p type) : Lacks p (aliasText name type) := by
  have within {text : String} : Points.ofString text ⊆ aliasCharacters → Lacks p text := Lacks.of_subset foreign
  unfold aliasText
  simp only [Lacks.append_iff]
  exact ⟨⟨⟨⟨within (by decide), own⟩, within (by decide)⟩, plain⟩, within (by decide)⟩

/-- The characters of declarations besides those of names. -/
def declarationCharacters : Points :=
  interfaceCharacters ++ aliasCharacters ++ memberCharacters ++ typeCharacters

section Blocks

variable {style : Style} {block : Points} (foreign : Lacks p declarationCharacters)
include foreign

theorem lacks_interfaceBlock {name : String} {fields : Fields}
    (names : ∀ name ∈ Entries.keys table, Lacks p name) (own : Lacks p name)
    (keys : ∀ field ∈ fields, Lacks p (propertyKey field.1))
    (ran : (interfaceBlock style table name fields).run.run warnings = (.ok block, later)) :
    Lacks p block := by
  simp only [declarationCharacters, Lacks.append_iff] at foreign
  obtain ⟨⟨⟨blockwise, _⟩, memberwise⟩, typewise⟩ := foreign
  obtain ⟨lines, middle, first, ran⟩ := exists_of_bind_run ran
  cases ran
  apply lacks_interfaceText blockwise own
  refine forall_of_mapM_run (P := fun m => Lacks p m.text) ?_ first
  intro field here s m next member
  obtain ⟨type, _, typed, member⟩ := exists_of_bind_run member
  cases member
  exact lacks_member memberwise (keys field (mem_arrange.mp here)) (lacks_typeText typewise names typed)

theorem lacks_aliasBlock {name : String} {s : Shape} (names : ∀ name ∈ Entries.keys table, Lacks p name)
    (own : Lacks p name)
    (ran : (aliasBlock style table name s).run.run warnings = (.ok block, later)) : Lacks p block := by
  simp only [declarationCharacters, Lacks.append_iff] at foreign
  obtain ⟨type, middle, typed, ran⟩ := exists_of_bind_run ran
  cases ran
  exact lacks_aliasText foreign.1.1.2 own (lacks_typeText foreign.2 names typed)

theorem lacks_render {g : Graph} {blocks : List Points}
    (names : ∀ name ∈ Entries.keys g.table, Lacks p name) (root : Lacks p g.rootName)
    (keys : ∀ entry ∈ g.table, ∀ field ∈ entry.2, Lacks p (propertyKey field.1))
    (ran : (render style g).run.run warnings = (.ok blocks, later)) : ∀ block ∈ blocks, Lacks p block := by
  obtain ⟨_, interfaces, aliases, middle, rfl, first, last⟩ := exists_of_render ran
  rw [List.forall_mem_append]
  constructor
  · refine forall_of_mapM_run (P := Lacks p) ?_ first
    intro entry here s block next written
    have own := names _ (List.mem_map_of_mem here)
    exact lacks_interfaceBlock foreign names own (keys entry here) written
  · split at last
    · rw [last]
      exact List.forall_mem_nil _
    · obtain ⟨block, _, written, rfl⟩ := last
      exact List.forall_mem_singleton.mpr (lacks_aliasBlock foreign names root written)

omit foreign in
theorem lacks_joinBlocks (foreign : Lacks p interfaceCharacters) {blocks : List Points}
    (each : ∀ block ∈ blocks, Lacks p block) : Lacks p (joinBlocks blocks) := by
  have within {text : String} : Points.ofString text ⊆ interfaceCharacters → Lacks p text := Lacks.of_subset foreign
  rw [joinBlocks, Lacks.append_iff]
  exact ⟨Lacks.intercalate (within (by decide)) each, within (by decide)⟩

end Blocks

end Characters

end SampleTypes.TypeScript
