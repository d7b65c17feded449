import SampleTypes.Proofs.Generation
import SampleTypes.Proofs.Graph.PlainNames
import SampleTypes.Proofs.TypeScript.ForeignCharacters
import SampleTypes.Proofs.TypeScript.PropertyKeys
import SampleTypes.Text.Lines

/-! Declarations hold no carriage returns, whatever the names of fields are, so line ends in a file of
them are read as they were written. -/

namespace SampleTypes

theorem unifyNewlines_of_returnFree {text : List Char} (free : '\r' ∉ text) :
    Text.unifyNewlines text = text := by
  induction text with
  | nil => rfl
  | cons c rest ih =>
    rw [List.mem_cons, not_or] at free
    rw [Text.unifyNewlines, ih free.2]
    · rintro others rfl
      exact absurd rfl free.1
    · exact fun equal => free.1 equal.symm

/-! Names. -/

theorem namingRule_returnFree :
    NamingRule (fun name => Lacks '\r' name) fun _ context => Lacks '\r' context where
  unique free unique := by
    rcases (chosen_of_uniqueName unique).cases with ⟨rfl, _⟩ | ⟨n, rfl⟩
    · exact free
    · rw [Points.ofString_append, Lacks.append_iff]
      exact ⟨free, (alphanumeric_toString n).lacks rfl⟩
  mono free _ := free
  element free inside := by
    rcases mem_elementTypeName (Points.mem_ofString.mp inside) with old | new
    · exact free (Points.mem_ofString.mpr old)
    · exact absurd new (by decide)
  field _ name := (alphanumeric_typeNameOf name).lacks rfl

theorem mem_beforeFinalLineFeed {text : List Char} {c : Char} (here : c ∈ text) :
    c ∈ beforeFinalLineFeed text ∨ c = '\n' := by
  unfold beforeFinalLineFeed
  split
  · rename_i final
    obtain ⟨before, rfl⟩ := List.getLast?_eq_some_iff.mp final
    rw [List.dropLast_concat]
    rw [List.mem_append, List.mem_singleton] at here
    exact here
  · exact Or.inl here

theorem not_mem_of_isWord {first rest : Char → Bool} {text : List Char} {c : Char}
    (word : isWord first rest text = true) (feed : c ≠ '\n') (start : first c = false)
    (part : rest c = false) : c ∉ text := by
  intro here
  have inside := (mem_beforeFinalLineFeed here).resolve_right feed
  unfold isWord at word
  split at word
  · cases word
  · rename_i d others spelled
    rw [Bool.and_eq_true, List.all_eq_true] at word
    rw [spelled, List.mem_cons] at inside
    rcases inside with rfl | later
    · rw [start] at word
      cases word.1
    · have fits := word.2 c later
      rw [part] at fits
      cases fits

theorem returnFree_of_isTypeName {name : String} (accepted : isTypeName name = true) :
    Lacks '\r' name := fun inside =>
  not_mem_of_isWord accepted (by decide) rfl rfl (Points.mem_ofString.mp inside)

theorem returnFree_propertyKey (name : Str) : Lacks '\r' (TypeScript.propertyKey name) := by
  cases word : TypeScript.isWordName name with
  | true =>
    rw [TypeScript.propertyKey_of_word word]
    obtain ⟨text, rfl, identifier⟩ := TypeScript.exists_of_isWordName word
    exact fun inside => not_mem_of_isWord identifier (by decide) rfl rfl (Points.mem_ofString.mp inside)
  | false =>
    rw [TypeScript.propertyKey_of_other word]
    exact fun inside => absurd (Json.space_le_of_mem_quotePoints inside) (by decide)

/-- Whatever the samples are, their declarations hold no carriage return. -/
theorem returnFree_of_generate {options : Options} {typeName : Option String} {samples : List Value}
    {blocks : List Points} {warnings later : List TypeScript.Warning}
    (returned : (generate options typeName samples).run.run warnings = (.ok blocks, later)) :
    Lacks '\r' (TypeScript.joinBlocks blocks) := by
  obtain ⟨s, g, _, _, _, word, _, made, rendered⟩ := exists_graph_of_generate returned
  have root : Lacks '\r' g.rootName := returnFree_of_isTypeName word
  have names := name_of_ofShape namingRule_returnFree (fun _ => root) (fun _ => root) made
  have keys : ∀ entry ∈ g.table, ∀ field ∈ entry.2, Lacks '\r' (TypeScript.propertyKey field.1) :=
    fun _ _ field _ => returnFree_propertyKey field.1
  exact TypeScript.lacks_joinBlocks (by decide)
    (TypeScript.lacks_render (by decide) names root keys rendered)

end SampleTypes
