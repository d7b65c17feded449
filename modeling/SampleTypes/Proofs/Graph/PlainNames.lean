import SampleTypes.Proofs.Graph.GivenNames
import SampleTypes.Proofs.Graph.Named
import SampleTypes.Proofs.TypeName

/-! Which names a walk gives. A name comes of its context, as it stands or with a suffix, and of a context
that is no plural of a primitive type's text no name comes that is such a text. -/

namespace SampleTypes

open TypeScript (kindText)

/-- A name that is not the text of a primitive type. -/
structure PlainName (name : String) : Prop where
  alphanumeric : Alphanumeric name
  differs : ∀ kind, name ≠ kindText kind

structure PlainContext (used : List String) (context : String) : Prop where
  alphanumeric : Alphanumeric context
  taken : ∀ kind, context = kindText kind → context ∈ used
  differs : ∀ kind, context ≠ pluralText kind

/-! Suffixes. -/

theorem alphanumeric_toString (n : Nat) : Alphanumeric (toString n) := by
  intro c here
  rw [Nat.toString_eq_ofList_toDigits, String.toList_ofList] at here
  rw [Char.isAlphanum, Nat.isDigit_of_mem_toDigits (by decide) (by decide) here, Bool.or_true]

theorem append_toString_ne {text : String} (letters : text.toList.any Char.isDigit = false)
    (base : String) (n : Nat) : base ++ toString n ≠ text := by
  intro equal
  obtain ⟨c, rest, digits⟩ := List.exists_cons_of_ne_nil (Nat.toDigits_ne_nil (n := n) (b := 10))
  have here : c ∈ Nat.toDigits 10 n := digits ▸ List.mem_cons_self
  have inside : c ∈ text.toList := by
    rw [← equal, String.toList_append, Nat.toString_eq_ofList_toDigits, String.toList_ofList]
    exact List.mem_append_right _ here
  have digit := Nat.isDigit_of_mem_toDigits (by decide) (by decide) here
  exact absurd digit (List.any_eq_false.mp letters c inside)

namespace PlainContext

variable {used later : List String} {context : String}

theorem mono (plain : PlainContext used context) (grown : ∀ name ∈ used, name ∈ later) :
    PlainContext later context :=
  ⟨plain.alphanumeric, fun kind text => grown _ (plain.taken kind text), plain.differs⟩

theorem plainName {limit : Nat} {name : String} (plain : PlainContext used context)
    (unique : uniqueName limit used context = .ok name) : PlainName name := by
  have chosen := chosen_of_uniqueName unique
  rcases chosen.cases with ⟨rfl, _⟩ | ⟨n, rfl⟩
  · exact ⟨plain.alphanumeric, fun kind text => chosen.not_mem (plain.taken kind text)⟩
  · exact ⟨plain.alphanumeric.append (alphanumeric_toString n),
      fun kind => append_toString_ne (by cases kind <;> rfl) context n⟩

theorem element (plain : PlainContext used context) : PlainContext later (elementTypeName context) :=
  ⟨plain.alphanumeric.elementTypeName,
    fun kind text => absurd (eq_pluralText_of_elementTypeName text) (plain.differs kind),
    elementTypeName_ne_pluralText context⟩

theorem field (name : Str) : PlainContext used (typeNameOf name) :=
  ⟨alphanumeric_typeNameOf name, fun kind text => absurd text (typeNameOf_ne_kindText name kind),
    typeNameOf_ne_pluralText name⟩

end PlainContext

theorem namingRule_plain (rootName : String) (object : Prop) :
    NamingRule (fun name => PlainName name ∨ object ∧ name = rootName) PlainContext where
  unique plain unique := Or.inl (plain.plainName unique)
  mono := PlainContext.mono
  element := PlainContext.element
  field _ := PlainContext.field

theorem plainName_of_ofShape {limit : Nat} {s : Shape} {rootName : String} {g : Graph}
    (alphanumeric : Alphanumeric rootName) (differs : ∀ kind, rootName ≠ pluralText kind)
    (ran : Graph.ofShape limit s rootName = .ok g) {name : String} (here : name ∈ Entries.keys g.table) :
    PlainName name ∨ s.isObject = true ∧ name = rootName := by
  have rule := namingRule_plain rootName (s.isObject = true)
  apply name_of_ofShape rule (fun object => Or.inr ⟨object, rfl⟩) _ ran name here
  exact fun _ => ⟨alphanumeric, fun _ _ => List.mem_singleton.mpr rfl, differs⟩

end SampleTypes
