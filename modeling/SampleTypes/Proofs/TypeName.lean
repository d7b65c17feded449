import Mathlib
import SampleTypes.Proofs.Text.Characters
import SampleTypes.TypeName
import SampleTypes.TypeScript.Expression

/-! Which names can be the text of a primitive type. Those of fields cannot, because they begin with a
capital letter, and of an array only one called by the plural of the text has elements of that name. -/

namespace SampleTypes

open TypeScript (kindText)

def Alphanumeric (name : String) : Prop := ∀ c ∈ name.toList, c.isAlphanum = true

/-- The name of an array whose elements are called like a primitive type. -/
def pluralText (kind : Kind) : String := kindText kind ++ "s"

theorem alphanumeric_of_all {name : String} (all : name.toList.all Char.isAlphanum = true) :
    Alphanumeric name :=
  List.all_eq_true.mp all

theorem Alphanumeric.lacks {name : String} (plain : Alphanumeric name) {c : Char}
    (foreign : c.isAlphanum = false) : Lacks c name := by
  intro inside
  rw [plain c (Points.mem_ofString.mp inside)] at foreign
  cases foreign

theorem Alphanumeric.append {first second : String} (left : Alphanumeric first)
    (right : Alphanumeric second) : Alphanumeric (first ++ second) := by
  intro c here
  rw [String.toList_append, List.mem_append] at here
  exact here.elim (left c) (right c)

/-! The elements of arrays. -/

theorem getLast?_of_suffix {ending name : List Char} {c : Char} (last : ending.getLast? = some c)
    (ends : ending.isSuffixOf name = true) : name.getLast? = some c := by
  obtain ⟨start, rfl⟩ := List.isSuffixOf_iff_suffix.mp ends
  rw [List.getLast?_append, last]
  rfl

inductive ElementEnding (name element : List Char) : Prop where
  | ies (start : List Char) (spelled : element = start ++ ['y'])
  | plural (spelled : name = element ++ ['s']) (single : element.getLast? ≠ some 's')
  | word (last : element.getLast? = some 't')

theorem singularChars_cases (name : List Char) :
    ElementEnding name (singularChars name) ∨ singularChars name = name := by
  unfold singularChars
  simp only
  split
  · exact Or.inl (.ies _ rfl)
  · split
    · rename_i plural
      left
      simp only [Bool.and_eq_true, Bool.not_eq_true', Bool.or_eq_false_iff] at plural
      obtain ⟨⟨_, ends⟩, ⟨no_ss, _⟩, _⟩ := plural
      obtain ⟨start, rfl⟩ := List.isSuffixOf_iff_suffix.mp ends
      have dropped : (start ++ "s".toList).dropLast = start := List.dropLast_concat
      rw [dropped]
      refine .plural rfl ?_
      intro last
      obtain ⟨front, rfl⟩ := List.getLast?_eq_some_iff.mp last
      rw [Bool.eq_false_iff] at no_ss
      apply no_ss
      rw [List.isSuffixOf_iff_suffix]
      exact ⟨front, by simp⟩
    · exact Or.inr rfl

theorem elementEnding (name : String) : ElementEnding name.toList (elementTypeName name).toList := by
  have singular_chars : (singular name).toList = singularChars name.toList := String.toList_ofList
  unfold elementTypeName
  simp only
  split
  · rename_i kept
    rw [singular_chars]
    rcases singularChars_cases name.toList with ending | same
    · exact ending
    · rw [same]
      have whole : singular name = name := String.toList_injective (singular_chars.trans same)
      rw [whole, bne_self_eq_false, Bool.false_or] at kept
      exact .word (getLast?_of_suffix rfl kept)
  · refine .word ?_
    rw [String.toList_append]
    exact getLast?_of_suffix rfl (List.isSuffixOf_iff_suffix.mpr (List.suffix_append _ _))

theorem eq_pluralText_of_elementTypeName {name : String} {kind : Kind}
    (text : elementTypeName name = kindText kind) : name = pluralText kind := by
  rcases elementEnding name with ⟨start, spelled⟩ | ⟨spelled, _⟩ | last
  · rw [text] at spelled
    have last := congrArg List.getLast? spelled
    rw [List.getLast?_concat] at last
    cases kind <;> cases last
  · apply String.toList_injective
    rw [spelled, text, pluralText, String.toList_append]
    rfl
  · rw [text] at last
    cases kind <;> cases last

theorem elementTypeName_ne_pluralText (name : String) (kind : Kind) :
    elementTypeName name ≠ pluralText kind := by
  intro plural
  have ending : (elementTypeName name).toList.getLast? = some 's' := by
    rw [plural, pluralText, String.toList_append]
    exact List.getLast?_concat
  rcases elementEnding name with ⟨start, spelled⟩ | ⟨_, single⟩ | last
  · rw [spelled, List.getLast?_concat] at ending
    cases ending
  · exact single ending
  · rw [last] at ending
    cases ending

theorem mem_singularChars {name : List Char} {c : Char} (here : c ∈ singularChars name) :
    c ∈ name ∨ c = 'y' := by
  unfold singularChars at here
  simp only at here
  split at here
  · rcases List.mem_append.mp here with old | new
    · exact Or.inl (List.mem_of_mem_take old)
    · exact Or.inr (List.mem_singleton.mp new)
  · split at here
    · exact Or.inl (List.mem_of_mem_dropLast here)
    · exact Or.inl here

theorem mem_elementTypeName {name : String} {c : Char} (here : c ∈ (elementTypeName name).toList) :
    c ∈ name.toList ∨ c.isAlphanum = true := by
  have element : ∀ {c}, c ∈ (singular name).toList → c ∈ name.toList ∨ c.isAlphanum = true := by
    intro c here
    rw [singular, String.toList_ofList] at here
    rcases mem_singularChars here with old | rfl
    · exact Or.inl old
    · exact Or.inr rfl
  unfold elementTypeName at here
  simp only at here
  split at here
  · exact element here
  · rw [String.toList_append, List.mem_append] at here
    exact here.imp_right (List.all_eq_true.mp rfl c)

theorem Alphanumeric.elementTypeName {name : String} (plain : Alphanumeric name) :
    Alphanumeric (elementTypeName name) := by
  intro c here
  rcases mem_elementTypeName here with old | new
  · exact plain c old
  · exact new

/-! Names made from keys. -/

theorem isAlphanum_toUpper {c : Char} (alphanumeric : c.isAlphanum = true) :
    c.toUpper.isAlphanum = true := by
  cases lower : c.isLower with
  | true =>
    rw [Char.isAlphanum, Char.isAlpha_toUpper_eq_isAlpha, Char.isAlpha, lower, Bool.or_true, Bool.true_or]
  | false =>
    rw [Char.toUpper_eq_of_not_isLower (Bool.eq_false_iff.mp lower)]
    exact alphanumeric

theorem isAlphanum_of_mem_joinWords {atStart : Bool} {text : Points} {c : Char}
    (here : c ∈ joinWords atStart text) : c.isAlphanum = true := by
  induction text generalizing atStart with
  | nil => cases here
  | cons p rest ih =>
    cases p with
    | surrogate offset => exact ih here
    | char d =>
      rw [joinWords] at here
      split at here
      · rename_i alphanumeric
        rcases List.mem_cons.mp here with rfl | later
        · split
          · exact isAlphanum_toUpper alphanumeric
          · exact alphanumeric
        · exact ih later
      · exact ih here

theorem head_joinWords {text : Points} {c : Char} (head : (joinWords true text).head? = some c) :
    c.isLower = false := by
  induction text with
  | nil => cases head
  | cons p rest ih =>
    cases p with
    | surrogate offset => exact ih head
    | char d =>
      rw [joinWords] at head
      split at head
      · cases head
        exact Char.isLower_toUpper_eq_false d
      · exact ih head

theorem alphanumeric_typeNameOf (name : Str) : Alphanumeric (typeNameOf name) := by
  have joined : Alphanumeric (String.ofList (joinWords true name.points)) := by
    intro c here
    rw [String.toList_ofList] at here
    exact isAlphanum_of_mem_joinWords here
  unfold typeNameOf
  simp only
  split
  · exact joined
  · exact Alphanumeric.append (alphanumeric_of_all rfl) joined

theorem head_typeNameOf {name : Str} {c : Char} (head : (typeNameOf name).toList.head? = some c) :
    c.isLower = false := by
  unfold typeNameOf at head
  simp only at head
  split at head
  · rw [String.toList_ofList] at head
    exact head_joinWords head
  · rw [String.toList_append] at head
    cases head
    rfl

theorem typeNameOf_ne {name : Str} {text : String} {c : Char} (head : text.toList.head? = some c)
    (lower : c.isLower = true) : typeNameOf name ≠ text := by
  rintro rfl
  rw [head_typeNameOf head] at lower
  cases lower

theorem typeNameOf_ne_kindText (name : Str) (kind : Kind) : typeNameOf name ≠ kindText kind := by
  cases kind <;> exact typeNameOf_ne rfl rfl

theorem typeNameOf_ne_pluralText (name : Str) (kind : Kind) : typeNameOf name ≠ pluralText kind := by
  cases kind <;> exact typeNameOf_ne rfl rfl

/-! Names that begin with a letter. -/

/-- An ASCII letter, and then ASCII letters and digits. -/
structure LegalName (name : String) : Prop where
  letter : ∃ c, name.toList.head? = some c ∧ c.isAlpha = true
  alphanumeric : Alphanumeric name

theorem LegalName.append {first second : String} (legal : LegalName first)
    (alphanumeric : Alphanumeric second) : LegalName (first ++ second) := by
  obtain ⟨c, head, letter⟩ := legal.letter
  refine ⟨⟨c, ?_, letter⟩, legal.alphanumeric.append alphanumeric⟩
  rw [String.toList_append, List.head?_append, head]
  rfl

theorem head_singularChars (c : Char) (rest : List Char) :
    (singularChars (c :: rest)).head? = some c := by
  unfold singularChars
  simp only
  split
  · rename_i plural
    rw [Bool.and_eq_true, decide_eq_true_eq] at plural
    obtain ⟨n, length⟩ : ∃ n, (c :: rest).length - 3 = n + 1 := ⟨_, (Nat.succ_pred (by omega)).symm⟩
    rw [length]
    rfl
  · split
    · rename_i plural
      simp only [Bool.and_eq_true, decide_eq_true_eq] at plural
      rw [List.dropLast_cons_of_ne_nil (List.ne_nil_of_length_pos (by simpa using plural.1.1))]
      rfl
    · rfl

theorem LegalName.elementTypeName {name : String} (legal : LegalName name) :
    LegalName (elementTypeName name) := by
  refine ⟨?_, legal.alphanumeric.elementTypeName⟩
  obtain ⟨c, head, letter⟩ := legal.letter
  obtain ⟨rest, spelled⟩ := List.head?_eq_some_iff.mp head
  unfold SampleTypes.elementTypeName
  simp only
  split
  · refine ⟨c, ?_, letter⟩
    rw [singular, String.toList_ofList, spelled, head_singularChars]
  · exact (legal.append (alphanumeric_of_all rfl)).letter

theorem legalName_typeNameOf (name : Str) : LegalName (typeNameOf name) := by
  refine ⟨?_, alphanumeric_typeNameOf name⟩
  unfold typeNameOf
  simp only
  split
  · rename_i start
    rw [String.toList_ofList]
    cases joined : joinWords true name.points with
    | nil =>
      rw [joined] at start
      cases start
    | cons c rest =>
      have alphanumeric : c.isAlphanum = true :=
        isAlphanum_of_mem_joinWords (joined ▸ List.mem_cons_self)
      rw [joined, startsWithLetter, Bool.not_eq_true'] at start
      rw [Char.isAlphanum, start, Bool.or_false] at alphanumeric
      exact ⟨c, rfl, alphanumeric⟩
  · rw [String.toList_append]
    exact ⟨'T', rfl, rfl⟩

end SampleTypes
