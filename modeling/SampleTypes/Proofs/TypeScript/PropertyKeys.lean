import SampleTypes.Json.Reader
import SampleTypes.Proofs.Json.Quoting
import SampleTypes.TypeScript.Property

/-! Property keys read back. A name stands as it is if it is an identifier, up to a line feed at its
end, and otherwise as a literal that is read as the name, so no two names have one key. -/

namespace SampleTypes

namespace Json

theorem space_le_hexDigit {n : Nat} (small : n < 16) : ' ' ≤ Text.hexDigit n := by
  revert n
  decide

theorem space_le_of_mem_hexFixed {width n : Nat} {c : Char} (here : c ∈ Text.hexFixed width n) :
    ' ' ≤ c := by
  induction width generalizing n with
  | zero => cases here
  | succ width ih =>
    rw [Text.hexFixed, List.mem_append, List.mem_singleton] at here
    rcases here with higher | rfl
    · exact ih higher
    · exact space_le_hexDigit (Nat.mod_lt n (by decide))

theorem space_le_of_mem_unicodeEscape {c d : Char} (here : d ∈ unicodeEscape c) : ' ' ≤ d := by
  have unit : ∀ {n : Nat}, d ∈ '\\' :: 'u' :: Text.hexFixed 4 n → ' ' ≤ d := by
    intro n inside
    rw [List.mem_cons, List.mem_cons] at inside
    rcases inside with rfl | rfl | digit
    · decide
    · decide
    · exact space_le_of_mem_hexFixed digit
  unfold unicodeEscape at here
  simp only at here
  split at here
  · exact unit here
  · exact (List.mem_append.mp here).elim unit unit

theorem space_le_of_mem_escapeChar {charset : Charset} {c d : Char}
    (here : d ∈ escapeChar charset c) : ' ' ≤ d := by
  unfold escapeChar at here
  split at here
  case h_8 =>
    cases charset <;> simp only at here <;> split at here
    · rename_i plain
      rw [List.mem_singleton.mp here]
      exact of_decide_eq_true (Bool.and_eq_true_iff.mp plain).1
    · exact space_le_of_mem_unicodeEscape here
    · rename_i plain
      rw [List.mem_singleton.mp here]
      exact of_decide_eq_true plain
    · exact space_le_of_mem_unicodeEscape here
  all_goals
    rw [List.mem_cons, List.mem_singleton] at here
    obtain rfl | rfl := here <;> decide

theorem escapeChar_ne_nil (charset : Charset) (c : Char) : escapeChar charset c ≠ [] := by
  unfold escapeChar unicodeEscape
  split
  case h_8 => cases charset <;> simp only <;> split_ifs <;> exact List.cons_ne_nil _ _
  all_goals exact List.cons_ne_nil _ _

theorem rawPoint_ne_nil (p : Point) : rawPoint p ≠ [] := by
  cases p with
  | char c => simpa [rawPoint] using escapeChar_ne_nil .unicode c
  | surrogate offset => exact List.cons_ne_nil _ _

theorem length_lt_quotePoints (text : Points) : text.length < (quotePoints text).length := by
  have each : text.length ≤ (text.flatMap rawPoint).length := by
    induction text with
    | nil => exact Nat.le_refl _
    | cons p rest ih =>
      have one := List.length_pos_iff.mpr (rawPoint_ne_nil p)
      rw [List.flatMap_cons, List.length_append, List.length_cons]
      omega
  rw [quotePoints, List.cons_append, List.length_cons, List.length_append]
  omega

theorem space_le_of_mem_quotePoints {text : Points} {c : Char} (here : .char c ∈ quotePoints text) :
    ' ' ≤ c := by
  rw [quotePoints, List.cons_append, List.mem_cons, List.mem_append, List.mem_singleton] at here
  rcases here with quote | inside | quote
  · cases quote
    decide
  · obtain ⟨p, _, escaped⟩ := List.mem_flatMap.mp inside
    cases p with
    | char d =>
      obtain ⟨_, part, same⟩ := List.mem_map.mp escaped
      cases same
      exact space_le_of_mem_escapeChar part
    | surrogate offset => cases List.mem_singleton.mp escaped
  · cases quote
    decide

theorem quotePoints_ofString (text : String) :
    quotePoints text = (String.ofList (quoteChars .unicode text) : Points) := by
  simp [quotePoints, quoteChars, Points.ofString, rawPoint, escapePoint, List.flatMap_map, List.map_flatMap]

theorem read_quoteChars (charset : Charset) (text : Str) :
    read (quoteChars charset text.points) = .ok (.string text) := by
  obtain ⟨opened, spelled, scanned⟩ := scan_quoteChars charset text []
  have tokens : lex ('"' :: opened) = [.string text] := by
    rw [lex, if_neg (by decide), scanned, lex]
  rw [List.append_nil] at spelled
  have unmarked : ('"' :: opened).head? ≠ some byteOrderMark := by
    rw [List.head?_cons]
    decide
  rw [spelled, read, if_neg unmarked, tokens]
  rfl

def spelledPoint : Point → List Char
  | .char c => [c]
  | .surrogate offset => unitEscape (0xD800 + offset)

/-- The characters of a text, in which a surrogate stands as its escape. Between quotes both are read alike. -/
def spelled (text : Points) : List Char := text.flatMap spelledPoint

@[simp]
theorem spelled_append (first second : Points) : spelled (first ++ second) = spelled first ++ spelled second :=
  List.flatMap_append

@[simp]
theorem spelled_chars (chars : List Char) : spelled (chars.map .char) = chars := by
  simp [spelled, List.flatMap_map, spelledPoint]

@[simp]
theorem spelled_ofString (text : String) : spelled text = text.toList := spelled_chars text.toList

theorem spelled_quotePoints (text : Points) : spelled (quotePoints text) = quoteChars .unicode text := by
  have each : ∀ p, spelled (rawPoint p) = escapePoint .unicode p
    | .char c => spelled_chars _
    | .surrogate offset => List.append_nil _
  have inside : spelled (text.flatMap rawPoint) = text.flatMap (escapePoint .unicode) := by
    rw [spelled, List.flatMap_assoc]
    exact congrArg text.flatMap (funext each)
  rw [quotePoints, spelled_append, quoteChars]
  exact congrArg (fun chars => '"' :: chars ++ ['"']) inside

end Json

namespace TypeScript

def Identifier (text : List Char) : Prop :=
  ∃ c rest, text = c :: rest ∧ isIdentifierStart c = true ∧ ∀ d ∈ rest, isIdentifierPart d = true

/-- A quoted string without line ends, or other control characters, that is read as the name. -/
structure Literal (text name : String) : Prop where
  quoted : ∃ inner, text.toList = '"' :: inner ++ ['"']
  line : ∀ c ∈ text.toList, ' ' ≤ c
  read : Json.read text.toList = .ok (.string name)

theorem isIdentifier_iff {name : String} :
    isIdentifier name = true ↔ Identifier (beforeFinalLineFeed name.toList) := by
  unfold isIdentifier isWord Identifier
  cases beforeFinalLineFeed name.toList with
  | nil => simp
  | cons c rest =>
    rw [Bool.and_eq_true, List.all_eq_true]
    constructor
    · exact fun both => ⟨c, rest, rfl, both⟩
    · rintro ⟨_, _, same, both⟩
      cases same
      exact both

theorem literal_quote (name : String) : Literal (String.ofList (Json.quoteChars .unicode name)) name where
  quoted := ⟨_, String.toList_ofList⟩
  line c here := by
    have inside : .char c ∈ Json.quotePoints name := by
      rw [Json.quotePoints_ofString]
      exact Points.mem_ofString.mpr here
    exact Json.space_le_of_mem_quotePoints inside
  read := by
    rw [String.toList_ofList]
    exact Json.read_quoteChars .unicode name

/-! A name is a word if it is an identifier that stands as it is. -/

section Words

variable {name other : Str}

def isWordName (name : Str) : Bool := name.string?.any isIdentifier

theorem isWordName_ofString (name : String) : isWordName name = isIdentifier name := by
  rw [isWordName, Str.string?_ofString, Option.any_some]

theorem exists_of_isWordName (word : isWordName name = true) :
    ∃ text : String, name = text ∧ isIdentifier text = true := by
  obtain ⟨text, found, identifier⟩ := (Option.any_eq_true _ _).mp word
  exact ⟨text, Str.string?_eq_some.mp found, identifier⟩

theorem propertyKey_of_word (word : isWordName name = true) : propertyKey name = name.points := if_pos word

theorem propertyKey_of_other (quoted : isWordName name = false) :
    propertyKey name = Json.quotePoints name.points := if_neg (Bool.eq_false_iff.mp quoted)

theorem isWordName_of_propertyKey (kept : propertyKey name = name.points) : isWordName name = true := by
  cases word : isWordName name with
  | true => rfl
  | false =>
    have longer := Json.length_lt_quotePoints name.points
    rw [← propertyKey_of_other word, kept] at longer
    exact absurd longer (Nat.lt_irrefl _)

theorem propertyKey_ne_of_word (word : isWordName name = true) (quoted : isWordName other = false) :
    propertyKey name ≠ propertyKey other := by
  obtain ⟨text, rfl, identifier⟩ := exists_of_isWordName word
  rw [propertyKey_of_word word, propertyKey_of_other quoted]
  intro equal
  obtain ⟨c, rest, spelled, start, _⟩ := isIdentifier_iff.mp identifier
  have opened : text.toList = '"' :: (Json.quoteChars .unicode other.points).tail := by
    rw [← Json.spelled_ofString text]
    exact (congrArg Json.spelled equal).trans (Json.spelled_quotePoints other.points)
  have head : (beforeFinalLineFeed text.toList).head? = some '"' := by
    rw [opened, beforeFinalLineFeed]
    split
    · rename_i final
      rw [Json.quoteChars, List.cons_append, List.tail_cons, ← List.cons_append,
        List.getLast?_concat] at final
      cases final
    · rfl
  rw [spelled] at head
  cases head
  cases start

theorem propertyKey_injective : Function.Injective propertyKey := by
  intro name other equal
  cases word : isWordName name with
  | true =>
    cases second : isWordName other with
    | true =>
      rw [propertyKey_of_word word, propertyKey_of_word second] at equal
      exact Str.ext equal
    | false => exact absurd equal (propertyKey_ne_of_word word second)
  | false =>
    cases second : isWordName other with
    | true => exact absurd equal.symm (propertyKey_ne_of_word second word)
    | false =>
      rw [propertyKey_of_other word, propertyKey_of_other second] at equal
      have texts := congrArg Json.spelled equal
      rw [Json.spelled_quotePoints, Json.spelled_quotePoints] at texts
      exact (Json.quoteChars_append_inj (congrArg (· ++ []) texts)).1

end Words

/-- The key of a name is the name itself exactly if it is an identifier, not counting a line feed at its
end, and a literal of the name otherwise. No two names have one key. -/
theorem propertyKey_readsBack (name : String) :
    (propertyKey name = name ↔ Identifier (beforeFinalLineFeed name.toList)) ∧
      (¬ Identifier (beforeFinalLineFeed name.toList) →
        ∃ text : String, propertyKey name = text ∧ Literal text name) ∧
      ∀ other, propertyKey other = propertyKey name → other = name := by
  rw [← isIdentifier_iff, ← isWordName_ofString]
  refine ⟨⟨isWordName_of_propertyKey, propertyKey_of_word⟩, ?_, fun other equal => propertyKey_injective equal⟩
  intro quoted
  refine ⟨_, ?_, literal_quote name⟩
  rw [propertyKey_of_other (Bool.not_eq_true _ ▸ quoted)]
  exact Json.quotePoints_ofString name

/-- A line feed at the end of an identifier is not quoted, and the key then spells another name's. -/
theorem propertyKey_of_lineFeed :
    ¬ Identifier "a\n".toList ∧ propertyKey "a\n" = "a\n" ∧
      propertyKey "a\n" = propertyKey "a" ++ ("\n" : Points) := by
  refine ⟨?_, by decide, by decide⟩
  rintro ⟨c, rest, spelled, _, inside⟩
  cases spelled
  exact absurd (inside '\n' (List.mem_singleton.mpr rfl)) (by decide)

end TypeScript

end SampleTypes
