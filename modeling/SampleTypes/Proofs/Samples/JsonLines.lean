import SampleTypes.Proofs.Json.Documents
import SampleTypes.Proofs.Text.Trimming
import SampleTypes.Samples

/-! Documents on lines of their own. Two or more of them never make one document, so the samples of a text
of such lines are the documents. -/

namespace SampleTypes.Samples

/-- A document stands on every line that is not blank. -/
inductive Holds : List (List Char) → List Value → Prop where
  | nil : Holds [] []
  | blank {line : List Char} {lines : List (List Char)} {values : List Value} (blank : Text.Blank line)
      (rest : Holds lines values) : Holds (line :: lines) values
  | document {line : List Char} {lines : List (List Char)} {v : Value} {values : List Value}
      (read : Json.read line = .ok v) (rest : Holds lines values) : Holds (line :: lines) (v :: values)

variable {source : String} {line : List Char} {lines : List (List Char)} {values : List Value}

/-! The lines one by one. -/

theorem ofLines_blank (blank : Text.Blank line) (n : Nat) :
    ofLines source n (line :: lines) = ofLines source (n + 1) lines := by
  rw [ofLines, Text.trim_eq_nil.mpr blank]
  rfl

def lineError (source : String) (n : Nat) : Json.Fault → SamplesError
  | .malformed cause => .invalidJson source n cause
  | .integerTooLong digits => .integerTooLong digits

theorem ofLines_visible (visible : ¬Text.Blank line) (n : Nat) :
    ofLines source n (line :: lines) = do
      let v ← (Json.read (Text.trim line)).mapError (lineError source n)
      return v :: (← ofLines source (n + 1) lines) := by
  have text : ¬(Text.trim line).isEmpty = true := by
    rw [List.isEmpty_iff, Text.trim_eq_nil]
    exact visible
  rw [ofLines, if_neg text]
  cases Json.read (Text.trim line) with
  | ok v => rfl
  | error fault => cases fault <;> rfl

theorem ofLines_of_holds (holds : Holds lines values) (n : Nat) :
    ofLines source n lines = .ok values := by
  induction holds generalizing n with
  | nil => rfl
  | blank blank rest ih => rw [ofLines_blank blank, ih]
  | document read rest ih =>
    rw [ofLines_visible (Json.not_blank_of_read read), Json.read_trim read, ih]
    rfl

theorem ofLines_map_trim (n : Nat) (lines : List (List Char)) :
    ofLines source n (lines.map Text.trim) = ofLines source n lines := by
  induction lines generalizing n with
  | nil => rfl
  | cons line lines ih => rw [List.map_cons, ofLines, ofLines, Text.trim_trim, ih]

theorem ofLines_eq_ok (n : Nat) :
    ofLines source n lines = .ok values ↔ Holds (lines.map Text.trim) values := by
  constructor
  · intro read
    induction lines generalizing n values with
    | nil =>
      cases read
      exact .nil
    | cons line lines ih =>
      by_cases blank : Text.Blank line
      · rw [ofLines_blank blank] at read
        exact .blank (by rw [Text.trim_eq_nil.mpr blank]; exact List.forall_mem_nil _) (ih (n + 1) read)
      · rw [ofLines_visible blank] at read
        obtain ⟨v, document, read⟩ := eq_ok_of_bind read
        obtain ⟨others, rest, same⟩ := eq_ok_of_bind read
        cases same
        exact .document (mapError_eq_ok.mp document) (ih (n + 1) rest)
  · intro holds
    rw [← ofLines_map_trim]
    exact ofLines_of_holds holds n

/-! The whole text. -/

theorem ofLines_blanks_left (n m : Nat) (lines : List (List Char)) :
    ofLines source n (List.replicate m [] ++ lines) = ofLines source (n + m) lines := by
  induction m generalizing n with
  | zero => rfl
  | succ m ih =>
    rw [List.replicate_succ, List.cons_append, ofLines_blank (List.forall_mem_nil _), ih]
    congr 1
    omega

theorem ofLines_blanks_right (n m : Nat) (lines : List (List Char)) :
    ofLines source n (lines ++ List.replicate m []) = ofLines source n lines := by
  induction lines generalizing n with
  | nil =>
    rw [List.nil_append, ← List.append_nil (List.replicate m []), ofLines_blanks_left]
    rfl
  | cons line lines ih => rw [List.cons_append, ofLines, ofLines, ih]

/-- The lines of a trimmed text are read like those of the text, but for the number of the first of them. -/
theorem ofLines_trim (n : Nat) (content : List Char) :
    ofLines source (n + (Text.margin content).count '\n') (Text.splitLines (Text.trim content)) =
      ofLines source n (Text.splitLines content) := by
  obtain ⟨m, lines⟩ := Text.map_trim_splitLines content
  rw [← ofLines_map_trim n, lines, ofLines_blanks_right, ofLines_blanks_left, ofLines_map_trim]

theorem joinLines_of_holds (holds : Holds lines values) (more : values ≠ []) (line : List Char) :
    Text.joinLines (line :: lines) = (line ++ ['\n']) ++ Text.joinLines lines := by
  have nonempty : lines ≠ [] := by
    rintro rfl
    cases holds
    exact more rfl
  rw [Text.joinLines_cons_of_ne_nil line nonempty, List.append_assoc]
  rfl

theorem Holds.visible (holds : Holds lines values) (more : values ≠ []) :
    ¬Text.Blank (Text.joinLines lines) := by
  induction holds with
  | nil => exact absurd rfl more
  | blank _ rest ih =>
    rw [joinLines_of_holds rest more]
    exact fun blank => ih more (List.forall_mem_append.mp blank).2
  | @document line lines _ _ read rest _ =>
    have front : line <:+: Text.joinLines (line :: lines) := Text.infix_joinLines List.mem_cons_self
    exact fun blank => Json.not_blank_of_read read fun c here => blank c (front.subset here)

/-- Documents with line feeds between them are not one document. -/
theorem read_trim_joinLines (holds : Holds lines values) (several : 2 ≤ values.length) :
    Json.read (Text.trim (Text.joinLines lines)) = .error (.malformed .extraData) := by
  induction holds with
  | nil => exact absurd several (by decide)
  | @blank line lines _ blank rest ih =>
    have more := List.ne_nil_of_length_pos (Nat.lt_of_lt_of_le Nat.zero_lt_two several)
    have feed : Text.Blank ['\n'] := by decide
    rw [joinLines_of_holds rest more, Text.trim_append_left (blank.append feed)]
    exact ih several
  | @document line lines _ values read rest _ =>
    have more : values ≠ [] := List.ne_nil_of_length_pos (Nat.le_of_succ_le_succ several)
    -- The first line is a document already, and what comes after its line feed is too much.
    have visible := rest.visible more
    have trimmed : Text.trim (Text.joinLines (line :: lines)) =
        Text.trimLeft line ++ '\n' :: Text.trimRight (Text.joinLines lines) := by
      rw [joinLines_of_holds rest more, List.append_assoc, Text.trim,
        Text.trimLeft_append_of_visible (Json.not_blank_of_read read), ← List.append_assoc,
        Text.trimRight_append_of_visible _ visible, List.append_assoc]
      rfl
    rw [trimmed]
    refine Json.read_append (Json.read_trimLeft read) (.space _ rfl) fun blank => visible ?_
    obtain ⟨after, empty, whole⟩ := Text.exists_trimRight (Text.joinLines lines)
    rw [whole]
    exact Text.Blank.append (List.forall_mem_cons.mp blank).2 empty

/-- Two documents or more on lines of their own are the samples, blank lines or not, and a document that is
a list is one sample. -/
theorem parse_joinLines (source : String) (splitRootArray : Bool) {lines : List (List Char)}
    {values : List Value} (holds : Holds lines values) (free : ∀ line ∈ lines, '\n' ∉ line)
    (several : 2 ≤ values.length) :
    parse source splitRootArray (Text.joinLines lines) = .ok values := by
  have more : values ≠ [] := List.ne_nil_of_length_pos (Nat.lt_of_lt_of_le Nat.zero_lt_two several)
  have nonempty : lines ≠ [] := by
    rintro rfl
    cases holds
    exact more rfl
  have text : ¬(Text.trim (Text.joinLines lines)).isEmpty = true := by
    rw [List.isEmpty_iff, Text.trim_eq_nil]
    exact holds.visible more
  have each : ofLines source 0 (Text.splitLines (Text.joinLines lines)) = .ok values := by
    rw [Text.splitLines_joinLines free nonempty]
    exact ofLines_of_holds holds 0
  rw [← ofLines_trim, ofLines_eq_ok] at each
  rw [parse, if_neg text, read_trim_joinLines holds several]
  exact (ofLines_eq_ok 1).mpr each

/-- A list, a string and a number without a value, with blank lines around them: the last of those has a
character that is no space of JSON. -/
theorem parse_joinLines_of_blanks :
    parse "<input>" true (Text.joinLines
        ["".toList, " [1, 2]".toList, "\t".toList, "\"x\"\r".toList, "NaN".toList, ['\u00A0']]) =
      .ok [.list [.int 1, .int 2], .string "x", .float .nan] :=
  have list : Json.read " [1, 2]".toList = .ok (.list [.int 1, .int 2]) := by with_unfolding_all rfl
  have string : Json.read "\"x\"\r".toList = .ok (.string "x") := by with_unfolding_all rfl
  have number : Json.read "NaN".toList = .ok (.float .nan) := by with_unfolding_all rfl
  parse_joinLines "<input>" true
    (.blank (by decide) (.document list (.blank (by decide) (.document string (.document number
      (.blank (by decide) .nil))))))
    (by decide) (by decide)

end SampleTypes.Samples
