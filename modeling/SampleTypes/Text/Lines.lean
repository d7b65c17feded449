/-!
Lines of a text. `splitLines` cuts at every line feed and keeps empty lines; `unifyNewlines` writes
each of the three line endings as one line feed.
-/

namespace SampleTypes.Text

def unifyNewlines : List Char → List Char
  | [] => []
  | '\r' :: '\n' :: rest => '\n' :: unifyNewlines rest
  | '\r' :: rest => '\n' :: unifyNewlines rest
  | c :: rest => c :: unifyNewlines rest

/-- Always at least one line, so a text of `n` line feeds has `n + 1` lines. -/
def splitLines : List Char → List (List Char)
  | [] => [[]]
  | c :: rest =>
    if c = '\n' then [] :: splitLines rest
    else match splitLines rest with
      | [] => [[c]]
      | line :: lines => (c :: line) :: lines

def joinLines : List (List Char) → List Char
  | [] => []
  | [line] => line
  | line :: lines => line ++ '\n' :: joinLines lines

theorem splitLines_ne_nil (text : List Char) : splitLines text ≠ [] := by
  cases text with
  | nil => simp [splitLines]
  | cons c rest =>
    unfold splitLines
    split
    · simp
    · split <;> simp

theorem joinLines_cons_of_ne_nil (line : List Char) {lines : List (List Char)} (h : lines ≠ []) :
    joinLines (line :: lines) = line ++ '\n' :: joinLines lines := by
  cases lines with
  | nil => exact absurd rfl h
  | cons next rest => rfl

theorem joinLines_splitLines (text : List Char) : joinLines (splitLines text) = text := by
  induction text with
  | nil => rfl
  | cons c rest ih =>
    have nonempty := splitLines_ne_nil rest
    unfold splitLines
    split
    · rw [joinLines_cons_of_ne_nil [] nonempty, ih]
      simp_all
    · split
      · contradiction
      · rename_i line lines hs
        rw [hs] at ih
        cases lines with
        | nil => simpa [joinLines] using congrArg (c :: ·) ih
        | cons next lines => simpa [joinLines] using congrArg (c :: ·) ih

end SampleTypes.Text
