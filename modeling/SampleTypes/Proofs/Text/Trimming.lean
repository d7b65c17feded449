import Mathlib.Data.List.TakeWhile
import SampleTypes.Proofs.Text.Lines

/-! Trimming. Blanks at an end of a text can be added or left out without a change of the trimmed text, and
trimming drops nothing else. -/

namespace SampleTypes.Text

def Blank (text : List Char) : Prop := ∀ c ∈ text, isBlank c = true

instance (text : List Char) : Decidable (Blank text) :=
  List.decidableBAll (fun c => isBlank c = true) text

section Parts

variable {before text after : List Char}

theorem Blank.append (first : Blank before) (second : Blank after) : Blank (before ++ after) :=
  List.forall_mem_append.mpr ⟨first, second⟩

/-! One end. -/

theorem trimLeft_eq_nil : trimLeft text = [] ↔ Blank text := List.dropWhile_eq_nil_iff

theorem trimRight_eq_nil : trimRight text = [] ↔ Blank text := by
  rw [trimRight, List.reverse_eq_nil_iff, List.dropWhile_eq_nil_iff]
  exact forall_congr' fun c => by rw [List.mem_reverse]

def margin (text : List Char) : List Char := text.takeWhile isBlank

theorem blank_margin (text : List Char) : Blank (margin text) := List.all_eq_true.mp List.all_takeWhile

theorem margin_append_trimLeft (text : List Char) : margin text ++ trimLeft text = text :=
  List.takeWhile_append_dropWhile

theorem exists_trimRight (text : List Char) : ∃ after, Blank after ∧ text = trimRight text ++ after := by
  refine ⟨(margin text.reverse).reverse, ?_, ?_⟩
  · exact fun c here => blank_margin text.reverse c (List.mem_reverse.mp here)
  · calc text = text.reverse.reverse := (List.reverse_reverse text).symm
      _ = (margin text.reverse ++ trimLeft text.reverse).reverse := by rw [margin_append_trimLeft]
      _ = trimRight text ++ (margin text.reverse).reverse := List.reverse_append

theorem trimLeft_append_of_blank (blank : Blank before) (text : List Char) :
    trimLeft (before ++ text) = trimLeft text :=
  List.dropWhile_append_of_pos blank

theorem trimLeft_append_of_visible (visible : ¬Blank before) (text : List Char) :
    trimLeft (before ++ text) = trimLeft before ++ text := by
  rw [← trimLeft_eq_nil, ← List.isEmpty_iff] at visible
  rw [trimLeft, List.dropWhile_append]
  exact if_neg visible

theorem trimRight_append_of_blank (text : List Char) (blank : Blank after) :
    trimRight (text ++ after) = trimRight text := by
  have turned : Blank after.reverse := fun c here => blank c (List.mem_reverse.mp here)
  rw [trimRight, List.reverse_append, ← trimLeft, trimLeft_append_of_blank turned]
  rfl

theorem trimRight_append_of_visible (text : List Char) (visible : ¬Blank after) :
    trimRight (text ++ after) = text ++ trimRight after := by
  have turned : ¬Blank after.reverse :=
    fun blank => visible fun c here => blank c (List.mem_reverse.mpr here)
  rw [trimRight, List.reverse_append, ← trimLeft, trimLeft_append_of_visible turned, List.reverse_append,
    List.reverse_reverse]
  rfl

/-! Both ends. -/

theorem exists_trim (text : List Char) :
    ∃ after, Blank after ∧ text = margin text ++ (trim text ++ after) := by
  obtain ⟨after, blank, right⟩ := exists_trimRight (trimLeft text)
  refine ⟨after, blank, ?_⟩
  calc text = margin text ++ trimLeft text := (margin_append_trimLeft text).symm
    _ = margin text ++ (trim text ++ after) := congrArg (margin text ++ ·) right

theorem trim_append_left (blank : Blank before) (text : List Char) : trim (before ++ text) = trim text := by
  rw [trim, trimLeft_append_of_blank blank, trim]

theorem trim_append_right (text : List Char) (blank : Blank after) : trim (text ++ after) = trim text := by
  rw [trim, trim]
  by_cases hidden : Blank text
  · rw [trimLeft_eq_nil.mpr hidden, trimLeft_eq_nil.mpr (hidden.append blank)]
  · rw [trimLeft_append_of_visible hidden, trimRight_append_of_blank _ blank]

theorem trim_eq_nil : trim text = [] ↔ Blank text := by
  constructor
  · intro nothing
    obtain ⟨after, blank, whole⟩ := exists_trim text
    rw [whole, nothing]
    exact (blank_margin text).append blank
  · intro blank
    have nothing := trim_append_left blank []
    rwa [List.append_nil] at nothing

theorem trim_trim (text : List Char) : trim (trim text) = trim text := by
  obtain ⟨after, blank, whole⟩ := exists_trim text
  calc trim (trim text) = trim (trim text ++ after) := (trim_append_right _ blank).symm
    _ = trim (margin text ++ (trim text ++ after)) := (trim_append_left (blank_margin text) _).symm
    _ = trim text := by rw [← whole]

end Parts

/-! Lines. -/

section Lines

variable {first last text line : List Char} {before after lines : List (List Char)}

theorem splitLines_lineFeed (text : List Char) : splitLines ('\n' :: text) = [] :: splitLines text := if_pos rfl

theorem splitLines_of_inside {c : Char} (inside : c ≠ '\n') (split : splitLines text = line :: lines) :
    splitLines (c :: text) = (c :: line) :: lines := by
  rw [splitLines, if_neg inside, split]

/-- The last line of a text and the first one of the text after it make one line. -/
theorem splitLines_append (ends : splitLines first = before ++ [line])
    (begins : splitLines last = text :: after) :
    splitLines (first ++ last) = before ++ (line ++ text) :: after := by
  induction first generalizing before line with
  | nil =>
    cases before with
    | nil =>
      cases ends
      exact begins
    | cons start before => simp [splitLines] at ends
  | cons c rest ih =>
    by_cases feed : c = '\n'
    · subst feed
      rw [splitLines_lineFeed] at ends
      cases before with
      | nil => exact absurd (List.cons.inj ends).2 (splitLines_ne_nil rest)
      | cons start before =>
        obtain ⟨rfl, others⟩ := List.cons.inj ends
        rw [List.cons_append, splitLines_lineFeed, ih others, List.cons_append]
    · obtain ⟨start, others, split⟩ := List.exists_cons_of_ne_nil (splitLines_ne_nil rest)
      rw [splitLines_of_inside feed split] at ends
      cases before with
      | nil =>
        cases ends
        have joined : splitLines (rest ++ last) = [] ++ (start ++ text) :: after := ih split
        rw [List.cons_append, splitLines_of_inside feed joined]
        rfl
      | cons first before =>
        obtain ⟨rfl, rfl⟩ := List.cons.inj ends
        have joined : splitLines (rest ++ last) = (start :: before) ++ (line ++ text) :: after := ih split
        rw [List.cons_append, splitLines_of_inside feed joined]
        rfl

theorem exists_last_line (text : List Char) : ∃ before line, splitLines text = before ++ [line] := by
  obtain nothing | ⟨before, line, ends⟩ := List.eq_nil_or_concat (splitLines text)
  · exact absurd nothing (splitLines_ne_nil text)
  · exact ⟨before, line, ends.trans (List.concat_eq_append)⟩

theorem length_splitLines (text : List Char) : (splitLines text).length = text.count '\n' + 1 := by
  induction text with
  | nil => rfl
  | cons c rest ih =>
    by_cases feed : c = '\n'
    · rw [feed, splitLines_lineFeed, List.length_cons, ih, List.count_cons_self]
    · obtain ⟨start, others, split⟩ := List.exists_cons_of_ne_nil (splitLines_ne_nil rest)
      rw [split] at ih
      rw [splitLines_of_inside feed split, List.count_cons_of_ne feed, ← ih]
      rfl

theorem splitLines_joinLines (each : ∀ line ∈ lines, '\n' ∉ line) (nonempty : lines ≠ []) :
    splitLines (joinLines lines) = lines := by
  have single : ∀ line : List Char, '\n' ∉ line → splitLines line = [line] := by
    intro line free
    rw [splitLines_eq_splitOn, List.splitOn_eq_singleton free]
  induction lines with
  | nil => exact absurd rfl nonempty
  | cons line others ih =>
    rw [List.forall_mem_cons] at each
    cases others with
    | nil => exact single line each.1
    | cons next later =>
      have begins : splitLines ('\n' :: joinLines (next :: later)) = [] :: next :: later := by
        rw [splitLines_lineFeed, ih each.2 (List.cons_ne_nil next later)]
      have ends : splitLines line = [] ++ [line] := single line each.1
      rw [joinLines_cons_of_ne_nil line (List.cons_ne_nil next later), splitLines_append ends begins,
        List.append_nil]
      rfl

theorem map_trim_of_blank (blank : ∀ line ∈ lines, Blank line) :
    lines.map trim = List.replicate lines.length [] :=
  List.map_eq_replicate_iff.mpr fun line here => trim_eq_nil.mpr (blank line here)

theorem Blank.splitLines (blank : Blank text) : ∀ line ∈ splitLines text, Blank line :=
  fun _ inside c here => blank c ((infix_of_mem_splitLines inside).subset here)

theorem map_trim_splitLines_left (blank : Blank first) (last : List Char) :
    (splitLines (first ++ last)).map trim =
      List.replicate (first.count '\n') [] ++ (splitLines last).map trim := by
  obtain ⟨before, line, ends⟩ := exists_last_line first
  obtain ⟨text, after, begins⟩ := List.exists_cons_of_ne_nil (splitLines_ne_nil last)
  have lines := blank.splitLines
  have count := length_splitLines first
  rw [ends, List.forall_mem_append, List.forall_mem_singleton] at lines
  rw [ends, List.length_append, List.length_singleton] at count
  rw [splitLines_append ends begins, begins, List.map_append, List.map_cons, List.map_cons,
    trim_append_left lines.2, map_trim_of_blank lines.1, Nat.succ.inj count]

theorem map_trim_splitLines_right (first : List Char) (blank : Blank last) :
    (splitLines (first ++ last)).map trim =
      (splitLines first).map trim ++ List.replicate (last.count '\n') [] := by
  obtain ⟨before, line, ends⟩ := exists_last_line first
  obtain ⟨text, after, begins⟩ := List.exists_cons_of_ne_nil (splitLines_ne_nil last)
  have lines := blank.splitLines
  have count := length_splitLines last
  rw [begins, List.forall_mem_cons] at lines
  rw [begins, List.length_cons] at count
  rw [splitLines_append ends begins, ends, List.map_append, List.map_cons, trim_append_right line lines.1,
    map_trim_of_blank lines.2, Nat.succ.inj count]
  simp

/-- Trimming a text leaves out blank lines at its ends, and changes no other line that is trimmed. -/
theorem map_trim_splitLines (text : List Char) : ∃ n, (splitLines text).map trim =
    List.replicate ((margin text).count '\n') [] ++ (splitLines (trim text)).map trim ++
      List.replicate n [] := by
  obtain ⟨after, blank, whole⟩ := exists_trim text
  refine ⟨after.count '\n', ?_⟩
  calc (splitLines text).map trim = (splitLines (margin text ++ (trim text ++ after))).map trim := by
        rw [← whole]
    _ = List.replicate ((margin text).count '\n') [] ++ (splitLines (trim text ++ after)).map trim :=
        map_trim_splitLines_left (blank_margin text) _
    _ = _ := by rw [map_trim_splitLines_right _ blank, List.append_assoc]

end Lines

end SampleTypes.Text
