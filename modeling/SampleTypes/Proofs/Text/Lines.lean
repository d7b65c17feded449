import Mathlib.Data.List.Basic
import Mathlib.Data.List.TakeWhile
import SampleTypes.Text.Blank
import SampleTypes.Text.Lines

/-! The ends of a text and its lines. -/

namespace SampleTypes.Text

variable {c : Char} {text rest : List Char}

theorem prefix_trimRight (text : List Char) : trimRight text <+: text := by
  rw [← List.reverse_suffix, trimRight, List.reverse_reverse]
  exact List.dropWhile_suffix isBlank

theorem infix_trim (text : List Char) : trim text <:+: text :=
  (prefix_trimRight (trimLeft text)).isInfix.trans (List.dropWhile_suffix isBlank).isInfix

theorem isBlank_of_trim (trimmed : trim text = c :: rest) : isBlank c = false := by
  have front : c :: rest <+: trimLeft text := trimmed ▸ prefix_trimRight (trimLeft text)
  obtain ⟨others, whole⟩ := front
  have first := List.head?_dropWhile_not isBlank text
  rw [← trimLeft, ← whole] at first
  exact first

theorem trim_ne_nil (visible : isBlank c = false) (rest : List Char) : trim (c :: rest) ≠ [] := by
  have left : trimLeft (c :: rest) = c :: rest := List.dropWhile_cons_of_neg (by rw [visible]; decide)
  intro none
  rw [trim, left, trimRight, List.reverse_eq_nil_iff, List.dropWhile_eq_nil_iff] at none
  have blank := none c (List.mem_reverse.mpr List.mem_cons_self)
  rw [visible] at blank
  cases blank

theorem infix_joinLines {line : List Char} {lines : List (List Char)} (here : line ∈ lines) :
    line <:+: joinLines lines := by
  induction lines with
  | nil => cases here
  | cons first others ih =>
    cases others with
    | nil =>
      rw [List.mem_singleton.mp here]
      exact List.infix_rfl
    | cons next later =>
      rw [joinLines_cons_of_ne_nil first (List.cons_ne_nil next later)]
      obtain rfl | inside := List.mem_cons.mp here
      · exact (List.prefix_append _ _).isInfix
      · exact (ih inside).trans ((List.suffix_cons _ _).trans (List.suffix_append _ _)).isInfix

theorem infix_of_mem_splitLines {line : List Char} (here : line ∈ splitLines text) : line <:+: text := by
  have inside := infix_joinLines here
  rwa [joinLines_splitLines] at inside

theorem splitLines_eq_splitOn (text : List Char) : splitLines text = text.splitOn '\n' := by
  induction text with
  | nil => rfl
  | cons c rest ih =>
    rw [splitLines, ih, List.splitOn_cons_eq_if_modifyHead]
    simp only [beq_iff_eq]
    split_ifs
    · rfl
    · obtain ⟨line, others, spelled⟩ := List.exists_cons_of_ne_nil (List.splitOn_ne_nil '\n' rest)
      rw [spelled]
      rfl

theorem splitLines_cons (inside : c ≠ '\n') (rest : List Char) :
    ∃ line lines, splitLines (c :: rest) = (c :: line) :: lines := by
  rw [splitLines, if_neg inside]
  split
  · exact ⟨_, _, rfl⟩
  · exact ⟨_, _, rfl⟩

end SampleTypes.Text
