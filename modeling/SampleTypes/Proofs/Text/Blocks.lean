import Mathlib.Data.List.Basic
import SampleTypes.Proofs.Text.Characters

/-! Blocks of a text, with a blank line between them. Lines are read back from what was put together from
them, and so are blocks without blank lines in them. -/

namespace SampleTypes

def linesOf (text : Points) : List Points := text.splitOn '\n'

/-- A text cut at its blank lines. -/
def blocksOf (text : Points) : List Points :=
  ((linesOf text).splitOn []).map fun lines => List.intercalate "\n" lines

variable {α : Type} {line : Points} {parts : List (List Points)}

theorem linesOf_of_lacks (free : Lacks '\n' line) : linesOf line = [line] := List.splitOn_eq_singleton free

theorem linesOf_append (free : Lacks '\n' line) (rest : Points) :
    linesOf (line ++ "\n" ++ rest) = line :: linesOf rest := by
  have feed : line ++ "\n" ++ rest = line ++ .char '\n' :: rest := List.append_assoc _ _ _
  rw [linesOf, feed, List.splitOn_append_cons_self_of_not_mem free]
  rfl

theorem linesOf_intercalate {lines : List Points} (nonempty : lines ≠ [])
    (each : ∀ line ∈ lines, Lacks '\n' line) : linesOf (List.intercalate "\n" lines) = lines :=
  List.splitOn_intercalate _ each nonempty

theorem intercalate_append (separator : List α) {first second : List (List α)} (nonempty : first ≠ [])
    (more : second ≠ []) : separator.intercalate (first ++ second) =
      separator.intercalate first ++ separator ++ separator.intercalate second := by
  induction first with
  | nil => exact absurd rfl nonempty
  | cons text rest ih =>
    cases rest with
    | nil => rw [List.singleton_append, List.intercalate_cons_of_ne_nil more, List.intercalate_singleton]
    | cons next later =>
      rw [List.cons_append, List.intercalate_cons_of_ne_nil (List.append_ne_nil_of_right_ne_nil _ more),
        ih (List.cons_ne_nil next later), List.intercalate_cons_of_ne_nil (List.cons_ne_nil next later)]
      simp only [List.append_assoc]

theorem intercalate_concat (separator last : List α) (texts : List (List α)) :
    separator.intercalate (texts ++ [last]) = (texts.flatMap (· ++ separator)) ++ last := by
  induction texts with
  | nil => rw [List.nil_append, List.intercalate_singleton]; rfl
  | cons text rest ih =>
    rw [List.cons_append, List.intercalate_cons_of_ne_nil (List.concat_ne_nil last rest), ih,
      List.flatMap_cons, List.append_assoc, List.append_assoc, List.append_assoc]

theorem mem_of_mem_intercalate {blank : Points} (here : line ∈ [blank].intercalate parts) :
    line = blank ∨ ∃ part ∈ parts, line ∈ part := by
  induction parts with
  | nil => cases here
  | cons part rest ih =>
    cases rest with
    | nil => exact Or.inr ⟨part, List.mem_cons_self, by simpa using here⟩
    | cons next later =>
      rw [List.intercalate_cons_cons, List.mem_append, List.mem_append, List.mem_singleton] at here
      rcases here with (own | rfl) | other
      · exact Or.inr ⟨part, List.mem_cons_self, own⟩
      · exact Or.inl rfl
      · exact (ih other).imp_right fun ⟨part, member, inside⟩ => ⟨part, List.mem_cons_of_mem _ member, inside⟩

theorem intercalate_ne_nil (blank : Points) (nonempty : parts ≠ []) (filled : ∀ part ∈ parts, part ≠ []) :
    [blank].intercalate parts ≠ [] := by
  obtain ⟨part, rest, rfl⟩ := List.exists_cons_of_ne_nil nonempty
  cases rest with
  | nil => simpa using filled
  | cons next later => simp

theorem intercalate_blankLine (filled : ∀ part ∈ parts, part ≠ []) :
    List.intercalate ("\n\n" : Points) (parts.map fun lines => List.intercalate "\n" lines) =
      List.intercalate "\n" ([[]].intercalate parts) := by
  induction parts with
  | nil => rfl
  | cons part rest ih =>
    rw [List.forall_mem_cons] at filled
    cases rest with
    | nil => simp
    | cons next later =>
      have others := intercalate_ne_nil [] (List.cons_ne_nil next later) filled.2
      have nonempty : (next :: later).map (fun lines : List Points => List.intercalate "\n" lines) ≠ [] := by
        simp
      have between : ("\n\n" : Points) = ("\n" : Points) ++ ("\n" : Points) := rfl
      rw [List.map_cons, List.intercalate_cons_of_ne_nil nonempty, ih filled.2,
        List.intercalate_cons_of_ne_nil (List.cons_ne_nil next later), List.append_assoc part,
        List.singleton_append, intercalate_append _ filled.1 (List.cons_ne_nil [] _),
        List.intercalate_cons_of_ne_nil others, between]
      simp only [List.append_assoc, List.nil_append]

/-- Blocks of lines that are not blank are read back. -/
theorem blocksOf_intercalate (nonempty : parts ≠ []) (filled : ∀ part ∈ parts, part ≠ [])
    (visible : ∀ part ∈ parts, [] ∉ part)
    (each : ∀ part ∈ parts, ∀ line ∈ part, Lacks '\n' line) :
    blocksOf (List.intercalate "\n\n" (parts.map fun lines => List.intercalate "\n" lines)) =
      parts.map fun lines => List.intercalate "\n" lines := by
  have lines : ∀ line ∈ [[]].intercalate parts, Lacks '\n' line := by
    intro line here
    rcases mem_of_mem_intercalate here with rfl | ⟨part, member, inside⟩
    · decide
    · exact each part member line inside
  rw [blocksOf, intercalate_blankLine filled,
    linesOf_intercalate (intercalate_ne_nil [] nonempty filled) lines,
    List.splitOn_intercalate _ visible nonempty]

end SampleTypes
