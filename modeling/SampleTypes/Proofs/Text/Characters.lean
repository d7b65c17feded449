import Mathlib.Data.List.Basic
import SampleTypes.Text.Points

/-! Texts in which a code point does not occur, and what is put together from them. -/

namespace SampleTypes

def Lacks (p : Point) (text : Points) : Prop := p ∉ text

instance (p : Point) (text : Points) : Decidable (Lacks p text) :=
  inferInstanceAs (Decidable (p ∉ text))

namespace Lacks

variable {p : Point}

theorem of_subset {characters text : Points} (free : Lacks p characters) (part : text ⊆ characters) :
    Lacks p text := fun here => free (part here)

theorem append_iff {first second : Points} :
    Lacks p (first ++ second) ↔ Lacks p first ∧ Lacks p second := by
  rw [Lacks, List.mem_append, not_or]
  exact Iff.rfl

theorem intercalate {separator : Points} (free : Lacks p separator) {texts : List Points}
    (each : ∀ text ∈ texts, Lacks p text) : Lacks p (separator.intercalate texts) := by
  induction texts with
  | nil => exact List.not_mem_nil
  | cons text rest ih =>
    rw [List.forall_mem_cons] at each
    cases rest with
    | nil => simpa [Lacks] using each.1
    | cons next later =>
      rw [List.intercalate_cons_cons, append_iff, append_iff]
      exact ⟨⟨each.1, free⟩, ih each.2⟩

end Lacks

end SampleTypes
