import SampleTypes.Text.Points

/-!
Stable sorting by insertion: `sort` puts a list in a given order, and `sortByName` puts named
entries in the order of their names, code point by code point.
-/

namespace SampleTypes

variable {α : Type}

/-- Puts an item before the first one that it may precede. -/
def insertSorted (precedes : α → α → Bool) (x : α) : List α → List α
  | [] => [x]
  | y :: rest => if precedes x y then x :: y :: rest else y :: insertSorted precedes x rest

def sort (precedes : α → α → Bool) : List α → List α
  | [] => []
  | x :: rest => insertSorted precedes x (sort precedes rest)

def sortByName (entries : List (Str × α)) : List (Str × α) :=
  sort (fun first second => decide (first.1 ≤ second.1)) entries

theorem insertSorted_perm (precedes : α → α → Bool) (x : α) (items : List α) :
    (insertSorted precedes x items).Perm (x :: items) := by
  induction items with
  | nil => exact List.Perm.refl _
  | cons y rest ih =>
    unfold insertSorted
    split
    · exact List.Perm.refl _
    · exact (ih.cons y).trans (List.Perm.swap x y rest)

theorem sort_perm (precedes : α → α → Bool) (items : List α) :
    (sort precedes items).Perm items := by
  induction items with
  | nil => exact List.Perm.refl _
  | cons x rest ih => exact (insertSorted_perm precedes x _).trans (ih.cons x)

theorem mem_sort {precedes : α → α → Bool} {items : List α} {x : α} :
    x ∈ sort precedes items ↔ x ∈ items :=
  (sort_perm precedes items).mem_iff

theorem sort_ne_nil {precedes : α → α → Bool} {items : List α} (nonempty : items ≠ []) :
    sort precedes items ≠ [] := by
  intro empty
  have perm := sort_perm precedes items
  rw [empty] at perm
  exact nonempty perm.symm.eq_nil

theorem pairwise_insertSorted {precedes : α → α → Bool}
    (total : ∀ x y, precedes x y = true ∨ precedes y x = true)
    (trans : ∀ x y z, precedes x y = true → precedes y z = true → precedes x z = true)
    (x : α) {items : List α} (sorted : items.Pairwise (precedes · ·)) :
    (insertSorted precedes x items).Pairwise (precedes · ·) := by
  induction items with
  | nil => exact List.pairwise_singleton _ _
  | cons y rest ih =>
    rw [List.pairwise_cons] at sorted
    unfold insertSorted
    split
    · rename_i first
      refine List.pairwise_cons.mpr ⟨?_, List.pairwise_cons.mpr sorted⟩
      intro z member
      rcases List.mem_cons.mp member with rfl | later
      · exact first
      · exact trans _ _ _ first (sorted.1 z later)
    · rename_i notFirst
      refine List.pairwise_cons.mpr ⟨?_, ih sorted.2⟩
      intro z member
      rcases List.mem_cons.mp ((insertSorted_perm precedes x rest).mem_iff.mp member) with rfl | later
      · exact (total z y).resolve_left notFirst
      · exact sorted.1 z later

theorem pairwise_sort {precedes : α → α → Bool}
    (total : ∀ x y, precedes x y = true ∨ precedes y x = true)
    (trans : ∀ x y z, precedes x y = true → precedes y z = true → precedes x z = true)
    (items : List α) : (sort precedes items).Pairwise (precedes · ·) := by
  induction items with
  | nil => exact List.Pairwise.nil
  | cons x rest ih => exact pairwise_insertSorted total trans x ih

theorem pairwise_sortByName (entries : List (Str × α)) :
    (sortByName entries).Pairwise fun first second => first.1 ≤ second.1 := by
  have sorted := @pairwise_sort _ (fun first second : Str × α => decide (first.1 ≤ second.1))
    (fun x y => by simpa using Str.le_total x.1 y.1)
    (fun x y z first second => by
      simp only [decide_eq_true_eq] at first second ⊢
      exact Str.le_trans first second)
    entries
  simpa only [sortByName, decide_eq_true_eq] using sorted

end SampleTypes
