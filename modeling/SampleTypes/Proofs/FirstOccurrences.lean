/-! Lists without their later duplicates: every item stays at the place of its first occurrence. -/

namespace SampleTypes

variable {α : Type} [BEq α] [LawfulBEq α]

theorem nodup_eraseDups (items : List α) : items.eraseDups.Nodup := by
  induction length : items.length using Nat.strongRecOn generalizing items with
  | _ n ih =>
    cases items with
    | nil => exact List.nodup_nil
    | cons x rest =>
      rw [List.eraseDups_cons, List.nodup_cons]
      constructor
      · simp [List.mem_eraseDups]
      · have shorter := List.length_filter_le (fun y => !y == x) rest
        rw [List.length_cons] at length
        exact ih _ (by omega) _ rfl

theorem eraseDups_filter (keep : α → Bool) (items : List α) :
    (items.filter keep).eraseDups = items.eraseDups.filter keep := by
  induction length : items.length using Nat.strongRecOn generalizing items with
  | _ n ih =>
    cases items with
    | nil => rfl
    | cons x rest =>
      have shorter := List.length_filter_le (fun y => !y == x) rest
      rw [List.length_cons] at length
      have later := ih _ (by omega) (rest.filter fun y => !y == x) rfl
      by_cases kept : keep x = true
      · rw [List.filter_cons_of_pos kept, List.eraseDups_cons, List.eraseDups_cons,
          List.filter_cons_of_pos kept, ← later, List.filter_filter, List.filter_filter]
        simp only [Bool.and_comm]
      · rw [List.filter_cons_of_neg kept, List.eraseDups_cons, List.filter_cons_of_neg kept, ← later,
          List.filter_filter]
        congr 1
        apply List.filter_congr
        intro y here
        by_cases equal : y = x
        · simp [equal, kept]
        · simp [equal]

theorem eraseDups_cons_eq (x : α) (rest : List α) :
    (x :: rest).eraseDups = x :: rest.eraseDups.filter fun y => !y == x := by
  rw [List.eraseDups_cons, eraseDups_filter]

theorem eraseDups_of_nodup {items : List α} (distinct : items.Nodup) : items.eraseDups = items := by
  induction items with
  | nil => rfl
  | cons x rest ih =>
    rw [List.nodup_cons] at distinct
    rw [eraseDups_cons_eq, ih distinct.2, List.filter_eq_self.mpr]
    intro y later
    have differ : y ≠ x := fun equal => distinct.1 (equal ▸ later)
    simp [differ]

section Maps

variable {β : Type} [BEq β] [LawfulBEq β]

theorem eraseDups_map {f : α → β} {items : List α}
    (apart : ∀ x ∈ items, ∀ y ∈ items, f x = f y → x = y) :
    (items.map f).eraseDups = items.eraseDups.map f := by
  induction items with
  | nil => rfl
  | cons x rest ih =>
    have later := ih fun y here z there =>
      apart y (List.mem_cons_of_mem x here) z (List.mem_cons_of_mem x there)
    rw [List.map_cons, eraseDups_cons_eq, eraseDups_cons_eq, List.map_cons, later, List.filter_map]
    congr 2
    apply List.filter_congr
    intro y here
    rw [List.mem_eraseDups] at here
    have same : (f y == f x) = (y == x) := by
      rw [Bool.eq_iff_iff, beq_iff_eq, beq_iff_eq]
      exact ⟨apart y (List.mem_cons_of_mem x here) x List.mem_cons_self, congrArg f⟩
    exact congrArg (!·) same

/-- Duplicates may be dropped before a map if they are dropped after it. -/
theorem eraseDups_map_eraseDups (f : α → β) (items : List α) :
    (items.eraseDups.map f).eraseDups = (items.map f).eraseDups := by
  induction items with
  | nil => rfl
  | cons x rest ih =>
    have dropped : ((rest.eraseDups.filter fun y => !y == x).map f).filter (fun z => !z == f x) =
        (rest.eraseDups.map f).filter fun z => !z == f x := by
      rw [List.filter_map, List.filter_map, List.filter_filter]
      congr 1
      apply List.filter_congr
      intro y _
      by_cases equal : y = x
      · simp [equal]
      · simp [equal]
    rw [eraseDups_cons_eq, List.map_cons, List.map_cons, eraseDups_cons_eq, eraseDups_cons_eq, ← ih,
      ← eraseDups_filter, dropped, eraseDups_filter]

end Maps

end SampleTypes
