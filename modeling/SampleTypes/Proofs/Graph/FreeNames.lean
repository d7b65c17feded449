import Mathlib.Data.List.Nodup
import Mathlib.Data.List.Perm.Subperm
import SampleTypes.Graph.Naming

/-! Free names. A context's own name is chosen if it may be used, and otherwise the least number from 2 on
that makes it free, for which it is enough that there are more numbers than names taken. -/

namespace SampleTypes

theorem append_toString_inj {base : String} {m n : Nat} :
    base ++ toString m = base ++ toString n ↔ m = n := by
  constructor
  · intro equal
    have characters := congrArg String.toList equal
    rw [String.toList_append, String.toList_append, List.append_cancel_left_eq] at characters
    have values := congrArg (Nat.ofDigitChars 10 · 0) characters
    simpa [Nat.toString_eq_ofList_toDigits] using values
  · exact congrArg fun n => base ++ toString n

/-- A number whose suffix makes a name free, and the least one from a start on. -/
structure LeastFree (taken : List String) (base : String) (start n : Nat) : Prop where
  after : start ≤ n
  free : base ++ toString n ∉ taken
  least : ∀ m, start ≤ m → m < n → base ++ toString m ∈ taken

section Suffixes

variable {taken : List String} {base name : String} {count start : Nat}

theorem leastFree_of_firstFree? (found : firstFree? taken base count start = some name) :
    ∃ n, name = base ++ toString n ∧ LeastFree taken base start n := by
  induction count generalizing start with
  | zero => cases found
  | succ count ih =>
    simp only [firstFree?, List.contains_eq_mem, decide_eq_true_eq] at found
    split_ifs at found with here
    · obtain ⟨n, suffixed, after, free, least⟩ := ih found
      refine ⟨n, suffixed, by omega, free, fun m from_start below => ?_⟩
      rcases Nat.eq_or_lt_of_le from_start with rfl | later
      · exact here
      · exact least m later below
    · cases found
      exact ⟨start, rfl, Nat.le_refl start, here, fun m from_start below => by omega⟩

theorem mem_of_firstFree?_eq_none (none_free : firstFree? taken base count start = none) {m : Nat}
    (after : start ≤ m) (below : m < start + count) : base ++ toString m ∈ taken := by
  induction count generalizing start with
  | zero => omega
  | succ count ih =>
    simp only [firstFree?, List.contains_eq_mem, decide_eq_true_eq] at none_free
    split_ifs at none_free with here
    rcases Nat.eq_or_lt_of_le after with rfl | later
    · exact here
    · exact ih none_free later (by omega)

theorem exists_of_firstFree? (base : String) (start : Nat) (enough : taken.length < count) :
    ∃ name, firstFree? taken base count start = some name := by
  cases found : firstFree? taken base count start with
  | some name => exact ⟨name, rfl⟩
  | none =>
    have distinct : ((List.range' start count).map fun n => base ++ toString n).Nodup :=
      List.Nodup.map (fun _ _ => append_toString_inj.mp) List.nodup_range'
    have inside : ((List.range' start count).map fun n => base ++ toString n) ⊆ taken := by
      intro name here
      obtain ⟨m, member, rfl⟩ := List.mem_map.mp here
      obtain ⟨after, below⟩ := List.mem_range'_1.mp member
      exact mem_of_firstFree?_eq_none found after below
    -- So many different names cannot all be taken.
    have fewer := (List.subperm_of_subset distinct inside).length_le
    rw [List.length_map, List.length_range'] at fewer
    omega

end Suffixes

/-- The name that is chosen in a context while these names are taken. -/
structure Chosen (taken : List String) (context name : String) : Prop where
  own : context ∉ taken → context ∉ reservedTypeNames → name = context
  numbered : context ∈ taken ∨ context ∈ reservedTypeNames →
    ∃ n, name = context ++ toString n ∧ LeastFree taken context 2 n

namespace Chosen

variable {taken others : List String} {context name : String}

theorem not_mem (chosen : Chosen taken context name) : name ∉ taken := by
  by_cases kept : context ∉ taken ∧ context ∉ reservedTypeNames
  · rw [chosen.own kept.1 kept.2]
    exact kept.1
  · obtain ⟨n, rfl, free⟩ := chosen.numbered (by tauto)
    exact free.free

theorem cases (chosen : Chosen taken context name) :
    (name = context ∧ context ∉ reservedTypeNames) ∨ ∃ n : Nat, name = context ++ toString n := by
  by_cases kept : context ∉ taken ∧ context ∉ reservedTypeNames
  · exact Or.inl ⟨chosen.own kept.1 kept.2, kept.2⟩
  · obtain ⟨n, suffixed, _⟩ := chosen.numbered (by tauto)
    exact Or.inr ⟨n, suffixed⟩

theorem congr (chosen : Chosen taken context name) (same : ∀ other, other ∈ taken ↔ other ∈ others) :
    Chosen others context name := by
  obtain ⟨own, numbered⟩ := chosen
  refine ⟨fun absent => own (by rwa [same]), fun unfit => ?_⟩
  obtain ⟨n, suffixed, after, free, least⟩ := numbered (by rwa [same])
  exact ⟨n, suffixed, after, by rwa [← same], fun m second below => (same _).mp (least m second below)⟩

end Chosen

section UniqueNames

variable {limit : Nat} {taken : List String} {context name : String}

theorem chosen_of_uniqueName (unique : uniqueName limit taken context = .ok name) :
    Chosen taken context name := by
  simp only [uniqueName, List.contains_eq_mem, Bool.and_eq_true, Bool.not_eq_true',
    decide_eq_false_iff_not] at unique
  split_ifs at unique with kept
  · cases unique
    exact ⟨fun _ _ => rfl, fun unfit => by tauto⟩
  · split at unique
    · rename_i found
      cases unique
      exact ⟨fun absent unreserved => absurd ⟨absent, unreserved⟩ kept,
        fun _ => leastFree_of_firstFree? found⟩
    · cases unique

theorem not_mem_of_uniqueName (unique : uniqueName limit taken context = .ok name) : name ∉ taken :=
  (chosen_of_uniqueName unique).not_mem

theorem exists_of_uniqueName (enough : taken.length < limit - 2) :
    ∃ name, uniqueName limit taken context = .ok name := by
  unfold uniqueName
  split_ifs
  · exact ⟨context, rfl⟩
  · obtain ⟨name, found⟩ := exists_of_firstFree? context 2 enough
    rw [found]
    exact ⟨name, rfl⟩

end UniqueNames

end SampleTypes
