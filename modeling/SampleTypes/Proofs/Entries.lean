import Mathlib.Data.List.Nodup
import SampleTypes.Entries
import SampleTypes.Sorting

/-! Lists of entries as finite maps: with distinct keys, two of them hold the same values exactly
when one is a rearrangement of the other, and sorting by name makes them equal. -/

namespace SampleTypes

namespace Entries

variable {α β γ : Type}

theorem keys_map (f : α → β → γ) (entries : Entries α β) :
    keys (entries.map fun entry => (entry.1, f entry.1 entry.2)) = entries.keys := by
  simp [keys]

theorem keys_filter (keep : α → Bool) (entries : Entries α β) :
    keys (entries.filter fun entry => keep entry.1) = entries.keys.filter keep := by
  simp only [keys, List.filter_map]
  rfl

theorem keys_append (first second : Entries α β) :
    keys (first ++ second) = first.keys ++ second.keys :=
  List.map_append

theorem keys_perm {first second : Entries α β} (perm : first.Perm second) :
    first.keys.Perm second.keys :=
  perm.map Prod.fst

theorem nodup_of_keys {entries : Entries α β} (distinct : entries.keys.Nodup) : entries.Nodup :=
  List.Nodup.of_map Prod.fst distinct

variable [BEq α] [LawfulBEq α]

theorem lookup_eq_none {key : α} {entries : Entries α β} :
    entries.lookup key = none ↔ key ∉ entries.keys := by
  simp only [keys, List.lookup_eq_none_iff, List.mem_map, not_exists, not_and]
  constructor
  · intro absent entry member equal
    simpa [equal] using absent entry member
  · intro absent entry member
    simpa [bne_iff_ne] using Ne.symm (absent entry member)

theorem mem_of_lookup {key : α} {value : β} {entries : Entries α β}
    (found : entries.lookup key = some value) : (key, value) ∈ entries := by
  obtain ⟨before, after, split, _⟩ := List.lookup_eq_some_iff.mp found
  simp [split]

theorem lookup_of_mem {key : α} {value : β} {entries : Entries α β} (distinct : entries.keys.Nodup)
    (member : (key, value) ∈ entries) : entries.lookup key = some value := by
  induction entries with
  | nil => cases member
  | cons entry rest ih =>
    obtain ⟨other, stored⟩ := entry
    rw [show keys ((other, stored) :: rest) = other :: keys rest from rfl,
      List.nodup_cons] at distinct
    rcases List.mem_cons.mp member with equal | later
    · cases equal
      exact List.lookup_cons_self
    · have differ : (key == other) = false := by
        rw [beq_eq_false_iff_ne]
        intro equal
        exact distinct.1 (equal ▸ List.mem_map_of_mem (f := Prod.fst) later)
      rw [List.lookup_cons, differ]
      exact ih distinct.2 later

theorem lookup_eq_some {key : α} {value : β} {entries : Entries α β}
    (distinct : entries.keys.Nodup) :
    entries.lookup key = some value ↔ (key, value) ∈ entries :=
  ⟨mem_of_lookup, lookup_of_mem distinct⟩

theorem lookup_isSome {key : α} {entries : Entries α β} :
    (entries.lookup key).isSome ↔ key ∈ entries.keys := by
  rw [← not_iff_not, ← lookup_eq_none, Option.not_isSome_iff_eq_none]

theorem lookup_map (f : α → β → γ) (key : α) (entries : Entries α β) :
    (entries.map fun entry => (entry.1, f entry.1 entry.2)).lookup key =
      (entries.lookup key).map (f key) := by
  induction entries with
  | nil => rfl
  | cons entry rest ih =>
    obtain ⟨other, stored⟩ := entry
    rw [List.map_cons, List.lookup_cons, List.lookup_cons]
    by_cases equal : key = other
    · simp [equal]
    · have differ : (key == other) = false := beq_eq_false_iff_ne.mpr equal
      simp [differ, ih]

theorem lookup_filter (keep : α → Bool) (key : α) (entries : Entries α β) :
    (entries.filter fun entry => keep entry.1).lookup key =
      if keep key then entries.lookup key else none := by
  induction entries with
  | nil => simp
  | cons entry rest ih =>
    obtain ⟨other, stored⟩ := entry
    rw [List.filter_cons, List.lookup_cons]
    by_cases equal : key = other
    · subst equal
      by_cases kept : keep key = true <;> simp [kept, ih]
    · have differ : (key == other) = false := beq_eq_false_iff_ne.mpr equal
      by_cases kept : keep other = true
      · simp [kept, List.lookup_cons, differ, ih]
      · simp [kept, differ, ih]

theorem lookup_filterMap (f : β → Option γ) (key : α) {entries : Entries α β}
    (distinct : entries.keys.Nodup) :
    (entries.filterMap fun entry => (f entry.2).map (entry.1, ·)).lookup key =
      (entries.lookup key).bind f := by
  induction entries with
  | nil => rfl
  | cons entry rest ih =>
    obtain ⟨other, stored⟩ := entry
    rw [show keys ((other, stored) :: rest) = other :: keys rest from rfl,
      List.nodup_cons] at distinct
    rw [List.filterMap_cons, List.lookup_cons]
    by_cases equal : key = other
    · subst equal
      cases given : f stored with
      | none => simp [given, ih distinct.2, lookup_eq_none.mpr distinct.1]
      | some value => simp [given]
    · have differ : (key == other) = false := beq_eq_false_iff_ne.mpr equal
      cases given : f stored <;> simp [List.lookup_cons, differ, ih distinct.2]

theorem lookup_perm {first second : Entries α β} (distinct : first.keys.Nodup)
    (perm : first.Perm second) (key : α) : first.lookup key = second.lookup key := by
  apply Option.ext
  intro value
  rw [lookup_eq_some distinct, lookup_eq_some ((keys_perm perm).nodup distinct), perm.mem_iff]

theorem perm_of_lookup {first second : Entries α β} (distinct : first.keys.Nodup)
    (others : second.keys.Nodup) (same : ∀ key, first.lookup key = second.lookup key) :
    first.Perm second := by
  rw [List.perm_ext_iff_of_nodup (nodup_of_keys distinct) (nodup_of_keys others)]
  rintro ⟨key, value⟩
  rw [← lookup_eq_some distinct, ← lookup_eq_some others, same key]

theorem eq_of_keys_of_lookup {first second : Entries α β} (distinct : first.keys.Nodup)
    (keys_eq : first.keys = second.keys) (same : ∀ key, first.lookup key = second.lookup key) :
    first = second := by
  induction first generalizing second with
  | nil =>
    cases second with
    | nil => rfl
    | cons entry rest => cases keys_eq
  | cons entry rest ih =>
    cases second with
    | nil => cases keys_eq
    | cons other others =>
      obtain ⟨key, value⟩ := entry
      obtain ⟨key', value'⟩ := other
      rw [show keys ((key, value) :: rest) = key :: keys rest from rfl,
        show keys ((key', value') :: others) = key' :: keys others from rfl] at keys_eq
      obtain ⟨rfl, keys_rest⟩ := List.cons.inj keys_eq
      rw [show keys ((key, value) :: rest) = key :: keys rest from rfl,
        List.nodup_cons] at distinct
      have head : value = value' := by
        simpa using same key
      have tail : rest = others := by
        apply ih distinct.2 keys_rest
        intro name
        by_cases equal : name = key
        · subst equal
          rw [lookup_eq_none.mpr distinct.1, lookup_eq_none.mpr (keys_rest ▸ distinct.1)]
        · have differ : (name == key) = false := beq_eq_false_iff_ne.mpr equal
          simpa [List.lookup_cons, differ] using same name
      rw [head, tail]

section Put

variable {α ι : Type} [DecidableEq α]

theorem mem_put {entry : α × β} {key : α} {value : β} {entries : Entries α β}
    (here : entry ∈ entries.put key value) : entry = (key, value) ∨ entry ∈ entries := by
  induction entries with
  | nil => exact .inl (List.mem_singleton.mp here)
  | cons first rest ih =>
    rw [put] at here
    split at here
    · exact (List.mem_cons.mp here).imp_right (List.mem_cons_of_mem first)
    · rcases List.mem_cons.mp here with rfl | later
      · exact .inr List.mem_cons_self
      · exact (ih later).imp_right (List.mem_cons_of_mem first)

theorem put_of_not_mem {key : α} {value : β} {entries : Entries α β} (fresh : key ∉ entries.keys) :
    entries.put key value = entries ++ [(key, value)] := by
  induction entries with
  | nil => rfl
  | cons entry rest ih =>
    have absent : entry.1 ≠ key ∧ key ∉ keys rest := by
      simpa [keys, eq_comm] using fresh
    rw [put, if_neg absent.1, ih absent.2, List.cons_append]

theorem put_map (key : ι → α) {items : List ι} {item : ι} {value : β} (f : ι → β)
    (distinct : (items.map key).Nodup) (here : item ∈ items) :
    put (key item) value (items.map fun i => (key i, f i)) =
      items.map fun i => (key i, if key i = key item then value else f i) := by
  induction items with
  | nil => cases here
  | cons i rest ih =>
    rw [List.map_cons, List.nodup_cons] at distinct
    rw [List.map_cons, put, List.map_cons]
    by_cases equal : key i = key item
    · rw [if_pos equal, if_pos equal, equal]
      congr 1
      apply List.map_congr_left
      intro j later
      have differ : key j ≠ key item := by
        intro same
        apply distinct.1
        rw [equal, ← same]
        exact List.mem_map_of_mem later
      rw [if_neg differ]
    · rw [if_neg equal, if_neg equal]
      rcases List.mem_cons.mp here with rfl | later
      · exact absurd rfl equal
      · rw [ih distinct.2 later]

end Put

end Entries

variable {α β : Type}

theorem sort_eq_of_perm {precedes : α → α → Bool}
    (total : ∀ x y, precedes x y = true ∨ precedes y x = true)
    (trans : ∀ x y z, precedes x y = true → precedes y z = true → precedes x z = true)
    {first second : List α} (perm : first.Perm second)
    (antisymm : ∀ x ∈ first, ∀ y ∈ first, precedes x y = true → precedes y x = true → x = y) :
    sort precedes first = sort precedes second := by
  have permuted : (sort precedes first).Perm (sort precedes second) :=
    (sort_perm precedes first).trans (perm.trans (sort_perm precedes second).symm)
  apply List.Perm.eq_of_pairwise _ (pairwise_sort total trans first)
    (pairwise_sort total trans second) permuted
  intro x y here there
  exact antisymm x (mem_sort.mp here) y (perm.mem_iff.mpr (mem_sort.mp there))

theorem sort_eq_self {precedes : α → α → Bool} {items : List α}
    (sorted : items.Pairwise (precedes · ·)) : sort precedes items = items := by
  induction items with
  | nil => rfl
  | cons x rest ih =>
    rw [List.pairwise_cons] at sorted
    rw [sort, ih sorted.2]
    cases rest with
    | nil => rfl
    | cons y others => simp [insertSorted, sorted.1 y List.mem_cons_self]

theorem sort_map (precedes : α → α → Bool) (other : β → β → Bool) (f : α → β)
    (agree : ∀ x y, other (f x) (f y) = precedes x y) (items : List α) :
    sort other (items.map f) = (sort precedes items).map f := by
  have insert_map : ∀ x (items : List α),
      insertSorted other (f x) (items.map f) = (insertSorted precedes x items).map f := by
    intro x items
    induction items with
    | nil => rfl
    | cons y rest ih =>
      by_cases first : precedes x y = true
      · simp [insertSorted, agree, first]
      · simp [insertSorted, agree, first, ih]
  induction items with
  | nil => rfl
  | cons x rest ih => rw [List.map_cons, sort, sort, ih, insert_map]

theorem sortByName_perm (entries : List (Str × α)) : (sortByName entries).Perm entries :=
  sort_perm _ entries

theorem sortByName_map (f : Str → α → β) (entries : List (Str × α)) :
    sortByName (entries.map fun entry => (entry.1, f entry.1 entry.2)) =
      (sortByName entries).map fun entry => (entry.1, f entry.1 entry.2) := by
  unfold sortByName
  apply sort_map
  intro x y
  rfl

theorem nodup_keys_sortByName {entries : Entries Str α} (distinct : entries.keys.Nodup) :
    (Entries.keys (sortByName entries)).Nodup :=
  (Entries.keys_perm (sortByName_perm entries)).symm.nodup distinct

theorem lookup_sortByName {entries : Entries Str α} (distinct : entries.keys.Nodup)
    (name : Str) : (sortByName entries).lookup name = entries.lookup name :=
  (Entries.lookup_perm distinct (sortByName_perm entries).symm name).symm

theorem sortByName_eq_of_perm {first second : Entries Str α} (distinct : first.keys.Nodup)
    (perm : first.Perm second) : sortByName first = sortByName second := by
  apply sort_eq_of_perm _ _ perm
  · rintro ⟨name, value⟩ here ⟨name', value'⟩ there before after
    simp only [decide_eq_true_eq] at before after
    obtain rfl : name = name' := Str.le_antisymm before after
    have found := Entries.lookup_of_mem distinct here
    rw [Entries.lookup_of_mem distinct there] at found
    rw [Option.some.inj found]
  · intro x y
    simpa using Str.le_total x.1 y.1
  · intro x y z first second
    simp only [decide_eq_true_eq] at first second ⊢
    exact Str.le_trans first second

theorem sortByName_eq_of_lookup {first second : Entries Str α} (distinct : first.keys.Nodup)
    (others : second.keys.Nodup) (same : ∀ name, first.lookup name = second.lookup name) :
    sortByName first = sortByName second :=
  sortByName_eq_of_perm distinct (Entries.perm_of_lookup distinct others same)

theorem sortByName_idem (entries : Entries Str α) :
    sortByName (sortByName entries) = sortByName entries := by
  apply sort_eq_self
  have ordered := pairwise_sortByName entries
  simpa only [decide_eq_true_eq] using ordered

end SampleTypes
