/-!
Entries in order of first arrival: a list of keys and values in which `put` replaces the value of a
key that is present and appends one that is not. `ofList` never holds a key twice.
-/

namespace SampleTypes

abbrev Entries (α β : Type) := List (α × β)

namespace Entries

variable {α β : Type} [DecidableEq α]

def keys (entries : Entries α β) : List α := entries.map Prod.fst

def put (key : α) (value : β) : Entries α β → Entries α β
  | [] => [(key, value)]
  | entry :: rest => if entry.1 = key then (key, value) :: rest else entry :: put key value rest

def ofList (pairs : List (α × β)) : Entries α β :=
  pairs.foldl (fun entries pair => entries.put pair.1 pair.2) []

theorem mem_keys_put {key other : α} {value : β} {entries : Entries α β} :
    other ∈ (entries.put key value).keys ↔ other = key ∨ other ∈ entries.keys := by
  induction entries with
  | nil => simp [put, keys]
  | cons entry rest ih =>
    simp only [keys] at ih
    by_cases h : entry.1 = key
    · simp [put, keys, h]
    · simp [put, keys, h, ih, or_left_comm]

theorem lookup_put (key other : α) (value : β) (entries : Entries α β) :
    (entries.put key value).lookup other =
      if other = key then some value else entries.lookup other := by
  induction entries with
  | nil => by_cases h : other = key <;> simp [put, List.lookup_cons, h, beq_eq_false_iff_ne.mpr]
  | cons entry rest ih =>
    obtain ⟨k, v⟩ := entry
    by_cases ho : other = k
    · subst ho
      by_cases h : other = key <;> simp [put, h]
    · have differ : (other == k) = false := beq_eq_false_iff_ne.mpr ho
      by_cases h : k = key
      · subst h
        simp [put, List.lookup_cons, ho, differ]
      · simp [put, h, List.lookup_cons, differ, ih]

theorem nodup_keys_put {key : α} {value : β} {entries : Entries α β}
    (distinct : entries.keys.Nodup) : (entries.put key value).keys.Nodup := by
  induction entries with
  | nil => simp [put, keys]
  | cons entry rest ih =>
    obtain ⟨k, v⟩ := entry
    rw [show keys ((k, v) :: rest) = k :: keys rest from rfl, List.nodup_cons] at distinct
    by_cases h : k = key
    · rw [show put key value ((k, v) :: rest) = (key, value) :: rest by simp [put, h]]
      exact List.nodup_cons.mpr (h ▸ distinct)
    · rw [show put key value ((k, v) :: rest) = (k, v) :: put key value rest by simp [put, h]]
      refine List.nodup_cons.mpr ⟨fun present => ?_, ih distinct.2⟩
      exact (mem_keys_put.mp present).elim h distinct.1

theorem nodup_keys_ofList (pairs : List (α × β)) : (ofList pairs).keys.Nodup := by
  have general : ∀ (pairs : List (α × β)) (entries : Entries α β), entries.keys.Nodup →
      (pairs.foldl (fun entries pair => entries.put pair.1 pair.2) entries).keys.Nodup := by
    intro pairs
    induction pairs with
    | nil => exact fun _ distinct => distinct
    | cons pair rest ih => exact fun entries distinct => ih _ (nodup_keys_put distinct)
  exact general pairs [] (by simp [keys])

end Entries

end SampleTypes
