import SampleTypes.Proofs.Samples.Inference
import SampleTypes.Proofs.Shape.MergeOrder

/-! Samples in another order. Neither the order of samples, items and entries nor how often a sample or
an item occurs has a say in the shape, up to the order of fields. -/

namespace SampleTypes

/-- `w` comes from `v` by permuting and repeating the items of lists and permuting the entries of
objects, at any depth. -/
inductive Rearranged : Value → Value → Prop where
  | refl (v : Value) : Rearranged v v
  | trans {u v w : Value} (first : Rearranged u v) (second : Rearranged v w) : Rearranged u w
  | permuteItems {items others : List Value} (perm : items.Perm others) :
      Rearranged (.list items) (.list others)
  | repeatItem {v : Value} {items : List Value} (here : v ∈ items) :
      Rearranged (.list items) (.list (v :: items))
  | permuteEntries {entries others : List (Key × Value)} (perm : entries.Perm others) :
      Rearranged (.object entries) (.object others)
  | item {v w : Value} (before after : List Value) (inner : Rearranged v w) :
      Rearranged (.list (before ++ v :: after)) (.list (before ++ w :: after))
  | entry {v w : Value} (key : Key) (before after : List (Key × Value)) (inner : Rearranged v w) :
      Rearranged (.object (before ++ (key, v) :: after)) (.object (before ++ (key, w) :: after))

namespace Value

theorem Supported.rearranged {v w : Value} (supported : v.Supported) (rearranged : Rearranged v w) :
    w.Supported := by
  induction rearranged with
  | refl v => exact supported
  | trans first second ih ih' => exact ih' (ih supported)
  | permuteItems perm =>
    rw [supported_list] at supported ⊢
    intro v here
    exact supported v (perm.mem_iff.mpr here)
  | repeatItem here =>
    rw [supported_list] at supported ⊢
    exact List.forall_mem_cons.mpr ⟨supported _ here, supported⟩
  | permuteEntries perm =>
    rw [supported_object] at supported ⊢
    obtain ⟨distinct, named, each⟩ := supported
    exact ⟨(Entries.keys_perm perm).nodup distinct,
      fun entry here => named entry (perm.mem_iff.mpr here),
      fun entry here => each entry (perm.mem_iff.mpr here)⟩
  | item before after inner ih =>
    rw [supported_list] at supported ⊢
    simp only [List.forall_mem_append, List.forall_mem_cons] at supported ⊢
    exact ⟨supported.1, ih supported.2.1, supported.2.2⟩
  | entry key before after inner ih =>
    rw [supported_object] at supported ⊢
    simp only [List.forall_mem_append, List.forall_mem_cons, Entries.keys, List.map_append,
      List.map_cons] at supported ⊢
    obtain ⟨distinct, named, first, middle, last⟩ := supported
    exact ⟨distinct, named, first, ih middle, last⟩

end Value

namespace Shape

variable {widen : Bool}

/-! Lists of samples. -/

section Lists

variable {first second third fourth : List Value}

theorem agrees_observed_append (one : ∀ v ∈ first, v.Supported) (two : ∀ v ∈ second, v.Supported)
    (three : ∀ v ∈ third, v.Supported) (four : ∀ v ∈ fourth, v.Supported)
    (left : Agrees (observed widen first) (observed widen third))
    (right : Agrees (observed widen second) (observed widen fourth))
    (emptyLeft : first = [] ↔ third = []) (emptyRight : second = [] ↔ fourth = []) :
    Agrees (observed widen (first ++ second)) (observed widen (third ++ fourth)) := by
  by_cases noFirst : first = []
  · rw [noFirst, emptyLeft.mp noFirst]
    exact right
  · by_cases noSecond : second = []
    · rw [noSecond, emptyRight.mp noSecond, List.append_nil, List.append_nil]
      exact left
    · rw [← merge_observed one two noFirst noSecond,
        ← merge_observed three four (mt emptyLeft.mpr noFirst) (mt emptyRight.mpr noSecond)]
      exact agrees_merge (wellFormed_observed one) (wellFormed_observed two)
        (wellFormed_observed three) (wellFormed_observed four) left right

theorem agrees_observed_perm (perm : first.Perm second) (supported : ∀ v ∈ first, v.Supported) :
    Agrees (observed widen first) (observed widen second) := by
  induction perm with
  | nil => rfl
  | @cons v rest others perm ih =>
    rw [List.forall_mem_cons] at supported
    have one : ∀ w ∈ [v], w.Supported := by simpa using supported.1
    have valid : ∀ w ∈ others, w.Supported := fun w here => supported.2 w (perm.mem_iff.mpr here)
    have empty : rest = [] ↔ others = [] := by
      rw [← List.length_eq_zero_iff, perm.length_eq, List.length_eq_zero_iff]
    exact agrees_observed_append one supported.2 one valid rfl (ih supported.2) Iff.rfl empty
  | swap v w rest =>
    simp only [List.forall_mem_cons] at supported
    have one : ∀ u ∈ [w], u.Supported := by simpa using supported.1
    have two : ∀ u ∈ [v], u.Supported := by simpa using supported.2.1
    have both : ∀ u ∈ [w, v], u.Supported := by simpa using ⟨supported.1, supported.2.1⟩
    have swapped : ∀ u ∈ [v, w], u.Supported := by simpa using ⟨supported.2.1, supported.1⟩
    have pair : Agrees (observed widen [w, v]) (observed widen [v, w]) := by
      have left : merge widen (observed widen [w]) (observed widen [v]) = observed widen [w, v] :=
        merge_observed one two (List.cons_ne_nil w []) (List.cons_ne_nil v [])
      have right : merge widen (observed widen [v]) (observed widen [w]) = observed widen [v, w] :=
        merge_observed two one (List.cons_ne_nil v []) (List.cons_ne_nil w [])
      rw [← left, ← right]
      exact agrees_merge_comm (wellFormed_observed one) (wellFormed_observed two)
    exact agrees_observed_append both supported.2.2 swapped supported.2.2 pair rfl
      (by simp) Iff.rfl
  | trans perm next ih ih' =>
    exact (ih supported).trans (ih' fun v here => supported v (perm.mem_iff.mpr here))

theorem observed_repeat {v : Value} {rest : List Value} (supported : ∀ w ∈ v :: rest, w.Supported) :
    observed widen (v :: v :: rest) = observed widen (v :: rest) := by
  have one : ∀ w ∈ [v], w.Supported := by
    simpa using supported v List.mem_cons_self
  have filled : [v] ≠ [] := List.cons_ne_nil v []
  have twice : observed widen [v, v] = observed widen [v] := by
    calc observed widen [v, v]
        = merge widen (observed widen [v]) (observed widen [v]) :=
          (merge_observed one one filled filled).symm
      _ = observed widen [v] := merge_self (wellFormed_observed one)
  cases rest with
  | nil => exact twice
  | cons w others =>
    have tail : ∀ u ∈ w :: others, u.Supported :=
      fun u here => supported u (List.mem_cons_of_mem v here)
    have two : ∀ u ∈ [v, v], u.Supported := by simpa using one
    have more : w :: others ≠ [] := List.cons_ne_nil w others
    calc observed widen ([v, v] ++ w :: others)
        = merge widen (observed widen [v, v]) (observed widen (w :: others)) :=
          (merge_observed two tail (List.cons_ne_nil v [v]) more).symm
      _ = merge widen (observed widen [v]) (observed widen (w :: others)) := by rw [twice]
      _ = observed widen ([v] ++ w :: others) := merge_observed one tail filled more

theorem agrees_observed_repeat {v : Value} (here : v ∈ first) (supported : ∀ w ∈ first, w.Supported) :
    Agrees (observed widen first) (observed widen (v :: first)) := by
  obtain ⟨before, after, rfl⟩ := List.append_of_mem here
  have front : (before ++ v :: after).Perm (v :: (before ++ after)) := List.perm_middle
  have valid : ∀ w ∈ v :: (before ++ after), w.Supported :=
    fun w member => supported w (front.mem_iff.mpr member)
  have repeated : ∀ w ∈ v :: (before ++ v :: after), w.Supported :=
    List.forall_mem_cons.mpr ⟨supported v here, supported⟩
  have left : Agrees (observed widen (before ++ v :: after)) _ := agrees_observed_perm front supported
  have right : Agrees (observed widen (v :: (before ++ v :: after))) _ :=
    agrees_observed_perm (front.cons v) repeated
  rw [observed_repeat valid] at right
  exact left.trans right.symm

end Lists

theorem agrees_observed_list {items others : List Value} (supported : (Value.list items).Supported)
    (valid : (Value.list others).Supported) :
    Agrees (observed widen [.list items]) (observed widen [.list others]) ↔
      Agrees (observed widen items) (observed widen others) ∧ items.isEmpty = others.isEmpty := by
  rw [observed_one supported, observed_one valid]
  exact agrees_array

/-! Entries of an object. -/

theorem lookup_observedFields_object {entries : List (Key × Value)}
    (distinct : (Entries.keys entries).Nodup)
    (named : ∀ entry ∈ entries, ∃ name, entry.1 = .name name) (name : Str) :
    (observedFields widen [.object entries]).lookup name =
      (entries.lookup (.name name)).map fun v => ⟨observed widen [v], false⟩ := by
  rw [observedFields_object distinct named]
  clear distinct
  induction entries with
  | nil => rfl
  | cons entry rest ih =>
    obtain ⟨key, v⟩ := entry
    rw [List.forall_mem_cons] at named
    obtain ⟨other, rfl⟩ := named.1
    have later := ih named.2
    by_cases equal : name = other
    · simp [equal, Key.text]
    · have differ : (name == other) = false := beq_eq_false_iff_ne.mpr equal
      have keys : (Key.name name == Key.name other) = false := by simpa using equal
      have text : (Key.name other).text = other := rfl
      rw [List.map_cons, List.lookup_cons, List.lookup_cons, text, differ, keys]
      exact later

theorem agrees_observed_object {entries others : List (Key × Value)}
    (supported : (Value.object entries).Supported) (valid : (Value.object others).Supported)
    (same : ∀ name, (entries.lookup (.name name)).map (fun v => (observed widen [v]).arranged) =
      (others.lookup (.name name)).map fun v => (observed widen [v]).arranged) :
    Agrees (observed widen [.object entries]) (observed widen [.object others]) := by
  obtain ⟨distinct, named, _⟩ := Value.supported_object.mp supported
  obtain ⟨distinct', named', _⟩ := Value.supported_object.mp valid
  rw [observed_one supported, observed_one valid, ofOne, ofOne,
    agrees_object (nodup_keys_observedFields _) (nodup_keys_observedFields _)]
  intro name
  rw [lookup_observedFields_object distinct named, lookup_observedFields_object distinct' named']
  have shapes := same name
  cases left : entries.lookup (.name name) <;> cases right : others.lookup (.name name) <;>
    simp_all [FieldSpec.map]

theorem agrees_of_rearranged {v w : Value} (rearranged : Rearranged v w) (supported : v.Supported) :
    Agrees (observed widen [v]) (observed widen [w]) := by
  have valid := supported.rearranged rearranged
  induction rearranged with
  | refl v => rfl
  | trans first second ih ih' =>
    have middle := supported.rearranged first
    exact (ih supported middle).trans (ih' middle valid)
  | permuteItems perm =>
    rw [agrees_observed_list supported valid]
    refine ⟨agrees_observed_perm perm (Value.supported_list.mp supported), ?_⟩
    exact perm.isEmpty_eq
  | repeatItem here =>
    rw [agrees_observed_list supported valid]
    refine ⟨agrees_observed_repeat here (Value.supported_list.mp supported), ?_⟩
    rw [List.isEmpty_eq_false_iff.mpr (List.ne_nil_of_mem here)]
    rfl
  | permuteEntries perm =>
    apply agrees_observed_object supported valid
    intro name
    rw [Entries.lookup_perm (Value.supported_object.mp supported).1 perm]
  | @item v w before after inner ih =>
    rw [agrees_observed_list supported valid]
    rw [Value.supported_list, List.forall_mem_append, List.forall_mem_cons] at supported valid
    obtain ⟨first, one, last⟩ := supported
    obtain ⟨_, two, _⟩ := valid
    have filled : v :: after = [] ↔ w :: after = [] := by simp
    have tail : Agrees (observed widen ([v] ++ after)) (observed widen ([w] ++ after)) :=
      agrees_observed_append (by simpa using one) last
        (by simpa using two) last (ih one two) rfl (by simp) Iff.rfl
    constructor
    · exact agrees_observed_append first (List.forall_mem_cons.mpr ⟨one, last⟩) first
        (List.forall_mem_cons.mpr ⟨two, last⟩) rfl tail Iff.rfl filled
    · cases before <;> rfl
  | @entry v w key before after inner ih =>
    apply agrees_observed_object supported valid
    intro name
    obtain ⟨_, _, each⟩ := Value.supported_object.mp supported
    obtain ⟨_, _, each'⟩ := Value.supported_object.mp valid
    have one : v.Supported := each (key, v) (by simp)
    have two : w.Supported := each' (key, w) (by simp)
    have shapes : (observed widen [v]).arranged = (observed widen [w]).arranged := ih one two
    rw [List.lookup_append, List.lookup_append, List.lookup_cons, List.lookup_cons]
    cases before.lookup (Key.name name) with
    | some found => rfl
    | none => cases Key.name name == key <;> simp [shapes]

end Shape

end SampleTypes
