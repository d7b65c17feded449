import SampleTypes.Proofs.Samples.Inference
import SampleTypes.Proofs.Shape.CanonicalUnions
import SampleTypes.Proofs.Shape.CheckedMerge

/-! Shapes that come of samples by any run of inferring and merging. They are all in order, so that no
merge of them fails. -/

namespace SampleTypes.Shape

variable {widen : Bool}

/-- At every depth fields have distinct names and no union with null for their shape, a placeholder is
an array of nulls, and a union has at least two variants, none of them a union and no two of one kind,
in strictly rising order, where integers and floats do not stand side by side if they are widened. -/
inductive Orderly (widen : Bool) : Shape → Prop where
  | primitive (kind : Kind) : Orderly widen (.primitive kind)
  | array {e : Shape} {placeholder : Bool} (element : Orderly widen e)
      (marked : placeholder = true → e = .null) : Orderly widen (.array e placeholder)
  | object {fields : Fields} (distinct : (Entries.keys fields).Nodup)
      (clear : ∀ entry ∈ fields, entry.2.shape.isUnion = true → .null ∉ entry.2.shape.variants)
      (shapes : ∀ entry ∈ fields, Orderly widen entry.2.shape) : Orderly widen (.object fields)
  | union {variants : List Shape} (several : 2 ≤ variants.length)
      (single : ∀ v ∈ variants, v.isUnion = false) (kinds : (variants.map kindName).Nodup)
      (rising : variants.Pairwise fun v w => v.rank < w.rank ∨ v.rank = w.rank ∧ v.key < w.key)
      (numbers : widen = true → .primitive .integer ∈ variants → .primitive .float ∉ variants)
      (shapes : ∀ v ∈ variants, Orderly widen v) : Orderly widen (.union variants)

theorem rank_eq_of_kindName {v w : Shape} (equal : v.kindName = w.kindName) : v.rank = w.rank := by
  cases v with
  | primitive j =>
    cases w with
    | primitive k => rw [Kind.name_injective equal]
    | _ => revert equal; cases j <;> simp [kindName, Kind.name]
  | _ =>
    cases w with
    | primitive k => revert equal; cases k <;> simp [kindName, Kind.name]
    | _ => first | rfl | simp [kindName] at equal

theorem orderly_of_wellFormed {s : Shape} (wellFormed : WellFormed widen s) (clear : ClearFields s) :
    Orderly widen s := by
  induction wellFormed with
  | primitive kind => exact .primitive kind
  | array element marked ih =>
    cases clear with
    | array _ deep => exact .array (ih deep) marked
  | object distinct shapes ih =>
    cases clear with
    | object clear deep => exact .object distinct clear fun entry here => ih entry here (deep entry here)
  | @union variants several single families ordered shapes ih =>
    have separate : Separate widen variants := ⟨shapes, single, families⟩
    have rising := separate.pairwise_rank_lt ordered
    refine .union several single ?_ (rising.imp Or.inl) ?_ fun v here => ih v here (clear.variant here)
    · rw [List.Nodup, List.pairwise_map]
      exact rising.imp fun below equal => absurd (rank_eq_of_kindName equal) (Nat.ne_of_lt below)
    · rintro rfl integer float
      cases separate.eq_of_family integer float rfl

/-- Shapes that come of supported values by inferring, by merging shapes and fields, and by taking apart
what there is. -/
inductive Produced (widen : Bool) : Shape → Prop where
  | inferred {v : Value} {s : Shape} (supported : v.Supported) (returned : infer widen v = .ok s) :
      Produced widen s
  | merged {a b s : Shape} (first : Produced widen a) (second : Produced widen b)
      (returned : checkedMerge widen a b = .ok s) : Produced widen s
  | mergedAll {first s : Shape} {rest : List Shape} (start : Produced widen first)
      (others : ∀ t ∈ rest, Produced widen t) (returned : checkedMergeAll widen first rest = .ok s) :
      Produced widen s
  | mergedFields {f g h : Field} (first : Produced widen f.shape) (second : Produced widen g.shape)
      (returned : checkedMergeFields widen f g = .ok h) : Produced widen h.shape
  | element {e : Shape} {placeholder : Bool} (array : Produced widen (.array e placeholder)) :
      Produced widen e
  | field {fields : Fields} {entry : Str × Field} (object : Produced widen (.object fields))
      (here : entry ∈ fields) : Produced widen entry.2.shape
  | variant {variants : List Shape} {v : Shape} (union : Produced widen (.union variants))
      (here : v ∈ variants) : Produced widen v

/-- Fields of such objects, fields with the shape of one value, and what comes of merging them. -/
inductive ProducedField (widen : Bool) : Field → Prop where
  | ofObject {fields : Fields} {entry : Str × Field} (object : Produced widen (.object fields))
      (here : entry ∈ fields) : ProducedField widen entry.2
  | inferred {v : Value} {s : Shape} (supported : v.Supported) (returned : infer widen v = .ok s)
      (optional : Bool) : ProducedField widen ⟨s, optional⟩
  | merged {f g h : Field} (first : ProducedField widen f) (second : ProducedField widen g)
      (returned : checkedMergeFields widen f g = .ok h) : ProducedField widen h

/-! What every call keeps. -/

structure Sound (widen : Bool) (s : Shape) : Prop where
  wellFormed : WellFormed widen s
  clear : ClearFields s

namespace Sound

variable {a b : Shape}

theorem buildable (sound : Sound widen a) : Buildable a := sound.wellFormed.ranked.buildable

theorem merge (first : Sound widen a) (second : Sound widen b) : Sound widen (merge widen a b) :=
  ⟨wellFormed_merge first.wellFormed second.wellFormed,
    clearFields_merge first.wellFormed second.wellFormed first.clear second.clear⟩

theorem foldl_merge {first : Shape} {rest : List Shape} (start : Sound widen first)
    (others : ∀ s ∈ rest, Sound widen s) : Sound widen (rest.foldl (Shape.merge widen) first) := by
  induction rest generalizing first with
  | nil => exact start
  | cons s rest ih =>
    rw [List.forall_mem_cons] at others
    exact ih (start.merge others.1) others.2

theorem mergeFields {f g : Field} (first : Sound widen f.shape) (second : Sound widen g.shape) :
    Sound widen (mergeFields widen f g).shape := by
  rw [mergeFields_eq]
  change Sound widen (mergeUnlessNull widen f.shape g.shape)
  rw [mergeUnlessNull]
  split_ifs
  · exact second
  · exact first
  · exact first.merge second

end Sound

theorem sound_of_infer {v : Value} {s : Shape} (supported : v.Supported)
    (returned : infer widen v = .ok s) : Sound widen s := by
  rw [infer_eq_observed supported] at returned
  cases returned
  exact ⟨wellFormed_observed (by simpa using supported), clearFields_observed⟩

theorem isUnion_of_infer {v : Value} {s : Shape} (supported : v.Supported)
    (returned : infer widen v = .ok s) : s.isUnion = false := by
  rw [infer_eq_observed supported, observed_one supported] at returned
  cases returned
  cases v <;> rfl

section Calls

variable {a b first : Shape} {rest : List Shape} {f g : Field}

theorem checkedMerge_of_sound (left : Sound widen a) (right : Sound widen b) :
    checkedMerge widen a b = .ok (merge widen a b) :=
  (computes_merge left.buildable right.buildable).result

theorem checkedMergeAll_of_sound (start : Sound widen first) (others : ∀ s ∈ rest, Sound widen s) :
    checkedMergeAll widen first rest = .ok (rest.foldl (merge widen) first) := by
  rw [checkedMergeAll]
  induction rest generalizing first with
  | nil => rfl
  | cons s rest ih =>
    rw [List.forall_mem_cons] at others
    rw [List.foldlM_cons, checkedMerge_of_sound start others.1]
    exact ih (start.merge others.1) others.2

theorem checkedMergeFields_of_sound (left : Sound widen f.shape) (right : Sound widen g.shape) :
    checkedMergeFields widen f g = .ok (mergeFields widen f g) :=
  checkedField_eq (computes_merge left.buildable right.buildable)

end Calls

theorem Produced.sound {s : Shape} (produced : Produced widen s) : Sound widen s := by
  induction produced with
  | inferred supported returned => exact sound_of_infer supported returned
  | merged _ _ returned ihFirst ihSecond =>
    rw [checkedMerge_of_sound ihFirst ihSecond] at returned
    cases returned
    exact ihFirst.merge ihSecond
  | mergedAll _ _ returned ihStart ihOthers =>
    rw [checkedMergeAll_of_sound ihStart ihOthers] at returned
    cases returned
    exact ihStart.foldl_merge ihOthers
  | mergedFields _ _ returned ihFirst ihSecond =>
    rw [checkedMergeFields_of_sound ihFirst ihSecond] at returned
    cases returned
    exact ihFirst.mergeFields ihSecond
  | element _ ih =>
    rcases ih with ⟨_ | ⟨wellFormed, _⟩, _ | ⟨_, clear⟩⟩
    exact ⟨wellFormed, clear⟩
  | field _ here ih =>
    rcases ih with ⟨_ | _ | ⟨_, wellFormed⟩, _ | _ | ⟨_, clear⟩⟩
    exact ⟨wellFormed _ here, clear _ here⟩
  | variant _ here ih =>
    exact ⟨ih.wellFormed.separate.shapes _ here, ih.clear.variant here⟩

theorem ProducedField.sound {f : Field} (produced : ProducedField widen f) :
    Sound widen f.shape ∧ Clear f.shape := by
  induction produced with
  | ofObject object here =>
    refine ⟨(Produced.field object here).sound, ?_⟩
    rcases object.sound with ⟨_, _ | _ | ⟨clear, _⟩⟩
    exact clear _ here
  | inferred supported returned optional =>
    exact ⟨sound_of_infer supported returned, clear_of_single (isUnion_of_infer supported returned)⟩
  | merged _ _ returned ihFirst ihSecond =>
    rw [checkedMergeFields_of_sound ihFirst.1 ihSecond.1] at returned
    cases returned
    exact ⟨ihFirst.1.mergeFields ihSecond.1,
      clear_mergeFields ihFirst.1.wellFormed ihSecond.1.wellFormed ihFirst.2 ihSecond.2⟩

/-- All shapes and fields that any calls produce are in order, and no call that merges them fails. -/
theorem orderly_of_produced (widen : Bool) :
    (∀ s, Produced widen s → Orderly widen s) ∧
      (∀ f, ProducedField widen f →
        Orderly widen f.shape ∧ (f.shape.isUnion = true → .null ∉ f.shape.variants)) ∧
      (∀ a b, Produced widen a → Produced widen b →
        checkedMerge widen a b = .ok (merge widen a b)) ∧
      (∀ first rest, Produced widen first → (∀ s ∈ rest, Produced widen s) →
        checkedMergeAll widen first rest = .ok (rest.foldl (merge widen) first)) ∧
      ∀ f g, Produced widen f.shape → Produced widen g.shape →
        checkedMergeFields widen f g = .ok (mergeFields widen f g) := by
  refine ⟨?_, ?_, ?_, ?_, ?_⟩
  · intro s produced
    exact orderly_of_wellFormed produced.sound.wellFormed produced.sound.clear
  · intro f produced
    obtain ⟨sound, clear⟩ := produced.sound
    exact ⟨orderly_of_wellFormed sound.wellFormed sound.clear, clear⟩
  · exact fun a b first second => checkedMerge_of_sound first.sound second.sound
  · exact fun first rest start others =>
      checkedMergeAll_of_sound start.sound fun s here => (others s here).sound
  · exact fun f g first second => checkedMergeFields_of_sound first.sound second.sound

/-- A list that holds a null and a null itself under one name. -/
theorem orderly_of_produced_of_null :
    let first : Value := .object [(.name "k", .list [.null, .int 1])]
    let second : Value := .object [(.name "k", .null), (.name "m", .list [])]
    ∃ a b, infer true first = .ok a ∧ infer true second = .ok b ∧
      ∃ s, checkedMerge true a b = .ok s ∧ Orderly true s := by
  intro first second
  have empty : Value.Supported (.list []) := .list (List.forall_mem_nil _)
  have items : Value.Supported (.list [.null, .int 1]) :=
    .list (by simp [Value.Supported.null, Value.Supported.int])
  have one : Value.Supported first := .object (by decide) (by simp) (by simpa using items)
  have two : Value.Supported second :=
    .object (by decide) (by simp) (by simp [Value.Supported.null, empty])
  obtain ⟨orderly, _, merges, _⟩ := orderly_of_produced true
  have left : Produced true (observed true [first]) := .inferred one (infer_eq_observed one)
  have right : Produced true (observed true [second]) := .inferred two (infer_eq_observed two)
  have returned := merges _ _ left right
  exact ⟨_, _, infer_eq_observed one, infer_eq_observed two, _, returned,
    orderly _ (.merged left right returned)⟩

end SampleTypes.Shape
