import Mathlib.Data.List.Induction
import SampleTypes.Proofs.Shape.Arrangement
import SampleTypes.Shape.Merge

/-! Well-formed shapes without references. A well-formed shape holds at most one shape of each family,
and is determined by these members. -/

namespace SampleTypes.Shape

/-- At every depth fields have distinct names, a placeholder is an array of nulls, and a union has at
least two variants, none of them a union and no two of one family, in canonical order. -/
inductive WellFormed (widen : Bool) : Shape → Prop where
  | primitive (kind : Kind) : WellFormed widen (.primitive kind)
  | array {e : Shape} {placeholder : Bool} (element : WellFormed widen e)
      (marked : placeholder = true → e = .null) : WellFormed widen (.array e placeholder)
  | object {fields : Fields} (distinct : (Entries.keys fields).Nodup)
      (shapes : ∀ entry ∈ fields, WellFormed widen entry.2.shape) :
      WellFormed widen (.object fields)
  | union {variants : List Shape} (several : 2 ≤ variants.length)
      (single : ∀ v ∈ variants, v.isUnion = false)
      (families : (variants.map (family widen)).Nodup)
      (ordered : variants.Pairwise (precedes · ·))
      (shapes : ∀ v ∈ variants, WellFormed widen v) : WellFormed widen (.union variants)

/-- Shapes that can stand side by side in a union, in any order. -/
structure Separate (widen : Bool) (variants : List Shape) : Prop where
  shapes : ∀ v ∈ variants, WellFormed widen v
  single : ∀ v ∈ variants, v.isUnion = false
  families : (variants.map (family widen)).Nodup

variable {widen : Bool}

theorem precedes_total (s t : Shape) : precedes s t = true ∨ precedes t s = true := by
  simp only [precedes, Bool.or_eq_true, Bool.and_eq_true, decide_eq_true_eq, beq_iff_eq]
  rcases Nat.lt_trichotomy s.rank t.rank with below | equal | above
  · exact Or.inl (Or.inl below)
  · rcases String.le_total s.key t.key with first | second
    · exact Or.inl (Or.inr ⟨equal, first⟩)
    · exact Or.inr (Or.inr ⟨equal.symm, second⟩)
  · exact Or.inr (Or.inl above)

theorem precedes_trans (s t u : Shape) (first : precedes s t = true)
    (second : precedes t u = true) : precedes s u = true := by
  simp only [precedes, Bool.or_eq_true, Bool.and_eq_true, decide_eq_true_eq, beq_iff_eq]
    at first second ⊢
  rcases first with below | ⟨equal, ordered⟩
  · rcases second with later | ⟨later, _⟩ <;> exact Or.inl (by omega)
  · rcases second with later | ⟨later, next⟩
    · exact Or.inl (by omega)
    · exact Or.inr ⟨by omega, String.le_trans ordered next⟩

theorem rank_le_of_precedes {s t : Shape} (first : precedes s t = true) : s.rank ≤ t.rank := by
  simp only [precedes, Bool.or_eq_true, Bool.and_eq_true, decide_eq_true_eq, beq_iff_eq] at first
  omega

theorem precedes_of_rank_lt {s t : Shape} (below : s.rank < t.rank) : precedes s t = true := by
  simp [precedes, below]

theorem rank_ne_of_family_ne {s t : Shape} (first : WellFormed widen s)
    (second : WellFormed widen t) (single : s.isUnion = false) (other : t.isUnion = false)
    (differ : s.family widen ≠ t.family widen) : s.rank ≠ t.rank := by
  cases first with
  | union => cases single
  | primitive j =>
    cases second with
    | union => cases other
    | primitive k =>
      intro equal
      apply differ
      rw [show j = k by revert equal; cases j <;> cases k <;> decide]
    | _ => cases j <;> simp [rank, rank?]
  | array =>
    cases second with
    | union => cases other
    | primitive k => cases k <;> simp [rank, rank?]
    | array => exact absurd rfl differ
    | object => simp [rank, rank?]
  | object =>
    cases second with
    | union => cases other
    | primitive k => cases k <;> simp [rank, rank?]
    | object => exact absurd rfl differ
    | array => simp [rank, rank?]

theorem family_eq_of_same {s t : Shape} (equal : (s == t) = true) :
    s.family widen = t.family widen := by
  change s.same t = true at equal
  cases s <;> cases t <;> simp_all [same, family]

theorem distinct_concat (shapes : List Shape) (s : Shape) :
    distinct (shapes ++ [s]) =
      if (distinct shapes).contains s then distinct shapes else distinct shapes ++ [s] := by
  rw [distinct, List.foldl_append]
  rfl

theorem contains_eq_false {shapes : List Shape} {s : Shape} :
    shapes.contains s = false ↔ ∀ t ∈ shapes, (s == t) = false := by
  simp [List.contains_eq_any_beq]

theorem mem_of_mem_distinct {shapes : List Shape} {s : Shape} (here : s ∈ distinct shapes) :
    s ∈ shapes := by
  induction shapes using List.reverseRecOn with
  | nil => exact here
  | append_singleton shapes t ih =>
    rw [distinct_concat] at here
    split_ifs at here
    · exact List.mem_append_left [t] (ih here)
    · exact List.mem_append.mpr ((List.mem_append.mp here).imp_left ih)

theorem distinct_eq_self {shapes : List Shape}
    (differ : shapes.Pairwise fun s t => (t == s) = false) : distinct shapes = shapes := by
  induction shapes using List.reverseRecOn with
  | nil => rfl
  | append_singleton shapes s ih =>
    obtain ⟨earlier, _, last⟩ := List.pairwise_append.mp differ
    have fresh : shapes.contains s = false :=
      contains_eq_false.mpr fun t here => last t here s (List.mem_singleton.mpr rfl)
    rw [distinct_concat, ih earlier, fresh, if_neg Bool.false_ne_true]

theorem keys_distinct {κ : Type} (key : Shape → κ) {shapes : List Shape}
    (equal : ∀ s ∈ shapes, ∀ t ∈ shapes, (s == t) = true ↔ key s = key t) :
    ((distinct shapes).map key).Nodup ∧
      ∀ k, k ∈ (distinct shapes).map key ↔ k ∈ shapes.map key := by
  induction shapes using List.reverseRecOn with
  | nil => exact ⟨List.nodup_nil, fun _ => Iff.rfl⟩
  | append_singleton shapes s ih =>
    have last : s ∈ shapes ++ [s] := List.mem_append_right shapes (List.mem_singleton.mpr rfl)
    obtain ⟨nodup, same⟩ := ih fun t here u there =>
      equal t (List.mem_append_left [s] here) u (List.mem_append_left [s] there)
    have known : (distinct shapes).contains s = true ↔ key s ∈ shapes.map key := by
      rw [← same, List.contains_eq_any_beq, List.any_eq_true, List.mem_map]
      apply exists_congr
      intro t
      apply and_congr_right
      intro here
      rw [equal s last t (List.mem_append_left [s] (mem_of_mem_distinct here)), eq_comm]
    rw [distinct_concat]
    split_ifs with old
    · refine ⟨nodup, fun k => ?_⟩
      rw [same, List.map_append, List.mem_append, List.map_singleton, List.mem_singleton]
      exact (or_iff_left_of_imp fun new => new ▸ known.mp old).symm
    · have fresh : key s ∉ (distinct shapes).map key := fun here => old (known.mpr ((same _).mp here))
      constructor
      · rw [List.map_append, List.map_singleton, ← List.concat_eq_append]
        exact nodup.concat fresh
      · intro k
        rw [List.map_append, List.map_append, List.mem_append, List.mem_append, same]

theorem flatMap_variants {shapes : List Shape} (single : ∀ s ∈ shapes, s.isUnion = false) :
    shapes.flatMap variants = shapes := by
  induction shapes with
  | nil => rfl
  | cons s rest ih =>
    have alone : s.variants = [s] := by
      have := single s List.mem_cons_self
      cases s <;> simp_all [variants, isUnion]
    rw [List.flatMap_cons, alone, ih fun t member => single t (List.mem_cons_of_mem s member)]
    rfl

theorem two_le_length {α : Type} {items : List α} (nonempty : items ≠ [])
    (many : ∀ a, items ≠ [a]) : 2 ≤ items.length := by
  rcases items with _ | ⟨a, _ | ⟨b, rest⟩⟩
  · exact absurd rfl nonempty
  · exact absurd rfl (many a)
  · simp

namespace Separate

theorem singleton {s : Shape} (shape : WellFormed widen s) (single : s.isUnion = false) :
    Separate widen [s] := by
  constructor <;> simp [shape, single]

theorem canonicalVariants_eq {shapes : List Shape} (separate : Separate widen shapes) :
    canonicalVariants shapes = sort precedes shapes := by
  unfold canonicalVariants
  rw [flatMap_variants separate.single, distinct_eq_self]
  apply (List.pairwise_map.mp separate.families).imp
  intro s t differ
  rw [Bool.eq_false_iff]
  intro equal
  exact differ (family_eq_of_same equal).symm

theorem perm {shapes others : List Shape} (separate : Separate widen shapes)
    (perm : others.Perm shapes) : Separate widen others where
  shapes s member := separate.shapes s (perm.mem_iff.mp member)
  single s member := separate.single s (perm.mem_iff.mp member)
  families := (perm.symm.map _).nodup separate.families

theorem tail {s : Shape} {rest : List Shape} (separate : Separate widen (s :: rest)) :
    Separate widen rest where
  shapes t member := separate.shapes t (List.mem_cons_of_mem s member)
  single t member := separate.single t (List.mem_cons_of_mem s member)
  families := (List.nodup_cons.mp separate.families).2

theorem eq_of_family {shapes : List Shape} (separate : Separate widen shapes) {s t : Shape}
    (here : s ∈ shapes) (there : t ∈ shapes) (equal : s.family widen = t.family widen) : s = t :=
  List.inj_on_of_nodup_map separate.families here there equal

theorem pairwise_rank_lt {shapes : List Shape} (separate : Separate widen shapes)
    (ordered : shapes.Pairwise (precedes · ·)) :
    shapes.Pairwise fun v w => v.rank < w.rank := by
  have both := ordered.and (List.pairwise_map.mp separate.families)
  apply both.imp_of_mem
  rintro v w here there ⟨before, differ⟩
  apply Nat.lt_of_le_of_ne (rank_le_of_precedes before)
  exact rank_ne_of_family_ne (separate.shapes v here) (separate.shapes w there)
    (separate.single v here) (separate.single w there) differ

theorem variants_unionOf {shapes : List Shape} (separate : Separate widen shapes) :
    (unionOf shapes).variants = sort precedes shapes := by
  have sorted := separate.perm (sort_perm precedes shapes)
  rw [unionOf, separate.canonicalVariants_eq]
  split
  · rename_i s only
    have single := sorted.single s (by simp [only])
    rw [only]
    cases s <;> simp_all [variants, isUnion]
  · rfl

theorem wellFormed_unionOf {shapes : List Shape} (separate : Separate widen shapes)
    (nonempty : shapes ≠ []) : WellFormed widen (unionOf shapes) := by
  have sorted := separate.perm (sort_perm precedes shapes)
  rw [unionOf, separate.canonicalVariants_eq]
  split
  · rename_i s only
    exact sorted.shapes s (by simp [only])
  · rename_i several
    exact WellFormed.union (two_le_length (sort_ne_nil nonempty) several) sorted.single sorted.families
      (pairwise_sort precedes_total precedes_trans shapes) sorted.shapes

end Separate

namespace WellFormed

theorem variants_of_single {s : Shape} (single : s.isUnion = false) : s.variants = [s] := by
  cases s <;> simp_all [Shape.variants, isUnion]

theorem separate {s : Shape} (wellFormed : WellFormed widen s) : Separate widen s.variants := by
  cases wellFormed with
  | union several single families ordered shapes => exact ⟨shapes, single, families⟩
  | primitive kind => exact .singleton (.primitive kind) rfl
  | array element marked => exact .singleton (.array element marked) rfl
  | object distinct shapes => exact .singleton (.object distinct shapes) rfl

theorem ordered {s : Shape} (wellFormed : WellFormed widen s) :
    s.variants.Pairwise (precedes · ·) := by
  cases wellFormed with
  | union several single families ordered shapes => exact ordered
  | _ => exact List.pairwise_singleton _ _

theorem variants_ne_nil {s : Shape} (wellFormed : WellFormed widen s) : s.variants ≠ [] := by
  cases wellFormed with
  | union several single families ordered shapes =>
    rintro empty
    simp [Shape.variants] at empty
    simp [empty] at several
  | _ => simp [Shape.variants]

theorem unionOf_variants {s : Shape} (wellFormed : WellFormed widen s) :
    unionOf s.variants = s := by
  rw [unionOf, wellFormed.separate.canonicalVariants_eq, sort_eq_self wellFormed.ordered]
  cases wellFormed with
  | union several single families ordered shapes =>
    simp only [Shape.variants]
    split
    · simp at several
    · rfl
  | _ => rfl

end WellFormed

def ofFamily (widen : Bool) (φ : Family) (shapes : List Shape) : Option Shape :=
  shapes.find? fun s => decide (s.family widen = φ)

/-- The part of a shape that is of a family: the shape itself or one of its variants. -/
def member (widen : Bool) (φ : Family) (s : Shape) : Option Shape := ofFamily widen φ s.variants

theorem ofFamily_eq_some {shapes : List Shape} (separate : Separate widen shapes) {φ : Family}
    {s : Shape} : ofFamily widen φ shapes = some s ↔ s ∈ shapes ∧ s.family widen = φ := by
  unfold ofFamily
  constructor
  · intro found
    exact ⟨List.mem_of_find?_eq_some found, by simpa using List.find?_some found⟩
  · rintro ⟨here, family⟩
    cases found : shapes.find? fun s => decide (s.family widen = φ) with
    | none =>
      rw [List.find?_eq_none] at found
      exact absurd family (by simpa using found s here)
    | some t =>
      have equal : t.family widen = φ := by simpa using List.find?_some found
      rw [separate.eq_of_family (List.mem_of_find?_eq_some found) here (equal.trans family.symm)]

theorem ofFamily_perm {shapes others : List Shape} (separate : Separate widen shapes)
    (perm : others.Perm shapes) (φ : Family) :
    ofFamily widen φ others = ofFamily widen φ shapes := by
  apply Option.ext
  intro s
  rw [ofFamily_eq_some separate, ofFamily_eq_some (separate.perm perm), perm.mem_iff]

theorem eq_of_ofFamily {shapes others : List Shape} (separate : Separate widen shapes)
    (otherwise : Separate widen others) (ordered : shapes.Pairwise (precedes · ·))
    (arranged : others.Pairwise (precedes · ·))
    (same : ∀ φ, ofFamily widen φ shapes = ofFamily widen φ others) : shapes = others := by
  have occurrences : ∀ s, s ∈ shapes ↔ s ∈ others := by
    intro s
    have this := same (s.family widen)
    constructor
    · intro here
      rw [(ofFamily_eq_some separate).mpr ⟨here, rfl⟩] at this
      exact ((ofFamily_eq_some otherwise).mp this.symm).1
    · intro there
      rw [(ofFamily_eq_some otherwise).mpr ⟨there, rfl⟩] at this
      exact ((ofFamily_eq_some separate).mp this).1
  have perm : shapes.Perm others :=
    (List.perm_ext_iff_of_nodup separate.families.of_map otherwise.families.of_map).mpr occurrences
  apply List.Perm.eq_of_pairwise _ ordered arranged perm
  intro s t here there first second
  have there := (occurrences t).mpr there
  by_contra differ
  apply rank_ne_of_family_ne (separate.shapes s here) (separate.shapes t there)
    (separate.single s here) (separate.single t there)
  · intro equal
    exact differ (separate.eq_of_family here there equal)
  · exact Nat.le_antisymm (rank_le_of_precedes first) (rank_le_of_precedes second)

/-- A well-formed shape is determined by its members. -/
theorem eq_of_member {s t : Shape} (first : WellFormed widen s) (second : WellFormed widen t)
    (same : ∀ φ, member widen φ s = member widen φ t) : s = t := by
  have variants : s.variants = t.variants :=
    eq_of_ofFamily first.separate second.separate first.ordered second.ordered same
  calc s = unionOf s.variants := first.unionOf_variants.symm
    _ = unionOf t.variants := by rw [variants]
    _ = t := second.unionOf_variants

theorem member_unionOf {shapes : List Shape} (separate : Separate widen shapes) (φ : Family) :
    member widen φ (unionOf shapes) = ofFamily widen φ shapes := by
  calc member widen φ (unionOf shapes)
      = ofFamily widen φ (sort precedes shapes) := by rw [member, separate.variants_unionOf]
    _ = ofFamily widen φ shapes := ofFamily_perm separate (sort_perm precedes shapes) φ

theorem member_eq_some {s : Shape} (wellFormed : WellFormed widen s) {φ : Family} {v : Shape} :
    member widen φ s = some v ↔ v ∈ s.variants ∧ v.family widen = φ :=
  ofFamily_eq_some wellFormed.separate

end SampleTypes.Shape
