import SampleTypes.Proofs.Shape.WellFormed

/-! What a merge holds: family by family, the merge of the members of both shapes; in an object, name
by name, the merge of the fields of both. Merging keeps shapes well-formed. -/

namespace SampleTypes.Shape

variable {widen : Bool}

theorem isNull_iff {s : Shape} : s.isNull = true ↔ s = .null := by
  cases s with
  | primitive kind => cases kind <;> simp [isNull, Shape.null]
  | _ => simp [isNull, Shape.null]

theorem unionOf_singleton {s : Shape} (single : s.isUnion = false) : unionOf [s] = s := by
  rw [unionOf, canonicalVariants, flatMap_variants (by simpa using single)]
  rfl

/-! Merging with a shape that is no union. -/

theorem mergeInto_of_single {join : Shape → Shape} {s a : Shape} (single : a.isUnion = false) :
    mergeInto widen join s a = join a := by
  cases a <;> first | rfl | cases single

theorem merge_primitives (j k : Kind) :
    merge widen (.primitive j) (.primitive k) = mergeKinds widen j k := by
  simp [merge, mergeInto, joinPrimitive]

theorem merge_arrays (e f : Shape) (p q : Bool) :
    merge widen (.array e p) (.array f q) =
      if p && q then .array e p
      else if p then .array f false
      else if q then .array e false
      else .array (merge widen e f) false := by
  simp [merge, mergeInto, joinArray]

def mergeObjects (widen : Bool) (first second : Fields) : Fields :=
  joinFields (fieldJoins widen second) second first

theorem merge_objects (first second : Fields) :
    merge widen (.object first) (.object second) = .object (mergeObjects widen first second) := by
  simp [merge, mergeInto, joinObject, mergeObjects]

theorem merge_of_family_ne {a b : Shape} (single : a.isUnion = false) (other : b.isUnion = false)
    (differ : a.family widen ≠ b.family widen) : merge widen a b = unionOf [a, b] := by
  cases b with
  | union variants => cases other
  | primitive k =>
    rw [merge, mergeInto_of_single single]
    cases a with
    | primitive j =>
      have kinds : j ≠ k := fun equal => differ (by rw [equal])
      rw [joinPrimitive, mergeKinds, if_neg kinds, if_neg]
      intro widened
      apply differ
      revert widened
      cases widen <;> cases j <;> cases k <;> decide
    | _ => rfl
  | array f q =>
    rw [merge, mergeInto_of_single single]
    cases a with
    | array e p => exact absurd rfl differ
    | _ => rfl
  | object second =>
    rw [merge, mergeInto_of_single single]
    cases a with
    | object first => exact absurd rfl differ
    | _ => rfl
  | reference n =>
    rw [merge, mergeInto_of_single single]
    cases a with
    | reference m =>
      have names : m ≠ n := fun equal => differ (by rw [equal])
      rw [joinReference, if_neg names]
    | _ => rfl

theorem primitive_of_family {s : Shape} {k : Kind}
    (equal : s.family widen = (Shape.primitive k).family widen) : ∃ j, s = .primitive j := by
  cases s with
  | primitive j => exact ⟨j, rfl⟩
  | _ => revert equal; cases widen <;> cases k <;> simp [family]

theorem array_of_family {s : Shape} (equal : s.family widen = .array) : ∃ e p, s = .array e p := by
  cases s with
  | array e p => exact ⟨e, p, rfl⟩
  | primitive j => revert equal; cases widen <;> cases j <;> simp [family]
  | _ => cases equal

theorem object_of_family {s : Shape} (equal : s.family widen = .object) :
    ∃ fields, s = .object fields := by
  cases s with
  | object fields => exact ⟨fields, rfl⟩
  | primitive j => revert equal; cases widen <;> cases j <;> simp [family]
  | _ => cases equal

theorem reference_of_family {s : Shape} {n : String} (equal : s.family widen = .reference n) :
    s = .reference n := by
  cases s with
  | reference m => rw [Family.reference.inj equal]
  | primitive j => revert equal; cases widen <;> cases j <;> simp [family]
  | _ => cases equal

/-- Two kinds of one family are equal, or they are numbers and merge into floats. -/
def widerKind (j k : Kind) : Kind := if j = k then j else .float

theorem merge_primitives_of_family {j k : Kind}
    (equal : (Shape.primitive j).family widen = (Shape.primitive k).family widen) :
    merge widen (.primitive j) (.primitive k) = .primitive (widerKind j k) := by
  rw [merge_primitives, mergeKinds, widerKind]
  by_cases kinds : j = k
  · rw [if_pos kinds, if_pos kinds]
  · have numbers : (widen && ((j, k) = (.integer, .float) || (j, k) = (.float, .integer))) = true := by
      revert equal kinds
      cases widen <;> cases j <;> cases k <;> decide
    rw [if_neg kinds, if_neg kinds, if_pos numbers]

theorem family_widerKind {j k : Kind}
    (equal : (Shape.primitive j).family widen = (Shape.primitive k).family widen) :
    (Shape.primitive (widerKind j k)).family widen = (Shape.primitive k).family widen := by
  revert equal
  cases widen <;> cases j <;> cases k <;> decide

theorem family_merge {a b : Shape} (single : b.isUnion = false)
    (equal : a.family widen = b.family widen) :
    (merge widen a b).isUnion = false ∧ (merge widen a b).family widen = b.family widen := by
  cases b with
  | union variants => cases single
  | primitive k =>
    obtain ⟨j, rfl⟩ := primitive_of_family equal
    rw [merge_primitives_of_family equal]
    exact ⟨rfl, family_widerKind equal⟩
  | array f q =>
    obtain ⟨e, p, rfl⟩ := array_of_family equal
    rw [merge_arrays]
    split_ifs <;> exact ⟨rfl, rfl⟩
  | object second =>
    obtain ⟨first, rfl⟩ := object_of_family equal
    rw [merge_objects]
    exact ⟨rfl, rfl⟩
  | reference n =>
    obtain rfl := reference_of_family equal
    rw [merge, mergeInto_of_single rfl, joinReference, if_pos rfl]
    exact ⟨rfl, rfl⟩

/-! Absorbing variants. -/

theorem absorb_congr {join other : Shape → Shape} {s : Shape} {shapes : List Shape}
    (agree : ∀ v ∈ shapes, join v = other v) :
    absorb widen join s shapes = absorb widen other s shapes := by
  induction shapes with
  | nil => rfl
  | cons v rest ih =>
    rw [absorb, absorb, agree v List.mem_cons_self,
      ih fun w later => agree w (List.mem_cons_of_mem v later)]

theorem mem_absorb {join : Shape → Shape} {s v : Shape} {shapes : List Shape}
    (here : v ∈ absorb widen join s shapes) :
    v ∈ shapes ∨ v = s ∨ ∃ w ∈ shapes, w.family widen = s.family widen ∧ v = join w := by
  induction shapes with
  | nil => exact Or.inr (Or.inl (List.mem_singleton.mp here))
  | cons w rest ih =>
    rw [absorb] at here
    split at here
    · rename_i equal
      rcases List.mem_cons.mp here with rfl | later
      · exact Or.inr (Or.inr ⟨w, List.mem_cons_self, equal, rfl⟩)
      · exact Or.inl (List.mem_cons_of_mem w later)
    · rcases List.mem_cons.mp here with rfl | later
      · exact Or.inl List.mem_cons_self
      · rcases ih later with old | new | ⟨u, member, joined⟩
        · exact Or.inl (List.mem_cons_of_mem w old)
        · exact Or.inr (Or.inl new)
        · exact Or.inr (Or.inr ⟨u, List.mem_cons_of_mem w member, joined⟩)

section Absorb

variable {join : Shape → Shape} {s : Shape} {shapes : List Shape}

theorem families_absorb
    (keeps : ∀ v ∈ shapes, v.family widen = s.family widen → (join v).family widen = s.family widen) :
    (absorb widen join s shapes).map (family widen) =
      if s.family widen ∈ shapes.map (family widen) then shapes.map (family widen)
      else shapes.map (family widen) ++ [s.family widen] := by
  induction shapes with
  | nil => rfl
  | cons v rest ih =>
    have later := ih fun w member => keeps w (List.mem_cons_of_mem v member)
    rw [absorb]
    by_cases equal : v.family widen = s.family widen
    · simp [equal, keeps v List.mem_cons_self equal]
    · rw [if_neg equal, List.map_cons, later]
      by_cases present : s.family widen ∈ rest.map (family widen)
      · have somewhere : s.family widen ∈ (v :: rest).map (family widen) :=
          List.mem_cons_of_mem _ present
        rw [if_pos present, if_pos somewhere, List.map_cons]
      · have nowhere : s.family widen ∉ (v :: rest).map (family widen) := by
          rw [List.map_cons, List.mem_cons, not_or]
          exact ⟨Ne.symm equal, present⟩
        rw [if_neg present, if_neg nowhere, List.map_cons, List.cons_append]

theorem ofFamily_absorb
    (keeps : ∀ v ∈ shapes, v.family widen = s.family widen → (join v).family widen = s.family widen)
    (φ : Family) :
    ofFamily widen φ (absorb widen join s shapes) =
      if φ = s.family widen then some ((ofFamily widen φ shapes).elim s join)
      else ofFamily widen φ shapes := by
  unfold ofFamily
  induction shapes with
  | nil => by_cases equal : φ = s.family widen <;> simp [absorb, equal, Ne.symm]
  | cons v rest ih =>
    have later := ih fun w member => keeps w (List.mem_cons_of_mem v member)
    rw [absorb]
    by_cases equal : v.family widen = s.family widen
    · have kept := keeps v List.mem_cons_self equal
      by_cases chosen : φ = s.family widen
      · simp [equal, kept, chosen]
      · simp [equal, kept, chosen, Ne.symm chosen]
    · rw [if_neg equal, List.find?_cons, later]
      by_cases chosen : v.family widen = φ
      · have differ : ¬ φ = s.family widen := fun same => equal (chosen.trans same)
        simp [chosen, differ]
      · simp [chosen]

theorem separate_absorb (separate : Separate widen shapes) (shape : WellFormed widen s)
    (single : s.isUnion = false)
    (joined : ∀ v ∈ shapes, v.family widen = s.family widen →
      WellFormed widen (join v) ∧ (join v).isUnion = false ∧ (join v).family widen = s.family widen) :
    Separate widen (absorb widen join s shapes) where
  shapes v here := by
    rcases mem_absorb here with old | rfl | ⟨w, member, equal, rfl⟩
    · exact separate.shapes v old
    · exact shape
    · exact (joined w member equal).1
  single v here := by
    rcases mem_absorb here with old | rfl | ⟨w, member, equal, rfl⟩
    · exact separate.single v old
    · exact single
    · exact (joined w member equal).2.1
  families := by
    rw [families_absorb fun v member equal => (joined v member equal).2.2]
    split_ifs with present
    · exact separate.families
    · rw [List.nodup_append]
      refine ⟨separate.families, List.nodup_singleton _, ?_⟩
      intro φ old ψ new equal
      rw [List.mem_singleton.mp new] at equal
      exact present (equal ▸ old)

end Absorb

theorem merge_union_left {variants : List Shape} {s : Shape} (single : s.isUnion = false)
    (variety : ∀ v ∈ variants, v.isUnion = false) :
    merge widen (.union variants) s =
      unionOf (absorb widen (fun v => merge widen v s) s variants) := by
  cases s with
  | union incoming => cases single
  | _ =>
    rw [merge, mergeInto, absorb_congr]
    intro v here
    rw [merge, mergeInto_of_single (variety v here)]

theorem merge_of_singles {a s : Shape} (single : s.isUnion = false) (alone : a.isUnion = false) :
    merge widen a s = unionOf (absorb widen (fun v => merge widen v s) s [a]) := by
  rw [absorb]
  split
  · rename_i equal
    exact (unionOf_singleton (family_merge single equal).1).symm
  · rename_i differ
    exact merge_of_family_ne alone single differ

/-- A merge absorbs the variants of the second shape into those of the first. -/
theorem merge_eq_unionOf {a b : Shape} (first : WellFormed widen a) :
    merge widen a b = unionOf (absorbAll widen a.variants b.variants) := by
  cases b with
  | union incoming => rw [merge]; rfl
  | _ =>
    change merge widen a _ = unionOf (absorb widen _ _ a.variants)
    cases first with
    | union several single families ordered shapes => exact merge_union_left rfl single
    | _ => exact merge_of_singles rfl rfl

section AbsorbAll

variable {incoming : List Shape}

theorem mem_of_mem_absorb {join : Shape → Shape} {s t v : Shape} {shapes rest : List Shape}
    (separate : Separate widen (s :: rest))
    (keeps : ∀ v ∈ shapes, v.family widen = s.family widen → (join v).family widen = s.family widen)
    (here : v ∈ absorb widen join s shapes) (later : t ∈ rest)
    (equal : v.family widen = t.family widen) : v ∈ shapes := by
  have differ : s.family widen ≠ t.family widen := by
    intro same
    exact (List.nodup_cons.mp separate.families).1 (same ▸ List.mem_map_of_mem later)
  rcases mem_absorb here with old | rfl | ⟨w, member, joined, rfl⟩
  · exact old
  · exact absurd equal differ
  · exact absurd ((keeps w member joined).symm.trans equal) differ

theorem absorbAll_spec {shapes : List Shape} (separate : Separate widen shapes)
    (arriving : Separate widen incoming)
    (joined : ∀ v ∈ shapes, ∀ s ∈ incoming, v.family widen = s.family widen →
      WellFormed widen (merge widen v s)) :
    Separate widen (absorbAll widen shapes incoming) ∧
      ∀ φ, ofFamily widen φ (absorbAll widen shapes incoming) =
        Option.merge (merge widen) (ofFamily widen φ shapes) (ofFamily widen φ incoming) := by
  induction incoming generalizing shapes with
  | nil =>
    refine ⟨by simpa [absorbAll] using separate, fun φ => ?_⟩
    rw [absorbAll, show ofFamily widen φ [] = none from rfl]
    cases ofFamily widen φ shapes <;> rfl
  | cons s rest ih =>
    have single := arriving.single s List.mem_cons_self
    have joins : ∀ v ∈ shapes, v.family widen = s.family widen →
        WellFormed widen (merge widen v s) ∧ (merge widen v s).isUnion = false ∧
          (merge widen v s).family widen = s.family widen := by
      intro v here equal
      exact ⟨joined v here s List.mem_cons_self equal,
        family_merge single equal⟩
    have keeps := fun v here equal => (joins v here equal).2.2
    have absorbed := separate_absorb separate (arriving.shapes s List.mem_cons_self) single joins
    obtain ⟨result, members⟩ := ih absorbed arriving.tail fun v here t later equal =>
      joined v (mem_of_mem_absorb arriving keeps here later equal) t
        (List.mem_cons_of_mem s later) equal
    rw [absorbAll]
    refine ⟨result, fun φ => ?_⟩
    rw [members φ, ofFamily_absorb keeps]
    by_cases chosen : φ = s.family widen
    -- No other arriving shape is of the family of `s`.
    · have none_left : ofFamily widen φ rest = none := by
        rw [ofFamily, List.find?_eq_none]
        intro t later
        have differ := (List.nodup_cons.mp arriving.families).1
        rw [decide_eq_true_eq]
        intro equal
        exact differ (List.mem_map.mpr ⟨t, later, equal.trans chosen⟩)
      have found : ofFamily widen φ (s :: rest) = some s := by simp [ofFamily, chosen]
      rw [if_pos chosen, none_left, found]
      cases ofFamily widen φ shapes <;> rfl
    · have skipped : ofFamily widen φ (s :: rest) = ofFamily widen φ rest := by
        simp [ofFamily, Ne.symm chosen]
      rw [if_neg chosen, skipped]

end AbsorbAll

/-- Merging is well-formed when it is for every two members of one family. -/
theorem wellFormed_merge_of_members {a b : Shape} (first : WellFormed widen a)
    (second : WellFormed widen b)
    (joined : ∀ v ∈ a.variants, ∀ s ∈ b.variants, v.family widen = s.family widen →
      WellFormed widen (merge widen v s)) :
    WellFormed widen (merge widen a b) ∧
      ∀ φ, member widen φ (merge widen a b) =
        Option.merge (merge widen) (member widen φ a) (member widen φ b) := by
  obtain ⟨separate, members⟩ := absorbAll_spec first.separate second.separate joined
  rw [merge_eq_unionOf first]
  refine ⟨separate.wellFormed_unionOf ?_, fun φ => (member_unionOf separate φ).trans (members φ)⟩
  intro empty
  obtain ⟨v, rest, variants⟩ := List.exists_cons_of_ne_nil first.variants_ne_nil
  have held := members (v.family widen)
  rw [empty, variants] at held
  simp only [ofFamily, List.find?_nil, decide_true, List.find?_cons_of_pos] at held
  revert held
  cases b.variants.find? fun s => decide (s.family widen = v.family widen) <;> simp

end SampleTypes.Shape
