import SampleTypes.Proofs.Shape.CanonicalText
import SampleTypes.Proofs.Shape.CheckedMerge

/-! A union as the set of its members. Building one never fails, and what comes of it is settled by the
shapes that are offered, up to equality: in what order they come, how often, and which of them were united
before is all one. -/

namespace SampleTypes.Shape

def Before (v w : Shape) : Prop :=
  ∃ first second, v.sortKey? = some first ∧ w.sortKey? = some second ∧
    (first.1 < second.1 ∨ (first.1 = second.1 ∧ first.2 < second.2))

/-- What is left of some shapes when of equal ones one is kept: a shape alone, or a union of several. -/
inductive Unites (offered : List Shape) : Shape → Prop where
  | sole {s : Shape} (single : s.isUnion = false) (here : s ∈ offered)
      (equal : ∀ v ∈ offered, (v == s) = true) : Unites offered s
  | several {members : List Shape} (several : 2 ≤ members.length)
      (single : ∀ v ∈ members, v.isUnion = false)
      (unequal : members.Pairwise fun v w => (v == w) = false)
      (rising : members.Pairwise Before)
      (offers : ∀ v ∈ members, v ∈ offered)
      (kept : ∀ v ∈ offered, ∃ w ∈ members, (v == w) = true) : Unites offered (.union members)

/-- Lists of shapes that come of one another: some change places, one is listed again, or some of them
stand in one union. -/
inductive Regrouped (shapes : List Shape) : List Shape → Prop where
  | refl : Regrouped shapes shapes
  | perm {others arranged : List Shape} (regrouped : Regrouped shapes others)
      (perm : others.Perm arranged) : Regrouped shapes arranged
  | repeated {others : List Shape} {s t : Shape} (regrouped : Regrouped shapes others) (here : s ∈ others)
      (buildable : Buildable t) (equal : (t == s) = true) : Regrouped shapes (t :: others)
  | group {group rest : List Shape} (regrouped : Regrouped shapes (group ++ rest))
      (nonempty : group ≠ []) : Regrouped shapes (unionOf group :: rest)

/-! The variants of a union. -/

def memberForms (shapes : List Shape) : List Shape := (shapes.flatMap variants).map normal

theorem memberForms_cons (s : Shape) (rest : List Shape) :
    memberForms (s :: rest) = s.normal.variants ++ memberForms rest := by
  rw [memberForms, List.flatMap_cons, List.map_append, tidying_normal.variants, memberForms]

theorem memberForms_append (first second : List Shape) :
    memberForms (first ++ second) = memberForms first ++ memberForms second := by
  rw [memberForms, List.flatMap_append, List.map_append, memberForms, memberForms]

section Variants

variable {shapes others : List Shape}

theorem normal_canonicalVariants (buildable : ∀ s ∈ shapes, Buildable s) :
    ((canonicalVariants shapes).map normal).Nodup ∧
      ∀ n, n ∈ (canonicalVariants shapes).map normal ↔ n ∈ memberForms shapes := by
  have offered := buildable_offered buildable
  have perm := (sort_perm precedes (distinct (shapes.flatMap variants))).map normal
  obtain ⟨nodup, same⟩ := keys_distinct normal fun s here t there =>
    beq_iff_normal (offered s here).1 (offered t there).1
  exact ⟨perm.nodup_iff.mpr nodup, fun n => perm.mem_iff.trans (same n)⟩

theorem mem_of_mem_canonicalVariants {v : Shape} (here : v ∈ canonicalVariants shapes) :
    v ∈ shapes.flatMap variants :=
  mem_of_mem_distinct (mem_sort.mp here)

theorem precedes_normal (s t : Shape) : precedes s.normal t.normal = precedes s t := by
  simp only [precedes, tidying_normal.rank, tidying_normal.key]

/-- The variants that are offered settle those of the union, up to equality. -/
theorem normal_canonicalVariants_congr (first : ∀ s ∈ shapes, Buildable s)
    (second : ∀ s ∈ others, Buildable s)
    (same : ∀ n, n ∈ memberForms shapes ↔ n ∈ memberForms others) :
    (canonicalVariants shapes).map normal = (canonicalVariants others).map normal := by
  obtain ⟨nodup, here⟩ := normal_canonicalVariants first
  obtain ⟨nodup', there⟩ := normal_canonicalVariants second
  have perm : ((canonicalVariants shapes).map normal).Perm ((canonicalVariants others).map normal) := by
    rw [List.perm_ext_iff_of_nodup nodup nodup']
    intro n
    rw [here, there, same]
  have ordered : ∀ list : List Shape,
      ((canonicalVariants list).map normal).Pairwise (precedes · ·) := by
    intro list
    rw [List.pairwise_map]
    simp only [precedes_normal]
    exact pairwise_sort precedes_total precedes_trans _
  apply List.Perm.eq_of_pairwise _ (ordered shapes) (ordered others) perm
  intro n m inFirst inSecond before after
  obtain ⟨v, offered, rfl⟩ := List.mem_map.mp inFirst
  obtain ⟨w, present, rfl⟩ := List.mem_map.mp inSecond
  rw [precedes_normal] at before after
  have left := (buildable_offered first v (mem_of_mem_canonicalVariants offered)).1
  have right := (buildable_offered second w (mem_of_mem_canonicalVariants present)).1
  exact (beq_iff_normal left right).mp ((precedes_antisymm_iff left right).mp ⟨before, after⟩)

theorem normal_unionOf_congr
    (same : (canonicalVariants shapes).map normal = (canonicalVariants others).map normal) :
    (unionOf shapes).normal = (unionOf others).normal := by
  rw [unionOf]
  split
  · rename_i s only
    rw [only, List.map_singleton] at same
    obtain ⟨t, alone, normals⟩ := List.map_eq_singleton_iff.mp same.symm
    rw [unionOf, alone]
    exact normals.symm
  · rename_i many
    rw [unionOf]
    split
    · rename_i t only
      rw [only, List.map_singleton] at same
      obtain ⟨s, alone, _⟩ := List.map_eq_singleton_iff.mp same
      exact absurd alone (many s)
    · rw [normal_union, normal_union, same]

theorem variants_unionOf_of_buildable (buildable : ∀ s ∈ shapes, Buildable s) :
    (unionOf shapes).variants = canonicalVariants shapes := by
  rw [unionOf]
  split
  · rename_i s only
    have here : s ∈ canonicalVariants shapes := by simp [only]
    have single := (buildable_offered buildable s (mem_of_mem_canonicalVariants here)).2
    rw [WellFormed.variants_of_single single, only]
  · rfl

end Variants

/-! What a union is. -/

theorem sortKey?_of_single {s : Shape} (single : s.isUnion = false) :
    s.sortKey? = some (s.rank, s.key) := by
  cases s with
  | primitive kind => cases kind <;> rfl
  | union variants => cases single
  | _ => rfl

theorem before_of_precedes {v w : Shape} (first : Buildable v ∧ v.isUnion = false)
    (second : Buildable w ∧ w.isUnion = false) (ordered : precedes v w = true)
    (unequal : (v == w) = false) : Before v w := by
  refine ⟨_, _, sortKey?_of_single first.2, sortKey?_of_single second.2, ?_⟩
  have texts : v.key ≠ w.key := by
    intro same
    rw [(key_eq_iff_beq first.1 second.1).mp same] at unequal
    cases unequal
  simp only [precedes, Bool.or_eq_true, Bool.and_eq_true, decide_eq_true_eq, beq_iff_eq] at ordered
  rcases ordered with below | ⟨ranks, keys⟩
  · exact .inl below
  · exact .inr ⟨ranks, String.not_le.mp fun after => texts (String.le_antisymm keys after)⟩

theorem unites_unionOf {shapes : List Shape} (nonempty : shapes ≠ [])
    (buildable : ∀ s ∈ shapes, Buildable s) : Unites (shapes.flatMap variants) (unionOf shapes) := by
  have offered := buildable_offered buildable
  have member : ∀ v ∈ canonicalVariants shapes, Buildable v ∧ v.isUnion = false :=
    fun v here => offered v (mem_of_mem_canonicalVariants here)
  obtain ⟨nodup, same⟩ := normal_canonicalVariants buildable
  have unequal : (canonicalVariants shapes).Pairwise fun v w => (v == w) = false := by
    apply (List.pairwise_map.mp nodup).imp_of_mem
    intro v w here there differ
    rw [Bool.eq_false_iff]
    intro equal
    exact differ ((beq_iff_normal (member v here).1 (member w there).1).mp equal)
  have kept : ∀ v ∈ shapes.flatMap variants, ∃ w ∈ canonicalVariants shapes, (v == w) = true := by
    intro v here
    obtain ⟨w, there, equal⟩ := List.mem_map.mp ((same v.normal).mpr (List.mem_map_of_mem here))
    exact ⟨w, there, (beq_iff_normal (offered v here).1 (member w there).1).mpr equal.symm⟩
  have rising : (canonicalVariants shapes).Pairwise Before := by
    have ordered : (canonicalVariants shapes).Pairwise (precedes · ·) :=
      pairwise_sort precedes_total precedes_trans _
    apply (ordered.and unequal).imp_of_mem
    rintro v w here there ⟨before, differ⟩
    exact before_of_precedes (member v here) (member w there) before differ
  have some_variant : canonicalVariants shapes ≠ [] :=
    sort_ne_nil (distinct_offered_ne_nil nonempty buildable)
  rw [unionOf]
  split
  · rename_i s only
    rw [only] at kept
    have here : s ∈ canonicalVariants shapes := by simp [only]
    exact .sole (member s here).2 (mem_of_mem_canonicalVariants here) (by simpa using kept)
  · rename_i many
    exact .several (two_le_length some_variant many) (fun v here => (member v here).2) unequal rising
      (fun v here => mem_of_mem_canonicalVariants here) kept

/-! What is offered does not change. -/

theorem mem_memberForms_unionOf {group : List Shape} (buildable : ∀ s ∈ group, Buildable s) (n : Shape) :
    n ∈ (unionOf group).normal.variants ↔ n ∈ memberForms group := by
  rw [tidying_normal.variants, variants_unionOf_of_buildable buildable]
  exact (normal_canonicalVariants buildable).2 n

structure SameMembers (shapes others : List Shape) : Prop where
  nonempty : others ≠ []
  buildable : ∀ s ∈ others, Buildable s
  forms : ∀ n, n ∈ memberForms others ↔ n ∈ memberForms shapes

section Regrouping

variable {shapes others : List Shape}

theorem SameMembers.perm {arranged : List Shape} (same : SameMembers shapes others)
    (perm : others.Perm arranged) : SameMembers shapes arranged where
  nonempty := by
    rintro rfl
    exact same.nonempty perm.eq_nil
  buildable s here := same.buildable s (perm.mem_iff.mpr here)
  forms n := by
    rw [← same.forms n]
    exact ((perm.flatMap_right variants).map normal).mem_iff.symm

theorem SameMembers.repeated {s t : Shape} (same : SameMembers shapes others) (here : s ∈ others)
    (buildable : Buildable t) (equal : (t == s) = true) : SameMembers shapes (t :: others) where
  nonempty := List.cons_ne_nil t others
  buildable := List.forall_mem_cons.mpr ⟨buildable, same.buildable⟩
  forms n := by
    have normals := (beq_iff_normal buildable (same.buildable s here)).mp equal
    rw [← same.forms n, memberForms_cons, List.mem_append, normals, tidying_normal.variants]
    apply or_iff_right_of_imp
    intro offered
    obtain ⟨v, inside, rfl⟩ := List.mem_map.mp offered
    exact List.mem_map_of_mem (List.mem_flatMap.mpr ⟨s, here, inside⟩)

theorem SameMembers.group {group rest : List Shape} (same : SameMembers shapes (group ++ rest))
    (nonempty : group ≠ []) : SameMembers shapes (unionOf group :: rest) where
  nonempty := List.cons_ne_nil _ rest
  buildable := by
    have all := List.forall_mem_append.mp same.buildable
    exact List.forall_mem_cons.mpr ⟨(computes_union nonempty all.1).buildable, all.2⟩
  forms n := by
    have grouped := (List.forall_mem_append.mp same.buildable).1
    rw [← same.forms n, memberForms_cons, memberForms_append, List.mem_append, List.mem_append,
      mem_memberForms_unionOf grouped]

theorem Regrouped.sameMembers (regrouped : Regrouped shapes others) (nonempty : shapes ≠ [])
    (buildable : ∀ s ∈ shapes, Buildable s) : SameMembers shapes others := by
  induction regrouped with
  | refl => exact ⟨nonempty, buildable, fun _ => Iff.rfl⟩
  | perm regrouped perm ih => exact ih.perm perm
  | repeated regrouped here buildable equal ih => exact ih.repeated here buildable equal
  | group regrouped nonempty ih => exact ih.group nonempty

theorem Regrouped.beq_unionOf (regrouped : Regrouped shapes others) (nonempty : shapes ≠ [])
    (buildable : ∀ s ∈ shapes, Buildable s) : (unionOf others == unionOf shapes) = true := by
  have same := regrouped.sameMembers nonempty buildable
  have first := (computes_union same.nonempty same.buildable).buildable
  have second := (computes_union nonempty buildable).buildable
  rw [beq_iff_normal first second]
  exact normal_unionOf_congr (normal_canonicalVariants_congr same.buildable buildable same.forms)

theorem regrouped_pair {xs ys : List Shape} (first : xs ≠ []) (second : ys ≠ []) :
    Regrouped (xs ++ ys) [unionOf xs, unionOf ys] := by
  have left : Regrouped (xs ++ ys) (unionOf xs :: ys) := .group .refl first
  have turned : Regrouped (xs ++ ys) (ys ++ [unionOf xs]) :=
    .perm left (List.perm_append_singleton _ ys).symm
  have right : Regrouped (xs ++ ys) [unionOf ys, unionOf xs] := .group turned second
  exact .perm right (List.Perm.swap _ _ [])

end Regrouping

/-- Shapes that can be built can always be united. The result is the only one that is left of equal ones, or
a union whose variants are no unions and rise, no two of them equal, all taken from what is offered and
leaving nothing of it out. It is equal for all lists that come of the given one by changing places, by
listing a shape again and by uniting some first, as when the list is cut in two. -/
theorem unionOf_canonical {shapes : List Shape} (nonempty : shapes ≠ [])
    (buildable : ∀ s ∈ shapes, Buildable s) :
    (checkedUnion shapes = .ok (unionOf shapes) ∧ unionOf? shapes = .ok (unionOf shapes)) ∧
      Unites (shapes.flatMap variants) (unionOf shapes) ∧
        (∀ others, Regrouped shapes others → (unionOf others == unionOf shapes) = true) ∧
          ∀ xs ys, xs ≠ [] → ys ≠ [] → shapes = xs ++ ys →
            (unionOf shapes == unionOf [unionOf xs, unionOf ys]) = true := by
  have computes := computes_union nonempty buildable
  have given : shapes.isEmpty = false := by simpa using nonempty
  refine ⟨⟨computes.result, by rw [unionOf?, given, if_neg Bool.false_ne_true]⟩,
    unites_unionOf nonempty buildable, fun others regrouped => regrouped.beq_unionOf nonempty buildable, ?_⟩
  rintro xs ys first second rfl
  have regrouped := regrouped_pair first second
  have same := regrouped.sameMembers nonempty buildable
  have pair := (computes_union same.nonempty same.buildable).buildable
  rw [beq_iff_normal computes.buildable pair]
  exact ((beq_iff_normal pair computes.buildable).mp (regrouped.beq_unionOf nonempty buildable)).symm

/-- A union among the shapes, and two objects that differ in the order of their fields. -/
theorem unionOf_canonical_of_nested :
    let o : Shape := .object [("a", ⟨.primitive .integer, false⟩), ("b", ⟨.null, true⟩)]
    let p : Shape := .object [("b", ⟨.null, true⟩), ("a", ⟨.primitive .integer, false⟩)]
    let u : Shape := .union [.null, .reference "T"]
    [u, o, p] ≠ [] ∧ (∀ s ∈ [u, o, p], Buildable s) ∧
      checkedUnion [u, o, p] = .ok (.union [o, .reference "T", .null]) ∧
        (unionOf [unionOf [p, u], o] == unionOf [u, o, p]) = true := by
  intro o p u
  have null : Buildable .null := .primitive .null
  have integer : Buildable (.primitive .integer) := .primitive .integer
  have buildable : ∀ s ∈ [u, o, p], Buildable s := by
    have first : Buildable u := .union (by decide) (by decide) (by simp [null, Buildable.reference])
    have second : Buildable o := .object (by decide) (by simp [null, integer])
    have third : Buildable p := .object (by decide) (by simp [null, integer])
    simp [first, second, third]
  have turned : ([u, o] ++ [p]).Perm ([p] ++ [u, o]) := List.perm_append_comm
  have regrouped : Regrouped [u, o, p] (unionOf [p, u] :: [o]) := .group (.perm .refl turned) (by simp)
  obtain ⟨⟨result, _⟩, _, same, _⟩ := unionOf_canonical (List.cons_ne_nil u [o, p]) buildable
  exact ⟨List.cons_ne_nil u [o, p], buildable, result, same _ regrouped⟩

end SampleTypes.Shape
