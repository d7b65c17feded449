import SampleTypes.Proofs.Graph.NamedObjects

/-! Naming loses nothing. References among named objects run from an object to smaller ones, so they
can be followed to the end, and what is then in the place of the root is the shape that was named. -/

namespace SampleTypes

open Shape (digestOf renamed mapFields Ranked Canonical)

namespace Shape

mutual

def substitute (expansion : String → Option Shape) : Shape → Option Shape
  | .primitive kind => some (.primitive kind)
  | .array e placeholder => (e.substitute expansion).map (.array · placeholder)
  | .object fields => (substituteFields expansion fields).map .object
  | .union variants => (substituteVariants expansion variants).map .union
  | .reference name => expansion name

def substituteFields (expansion : String → Option Shape) : Fields → Option Fields
  | [] => some []
  | (name, field) :: rest => do
    let s ← field.shape.substitute expansion
    return (name, ⟨s, field.optional⟩) :: (← substituteFields expansion rest)

def substituteVariants (expansion : String → Option Shape) : List Shape → Option (List Shape)
  | [] => some []
  | v :: rest => do
    let s ← v.substitute expansion
    return s :: (← substituteVariants expansion rest)

end

end Shape

/-- What stands behind a name when references are followed, at most `depth` of them within each
other. A name has no expansion where that does not reach the end. -/
def Table.expansion (table : Table) : (depth : Nat) → String → Option Shape
  | 0, _ => none
  | depth + 1, name => do (Shape.object (← table.lookup name)).substitute (table.expansion depth)

def Graph.expand (g : Graph) (depth : Nat) : Option Shape :=
  g.root.substitute (g.table.expansion depth)

namespace Shape

/-- From some depth on, the first shape expands to one that differs from the second in the order of
fields and in placeholder marks only. -/
def Restores (expansion : Nat → String → Option Shape) (bound : Nat) (named s : Shape) : Prop :=
  ∃ t, t.normal = s.normal ∧ ∀ depth, bound ≤ depth → named.substitute (expansion depth) = some t

variable {expansion : Nat → String → Option Shape} {bound : Nat} {f : Shape → Shape}

theorem exists_substituteVariants {variants : List Shape}
    (each : ∀ v ∈ variants, Restores expansion bound (f v) v) :
    ∃ shapes, shapes.map normal = variants.map normal ∧ ∀ depth, bound ≤ depth →
      substituteVariants (expansion depth) (variants.map f) = some shapes := by
  induction variants with
  | nil => exact ⟨[], rfl, fun _ _ => rfl⟩
  | cons v rest ih =>
    rw [List.forall_mem_cons] at each
    obtain ⟨t, equal, first⟩ := each.1
    obtain ⟨shapes, equals, later⟩ := ih each.2
    refine ⟨t :: shapes, by rw [List.map_cons, List.map_cons, equal, equals], fun depth deep => ?_⟩
    rw [List.map_cons, substituteVariants, first depth deep, later depth deep]
    rfl

theorem exists_substituteFields {fields : Fields}
    (each : ∀ entry ∈ fields, Restores expansion bound (f entry.2.shape) entry.2.shape) :
    ∃ others, mapFields normal others = mapFields normal fields ∧ ∀ depth, bound ≤ depth →
      substituteFields (expansion depth) (mapFields f fields) = some others := by
  induction fields with
  | nil => exact ⟨[], rfl, fun _ _ => rfl⟩
  | cons entry rest ih =>
    rw [List.forall_mem_cons] at each
    obtain ⟨t, equal, first⟩ := each.1
    obtain ⟨others, equals, later⟩ := ih each.2
    refine ⟨(entry.1, ⟨t, entry.2.optional⟩) :: others, ?_, fun depth deep => ?_⟩
    · change (entry.1, FieldSpec.map normal ⟨t, entry.2.optional⟩) :: mapFields normal others = _
      rw [equals, FieldSpec.map, equal]
      rfl
    · change substituteFields (expansion depth) ((entry.1, entry.2.map f) :: mapFields f rest) = _
      rw [substituteFields, FieldSpec.map_shape, first depth deep, later depth deep]
      rfl

theorem normal_object_of_mapFields {fields others : Fields}
    (equal : mapFields normal fields = mapFields normal others) :
    (Shape.object fields).normal = (Shape.object others).normal := by
  rw [tidying_normal.object, equal, tidying_normal.object]

theorem restores_of_outerObjects {nameOf : List UInt8 → String} {s : Shape} (ranked : Ranked s)
    (objects : ∀ fields ∈ s.outerObjects,
      Restores expansion bound (renamed nameOf (.object fields)) (.object fields)) :
    Restores expansion bound (renamed nameOf s) s := by
  induction ranked with
  | primitive kind => exact ⟨.primitive kind, rfl, fun _ _ => rfl⟩
  | array placeholder element ih =>
    obtain ⟨t, equal, restored⟩ := ih objects
    refine ⟨.array t placeholder, by rw [normal, normal, equal], fun depth deep => ?_⟩
    rw [renamed, substitute, restored depth deep]
    rfl
  | @object fields distinct shapes ih => exact objects fields (List.mem_singleton.mpr rfl)
  | union several single rising shapes ih =>
    obtain ⟨others, equal, restored⟩ := exists_substituteVariants fun v here => ih v here
      fun fields inside => objects fields (mem_outerObjects_union.mpr ⟨v, here, inside⟩)
    refine ⟨.union others, by rw [normal_union, normal_union, equal], fun depth deep => ?_⟩
    rw [renamed_union, substitute, restored depth deep]
    rfl

end Shape

theorem countP_lt_countP {α : Type} {p q : α → Bool} {items : List α}
    (weaker : ∀ a ∈ items, p a → q a) {a : α} (here : a ∈ items) (fails : p a = false)
    (holds : q a = true) : items.countP p < items.countP q := by
  induction items with
  | nil => cases here
  | cons b rest ih =>
    rw [List.forall_mem_cons] at weaker
    rw [List.countP_cons, List.countP_cons]
    rcases List.mem_cons.mp here with rfl | later
    · have others := List.countP_mono_left weaker.2
      rw [fails, holds]
      simp only [Bool.false_eq_true, if_false, if_true]
      omega
    · have others := ih weaker.2 later
      have first : (if p b then 1 else 0) ≤ if q b then 1 else 0 := by
        split_ifs with yes no
        · exact le_rfl
        · exact absurd (weaker.1 yes) no
        · exact Nat.zero_le 1
        · exact le_rfl
      omega

namespace Names

variable {nameOf : List UInt8 → String} {s : Shape} {g : Graph}

/-! References run from larger objects to smaller ones. -/

theorem smaller_of_refers (named : Names nameOf s g) (ranked : Ranked s) (free : s.CollisionFree)
    {name other : String} (path : Relation.TransGen g.table.Refers name other) :
    ∃ o ∈ s.objects, ∃ p ∈ s.objects, nameOf (digestOf o) = name ∧ nameOf (digestOf p) = other ∧
      (Shape.object p).objects.length < (Shape.object o).objects.length := by
  have step : ∀ {name other}, g.table.Refers name other → ∃ o ∈ s.objects, ∃ p ∈ s.objects,
      nameOf (digestOf o) = name ∧ nameOf (digestOf p) = other ∧
        (Shape.object p).objects.length < (Shape.object o).objects.length := by
    intro name other refers
    obtain ⟨o, found, first, entry, here, p, inside, second⟩ := (named.refers_iff ranked).mp refers
    have whole := mem_objects_of_discover found
    have inner : p ∈ (Shape.object o).objects := Shape.mem_objects_object.mpr
      (Or.inr ⟨entry, here, Shape.outerObjects_subset_objects inside⟩)
    exact ⟨o, whole, p, Shape.mem_objects_trans whole inner, first, second,
      Shape.length_objects_inner here (Shape.outerObjects_subset_objects inside)⟩
  induction path with
  | single refers => exact step refers
  | tail _ refers ih =>
    obtain ⟨o, here, p, there, first, middle, smaller⟩ := ih
    obtain ⟨q, between, r, last, same, second, less⟩ := step refers
    have equal := (named.name_eq_iff free there between).mp (middle.trans same.symm)
    have sizes : (Shape.object p).objects.length = (Shape.object q).objects.length := by
      rw [← Shape.length_objects_normal, equal, Shape.length_objects_normal]
    exact ⟨o, here, r, last, first, second, less.trans (sizes ▸ smaller)⟩

theorem acyclic (named : Names nameOf s g) (ranked : Ranked s) (free : s.CollisionFree)
    (name : String) : ¬ Relation.TransGen g.table.Refers name name := by
  intro circle
  obtain ⟨o, here, p, there, first, second, smaller⟩ := named.smaller_of_refers ranked free circle
  have equal := (named.name_eq_iff free here there).mp (first.trans second.symm)
  rw [← Shape.length_objects_normal, ← equal, Shape.length_objects_normal] at smaller
  exact lt_irrefl _ smaller

/-! The depth to which references are followed is bounded by the number of objects found that are no
larger than the part at hand. -/

def atMost (s part : Shape) : Nat :=
  (discover s []).countP fun o => (Shape.object o).objects.length ≤ part.objects.length

theorem atMost_inner {o inner : Fields} (found : o ∈ discover s []) {entry : Str × Field}
    (here : entry ∈ o) (inside : inner ∈ entry.2.shape.outerObjects) :
    atMost s (.object inner) < atMost s (.object o) := by
  have smaller := Shape.length_objects_inner here (Shape.outerObjects_subset_objects inside)
  apply countP_lt_countP _ found
  · rw [decide_eq_false_iff_not, not_le]
    exact smaller
  · rw [decide_eq_true_eq]
  · intro p _ below
    rw [decide_eq_true_eq] at below ⊢
    exact below.trans smaller.le

theorem atMost_of_normal_eq {o p : Fields}
    (equal : (Shape.object o).normal = (Shape.object p).normal) :
    atMost s (.object o) = atMost s (.object p) := by
  rw [atMost, ← Shape.length_objects_normal, equal, Shape.length_objects_normal, atMost]

theorem restores_object (named : Names nameOf s g) (ranked : Ranked s) (free : s.CollisionFree)
    {bound : Nat} {fields : Fields} (here : fields ∈ s.objects)
    (few : atMost s (.object fields) ≤ bound) :
    Shape.Restores g.table.expansion bound (renamed nameOf (.object fields)) (.object fields) := by
  induction bound generalizing fields with
  | zero =>
    obtain ⟨o, found, _, equal⟩ := exists_found free here (named.known free here)
    have counted : 0 < atMost s (.object o) :=
      List.countP_pos_iff.mpr ⟨o, found, decide_eq_true le_rfl⟩
    rw [atMost_of_normal_eq equal] at counted
    omega
  | succ bound ih =>
    obtain ⟨o, found, digest, equal⟩ := exists_found free here (named.known free here)
    have whole := mem_objects_of_discover found
    rw [← atMost_of_normal_eq equal] at few
    have each : ∀ entry ∈ o, Shape.Restores g.table.expansion bound (renamed nameOf entry.2.shape)
        entry.2.shape := by
      intro entry member
      apply Shape.restores_of_outerObjects ((ranked.of_mem_objects whole).field member)
      intro inner inside
      -- An object inside is smaller, so `o` itself is no longer counted.
      have less := atMost_inner found member inside
      apply ih _ (by omega)
      exact Shape.mem_objects_trans whole (Shape.mem_objects_object.mpr
        (Or.inr ⟨entry, member, Shape.outerObjects_subset_objects inside⟩))
    obtain ⟨others, equals, restored⟩ := Shape.exists_substituteFields each
    refine ⟨.object others, (Shape.normal_object_of_mapFields equals).trans equal, ?_⟩
    intro depth deep
    obtain ⟨depth, rfl⟩ := Nat.exists_eq_add_of_le' deep
    have entries := restored (depth + bound) (Nat.le_add_left bound depth)
    rw [renamed, Shape.substitute, ← digest, ← Nat.add_assoc, Table.expansion,
      named.lookup_found found]
    change (Shape.substituteFields _ _).map Shape.object = _
    rw [entries]
    rfl

theorem restores_root (named : Names nameOf s g) (ranked : Ranked s) (free : s.CollisionFree) :
    Shape.Restores g.table.expansion g.table.length g.root s := by
  rw [named.root, named.length_table]
  apply Shape.restores_of_outerObjects ranked
  intro fields here
  apply named.restores_object ranked free (Shape.outerObjects_subset_objects here)
  exact List.countP_le_length

theorem objects_of_table (named : Names nameOf s g) {entry : String × Fields} (here : entry ∈ g.table)
    {field : Str × Field} (inside : field ∈ entry.2) : field.2.shape.objects = [] := by
  rw [named.table] at here
  obtain ⟨o, _, rfl⟩ := List.mem_map.mp here
  obtain ⟨original, _, rfl⟩ := List.mem_map.mp inside
  exact Shape.objects_renamed original.2.shape

end Names

/-- A named graph holds no object within a root or entry, all its references resolve and form no
circle, and following them from the root ends in a shape equal to the one that was named, if digests
do not collide. -/
theorem expand_of_ofShape {limit : Nat} {s : Shape} {rootName : String} {g : Graph}
    (canonical : Canonical s) (free : s.CollisionFree)
    (ran : Graph.ofShape limit s rootName = .ok g) :
    (g.root.objects = [] ∧ ∀ entry ∈ g.table, ∀ field ∈ entry.2, field.2.shape.objects = []) ∧
      (∀ name ∈ g.references, ∃ fields, g.table.resolve name = .ok fields) ∧
      (∀ name, ¬ Relation.TransGen g.table.Refers name name) ∧
      ∃ t, (∀ depth, g.table.length ≤ depth → g.expand depth = some t) ∧ (t == s) = true := by
  have ranked := canonical.ranked
  obtain ⟨nameOf, named⟩ := names_of_ofShape ranked ran
  refine ⟨⟨?_, fun entry here field => named.objects_of_table here⟩, ?_,
    named.acyclic ranked free, ?_⟩
  · rw [named.root]
    exact Shape.objects_renamed s
  · intro name here
    obtain ⟨fields, found⟩ := Option.isSome_iff_exists.mp
      (Graph.check_eq_ok.mp (named.check ranked) name here)
    exact ⟨fields, by rw [Table.resolve, found]⟩
  · obtain ⟨t, equal, expands⟩ := named.restores_root ranked free
    refine ⟨t, expands, (Shape.beq_iff_normal ?_ ranked.buildable).mpr equal⟩
    exact ranked.buildable.of_normal_eq equal.symm

/-- One object in two orders of its fields, in an array and beside it. -/
theorem expand_of_ofShape_of_repeated :
    let first : Fields := [("a", ⟨.primitive .integer, false⟩), ("b", ⟨.primitive .string, true⟩)]
    let second : Fields := [("b", ⟨.primitive .string, true⟩), ("a", ⟨.primitive .integer, false⟩)]
    let s : Shape := .union [.array (.object first) false, .object second]
    ∃ g, Graph.ofShape defaultSuffixLimit s "Root" = .ok g ∧
      (∀ name, ¬ Relation.TransGen g.table.Refers name name) ∧
      ∃ t, (∀ depth, g.table.length ≤ depth → g.expand depth = some t) ∧ (t == s) = true := by
  intro first second s
  have left : Canonical (.object first) :=
    .object (by decide) (by simp [first, Canonical.primitive])
  have right : Canonical (.object second) :=
    .object (by decide) (by simp [second, Canonical.primitive])
  have canonical : Canonical s := .pair (.array false left) right rfl rfl (by decide)
  have free : s.CollisionFree := by
    apply Shape.collisionFree_of_normal_eq
    intro o here p there
    rcases List.mem_pair.mp here with rfl | rfl <;> rcases List.mem_pair.mp there with rfl | rfl <;> rfl
  have same : digestOf second = digestOf first := Shape.digest_eq_of_normal rfl
  let g : Graph := ⟨"Root", .union [.array (.reference "RootElement") false, .reference "RootElement"],
    [("RootElement", first)]⟩
  have picked : uniqueName defaultSuffixLimit ["Root"] (elementTypeName "Root") = .ok "RootElement" := rfl
  have entered : ∀ digest, walkInside defaultSuffixLimit digest first "RootElement" ⟨[], [], ["Root"]⟩ =
      .ok (.reference "RootElement", ⟨[("RootElement", first)], [(digest, "RootElement")],
        ["RootElement", "Root"]⟩) := fun _ => rfl
  have known : ∀ digest : List UInt8, [(digest, "RootElement")].lookup digest = some "RootElement" :=
    fun _ => List.lookup_cons_self
  have ran : Graph.ofShape defaultSuffixLimit s "Root" = .ok g :=
    ofShape_beside_array same picked (entered _) (known _)
  obtain ⟨_, _, acyclic, expands⟩ := expand_of_ofShape canonical free ran
  exact ⟨g, ran, acyclic, expands⟩

end SampleTypes
