import SampleTypes.Proofs.Graph.NamedObjects

/-! Naming shares equal objects and no others. Wherever objects occur, they are replaced by one reference
exactly if they are equal, and the table has one entry for each, none of them useless. -/

namespace SampleTypes

open Shape (digestOf renamed mapFields Ranked Canonical Buildable)

inductive Shape.Place where
  | element
  | field (name : Str)
  | variant (index : Nat)
  deriving DecidableEq, Repr

def Shape.part? : Shape.Place → Shape → Option Shape
  | .element, .array e _ => some e
  | .field name, .object fields => (fields.lookup name).map (·.shape)
  | .variant index, .union variants => variants[index]?
  | _, _ => none

/-- The entry behind a reference. Any other shape stands for itself. -/
def Table.behind? (table : Table) : Shape → Option Shape
  | .reference name => (table.lookup name).map .object
  | s => some s

/-- What stands at a path, which leads on behind references. -/
def Table.at? (table : Table) : List Shape.Place → Shape → Option Shape
  | [], s => some s
  | place :: rest, s => do table.at? rest (← (← table.behind? s).part? place)

namespace Shape

theorem CollisionFree.beq_iff {s : Shape} (free : s.CollisionFree) (buildable : Buildable s)
    {o p : Fields} (here : o ∈ s.objects) (there : p ∈ s.objects) :
    (Shape.object o == Shape.object p) = true ↔ digestOf o = digestOf p := by
  rw [beq_iff_normal (buildable.of_mem_objects here) (buildable.of_mem_objects there)]
  exact ⟨digest_eq_of_normal, free.normal_eq here there⟩

theorem Ranked.behind? {s : Shape} (ranked : Ranked s) (table : Table) : table.behind? s = some s := by
  cases ranked <;> rfl

theorem eq_array_of_normal_eq {e t : Shape} {placeholder : Bool}
    (equal : (Shape.array e placeholder).normal = t.normal) :
    ∃ f mark, t = .array f mark ∧ e.normal = f.normal := by
  cases t with
  | array f mark =>
    simp only [normal, Shape.array.injEq, and_true] at equal
    exact ⟨f, mark, rfl, equal⟩
  | _ => cases ctorIdx_eq_of_normal equal

theorem eq_object_of_normal_eq {fields : Fields} {t : Shape}
    (equal : (Shape.object fields).normal = t.normal) : ∃ others, t = .object others := by
  cases t with
  | object others => exact ⟨others, rfl⟩
  | _ => cases ctorIdx_eq_of_normal equal

theorem eq_union_of_normal_eq {variants : List Shape} {t : Shape}
    (equal : (Shape.union variants).normal = t.normal) :
    ∃ others, t = .union others ∧ variants.map normal = others.map normal := by
  cases t with
  | union others =>
    rw [normal_union, normal_union, Shape.union.injEq] at equal
    exact ⟨others, rfl, equal⟩
  | _ => cases ctorIdx_eq_of_normal equal

end Shape

theorem map_eq_map_of_map_eq_map {α β γ : Type} {f : α → β} {g : α → γ} {items others : List α}
    (implies : ∀ a ∈ items, ∀ b ∈ others, f a = f b → g a = g b)
    (equal : items.map f = others.map f) : items.map g = others.map g := by
  induction items generalizing others with
  | nil => rw [List.map_eq_nil_iff.mp equal.symm]
  | cons a rest ih =>
    obtain ⟨b, later, rfl, first, others_eq⟩ := List.map_eq_cons_iff.mp equal.symm
    rw [List.map_cons, List.map_cons, implies a List.mem_cons_self b List.mem_cons_self first.symm]
    rw [ih (fun a here b there => implies a (List.mem_cons_of_mem _ here) b
      (List.mem_cons_of_mem _ there)) others_eq.symm]

namespace Names

variable {nameOf : List UInt8 → String} {s : Shape} {g : Graph}

/-! What stands at a path in the shape stands in the graph there, with names for its objects. -/

theorem exists_part (named : Names nameOf s g) (ranked : Ranked s) (free : s.CollisionFree)
    {first second part : Shape} {place : Shape.Place} (shape : Ranked first) (inside : PartOf s second)
    (equal : first.normal = second.normal) (step : first.part? place = some part) :
    ∃ other, (g.table.behind? (renamed nameOf second)).bind (Shape.part? place) =
        some (renamed nameOf other) ∧
      Ranked part ∧ PartOf s other ∧ part.normal = other.normal := by
  cases shape with
  | primitive kind => cases place <;> cases step
  | array placeholder element =>
    cases place with
    | element =>
      cases step
      obtain ⟨f, mark, rfl, elements⟩ := Shape.eq_array_of_normal_eq equal
      exact ⟨f, rfl, element, inside.element, elements⟩
    | _ => cases step
  | @object fields distinct shapes =>
    cases place with
    | field name =>
      obtain ⟨others, rfl⟩ := Shape.eq_object_of_normal_eq equal
      obtain ⟨field, looked, rfl⟩ := Option.map_eq_some_iff.mp step
      have whole := inside.objects others (Shape.mem_objects_object.mpr (Or.inl rfl))
      -- The entry is made from the first object of this digest, whose fields may stand in another order.
      obtain ⟨o, found, digest, same⟩ :=
        exists_found free whole (inside.found others (List.mem_singleton.mpr rfl))
      have keys := (ranked.of_mem_objects (mem_objects_of_discover found)).nodup_keys
      have fields_eq := (Shape.tidying_normal.object_eq_iff distinct keys).mp (equal.trans same.symm) name
      rw [looked] at fields_eq
      obtain ⟨other, there, normals⟩ := Option.map_eq_some_iff.mp fields_eq.symm
      refine ⟨other.shape, ?_, shapes _ (Entries.mem_of_lookup looked),
        named.partOf_field ranked.references_eq_nil found (Entries.mem_of_lookup there),
        congrArg FieldSpec.shape normals.symm⟩
      rw [renamed, Table.behind?, ← digest, named.lookup_found found]
      change ((mapFields (renamed nameOf) o).lookup name).map _ = _
      rw [Shape.lookup_mapFields, there]
      rfl
    | _ => cases step
  | @union variants several single rising shapes =>
    cases place with
    | variant index =>
      obtain ⟨others, rfl, normals⟩ := Shape.eq_union_of_normal_eq equal
      have here : (variants.map Shape.normal)[index]? = some part.normal := by
        rw [List.getElem?_map]
        exact congrArg (Option.map Shape.normal) step
      rw [normals, List.getElem?_map] at here
      obtain ⟨other, there, same⟩ := Option.map_eq_some_iff.mp here
      refine ⟨other, ?_, shapes part (List.mem_of_getElem? step),
        inside.variant (List.mem_of_getElem? there), same.symm⟩
      rw [Shape.renamed_union]
      change (others.map (renamed nameOf))[index]? = _
      rw [List.getElem?_map, there]
      rfl
    | _ => cases step

theorem exists_at (named : Names nameOf s g) (ranked : Ranked s) (free : s.CollisionFree)
    {path : List Shape.Place} {first second part : Shape} (shape : Ranked first) (inside : PartOf s second)
    (equal : first.normal = second.normal) (here : Table.at? [] path first = some part) :
    ∃ other, g.table.at? path (renamed nameOf second) = some (renamed nameOf other) ∧
      PartOf s other ∧ part.normal = other.normal := by
  induction path generalizing first second with
  | nil =>
    cases here
    exact ⟨second, rfl, inside, equal⟩
  | cons place rest ih =>
    simp only [Table.at?, shape.behind?, Option.bind_eq_bind, Option.bind_some,
      Option.bind_eq_some_iff] at here
    obtain ⟨next, step, later⟩ := here
    obtain ⟨other, there, whole, within, normals⟩ :=
      named.exists_part ranked free shape inside equal step
    obtain ⟨last, found, result⟩ := ih whole within normals later
    refine ⟨last, ?_, result⟩
    simp only [Table.at?, Option.bind_eq_bind, ← Option.bind_assoc]
    rw [there]
    exact found

theorem exists_name_at (named : Names nameOf s g) (ranked : Ranked s) (free : s.CollisionFree)
    {path : List Shape.Place} {o : Fields} (here : Table.at? [] path s = some (.object o)) :
    ∃ p ∈ s.objects, g.table.at? path g.root = some (.reference (nameOf (digestOf p))) ∧
      (Shape.object o).normal = (Shape.object p).normal := by
  obtain ⟨other, found, inside, equal⟩ :=
    named.exists_at ranked free ranked (named.partOf_self ranked.references_eq_nil) rfl here
  obtain ⟨p, rfl⟩ := Shape.eq_object_of_normal_eq equal
  rw [named.root]
  exact ⟨p, inside.objects p (Shape.mem_objects_object.mpr (Or.inl rfl)), found, equal⟩

/-! One entry for each object. -/

theorem normal_eq_of_renamed (named : Names nameOf s g) (free : s.CollisionFree) {first second : Shape}
    (inside : PartOf s first) (other : PartOf s second)
    (equal : (renamed nameOf first).normal = (renamed nameOf second).normal) :
    first.normal = second.normal := by
  have kinds := Shape.ctorIdx_eq_of_normal equal
  induction first generalizing second with
  | primitive kind =>
    cases second with
    | primitive other => exact equal
    | _ => cases kinds
  | array e placeholder ih =>
    cases second with
    | array f mark =>
      simp only [renamed, Shape.normal, Shape.array.injEq, and_true] at equal
      have elements := ih inside.element other.element equal (Shape.ctorIdx_eq_of_normal equal)
      rw [Shape.normal, Shape.normal, elements]
    | _ => cases kinds
  | object fields ih =>
    cases second with
    | object others =>
      simp only [renamed, Shape.normal, Shape.reference.injEq] at equal
      refine (named.name_eq_iff free ?_ ?_).mp equal
      · exact inside.objects fields (Shape.mem_objects_object.mpr (Or.inl rfl))
      · exact other.objects others (Shape.mem_objects_object.mpr (Or.inl rfl))
    | reference name => cases other.bare
    | _ => cases kinds
  | union variants ih =>
    cases second with
    | union others =>
      simp only [Shape.renamed_union, Shape.normal_union, Shape.union.injEq, List.map_map] at equal
      rw [Shape.normal_union, Shape.normal_union, map_eq_map_of_map_eq_map _ equal]
      intro v here w there same
      exact ih v here (inside.variant here) (other.variant there) same (Shape.ctorIdx_eq_of_normal same)
    | _ => cases kinds
  | reference name => cases inside.bare

theorem normal_eq_of_entries (named : Names nameOf s g) (ranked : Ranked s) (free : s.CollisionFree)
    {o p : Fields} (here : o ∈ discover s []) (there : p ∈ discover s [])
    (equal : (Shape.object (mapFields (renamed nameOf) o)).normal =
      (Shape.object (mapFields (renamed nameOf) p)).normal) :
    (Shape.object o).normal = (Shape.object p).normal := by
  have keys : ∀ {o : Fields}, o ∈ discover s [] → (Entries.keys o).Nodup :=
    fun found => (ranked.of_mem_objects (mem_objects_of_discover found)).nodup_keys
  rw [Shape.tidying_normal.object_eq_iff (keys here) (keys there)]
  rw [Shape.tidying_normal.object_eq_iff (by rw [Shape.keys_mapFields]; exact keys here)
    (by rw [Shape.keys_mapFields]; exact keys there)] at equal
  intro name
  have fields := equal name
  rw [Shape.lookup_mapFields, Shape.lookup_mapFields] at fields
  cases first : o.lookup name with
  | none =>
    cases second : p.lookup name with
    | none => rfl
    | some other => simp [first, second] at fields
  | some field =>
    cases second : p.lookup name with
    | none => simp [first, second] at fields
    | some other =>
      rw [first, second] at fields
      obtain ⟨shapes, flags⟩ := Shape.map_normal_eq.mp (Option.some.inj fields)
      have same := named.normal_eq_of_renamed free
        (named.partOf_field ranked.references_eq_nil here (Entries.mem_of_lookup first))
        (named.partOf_field ranked.references_eq_nil there (Entries.mem_of_lookup second)) shapes
      exact congrArg some (Shape.map_normal_eq.mpr ⟨same, flags⟩)

theorem pairwise_entries (named : Names nameOf s g) (ranked : Ranked s) (free : s.CollisionFree) :
    g.table.Pairwise fun first second => (Shape.object first.2 == Shape.object second.2) = false := by
  have digests := List.pairwise_map.mp named.distinct
  rw [named.table, List.pairwise_map]
  apply digests.imp_of_mem
  intro o p here there differ
  rw [Bool.eq_false_iff]
  intro equal
  apply differ
  have first := ranked.of_mem_objects (mem_objects_of_discover here)
  have second := ranked.of_mem_objects (mem_objects_of_discover there)
  have normals := (Shape.beq_iff_normal first.buildable.renamed_inside second.buildable.renamed_inside).mp equal
  exact Shape.digest_eq_of_normal (named.normal_eq_of_entries ranked free here there normals)

theorem length_table_eq (named : Names nameOf s g) (ranked : Ranked s) (free : s.CollisionFree) :
    g.table.length = (Shape.distinct (s.objects.map Shape.object)).length := by
  have equal : ∀ first ∈ s.objects.map Shape.object, ∀ second ∈ s.objects.map Shape.object,
      (first == second) = true ↔ first.digest = second.digest := by
    intro first here second there
    obtain ⟨o, inside, rfl⟩ := List.mem_map.mp here
    obtain ⟨p, within, rfl⟩ := List.mem_map.mp there
    exact free.beq_iff ranked.buildable inside within
  obtain ⟨nodup, digests⟩ := Shape.keys_distinct Shape.digest equal
  have perm : ((Shape.distinct (s.objects.map Shape.object)).map Shape.digest).Perm
      ((discover s []).map digestOf) := by
    rw [List.perm_ext_iff_of_nodup nodup named.distinct]
    intro digest
    rw [digests, List.map_map]
    constructor
    · intro here
      obtain ⟨o, inside, rfl⟩ := List.mem_map.mp here
      exact named.known free inside
    · intro here
      obtain ⟨o, found, rfl⟩ := List.mem_map.mp here
      exact List.mem_map_of_mem (f := Shape.digest ∘ Shape.object) (mem_objects_of_discover found)
  calc g.table.length = ((discover s []).map digestOf).length := by
        rw [named.length_table, List.length_map]
    _ = ((Shape.distinct (s.objects.map Shape.object)).map Shape.digest).length := perm.length_eq.symm
    _ = (Shape.distinct (s.objects.map Shape.object)).length := List.length_map _

theorem reachable (named : Names nameOf s g) (ranked : Ranked s) (free : s.CollisionFree)
    {entry : String × Fields} (here : entry ∈ g.table) :
    ∃ start ∈ g.root.references, Relation.ReflTransGen g.table.Refers start entry.1 := by
  rw [named.table] at here
  obtain ⟨o, found, rfl⟩ := List.mem_map.mp here
  refine (named.digest_induction free (P := fun digest => ∃ start ∈ g.root.references,
    Relation.ReflTransGen g.table.Refers start (nameOf digest)) ?_ ?_
      (mem_objects_of_discover found)).2
  · intro o outer
    refine ⟨nameOf (digestOf o), ?_, .refl⟩
    rw [named.root, Shape.references_renamed ranked.references_eq_nil]
    exact List.mem_map_of_mem (f := fun o => nameOf (digestOf o)) outer
  · rintro o found ⟨start, root, path⟩ entry here inner inside
    exact ⟨start, root, path.tail
      ((named.refers_iff ranked).mpr ⟨o, found, rfl, entry, here, inner, inside, rfl⟩)⟩

end Names

/-- Wherever two objects occur in a shape, the named graph has one reference for both exactly if they
are equal. Its table has an entry for each different object, no two entries are equal, and the root
leads to each of them. All this holds if digests do not collide. -/
theorem dedup_of_ofShape {limit : Nat} {s : Shape} {rootName : String} {g : Graph}
    (canonical : Canonical s) (free : s.CollisionFree)
    (ran : Graph.ofShape limit s rootName = .ok g) :
    (∀ path other o p, Table.at? [] path s = some (.object o) →
      Table.at? [] other s = some (.object p) →
        ∃ m n, g.table.at? path g.root = some (.reference m) ∧
          g.table.at? other g.root = some (.reference n) ∧
            (m = n ↔ (Shape.object o == Shape.object p) = true)) ∧
      ((Entries.keys g.table).Nodup ∧
        g.table.length = (Shape.distinct (s.objects.map Shape.object)).length) ∧
      (g.table.Pairwise fun first second =>
        (Shape.object first.2 == Shape.object second.2) = false) ∧
      ∀ entry ∈ g.table, ∃ start ∈ g.root.references,
        Relation.ReflTransGen g.table.Refers start entry.1 := by
  have ranked := canonical.ranked
  obtain ⟨nameOf, named⟩ := names_of_ofShape ranked ran
  refine ⟨?_, ⟨?_, named.length_table_eq ranked free⟩, named.pairwise_entries ranked free,
    fun entry => named.reachable ranked free⟩
  · intro path other o p here there
    obtain ⟨first, inside, at_path, equal⟩ := named.exists_name_at ranked free here
    obtain ⟨second, within, at_other, same⟩ := named.exists_name_at ranked free there
    refine ⟨_, _, at_path, at_other, ?_⟩
    have left := (ranked.of_mem_objects inside).buildable.of_normal_eq equal.symm
    have right := (ranked.of_mem_objects within).buildable.of_normal_eq same.symm
    rw [named.name_eq_iff free inside within, Shape.beq_iff_normal left right, equal, same]
  · rw [named.keys_table]
    exact named.names

/-- One object in an array and beside it, where fields that were only seen null stand in another order. -/
theorem dedup_of_ofShape_of_repeated :
    let first : Fields := [("x", ⟨.primitive .float, true⟩), ("y", ⟨.null, false⟩)]
    let second : Fields := [("y", ⟨.null, false⟩), ("x", ⟨.primitive .float, true⟩)]
    let s : Shape := .union [.array (.object first) false, .object second]
    ∃ g, Graph.ofShape defaultSuffixLimit s "Root" = .ok g ∧ ∃ name,
      g.table.at? [.variant 0, .element] g.root = some (.reference name) ∧
        g.table.at? [.variant 1] g.root = some (.reference name) := by
  intro first second s
  have left : Canonical (.object first) :=
    .object (by decide) (by simp [first, Shape.null, Canonical.primitive])
  have right : Canonical (.object second) :=
    .object (by decide) (by simp [second, Shape.null, Canonical.primitive])
  have canonical : Canonical s := .pair (.array false left) right rfl rfl (by decide)
  have free : s.CollisionFree := by
    apply Shape.collisionFree_of_normal_eq
    intro o here p there
    rcases List.mem_pair.mp here with rfl | rfl <;> rcases List.mem_pair.mp there with rfl | rfl <;> rfl
  have same : digestOf second = digestOf first := Shape.digest_eq_of_normal rfl
  let g : Graph := ⟨"Root", .union [.array (.reference "RootElement") false, .reference "RootElement"],
    [("RootElement", first)]⟩
  have picked : uniqueName defaultSuffixLimit ["Root"] (elementTypeName "Root") = .ok "RootElement" := rfl
  have entered : ∀ digest, walkInside defaultSuffixLimit digest first "RootElement" ⟨[], [], ["Root"]⟩ =
      .ok (.reference "RootElement", ⟨[("RootElement", first)], [(digest, "RootElement")],
        ["RootElement", "Root"]⟩) := fun _ => rfl
  have known : ∀ digest : List UInt8, [(digest, "RootElement")].lookup digest = some "RootElement" :=
    fun _ => List.lookup_cons_self
  have ran : Graph.ofShape defaultSuffixLimit s "Root" = .ok g :=
    ofShape_beside_array same picked (entered _) (known _)
  obtain ⟨shared, _⟩ := dedup_of_ofShape canonical free ran
  obtain ⟨m, n, here, there, same⟩ := shared [.variant 0, .element] [.variant 1] first second rfl rfl
  have equal : (Shape.object first == Shape.object second) = true :=
    (Shape.beq_iff_normal left.ranked.buildable right.ranked.buildable).mpr rfl
  rw [← same.mpr equal] at there
  exact ⟨g, ran, m, here, there⟩

end SampleTypes
