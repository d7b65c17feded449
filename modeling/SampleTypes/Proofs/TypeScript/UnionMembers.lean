import SampleTypes.Proofs.Declarations
import SampleTypes.Proofs.Graph.PlainNames

/-! The members of a rendered union. Equal texts are written once, so no two members may have one text but
an integer and a float, which are both numbers. -/

namespace SampleTypes

open Shape (digestOf observed renamed mapFields Ranked)
open TypeScript (kindText arrayText plainText declarations)

mutual

/-- The unions of a shape that lie in no object of it, each as its variants. -/
def Shape.unions : Shape → List (List Shape)
  | .union variants => variants :: Shape.unionsOfVariants variants
  | .array e _ => e.unions
  | .object _ => []
  | .primitive _ => []
  | .reference _ => []

def Shape.unionsOfVariants : List Shape → List (List Shape)
  | [] => []
  | v :: rest => v.unions ++ Shape.unionsOfVariants rest

end

def Graph.unions (g : Graph) : List (List Shape) :=
  g.root.unions ++ g.table.flatMap fun entry => entry.2.flatMap fun field => field.2.shape.unions

/-! Texts of two kinds differ. -/

theorem getLast?_arrayText (element : Shape) (text : String) :
    (arrayText element text).toList.getLast? = some ']' := by
  unfold arrayText
  split <;> rw [String.toList_append] <;> exact getLast?_of_suffix rfl
    (List.isSuffixOf_iff_suffix.mpr (List.suffix_append _ _))

theorem PlainName.ne_arrayText {name : String} (plain : PlainName name) (element : Shape)
    (text : String) : name ≠ arrayText element text := by
  rintro rfl
  have bracket := plain.alphanumeric ']' (List.mem_of_getLast? (getLast?_arrayText element text))
  cases bracket

theorem kindText_ne_arrayText (kind : Kind) (element : Shape) (text : String) :
    kindText kind ≠ arrayText element text := by
  intro equal
  have last := getLast?_arrayText element text
  rw [← equal] at last
  cases kind <;> cases last

theorem numbers_of_plainText_eq {explicitUnions : Bool} {v w : Shape} (below : v.rank < w.rank)
    (single : v.isUnion = false) (other : w.isUnion = false) (bare : v.outerObjects = [])
    (bare' : w.outerObjects = [])
    (plain : ∀ name, w = .reference name ∨ v = .reference name → PlainName name)
    (same : plainText explicitUnions v = plainText explicitUnions w) :
    v = .primitive .integer ∧ w = .primitive .float := by
  cases v with
  | union variants => cases single
  | object fields => cases bare
  | primitive j =>
    cases w with
    | union variants => cases other
    | object fields => cases bare'
    | primitive k =>
      revert below same
      cases j <;> cases k <;> simp [plainText, kindText, Shape.rank, Shape.rank?]
    | array e placeholder => exact absurd same (kindText_ne_arrayText j e _)
    | reference name => exact absurd same.symm ((plain name (Or.inl rfl)).differs j)
  | array e placeholder =>
    cases w with
    | union variants => cases other
    | object fields => cases bare'
    | primitive k => exact absurd same.symm (kindText_ne_arrayText k e _)
    | array f mark => exact absurd below (Nat.lt_irrefl _)
    | reference name => exact absurd same.symm ((plain name (Or.inl rfl)).ne_arrayText e _)
  | reference name =>
    have named := plain name (Or.inr rfl)
    cases w with
    | union variants => cases other
    | object fields => cases bare'
    | primitive k => exact absurd same (named.differs k)
    | array f mark => exact absurd same (named.ne_arrayText f _)
    | reference later => exact absurd below (Nat.lt_irrefl _)

namespace Shape

theorem unionsOfVariants_eq (variants : List Shape) :
    unionsOfVariants variants = variants.flatMap unions := by
  induction variants with
  | nil => rfl
  | cons v rest ih => rw [unionsOfVariants, ih, List.flatMap_cons]

variable {nameOf : List UInt8 → String}

theorem exists_of_mem_unions {s : Shape} (ranked : Ranked s) {variants : List Shape}
    (here : variants ∈ (renamed nameOf s).unions) :
    ∃ originals, Ranked (.union originals) ∧ variants = originals.map (renamed nameOf) ∧
      ∀ o ∈ (Shape.union originals).outerObjects, o ∈ s.outerObjects := by
  induction ranked with
  | primitive kind => cases here
  | array placeholder element ih => exact ih here
  | object distinct shapes ih => cases here
  | @union originals several single rising shapes ih =>
    rw [renamed_union, unions, unionsOfVariants_eq, List.flatMap_map] at here
    rcases List.mem_cons.mp here with rfl | inner
    · exact ⟨originals, .union several single rising shapes, rfl, fun _ outer => outer⟩
    · obtain ⟨v, member, inside⟩ := List.mem_flatMap.mp inner
      obtain ⟨parts, whole, spelled, outer⟩ := ih v member inside
      exact ⟨parts, whole, spelled, fun o within =>
        mem_outerObjects_union.mpr ⟨v, member, outer o within⟩⟩

theorem eq_object_of_renamed {s : Shape} (ranked : Ranked s) {name : String}
    (spelled : renamed nameOf s = .reference name) :
    ∃ o ∈ s.outerObjects, nameOf (digestOf o) = name := by
  cases ranked with
  | @object fields distinct shapes =>
    exact ⟨fields, List.mem_singleton.mpr rfl, Shape.reference.inj spelled⟩
  | union several single rising shapes => rw [renamed_union] at spelled; cases spelled
  | _ => cases spelled

end Shape

/-- No two of the variants have one text but an integer and a float, and the name of none is that of a
primitive type. -/
structure KeepsMembers (explicitUnions : Bool) (variants : List Shape) : Prop where
  apart : variants.Pairwise fun v w => plainText explicitUnions v = plainText explicitUnions w →
    v = .primitive .integer ∧ w = .primitive .float
  references : ∀ name, .reference name ∈ variants → ∀ kind, name ≠ kindText kind

theorem keepsMembers_of_ranked {nameOf : List UInt8 → String} {explicitUnions : Bool}
    {originals : List Shape} (ranked : Ranked (.union originals))
    (plain : ∀ o ∈ (Shape.union originals).outerObjects, PlainName (nameOf (digestOf o))) :
    KeepsMembers explicitUnions (originals.map (renamed nameOf)) := by
  cases ranked with
  | union several single rising shapes =>
    have named : ∀ v ∈ originals.map (renamed nameOf), ∀ name, v = .reference name → PlainName name := by
      intro v here name spelled
      obtain ⟨original, member, rfl⟩ := List.mem_map.mp here
      obtain ⟨o, outer, rfl⟩ := Shape.eq_object_of_renamed (shapes original member) spelled
      exact plain o (Shape.mem_outerObjects_union.mpr ⟨original, member, outer⟩)
    have alone : ∀ v ∈ originals.map (renamed nameOf), v.isUnion = false ∧ v.outerObjects = [] := by
      intro v here
      obtain ⟨original, member, rfl⟩ := List.mem_map.mp here
      exact ⟨(Shape.isUnion_renamed original).trans (single original member),
        Shape.outerObjects_renamed original⟩
    constructor
    · apply (Shape.rising_renamed rising shapes).imp_of_mem
      intro v w here there below
      apply numbers_of_plainText_eq below (alone v here).1 (alone w there).1 (alone v here).2
        (alone w there).2
      rintro name (last | first)
      · exact named w there name last
      · exact named v here name first
    · exact fun name here => (named _ here name rfl).differs

namespace Names

variable {nameOf : List UInt8 → String} {s : Shape} {g : Graph}

theorem mem_keys (named : Names nameOf s g) {o : Fields}
    (known : digestOf o ∈ (discover s []).map digestOf) : nameOf (digestOf o) ∈ Entries.keys g.table := by
  rw [named.keys_table]
  obtain ⟨p, found, equal⟩ := List.mem_map.mp known
  rw [← equal]
  exact List.mem_map_of_mem (f := fun o => nameOf (digestOf o)) found

theorem keepsMembers (named : Names nameOf s g) (ranked : Ranked s) {explicitUnions : Bool}
    (root : s.isObject = false → ∀ o ∈ s.outerObjects, PlainName (nameOf (digestOf o)))
    (inner : ∀ p ∈ discover s [], ∀ entry ∈ p, ∀ o ∈ entry.2.shape.outerObjects,
      PlainName (nameOf (digestOf o))) :
    ∀ variants ∈ g.unions, KeepsMembers explicitUnions variants := by
  intro variants here
  rcases List.mem_append.mp here with inRoot | inTable
  · rw [named.root] at inRoot
    obtain ⟨originals, union, rfl, outer⟩ := Shape.exists_of_mem_unions ranked inRoot
    have no_object : s.isObject = false := by
      cases s with
      | object fields => cases inRoot
      | _ => rfl
    exact keepsMembers_of_ranked union fun o within => root no_object o (outer o within)
  · rw [named.table, List.flatMap_map] at inTable
    obtain ⟨p, found, inside⟩ := List.mem_flatMap.mp inTable
    rw [mapFields, List.flatMap_map] at inside
    obtain ⟨entry, member, within⟩ := List.mem_flatMap.mp inside
    have shape := (ranked.of_mem_objects (mem_objects_of_discover found)).field member
    obtain ⟨originals, union, rfl, outer⟩ := Shape.exists_of_mem_unions shape within
    exact keepsMembers_of_ranked union fun o deep => inner p found entry member o (outer o deep)

theorem ne_root_of_inner {fields : Fields} (named : Names nameOf (.object fields) g)
    (free : (Shape.object fields).CollisionFree) {p o : Fields} {entry : Str × Field}
    (found : p ∈ discover (.object fields) []) (here : entry ∈ p)
    (inside : o ∈ entry.2.shape.outerObjects) : nameOf (digestOf o) ≠ nameOf (digestOf fields) := by
  intro equal
  have whole := mem_objects_of_discover found
  have deep : o ∈ (Shape.object fields).objects := Shape.mem_objects_trans whole
    (Shape.mem_objects_object.mpr (Or.inr ⟨entry, here, Shape.outerObjects_subset_objects inside⟩))
  have top : fields ∈ (Shape.object fields).objects := Shape.mem_objects_object.mpr (Or.inl rfl)
  have normals := (named.name_eq_iff free deep top).mp equal
  have lengths := congrArg (fun s => s.objects.length) normals
  simp only [Shape.length_objects_normal] at lengths
  have smaller := Shape.length_objects_inner here (Shape.outerObjects_subset_objects inside)
  have within := Shape.length_objects_of_mem whole
  omega

end Names

theorem keepsMembers_of_ofShape {limit : Nat} {s : Shape} {rootName : String} {g : Graph}
    {explicitUnions : Bool} (ranked : Ranked s) (alphanumeric : Alphanumeric rootName)
    (differs : ∀ kind, rootName ≠ pluralText kind)
    (free : (∃ kind, rootName = kindText kind) → s.CollisionFree)
    (ran : Graph.ofShape limit s rootName = .ok g) :
    ∀ variants ∈ g.unions, KeepsMembers explicitUnions variants := by
  obtain ⟨nameOf, named⟩ := names_of_ofShape ranked ran
  have names : ∀ name ∈ Entries.keys g.table, PlainName name ∨ s.isObject = true ∧ name = rootName :=
    fun _ => plainName_of_ofShape alphanumeric differs ran
  apply named.keepsMembers ranked
  · intro no_object o outer
    rcases names _ (named.mem_keys (named.outer o outer)) with plain | ⟨object, _⟩
    · exact plain
    · rw [no_object] at object
      cases object
  · intro p found entry here o inside
    rcases names _ (named.mem_keys (named.inner p found entry here o inside)) with plain | ⟨object, own⟩
    · exact plain
    · rw [own]
      refine ⟨alphanumeric, fun kind text => ?_⟩
      cases s with
      | object fields =>
        have root := named.root
        rw [root_of_object ran] at root
        have top : nameOf (digestOf fields) = rootName := (Shape.reference.inj root).symm
        exact named.ne_root_of_inner (free ⟨kind, text⟩) found here inside (own.trans top.symm)
      | _ => cases object

/-- Under an alphanumeric name that is no plural of the text of a primitive type, two variants of a union
in the declarations have one text only if they are an integer and a float, and no reference has the text
of a primitive type. -/
theorem keepsMembers_of_generate {options : Options} {typeName : Option String} {name : String}
    {samples : List Value} {blocks : List Points} {warnings : List TypeScript.Warning}
    (accepted : checkTypeName typeName = .ok name) (alphanumeric : Alphanumeric name)
    (differs : ∀ kind, name ≠ pluralText kind) (supported : ∀ v ∈ samples, v.Supported)
    (nonempty : samples ≠ [])
    (free : (∃ kind, name = kindText kind) → (observed options.widenIntegers samples).CollisionFree)
    (returned : (generate options typeName samples).run.run [] = (.ok blocks, warnings)) :
    ∃ g, graphOf options name samples = .ok g ∧ blocks = declarations options.style g ∧
      ∀ variants ∈ g.unions, KeepsMembers options.explicitUnions variants := by
  have ranked : (observed options.widenIntegers samples).Ranked := ranked_observed supported
  rw [graphOf_eq supported nonempty]
  cases named : namedGraph options name samples with
  | error cause =>
    rw [generate_of_accepted accepted supported nonempty, named] at returned
    cases returned
  | ok g =>
    obtain ⟨later, ran⟩ := generate_of_named accepted supported nonempty named
    rw [ran] at returned
    cases returned
    exact ⟨g, rfl, rfl, keepsMembers_of_ofShape ranked alphanumeric differs free named⟩

/-- Integers, floats, texts and objects in one list. -/
theorem keepsMembers_of_generate_of_mixed :
    let options : Options := { widenIntegers := false }
    let samples : List Value :=
      [.list [.int 1, .int (2 ^ 53), .string "x", .object [(.name "a", .int 1)]]]
    let blocks : List Points := ["export interface RootElement \x7b\n    a: number;\n\x7d",
      "export type Root = (number | string | RootElement)[];"]
    let variants : List Shape :=
      [.primitive .integer, .primitive .float, .primitive .string, .reference "RootElement"]
    (generate options (some "Root") samples).run.run [] = (.ok blocks, []) ∧
      ∃ g, graphOf options "Root" samples = .ok g ∧ blocks = declarations options.style g ∧
        variants ∈ g.unions ∧ KeepsMembers options.explicitUnions variants := by
  intro options samples blocks variants
  have object : Value.Supported (.object [(.name "a", .int 1)]) :=
    .object (by decide) (by simp) (by simp [Value.Supported.int])
  have supported : ∀ v ∈ samples, v.Supported := by
    simpa [samples] using Value.Supported.list
      (by simp [Value.Supported.int, Value.Supported.string, object])
  have returned : (generate options (some "Root") samples).run.run [] = (.ok blocks, []) := by
    subst options samples blocks
    rfl
  have free : (∃ kind, "Root" = kindText kind) →
      (observed options.widenIntegers samples).CollisionFree := by
    rintro ⟨kind, text⟩
    have other : "Root" ≠ kindText kind := by cases kind <;> decide
    exact absurd text other
  obtain ⟨g, named, declared, keeps⟩ := keepsMembers_of_generate rfl (alphanumeric_of_all rfl)
    (fun kind => by cases kind <;> decide) supported (List.cons_ne_nil _ _) free returned
  have computed : graphOf options "Root" samples = .ok ⟨"Root", .array (.union variants) false,
    [("RootElement", [("a", ⟨.primitive .integer, false⟩)])]⟩ := rfl
  rw [computed] at named
  cases named
  have here : variants ∈ [variants] := List.mem_singleton.mpr rfl
  exact ⟨returned, _, computed, declared, here, keeps variants here⟩

/-- A list called `strings` has elements called `string`, and then objects in it are taken for texts. -/
theorem not_keepsMembers_of_plural :
    let samples : List Value := [.list [.string "x", .object [(.name "a", .int 1)]]]
    let variants : List Shape := [.primitive .string, .reference "string"]
    (generate {} (some "strings") samples).run.run [] =
        (.ok ["export interface string \x7b\n    a: number;\n\x7d", "export type strings = string[];"],
          []) ∧
      ∃ g, graphOf {} "strings" samples = .ok g ∧ variants ∈ g.unions ∧ ¬ KeepsMembers true variants := by
  intro samples variants
  refine ⟨rfl, ⟨"strings", .array (.union variants) false,
    [("string", [("a", ⟨.primitive .integer, false⟩)])]⟩, rfl, List.mem_singleton.mpr rfl, ?_⟩
  intro keeps
  exact keeps.references "string" (List.mem_cons_of_mem _ List.mem_cons_self) .string rfl

end SampleTypes
