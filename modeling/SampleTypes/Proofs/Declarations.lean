import SampleTypes.Proofs.CheckedGeneration
import SampleTypes.Proofs.Graph.Deduplication

/-! The declarations of samples. Generation stops only where a name is missing, and otherwise declares
each different object once and a root that is no object after them. -/

namespace SampleTypes

open Shape (digestOf observed renamed mapFields Ranked)
open TypeScript (Style interfaceText aliasText plainText plainMembers declarations)

/-! The root. -/

section Root

variable {limit : Nat} {s : Shape} {rootName : String} {g : Graph}

theorem root_of_object {fields : Fields}
    (ran : Graph.ofShape limit (.object fields) rootName = .ok g) : g.root = .reference rootName := by
  obtain ⟨⟨t, r⟩, walked, ran⟩ := eq_ok_of_bind ran
  cases ran
  change walk limit (.object fields) rootName (some rootName) ⟨[], [], []⟩ = .ok (t, r) at walked
  rw [walk_object] at walked
  obtain ⟨name, picked, walked⟩ := eq_ok_of_bind walked
  obtain ⟨out, _, walked⟩ := eq_ok_of_bind walked
  cases picked
  cases walked
  rfl

theorem rootIsObject_eq (ranked : Ranked s) (ran : Graph.ofShape limit s rootName = .ok g) :
    g.rootIsObject = s.isObject := by
  obtain ⟨nameOf, named⟩ := names_of_ofShape ranked ran
  cases ranked with
  | object distinct shapes =>
    rw [Graph.rootIsObject, root_of_object ran, rootName_of_ofShape ran]
    exact decide_eq_true rfl
  | union several single rising shapes =>
    rw [Graph.rootIsObject, named.root, Shape.renamed_union]
    rfl
  | _ => rw [Graph.rootIsObject, named.root]; rfl

theorem head?_of_object {fields : Fields} (ranked : Ranked (.object fields))
    (ran : Graph.ofShape limit (.object fields) rootName = .ok g) :
    (Entries.keys g.table).head? = some rootName := by
  obtain ⟨nameOf, named⟩ := names_of_ofShape ranked ran
  have own : nameOf (digestOf fields) = rootName := by
    have root := named.root
    rw [root_of_object ran] at root
    exact (Shape.reference.inj root).symm
  have first : [fields] <+: discover (.object fields) [] := by
    rw [discover_object, List.map_nil, if_neg List.not_mem_nil]
    exact prefix_foldl _ (fun entry _ found => prefix_discover entry.2.shape found) [fields]
  obtain ⟨rest, found⟩ := first
  rw [named.keys_table, ← found]
  exact congrArg some own

end Root

/-- What the blocks of a shape are. The table of its graph has an entry for each different object, with
names in the places of the objects inside it, and that of an object at the root first. Every entry is an
interface, and a root that is no object is an alias after them. -/
structure Declared (style : Style) (name : String) (s : Shape) (g : Graph) (blocks : List Points) :
    Prop where
  blocks_eq : blocks =
    (g.table.map fun entry => interfaceText entry.1 (plainMembers style entry.2)) ++
      if s.isObject then [] else [aliasText name (plainText style.explicitUnions g.root)]
  entries : ∃ (nameOf : List UInt8 → String) (different : List Fields), g.root = renamed nameOf s ∧
    g.table = different.map (fun o => (nameOf (digestOf o), mapFields (renamed nameOf) o)) ∧
      (∀ o ∈ different, o ∈ s.objects) ∧
      (∀ o ∈ s.objects, ∃ p ∈ different, (Shape.object o == Shape.object p) = true) ∧
      different.Pairwise fun o p => (Shape.object o == Shape.object p) = false
  names : (Entries.keys g.table).Nodup
  first : s.isObject = true → (Entries.keys g.table).head? = some name
  count : blocks.length =
    (Shape.distinct (s.objects.map Shape.object)).length + if s.isObject then 0 else 1
  nonempty : blocks ≠ []

theorem declarations_ne_nil {style : Style} {g : Graph} (checked : g.check = .ok ()) :
    declarations style g ≠ [] := by
  rw [declarations]
  cases object : g.rootIsObject with
  | false => simp
  | true => simpa using Graph.table_ne_nil checked object

namespace Names

variable {nameOf : List UInt8 → String} {s : Shape} {g : Graph}

theorem exists_equal (ranked : Ranked s) (named : Names nameOf s g) (free : s.CollisionFree)
    {o : Fields} (here : o ∈ s.objects) :
    ∃ p ∈ discover s [], (Shape.object o == Shape.object p) = true := by
  obtain ⟨p, found, _, same⟩ := exists_found free here (named.known free here)
  refine ⟨p, found, ?_⟩
  have second := ranked.of_mem_objects (mem_objects_of_discover found)
  exact (Shape.beq_iff_normal (ranked.of_mem_objects here).buildable second.buildable).mpr same.symm

theorem pairwise_discover (ranked : Ranked s) (named : Names nameOf s g) :
    (discover s []).Pairwise fun o p => (Shape.object o == Shape.object p) = false := by
  apply (List.pairwise_map.mp named.distinct).imp_of_mem
  intro o p here there differ
  rw [Bool.eq_false_iff]
  intro equal
  have first := ranked.of_mem_objects (mem_objects_of_discover here)
  have second := ranked.of_mem_objects (mem_objects_of_discover there)
  exact differ (Shape.digest_eq_of_normal
    ((Shape.beq_iff_normal first.buildable second.buildable).mp equal))

end Names

theorem declared_of_ofShape {style : Style} {limit : Nat} {s : Shape} {name : String} {g : Graph}
    (ranked : Ranked s) (free : s.CollisionFree) (ran : Graph.ofShape limit s name = .ok g) :
    Declared style name s g (declarations style g) := by
  obtain ⟨nameOf, named⟩ := names_of_ofShape ranked ran
  have blocks : declarations style g =
      (g.table.map fun entry => interfaceText entry.1 (plainMembers style entry.2)) ++
        if s.isObject then [] else [aliasText name (plainText style.explicitUnions g.root)] := by
    rw [declarations, rootIsObject_eq ranked ran, rootName_of_ofShape ran]
  constructor
  · exact blocks
  · exact ⟨nameOf, discover s [], named.root, named.table, fun _ => Names.mem_objects_of_discover,
      fun _ => named.exists_equal ranked free, named.pairwise_discover ranked⟩
  · rw [named.keys_table]
    exact named.names
  · intro object
    cases s with
    | object fields => exact head?_of_object ranked ran
    | _ => cases object
  · rw [blocks, List.length_append, List.length_map, named.length_table_eq ranked free]
    cases s.isObject <;> rfl
  · exact declarations_ne_nil (named.check ranked)

/-- Supported samples under an accepted name break no check, and they are declared unless no name is left
for an object. This holds if digests do not collide. -/
theorem generate_declared {options : Options} {typeName : Option String} {name : String}
    {samples : List Value} (accepted : checkTypeName typeName = .ok name)
    (supported : ∀ v ∈ samples, v.Supported) (nonempty : samples ≠ [])
    (free : (observed options.widenIntegers samples).CollisionFree) :
    checkedGenerate options typeName samples = (generate options typeName samples).adapt .reported ∧
      ∃ s, Shape.inferAll options.widenIntegers samples = .ok s ∧
        ((∃ cause, (generate options typeName samples).run.run [] = (.error (.naming cause), [])) ∨
          ∃ g blocks warnings, Graph.ofShape defaultSuffixLimit s name = .ok g ∧
            (generate options typeName samples).run.run [] = (.ok blocks, warnings) ∧
              Declared options.style name s g blocks) := by
  have ranked : (observed options.widenIntegers samples).Ranked := ranked_observed supported
  refine ⟨checkedGenerate_eq supported nonempty, observed options.widenIntegers samples,
    Shape.inferAll_observed supported nonempty, ?_⟩
  cases named : namedGraph options name samples with
  | error cause =>
    rw [generate_of_accepted accepted supported nonempty, named]
    exact Or.inl ⟨cause, rfl⟩
  | ok g =>
    obtain ⟨warnings, ran⟩ := generate_of_named accepted supported nonempty named
    exact Or.inr ⟨g, _, warnings, named, ran, declared_of_ofShape ranked free named⟩

/-- An object in a list, beside null. -/
theorem generate_declared_of_list :
    let samples : List Value := [.list [.object [(.name "b", .int 1)]], .null]
    let blocks := ["export interface RootElement \x7b\n    b: number;\n\x7d",
      "export type Root = RootElement[] | null;"]
    checkedGenerate {} (some "Root") samples = (generate {} (some "Root") samples).adapt .reported ∧
      (generate {} (some "Root") samples).run.run [] = (.ok blocks, []) ∧
        ∃ s g, Shape.inferAll true samples = .ok s ∧
          Graph.ofShape defaultSuffixLimit s "Root" = .ok g ∧
            Declared ({} : Options).style "Root" s g blocks := by
  intro samples blocks
  have item : Value.Supported (.object [(.name "b", .int 1)]) :=
    .object (by decide) (by simp) (by simp [Value.Supported.int])
  have supported : ∀ v ∈ samples, v.Supported := by
    simpa [samples, Value.Supported.null] using Value.Supported.list (by simpa using item)
  have nonempty : samples ≠ [] := List.cons_ne_nil _ _
  let fields : Fields := [("b", ⟨.primitive .integer, false⟩)]
  let s : Shape := .union [.array (.object fields) false, .null]
  have inferred : Shape.inferAll true samples = .ok s := rfl
  have free : (observed true samples).CollisionFree := by
    rw [← (Shape.inferAll_eq_ok supported nonempty).mp inferred]
    apply Shape.collisionFree_of_normal_eq
    intro o here p there
    rw [List.mem_singleton.mp here, List.mem_singleton.mp there]
  have accepted : checkTypeName (some "Root") = .ok "Root" := rfl
  have ran : (generate {} (some "Root") samples).run.run [] = (.ok blocks, []) := rfl
  obtain ⟨unbroken, t, returned, outcome⟩ :=
    @generate_declared {} (some "Root") "Root" samples accepted supported nonempty free
  refine ⟨unbroken, ran, t, ?_⟩
  rcases outcome with ⟨cause, failed⟩ | ⟨g, others, warnings, named, same, declared⟩
  · rw [ran] at failed
    cases failed
  · rw [ran] at same
    cases same
    exact ⟨g, returned, named, declared⟩

end SampleTypes
