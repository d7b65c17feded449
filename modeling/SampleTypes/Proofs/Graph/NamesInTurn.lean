import SampleTypes.Proofs.Graph.DiscoveryOrder
import SampleTypes.Proofs.Graph.GivenNames

/-! Names are chosen in the order of discovery. Each is the one for the context of a first occurrence while
the names of the root and of the objects before it are taken. -/

namespace SampleTypes

open Shape (digestOf restated mapFields Buildable)

/-- Every object has the name that is chosen in its context while those of the root and of the objects
before it are taken. If the root is an object, it comes first, and its name is not chosen. -/
def NamedInTurn (rootName : String) (rooted : Prop) (nameOf : List UInt8 → String)
    (listed : List Occurrence) : Prop :=
  ∀ before context o after, listed = before ++ (context, o) :: after → (rooted → before ≠ []) →
    Chosen (rootName :: before.map fun earlier => nameOf (digestOf earlier.2)) context (nameOf (digestOf o))

namespace NamedInTurn

variable {rootName : String} {rooted : Prop} {nameOf other : List UInt8 → String}
  {listed : List Occurrence}

theorem nil : NamedInTurn rootName rooted nameOf [] := by
  intro before context o after split
  simp at split

theorem first (isRooted : rooted) (o : Occurrence) : NamedInTurn rootName rooted nameOf [o] := by
  intro before context p after split later
  have lengths := congrArg List.length split
  have nonempty := List.length_pos_iff.mpr (later isRooted)
  simp only [List.length_append, List.length_cons, List.length_nil] at lengths
  omega

theorem congr (inTurn : NamedInTurn rootName rooted nameOf listed)
    (agree : ∀ o ∈ listed, nameOf (digestOf o.2) = other (digestOf o.2)) :
    NamedInTurn rootName rooted other listed := by
  rintro before context o after rfl later
  rw [List.forall_mem_append, List.forall_mem_cons] at agree
  rw [← agree.2.1, ← List.map_congr_left agree.1]
  exact inTurn before context o after rfl later

theorem concat (inTurn : NamedInTurn rootName rooted nameOf listed) {context : String} {o : Fields}
    (chosen : Chosen (rootName :: listed.map fun earlier => nameOf (digestOf earlier.2)) context
      (nameOf (digestOf o))) : NamedInTurn rootName rooted nameOf (listed ++ [(context, o)]) := by
  intro before place p after split later
  -- The place is the new one at the end, or one with names before it that were there already.
  rcases List.eq_nil_or_concat after with rfl | ⟨rest, last, rfl⟩
  · obtain ⟨rfl, same⟩ := List.append_inj' split rfl
    cases same
    exact chosen
  · rw [List.concat_eq_append, ← List.cons_append, ← List.append_assoc] at split
    exact inTurn before place p rest (List.append_inj' split rfl).1 later

end NamedInTurn

structure InTurn (rootName : String) (rooted : Prop) (met : List Occurrence) (r : Registry) : Prop where
  digests : Entries.keys r.names = digestsOf met
  used : ∀ name, name ∈ r.used ↔ name = rootName ∨ ∃ o ∈ met, r.nameOf (digestOf o.2) = name
  named : NamedInTurn rootName rooted r.nameOf met

namespace InTurn

variable {rootName context name : String} {rooted : Prop} {met : List Occurrence} {r later : Registry}
  {fields : Fields} {limit : Nat} {s t : Shape}

theorem initial (no_object : s.isObject = false) :
    InTurn rootName (s.isObject = true) [] (.initial s rootName) := by
  cases s with
  | object fields => cases no_object
  | _ => exact ⟨rfl, by simp [Registry.initial], .nil⟩

theorem reserve_root (isRooted : rooted) :
    InTurn rootName rooted [(rootName, fields)]
      ((Registry.initial (.object fields) rootName).reserve (digestOf fields) rootName fields) := by
  have own : ((Registry.initial (.object fields) rootName).reserve (digestOf fields) rootName
      fields).nameOf (digestOf fields) = rootName := Registry.nameOf_reserve List.not_mem_nil
  refine ⟨rfl, fun name => ?_, .first isRooted _⟩
  simp only [List.mem_singleton, exists_eq_left, own]
  simp [Registry.reserve, Registry.initial, eq_comm]

theorem nameOf_reserve (turn : InTurn rootName rooted met r) (digest : List UInt8) (name : String)
    (fields : Fields) :
    ∀ o ∈ met, (r.reserve digest name fields).nameOf (digestOf o.2) = r.nameOf (digestOf o.2) := by
  intro o here
  apply Registry.nameOf_of_prefix (List.prefix_append _ _)
  rw [turn.digests]
  exact List.mem_map_of_mem (f := fun o : Occurrence => digestOf o.2) here

theorem reserve (turn : InTurn rootName rooted met r) (unknown : digestOf fields ∉ digestsOf met)
    (unique : uniqueName limit r.used context = .ok name) :
    InTurn rootName rooted (met ++ [(context, fields)]) (r.reserve (digestOf fields) name fields) := by
  have old := turn.nameOf_reserve (digestOf fields) name fields
  have new : (r.reserve (digestOf fields) name fields).nameOf (digestOf fields) = name :=
    Registry.nameOf_reserve (by rwa [turn.digests])
  have taken : ∀ other, other ∈ r.used ↔ other ∈ rootName ::
      met.map fun o => (r.reserve (digestOf fields) name fields).nameOf (digestOf o.2) := by
    intro other
    rw [turn.used, List.mem_cons, List.mem_map]
    exact or_congr_right (exists_congr fun o => and_congr_right fun here => by rw [old o here])
  constructor
  · rw [Registry.reserve, Entries.keys_append, turn.digests, digestsOf_append]
    rfl
  · intro other
    have reserved : other ∈ (r.reserve (digestOf fields) name fields).used ↔
        other = name ∨ other ∈ r.used := List.mem_cons
    rw [reserved, taken, List.mem_cons, List.mem_map, or_left_comm, or_comm (a := other = name)]
    simp only [List.mem_append, List.mem_singleton, or_and_right, exists_or, exists_eq_left, new]
    rw [eq_comm (a := name)]
  · apply (turn.named.congr fun o here => (old o here).symm).concat
    rw [new]
    exact (chosen_of_uniqueName unique).congr taken

theorem complete (turn : InTurn rootName rooted met r) (others : Fields) :
    InTurn rootName rooted met (r.complete name others) :=
  ⟨turn.digests, turn.used, turn.named⟩

theorem of_walkInside {digest : List UInt8}
    (entered : InTurn rootName rooted (met ++ [(context, fields)]) (r.reserve digest name fields))
    (inner : ∀ entry ∈ fields, ∀ {met r later t}, InTurn rootName rooted met r →
      walk limit entry.2.shape (typeNameOf entry.1) none r = .ok (t, later) →
        InTurn rootName rooted (meet (typeNameOf entry.1) entry.2.shape met) later)
    (ran : walkInside limit digest fields name r = .ok (t, later)) :
    InTurn rootName rooted ((sortByName fields).foldl
      (fun met entry => meet (typeNameOf entry.1) entry.2.shape met) (met ++ [(context, fields)])) later := by
  obtain ⟨⟨walked, last⟩, fields_ran, ran⟩ := eq_ok_of_bind ran
  cases ran
  apply InTurn.complete
  apply foldl_of_mapM (I := InTurn rootName rooted) _ _ entered fields_ran
  intro entry here met r b later before first
  rw [walkField_run] at first
  obtain ⟨⟨t, after⟩, walk, first⟩ := eq_ok_of_bind first
  cases first
  exact inner entry ((sortByName_perm fields).mem_iff.mp here) before walk

theorem of_walk (turn : InTurn rootName rooted met r)
    (ran : walk limit s context none r = .ok (t, later)) :
    InTurn rootName rooted (meet context s met) later := by
  induction s generalizing context met r later t with
  | primitive kind => cases ran; exact turn
  | reference name => cases ran; exact turn
  | array e placeholder ih =>
    rw [walk_array] at ran
    obtain ⟨⟨walked, last⟩, inner, ran⟩ := eq_ok_of_bind ran
    cases ran
    exact ih turn inner
  | union variants ih =>
    rw [walk_union] at ran
    obtain ⟨⟨walked, last⟩, inner, ran⟩ := eq_ok_of_bind ran
    cases ran
    rw [meet_union]
    exact foldl_of_mapM (I := InTurn rootName rooted) (fun met v => meet context v met)
      (fun v here _ _ _ _ before first => ih v here before first) turn inner
  | object fields ih =>
    rw [walk_object] at ran
    rw [meet_object]
    cases looked : r.names.lookup (digestOf fields) with
    | some name =>
      rw [looked] at ran
      cases ran
      have known : digestOf fields ∈ digestsOf met := by
        rw [← turn.digests, ← Entries.lookup_isSome, looked]
        rfl
      rw [if_pos known]
      exact turn
    | none =>
      rw [looked] at ran
      obtain ⟨name, picked, ran⟩ := eq_ok_of_bind ran
      have unknown : digestOf fields ∉ digestsOf met := by
        rw [← turn.digests]
        exact Entries.lookup_eq_none.mp looked
      rw [if_neg unknown]
      exact of_walkInside (turn.reserve unknown picked) (fun entry here => ih entry here) ran

end InTurn

theorem inTurn_of_root {limit : Nat} {s t : Shape} {rootName : String} {r : Registry}
    (ran : walk limit s rootName (some rootName) (.initial s rootName) = .ok (t, r)) :
    InTurn rootName (s.isObject = true) (meet rootName s []) r := by
  cases object : s.isObject with
  | false =>
    rw [walk_fixed object] at ran
    exact object ▸ (InTurn.initial object).of_walk ran
  | true =>
    cases s with
    | object fields =>
      rw [walk_object] at ran
      obtain ⟨name, picked, ran⟩ := eq_ok_of_bind ran
      cases picked
      have unknown : digestOf fields ∉ digestsOf [] := List.not_mem_nil
      rw [meet_object, if_neg unknown]
      exact InTurn.of_walkInside (.reserve_root rfl) (fun _ _ => InTurn.of_walk) ran
    | _ => cases object

theorem result_of_root {limit : Nat} {fields : Fields} {t : Shape} {rootName : String} {r : Registry}
    (ran : walk limit (.object fields) rootName (some rootName) (.initial (.object fields) rootName) =
      .ok (t, r)) : t = .reference rootName := by
  rw [walk_object] at ran
  obtain ⟨name, picked, ran⟩ := eq_ok_of_bind ran
  cases picked
  obtain ⟨⟨walked, last⟩, _, ran⟩ := eq_ok_of_bind ran
  cases ran
  rfl

theorem exists_firstOccurrences_cons (o : Occurrence) (rest : List Occurrence) :
    ∃ later, firstOccurrences (o :: rest) = o :: later := by
  have kept : [o] <+: firstOccurrences (o :: rest) := by
    apply prefix_foldl
    intro p _ found
    unfold keepNew
    split_ifs
    · exact List.prefix_rfl
    · exact List.prefix_append _ _
  obtain ⟨later, split⟩ := kept
  exact ⟨later, split.symm⟩

/-- The table lists the first occurrences of the objects, a root object first and under its own name, and
each other name is chosen in turn. Digests must not collide. -/
theorem namedInTurn_of_ofShape {limit : Nat} {s : Shape} {rootName : String} {g : Graph}
    (buildable : Buildable s) (free : s.CollisionFree)
    (ran : Graph.ofShape limit s rootName = .ok g) :
    ∃ nameOf : List UInt8 → String,
      g.root = restated nameOf s ∧
        g.table = (firstOccurrences (occurrences rootName s)).map
          (fun o => (nameOf (digestOf o.2), mapFields (restated nameOf) o.2)) ∧
        NamedInTurn rootName (s.isObject = true) nameOf (firstOccurrences (occurrences rootName s)) ∧
        ∀ fields, s = .object fields → nameOf (digestOf fields) = rootName ∧
          ∃ later, firstOccurrences (occurrences rootName s) = (rootName, fields) :: later := by
  obtain ⟨t, r, walk, walked, rfl⟩ := exists_walk_of_ofShape buildable ran
  rw [← meet_eq_firstOccurrences free buildable]
  refine ⟨r.nameOf, walked.result, ?_, (inTurn_of_root walk).named, ?_⟩
  · have found : (meet rootName s []).map Prod.snd = discover s [] := map_meet rootName s []
    rw [walked.registered.table, ← found, List.map_map]
    exact List.map_congr_left fun o _ => congrArg (Prod.mk _) (if_neg List.not_mem_nil)
  · rintro fields rfl
    constructor
    · have same := walked.result.symm.trans (result_of_root walk)
      exact Shape.reference.inj same
    · rw [meet_eq_firstOccurrences free buildable, occurrences_object]
      exact exists_firstOccurrences_cons _ _

/-- The object in an array called by the plural of a reserved name, and beside it the same object. -/
theorem namedInTurn_of_ofShape_of_reserved :
    let first : Fields := [("x", ⟨.primitive .float, true⟩), ("y", ⟨.null, false⟩)]
    let second : Fields := [("y", ⟨.null, false⟩), ("x", ⟨.primitive .float, true⟩)]
    let s : Shape := .union [.array (.object first) false, .object second]
    ∃ (g : Graph) (nameOf : List UInt8 → String), Graph.ofShape defaultSuffixLimit s "Dates" = .ok g ∧
      Entries.keys g.table = [nameOf (digestOf first)] ∧
        Chosen ["Dates"] "Date" (nameOf (digestOf first)) := by
  intro first second s
  have left : Buildable (.object first) :=
    .object (by decide) (by simp [first, Shape.null, Buildable.primitive])
  have right : Buildable (.object second) :=
    .object (by decide) (by simp [second, Shape.null, Buildable.primitive])
  have buildable : Buildable s :=
    .union (by decide) (by simp [Shape.isUnion]) (by simp [left, right, Buildable.array])
  have free : s.CollisionFree := by
    apply Shape.collisionFree_of_normal_eq
    intro o here p there
    rcases List.mem_pair.mp here with rfl | rfl <;> rcases List.mem_pair.mp there with rfl | rfl <;> rfl
  have same : digestOf second = digestOf first := Shape.digest_eq_of_normal rfl
  let g : Graph := ⟨"Dates", .union [.array (.reference "Date2") false, .reference "Date2"],
    [("Date2", first)]⟩
  have picked : uniqueName defaultSuffixLimit ["Dates"] (elementTypeName "Dates") = .ok "Date2" := rfl
  have entered : ∀ digest, walkInside defaultSuffixLimit digest first "Date2" ⟨[], [], ["Dates"]⟩ =
      .ok (.reference "Date2", ⟨[("Date2", first)], [(digest, "Date2")], ["Date2", "Dates"]⟩) :=
    fun _ => rfl
  have known : ∀ digest : List UInt8, [(digest, "Date2")].lookup digest = some "Date2" :=
    fun _ => List.lookup_cons_self
  have ran : Graph.ofShape defaultSuffixLimit s "Dates" = .ok g :=
    ofShape_beside_array same picked (entered _) (known _)
  have listed : firstOccurrences (occurrences "Dates" s) = [("Date", first)] := rfl
  obtain ⟨nameOf, _, table, named, _⟩ := namedInTurn_of_ofShape buildable free ran
  refine ⟨g, nameOf, ran, ?_, ?_⟩
  · rw [table, listed]
    rfl
  · exact named [] "Date" first [] listed fun isRooted => by cases isRooted

end SampleTypes
