import SampleTypes.Proofs.Graph.Walk

/-! The invariant of naming. A registry holds, for each object met so far, its digest, its name and its
place in the table, where names stand for the objects inside it once its own walk is over. -/

namespace SampleTypes

open Shape (digestOf restated mapFields)

mutual

/-- The objects found so far, and after them those that a shape adds: a parent before its fields,
fields by name, and nothing at all under a digest that is known. -/
def discover : Shape → List Fields → List Fields
  | .object fields, found =>
    if digestOf fields ∈ found.map digestOf then found
    else (sortByName (fieldDiscoveries fields)).foldl (fun found entry => entry.2 found)
      (found ++ [fields])
  | .array e _, found => discover e found
  | .union variants, found => discoverVariants variants found
  | .primitive _, found => found
  | .reference _, found => found

def fieldDiscoveries : Fields → List (Str × (List Fields → List Fields))
  | [] => []
  | (name, field) :: rest => (name, discover field.shape) :: fieldDiscoveries rest

def discoverVariants : List Shape → List Fields → List Fields
  | [], found => found
  | v :: rest, found => discoverVariants rest (discover v found)

end

theorem fieldDiscoveries_eq (fields : Fields) :
    fieldDiscoveries fields = fields.map fun entry => (entry.1, discover entry.2.shape) := by
  induction fields with
  | nil => rfl
  | cons entry rest ih => rw [fieldDiscoveries, ih]; rfl

theorem discoverVariants_eq (variants : List Shape) (found : List Fields) :
    discoverVariants variants found = variants.foldl (fun found v => discover v found) found := by
  induction variants generalizing found with
  | nil => rfl
  | cons v rest ih => rw [discoverVariants, ih]; rfl

theorem discover_object (fields : Fields) (found : List Fields) :
    discover (.object fields) found =
      if digestOf fields ∈ found.map digestOf then found
      else (sortByName fields).foldl (fun found entry => discover entry.2.shape found)
        (found ++ [fields]) := by
  rw [discover, fieldDiscoveries_eq, sortByName_map fun _ (field : Field) => discover field.shape,
    List.foldl_map]

theorem discover_union (variants : List Shape) (found : List Fields) :
    discover (.union variants) found = variants.foldl (fun found v => discover v found) found := by
  rw [discover, discoverVariants_eq]

namespace Registry

def nameOf (r : Registry) (digest : List UInt8) : String := (r.names.lookup digest).getD ""

theorem nameOf_of_prefix {r later : Registry} (grown : r.names <+: later.names) {digest : List UInt8}
    (known : digest ∈ Entries.keys r.names) : later.nameOf digest = r.nameOf digest := by
  obtain ⟨added, split⟩ := grown
  obtain ⟨name, found⟩ := Option.isSome_iff_exists.mp (Entries.lookup_isSome.mpr known)
  rw [nameOf, nameOf, ← split, List.lookup_append, found]
  rfl

theorem nameOf_reserve {r : Registry} {digest : List UInt8} {name : String} {fields : Fields}
    (absent : digest ∉ Entries.keys r.names) : (r.reserve digest name fields).nameOf digest = name := by
  simp [nameOf, reserve, List.lookup_append, Entries.lookup_eq_none.mpr absent]

/-- Every object of a shape that lies in no other one has a name. -/
def Knows (r : Registry) (s : Shape) : Prop :=
  ∀ o ∈ s.outerObjects, digestOf o ∈ Entries.keys r.names

theorem Knows.of_prefix {r later : Registry} {s : Shape} (known : r.Knows s)
    (grown : r.names <+: later.names) : later.Knows s :=
  fun o here => (List.IsPrefix.map Prod.fst grown).subset (known o here)

theorem Knows.restated_eq {r later : Registry} {s : Shape} (known : r.Knows s)
    (grown : r.names <+: later.names) : restated later.nameOf s = restated r.nameOf s :=
  Shape.restated_congr fun o here => nameOf_of_prefix grown (known o here)

end Registry

/-- A registry that has named the objects found. Those whose digest is in `unfinished` are being
walked and still have their own shapes in the table. -/
structure Registered (unfinished : List (List UInt8)) (found : List Fields) (r : Registry) :
    Prop where
  digests : Entries.keys r.names = found.map digestOf
  distinct : (found.map digestOf).Nodup
  names : (r.names.map Prod.snd).Nodup
  used : ∀ name ∈ r.names.map Prod.snd, name ∈ r.used
  started : ∀ digest ∈ unfinished, digest ∈ found.map digestOf
  table : r.table = found.map fun o =>
    (r.nameOf (digestOf o), if digestOf o ∈ unfinished then o else mapFields (restated r.nameOf) o)
  named : ∀ o ∈ found, digestOf o ∉ unfinished → ∀ entry ∈ o,
    ∀ inner ∈ entry.2.shape.outerObjects, digestOf inner ∈ found.map digestOf

namespace Registered

variable {unfinished : List (List UInt8)} {found : List Fields} {r : Registry}

theorem names_eq (registered : Registered unfinished found r) :
    r.names.map Prod.snd = found.map fun o => r.nameOf (digestOf o) := by
  have keys := registered.digests
  have nodup : (Entries.keys r.names).Nodup := keys ▸ registered.distinct
  have looked : r.names.map Prod.snd = (Entries.keys r.names).map r.nameOf := by
    rw [Entries.keys, List.map_map]
    apply List.map_congr_left
    rintro ⟨digest, name⟩ here
    simp [Registry.nameOf, Entries.lookup_of_mem nodup here]
  calc r.names.map Prod.snd = (Entries.keys r.names).map r.nameOf := looked
    _ = (found.map digestOf).map r.nameOf := by rw [keys]
    _ = found.map fun o => r.nameOf (digestOf o) := List.map_map

theorem keys_table (registered : Registered unfinished found r) :
    Entries.keys r.table = r.names.map Prod.snd := by
  rw [registered.table, registered.names_eq, Entries.keys, List.map_map]
  rfl

theorem lookup_names (registered : Registered unfinished found r) {fields : Fields} :
    r.names.lookup (digestOf fields) =
      if digestOf fields ∈ found.map digestOf then some (r.nameOf (digestOf fields)) else none := by
  split_ifs with known
  · rw [← registered.digests] at known
    obtain ⟨name, looked⟩ := Option.isSome_iff_exists.mp (Entries.lookup_isSome.mpr known)
    rw [Registry.nameOf, looked]
    rfl
  · rw [← registered.digests] at known
    exact Entries.lookup_eq_none.mpr known

theorem nodup_keys_table (registered : Registered unfinished found r) :
    (found.map fun o => r.nameOf (digestOf o)).Nodup :=
  registered.names_eq ▸ registered.names

section Reserving

variable {fields : Fields} {name : String}

theorem nameOf_reserve_new (registered : Registered unfinished found r)
    (unknown : digestOf fields ∉ found.map digestOf) :
    (r.reserve (digestOf fields) name fields).nameOf (digestOf fields) = name := by
  apply Registry.nameOf_reserve
  rw [registered.digests]
  exact unknown

theorem nameOf_reserve_old (registered : Registered unfinished found r) {digest : List UInt8}
    (known : digest ∈ found.map digestOf) :
    (r.reserve (digestOf fields) name fields).nameOf digest = r.nameOf digest := by
  apply Registry.nameOf_of_prefix (List.prefix_append _ _)
  rw [registered.digests]
  exact known

theorem table_reserve (registered : Registered unfinished found r)
    (unknown : digestOf fields ∉ found.map digestOf) {o : Fields} (here : o ∈ found) :
    (r.nameOf (digestOf o), if digestOf o ∈ unfinished then o else mapFields (restated r.nameOf) o) =
      ((r.reserve (digestOf fields) name fields).nameOf (digestOf o),
        if digestOf o ∈ digestOf fields :: unfinished then o
        else mapFields (restated (r.reserve (digestOf fields) name fields).nameOf) o) := by
  have differ : digestOf o ≠ digestOf fields := by
    intro equal
    exact unknown (equal ▸ List.mem_map_of_mem here)
  rw [registered.nameOf_reserve_old (List.mem_map_of_mem here)]
  by_cases busy : digestOf o ∈ unfinished
  · rw [if_pos busy, if_pos (List.mem_cons_of_mem _ busy)]
  · rw [if_neg busy, if_neg (by simp [differ, busy])]
    congr 1
    apply Shape.mapFields_congr
    intro entry inside
    apply Shape.restated_congr
    intro inner within
    have known := registered.named o here busy entry inside inner within
    exact (registered.nameOf_reserve_old known).symm

theorem reserve (registered : Registered unfinished found r)
    (unknown : digestOf fields ∉ found.map digestOf) (fresh : name ∉ r.names.map Prod.snd) :
    Registered (digestOf fields :: unfinished) (found ++ [fields])
      (r.reserve (digestOf fields) name fields) := by
  constructor
  · rw [Registry.reserve, Entries.keys_append, registered.digests, List.map_append]
    rfl
  · rw [List.map_append]
    exact registered.distinct.append (List.nodup_singleton _) (List.disjoint_singleton.mpr unknown)
  · rw [Registry.reserve, List.map_append]
    exact registered.names.append (List.nodup_singleton _) (List.disjoint_singleton.mpr fresh)
  · intro other here
    rw [Registry.reserve, List.map_append, List.mem_append] at here
    rcases here with old | new
    · exact List.mem_cons_of_mem name (registered.used other old)
    · rw [List.mem_singleton.mp new]
      exact List.mem_cons_self
  · intro digest here
    rw [List.map_append, List.mem_append]
    rcases List.mem_cons.mp here with rfl | before
    · exact Or.inr (List.mem_singleton.mpr rfl)
    · exact Or.inl (registered.started digest before)
  · have absent : name ∉ Entries.keys r.table := by
      rw [registered.keys_table]
      exact fresh
    change Entries.put name fields r.table = _
    rw [Entries.put_of_not_mem absent, registered.table, List.map_append, List.map_singleton,
      registered.nameOf_reserve_new unknown, if_pos List.mem_cons_self]
    congr 1
    exact List.map_congr_left fun o here => registered.table_reserve unknown here
  · intro o here idle entry inside inner within
    rw [List.map_append, List.mem_append]
    rcases List.mem_append.mp here with old | new
    · left
      apply registered.named o old (fun busy => idle (List.mem_cons_of_mem _ busy)) entry inside inner
      exact within
    · rw [List.mem_singleton.mp new] at idle
      exact absurd List.mem_cons_self idle

end Reserving

theorem complete {fields : Fields} (registered : Registered (digestOf fields :: unfinished) found r)
    (here : fields ∈ found) (idle : digestOf fields ∉ unfinished)
    (known : ∀ entry ∈ fields, ∀ inner ∈ entry.2.shape.outerObjects,
      digestOf inner ∈ found.map digestOf) :
    Registered unfinished found
      (r.complete (r.nameOf (digestOf fields)) (mapFields (restated r.nameOf) fields)) := by
  constructor
  · exact registered.digests
  · exact registered.distinct
  · exact registered.names
  · exact registered.used
  · intro digest busy
    exact registered.started digest (List.mem_cons_of_mem _ busy)
  · change Entries.put _ _ r.table = _
    rw [registered.table, Entries.put_map (fun o => r.nameOf (digestOf o)) _
      registered.nodup_keys_table here]
    apply List.map_congr_left
    intro o there
    congr 1
    by_cases same : o = fields
    · subst same
      rw [if_pos rfl, if_neg idle]
      rfl
    -- No name is given twice, so the entries of other objects stay as they are.
    · have names : r.nameOf (digestOf o) ≠ r.nameOf (digestOf fields) := by
        intro equal
        exact same (List.inj_on_of_nodup_map registered.nodup_keys_table there here equal)
      have differ : digestOf o ≠ digestOf fields := fun equal => names (by rw [equal])
      rw [if_neg names]
      simp only [List.mem_cons, differ, false_or]
      rfl
  · intro o there quiet entry inside inner within
    by_cases same : digestOf o = digestOf fields
    · have equal := List.inj_on_of_nodup_map registered.distinct there here same
      subst equal
      exact known entry inside inner within
    · exact registered.named o there (by simp [same, quiet]) entry inside inner within

end Registered

end SampleTypes
