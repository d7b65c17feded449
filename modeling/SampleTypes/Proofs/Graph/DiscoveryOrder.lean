import SampleTypes.Proofs.Graph.Deduplication

/-! The order in which a walk finds objects. It skips what lies inside an object that it knows, and still
finds the same as a walk that looks at every occurrence and keeps the first one of each object. -/

namespace SampleTypes

open Shape (digestOf Buildable)

/-- An object, and the name of the context in which it occurs. -/
abbrev Occurrence := String × Fields

mutual

/-- The objects of a shape as they occur: a parent before its fields, fields by name, and variants in their
order. A field is a context of its own, and so are the elements of an array. -/
def occurrences (context : String) : Shape → List Occurrence
  | .object fields => (context, fields) :: (sortByName (fieldOccurrences fields)).flatMap Prod.snd
  | .array e _ => occurrences (elementTypeName context) e
  | .union variants => variantOccurrences context variants
  | .primitive _ => []
  | .reference _ => []

def fieldOccurrences : Fields → List (Str × List Occurrence)
  | [] => []
  | (name, field) :: rest => (name, occurrences (typeNameOf name) field.shape) :: fieldOccurrences rest

def variantOccurrences (context : String) : List Shape → List Occurrence
  | [] => []
  | v :: rest => occurrences context v ++ variantOccurrences context rest

end

def keepNew (kept : List Occurrence) (o : Occurrence) : List Occurrence :=
  if kept.any fun other => Shape.object other.2 == Shape.object o.2 then kept else kept ++ [o]

def firstOccurrences (listed : List Occurrence) : List Occurrence := listed.foldl keepNew []

def digestsOf (met : List Occurrence) : List (List UInt8) := met.map fun o => digestOf o.2

mutual

/-- The objects met so far, and after them those that a walk finds in a shape. -/
def meet (context : String) : Shape → List Occurrence → List Occurrence
  | .object fields, met =>
    if (digestsOf met).contains (digestOf fields) then met
    else (sortByName (fieldMeetings fields)).foldl (fun met entry => entry.2 met)
      (met ++ [(context, fields)])
  | .array e _, met => meet (elementTypeName context) e met
  | .union variants, met => meetVariants context variants met
  | .primitive _, met => met
  | .reference _, met => met

def fieldMeetings : Fields → List (Str × (List Occurrence → List Occurrence))
  | [] => []
  | (name, field) :: rest => (name, meet (typeNameOf name) field.shape) :: fieldMeetings rest

def meetVariants (context : String) : List Shape → List Occurrence → List Occurrence
  | [], met => met
  | v :: rest, met => meetVariants context rest (meet context v met)

end

theorem occurrences_object (context : String) (fields : Fields) :
    occurrences context (.object fields) = (context, fields) ::
      (sortByName fields).flatMap fun entry => occurrences (typeNameOf entry.1) entry.2.shape := by
  have inner : fieldOccurrences fields =
      fields.map fun entry => (entry.1, occurrences (typeNameOf entry.1) entry.2.shape) := by
    induction fields with
    | nil => rfl
    | cons entry rest ih => rw [fieldOccurrences, ih]; rfl
  rw [occurrences, inner,
    sortByName_map fun name (field : Field) => occurrences (typeNameOf name) field.shape, List.flatMap_map]

theorem occurrences_union (context : String) (variants : List Shape) :
    occurrences context (.union variants) = variants.flatMap (occurrences context) := by
  rw [occurrences]
  induction variants with
  | nil => rfl
  | cons v rest ih => rw [variantOccurrences, ih, List.flatMap_cons]

example :
    let fields : Fields := [("tags", ⟨.array (.array (.object []) false) false, false⟩),
      ("owner", ⟨.union [.primitive .string, .object []], true⟩)]
    occurrences "Root" (.object fields) = [("Root", fields), ("Owner", []), ("TagElement", [])] :=
  rfl

theorem meet_object (context : String) (fields : Fields) (met : List Occurrence) :
    meet context (.object fields) met =
      if digestOf fields ∈ digestsOf met then met
      else (sortByName fields).foldl (fun met entry => meet (typeNameOf entry.1) entry.2.shape met)
        (met ++ [(context, fields)]) := by
  have inner : fieldMeetings fields =
      fields.map fun entry => (entry.1, meet (typeNameOf entry.1) entry.2.shape) := by
    induction fields with
    | nil => rfl
    | cons entry rest ih => rw [fieldMeetings, ih]; rfl
  rw [meet, inner, sortByName_map fun name (field : Field) => meet (typeNameOf name) field.shape,
    List.foldl_map]
  simp only [List.contains_eq_mem, decide_eq_true_eq]

theorem meet_union (context : String) (variants : List Shape) (met : List Occurrence) :
    meet context (.union variants) met = variants.foldl (fun met v => meet context v met) met := by
  rw [meet]
  induction variants generalizing met with
  | nil => rfl
  | cons v rest ih => rw [meetVariants, ih]; rfl

theorem digestsOf_append (met others : List Occurrence) :
    digestsOf (met ++ others) = digestsOf met ++ digestsOf others := List.map_append

theorem mem_occurrences (context : String) (s : Shape) {o : Fields} :
    o ∈ (occurrences context s).map Prod.snd ↔ o ∈ s.objects := by
  induction s generalizing context with
  | primitive kind => exact Iff.rfl
  | reference name => exact Iff.rfl
  | array e placeholder ih => exact ih _
  | union variants ih =>
    rw [occurrences_union, List.map_flatMap, List.mem_flatMap, Shape.mem_objects_union]
    exact exists_congr fun v => and_congr_right fun here => ih v here context
  | object fields ih =>
    rw [occurrences_object, List.map_cons, List.mem_cons, List.map_flatMap, List.mem_flatMap,
      Shape.mem_objects_object]
    apply or_congr_right
    apply exists_congr
    intro entry
    rw [(sortByName_perm fields).mem_iff]
    exact and_congr_right fun here => ih entry here (typeNameOf entry.1)

theorem mem_digestsOf_occurrences {context : String} {s : Shape} {digest : List UInt8} :
    digest ∈ digestsOf (occurrences context s) ↔ ∃ o ∈ s.objects, digestOf o = digest := by
  simp only [digestsOf, ← mem_occurrences context s, List.mem_map,
    exists_exists_and_eq_and]

theorem map_foldl {α : Type} {step : List Occurrence → α → List Occurrence}
    (other : List Fields → α → List Fields) {items : List α}
    (each : ∀ a ∈ items, ∀ met, (step met a).map Prod.snd = other (met.map Prod.snd) a)
    (met : List Occurrence) :
    (items.foldl step met).map Prod.snd = items.foldl other (met.map Prod.snd) := by
  induction items generalizing met with
  | nil => rfl
  | cons a rest ih =>
    rw [List.forall_mem_cons] at each
    rw [List.foldl_cons, List.foldl_cons, ih each.2, each.1]

theorem map_meet (context : String) (s : Shape) (met : List Occurrence) :
    (meet context s met).map Prod.snd = discover s (met.map Prod.snd) := by
  induction s generalizing context met with
  | primitive kind => rfl
  | reference name => rfl
  | array e placeholder ih => exact ih _ met
  | union variants ih =>
    rw [meet_union, discover_union]
    exact map_foldl (fun found v => discover v found) (fun v here => ih v here context) met
  | object fields ih =>
    have digests : (met.map Prod.snd).map digestOf = digestsOf met := List.map_map
    rw [meet_object, discover_object, digests]
    split_ifs
    · rfl
    · rw [map_foldl (fun found entry => discover entry.2.shape found)
        fun entry here => ih entry ((sortByName_perm fields).mem_iff.mp here) (typeNameOf entry.1),
        List.map_append]
      rfl

/-! Keeping the first occurrences. -/

def keepUnknown (met : List Occurrence) (o : Occurrence) : List Occurrence :=
  if (digestsOf met).contains (digestOf o.2) then met else met ++ [o]

section Keeping

variable {met listed : List Occurrence}

theorem keepUnknown_eq (met : List Occurrence) (o : Occurrence) :
    keepUnknown met o = if digestOf o.2 ∈ digestsOf met then met else met ++ [o] := by
  simp only [keepUnknown, List.contains_eq_mem, decide_eq_true_eq]

theorem mem_digestsOf_keepUnknown {o : Occurrence} {digest : List UInt8} :
    digest ∈ digestsOf (keepUnknown met o) ↔ digest ∈ digestsOf met ∨ digestOf o.2 = digest := by
  rw [keepUnknown_eq]
  split_ifs with known
  · constructor
    · exact Or.inl
    · rintro (before | rfl)
      · exact before
      · exact known
  · rw [digestsOf_append, List.mem_append]
    exact or_congr_right (List.mem_singleton.trans eq_comm)

theorem mem_digestsOf_foldl {digest : List UInt8} :
    digest ∈ digestsOf (listed.foldl keepUnknown met) ↔
      digest ∈ digestsOf met ∨ digest ∈ digestsOf listed := by
  induction listed generalizing met with
  | nil => simp [digestsOf]
  | cons o rest ih =>
    rw [List.foldl_cons, ih, mem_digestsOf_keepUnknown, or_assoc]
    apply or_congr_right
    exact (or_congr_left eq_comm).trans List.mem_cons.symm

theorem foldl_of_known (known : ∀ o ∈ listed, digestOf o.2 ∈ digestsOf met) :
    listed.foldl keepUnknown met = met := by
  induction listed with
  | nil => rfl
  | cons o rest ih =>
    rw [List.forall_mem_cons] at known
    rw [List.foldl_cons, keepUnknown_eq, if_pos known.1, ih known.2]

end Keeping

namespace Shape

theorem exists_object_of_normal_eq {s t : Shape} (equal : s.normal = t.normal) {o : Fields}
    (here : o ∈ s.objects) : ∃ p ∈ t.objects, digestOf p = digestOf o := by
  induction s generalizing t with
  | primitive kind => cases here
  | reference name => cases here
  | array e placeholder ih =>
    obtain ⟨f, mark, rfl, elements⟩ := eq_array_of_normal_eq equal
    obtain ⟨p, inside, same⟩ := ih elements here
    exact ⟨p, inside, same⟩
  | object fields ih =>
    obtain ⟨others, rfl⟩ := eq_object_of_normal_eq equal
    rcases mem_objects_object.mp here with rfl | ⟨entry, member, inside⟩
    · exact ⟨others, mem_objects_object.mpr (Or.inl rfl), (digest_eq_of_normal equal).symm⟩
    · obtain ⟨other, present, _, shapes⟩ := exists_field_of_normal_eq equal member
      obtain ⟨p, within, same⟩ := ih entry member shapes.symm inside
      exact ⟨p, mem_objects_object.mpr (Or.inr ⟨other, present, within⟩), same⟩
  | union variants ih =>
    obtain ⟨others, rfl, normals⟩ := eq_union_of_normal_eq equal
    obtain ⟨v, member, inside⟩ := mem_objects_union.mp here
    obtain ⟨w, present, same⟩ := List.mem_map.mp (normals ▸ List.mem_map_of_mem (f := normal) member)
    obtain ⟨p, within, digests⟩ := ih v member same.symm inside
    exact ⟨p, mem_objects_union.mpr ⟨w, present, within⟩, digests⟩

end Shape

/-- With an object of the shape that is known, everything inside it is known. -/
def Settled (met : List Occurrence) (s : Shape) : Prop :=
  ∀ o ∈ s.objects, digestOf o ∈ digestsOf met →
    ∀ inner ∈ (Shape.object o).objects, digestOf inner ∈ digestsOf met

namespace Settled

variable {whole : Shape} {met : List Occurrence}

theorem foldl (free : whole.CollisionFree) {s t : Shape} (inside : s.objects ⊆ whole.objects)
    (within : t.objects ⊆ whole.objects) (settled : Settled met s) (context : String) :
    Settled ((occurrences context t).foldl keepUnknown met) s := by
  intro o here known inner deeper
  rw [mem_digestsOf_foldl, mem_digestsOf_occurrences] at known ⊢
  rcases known with before | ⟨p, there, same⟩
  · exact Or.inl (settled o here before inner deeper)
  · have equal := free.normal_eq (inside here) (within there) same.symm
    obtain ⟨q, present, digests⟩ := Shape.exists_object_of_normal_eq equal deeper
    exact Or.inr ⟨q, Shape.mem_objects_trans there present, digests⟩

theorem field (free : whole.CollisionFree) {fields : Fields}
    (inside : (Shape.object fields).objects ⊆ whole.objects) (settled : Settled met (.object fields))
    (context : String) {entry : Str × Field} (member : entry ∈ fields) :
    Settled (met ++ [(context, fields)]) entry.2.shape := by
  intro o here known inner deeper
  have part : o ∈ (Shape.object fields).objects :=
    Shape.mem_objects_object.mpr (Or.inr ⟨entry, member, here⟩)
  rw [digestsOf_append, List.mem_append] at known ⊢
  rcases known with before | new
  · exact Or.inl (settled o part before inner deeper)
  · have own : fields ∈ whole.objects := inside (Shape.mem_objects_object.mpr (Or.inl rfl))
    have equal := free.normal_eq (inside part) own (List.mem_singleton.mp new)
    have sizes := congrArg (fun s => s.objects.length) equal
    -- An object inside is smaller, so it cannot be equal to the whole.
    have smaller := Shape.length_objects_inner member here
    simp only [Shape.length_objects_normal] at sizes
    omega

end Settled

section Meeting

variable {whole : Shape} {met : List Occurrence}

theorem foldl_meet {α : Type} (part : α → Shape) (context : α → String) (free : whole.CollisionFree)
    {items : List α} (inside : ∀ a ∈ items, (part a).objects ⊆ whole.objects)
    (each : ∀ a ∈ items, ∀ {met}, Settled met (part a) →
      meet (context a) (part a) met = (occurrences (context a) (part a)).foldl keepUnknown met)
    (settled : ∀ a ∈ items, Settled met (part a)) :
    items.foldl (fun met a => meet (context a) (part a) met) met =
      (items.flatMap fun a => occurrences (context a) (part a)).foldl keepUnknown met := by
  induction items generalizing met with
  | nil => rfl
  | cons a rest ih =>
    rw [List.forall_mem_cons] at inside each settled
    rw [List.foldl_cons, List.flatMap_cons, List.foldl_append, each.1 settled.1]
    apply ih inside.2 each.2
    intro b here
    exact (settled.2 b here).foldl free (inside.2 b here) inside.1 (context a)

/-- A walk that skips what is known keeps the first occurrences. -/
theorem meet_eq_foldl (free : whole.CollisionFree) {s : Shape} (inside : s.objects ⊆ whole.objects)
    (context : String) (settled : Settled met s) :
    meet context s met = (occurrences context s).foldl keepUnknown met := by
  induction s generalizing context met with
  | primitive kind => rfl
  | reference name => rfl
  | array e placeholder ih => exact ih inside _ settled
  | union variants ih =>
    have parts : ∀ v ∈ variants, v.objects ⊆ (Shape.union variants).objects :=
      fun v here o deeper => Shape.mem_objects_union.mpr ⟨v, here, deeper⟩
    rw [meet_union, occurrences_union]
    apply foldl_meet id (fun _ => context) free
    · exact fun v here => List.Subset.trans (parts v here) inside
    · exact fun v here _ => ih v here (List.Subset.trans (parts v here) inside) context
    · exact fun v here o deeper => settled o (parts v here deeper)
  | object fields ih =>
    rw [meet_object, occurrences_object, List.foldl_cons]
    by_cases known : digestOf fields ∈ digestsOf met
    · have own : fields ∈ (Shape.object fields).objects := Shape.mem_objects_object.mpr (Or.inl rfl)
      -- The walk skips the object, and in the list nothing inside it is a first occurrence either.
      rw [if_pos known, keepUnknown_eq, if_pos known, foldl_of_known]
      intro o here
      apply settled fields own known
      rw [← mem_occurrences context, occurrences_object]
      exact List.mem_map_of_mem (List.mem_cons_of_mem _ here)
    · rw [if_neg known, keepUnknown_eq, if_neg known]
      have members : ∀ entry ∈ sortByName fields, entry ∈ fields :=
        fun entry => (sortByName_perm fields).mem_iff.mp
      have parts : ∀ entry ∈ sortByName fields, entry.2.shape.objects ⊆ whole.objects :=
        fun entry here o deeper =>
          inside (Shape.mem_objects_object.mpr (Or.inr ⟨entry, members entry here, deeper⟩))
      exact foldl_meet (fun entry : Str × Field => entry.2.shape) (fun entry => typeNameOf entry.1) free
        parts (fun entry here _ => ih entry (members entry here) (parts entry here) _)
        fun entry here => settled.field free inside context (members entry here)

theorem keepNew_eq (free : whole.CollisionFree) (buildable : Buildable whole) {kept : List Occurrence}
    {o : Occurrence} (present : ∀ other ∈ kept, other.2 ∈ whole.objects) (inside : o.2 ∈ whole.objects) :
    keepNew kept o = keepUnknown kept o := by
  have same : (kept.any fun other => Shape.object other.2 == Shape.object o.2) = true ↔
      digestOf o.2 ∈ digestsOf kept := by
    rw [List.any_eq_true, digestsOf, List.mem_map]
    exact exists_congr fun other => and_congr_right fun here =>
      free.beq_iff buildable (present other here) inside
  rw [keepNew, keepUnknown_eq]
  simp only [same]

theorem foldl_keepNew (free : whole.CollisionFree) (buildable : Buildable whole)
    {listed kept : List Occurrence} (present : ∀ o ∈ kept, o.2 ∈ whole.objects)
    (inside : ∀ o ∈ listed, o.2 ∈ whole.objects) :
    listed.foldl keepNew kept = listed.foldl keepUnknown kept := by
  induction listed generalizing kept with
  | nil => rfl
  | cons o rest ih =>
    rw [List.forall_mem_cons] at inside
    rw [List.foldl_cons, List.foldl_cons, keepNew_eq free buildable present inside.1]
    apply ih _ inside.2
    rw [keepUnknown_eq]
    split_ifs
    · exact present
    · exact List.forall_mem_append.mpr ⟨present, List.forall_mem_singleton.mpr inside.1⟩

theorem meet_eq_firstOccurrences {s : Shape} (free : s.CollisionFree) (buildable : Buildable s)
    (context : String) : meet context s [] = firstOccurrences (occurrences context s) := by
  have inside : ∀ o ∈ occurrences context s, o.2 ∈ s.objects := by
    intro o here
    rw [← mem_occurrences context]
    exact List.mem_map_of_mem here
  rw [meet_eq_foldl free (List.Subset.refl _) context (fun _ _ known => by cases known), firstOccurrences,
    foldl_keepNew free buildable (List.forall_mem_nil _) inside]

end Meeting

end SampleTypes
