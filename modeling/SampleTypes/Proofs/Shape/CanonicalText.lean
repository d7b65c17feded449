import SampleTypes.Proofs.Shape.WellFormed
import SampleTypes.Proofs.Shape.Equality

/-! The canonical text as a test of equality. Two shapes have one text exactly if they are equal, which is
to say that they differ in the order of fields and in placeholder marks only; so digests tell unequal shapes
apart unless they collide, and only equal shapes tie for a place among the variants of a union. -/

namespace SampleTypes.Shape

/-- Shapes that say the same: each has the other's fields, in any order, and any placeholder marks. -/
inductive Alike : Shape → Shape → Prop where
  | primitive (kind : Kind) : Alike (.primitive kind) (.primitive kind)
  | array {e f : Shape} (p q : Bool) (element : Alike e f) : Alike (.array e p) (.array f q)
  | object {fields others : Fields}
      (names : ∀ name, name ∈ Entries.keys fields ↔ name ∈ Entries.keys others)
      (optional : ∀ name field other, fields.lookup name = some field →
        others.lookup name = some other → field.optional = other.optional)
      (shapes : ∀ name field other, fields.lookup name = some field →
        others.lookup name = some other → Alike field.shape other.shape) :
      Alike (.object fields) (.object others)
  | union {variants others : List Shape} (each : List.Forall₂ Alike variants others) :
      Alike (.union variants) (.union others)
  | reference (name : String) : Alike (.reference name) (.reference name)

/-- What variants are put in order by. A union has no place among variants. -/
def sortKey? (s : Shape) : Option (Nat × String) := s.rank?.map fun rank => (rank, s.key)

/-! Normal forms of shapes that say the same. -/

theorem ctorIdx_eq_of_alike {s t : Shape} (alike : Alike s t) : s.ctorIdx = t.ctorIdx := by
  cases alike <;> rfl

theorem normal_eq_iff_alike_of_kinds {s t : Shape} (differ : (s.ctorIdx == t.ctorIdx) = false) :
    s.normal = t.normal ↔ Alike s t := by
  rw [beq_eq_false_iff_ne] at differ
  constructor
  · intro equal
    exact absurd (ctorIdx_eq_of_normal equal) differ
  · intro alike
    exact absurd (ctorIdx_eq_of_alike alike) differ

theorem normal_object_eq_iff_alike {fields others : Fields} (distinct : (Entries.keys fields).Nodup)
    (others_distinct : (Entries.keys others).Nodup)
    (shapes : ∀ entry ∈ fields, ∀ other ∈ others,
      entry.2.shape.normal = other.2.shape.normal ↔ Alike entry.2.shape other.2.shape) :
    (Shape.object fields).normal = (Shape.object others).normal ↔
      Alike (.object fields) (.object others) := by
  have pair : ∀ {name field other}, fields.lookup name = some field → others.lookup name = some other →
      (field.map normal = other.map normal ↔
        field.optional = other.optional ∧ Alike field.shape other.shape) := by
    intro name field other here there
    have part := shapes _ (Entries.mem_of_lookup here) _ (Entries.mem_of_lookup there)
    rw [map_normal_eq, part, and_comm]
  rw [tidying_normal.object_eq_iff distinct others_distinct]
  constructor
  · intro same
    have both : ∀ {name field other}, fields.lookup name = some field →
        others.lookup name = some other →
          field.optional = other.optional ∧ Alike field.shape other.shape := by
      intro name field other here there
      apply (pair here there).mp
      simpa [here, there] using same name
    refine .object ?_ (fun _ _ _ here there => (both here there).1) fun _ _ _ here there =>
      (both here there).2
    intro name
    rw [← Entries.lookup_isSome, ← Entries.lookup_isSome, ← Option.isSome_map (f := (·.map normal)),
      same name, Option.isSome_map]
  · intro alike name
    cases alike with
    | object names optional shapes =>
      have present := names name
      rw [← Entries.lookup_isSome, ← Entries.lookup_isSome] at present
      cases here : fields.lookup name with
      | none =>
        cases there : others.lookup name with
        | none => rfl
        | some other => simp [here, there] at present
      | some field =>
        cases there : others.lookup name with
        | none => simp [here, there] at present
        | some other =>
          exact congrArg some ((pair here there).mpr
            ⟨optional name field other here there, shapes name field other here there⟩)

theorem normal_eq_iff_alike {s t : Shape} (first : Buildable s) (second : Buildable t) :
    s.normal = t.normal ↔ Alike s t := by
  induction first generalizing t with
  | primitive kind =>
    cases second with
    | primitive other =>
      rw [normal, normal, Shape.primitive.injEq]
      constructor
      · rintro rfl
        exact .primitive kind
      · intro alike
        cases alike
        rfl
    | _ => exact normal_eq_iff_alike_of_kinds rfl
  | array placeholder element ih =>
    cases second with
    | array other part =>
      simp only [normal, Shape.array.injEq, and_true, ih part]
      constructor
      · exact .array placeholder other
      · intro alike
        cases alike with
        | array _ _ inner => exact inner
    | _ => exact normal_eq_iff_alike_of_kinds rfl
  | object distinct shapes ih =>
    cases second with
    | object others parts =>
      exact normal_object_eq_iff_alike distinct others fun entry here other there =>
        ih entry here (parts other there)
    | _ => exact normal_eq_iff_alike_of_kinds rfl
  | union several single shapes ih =>
    cases second with
    | union _ _ parts =>
      rw [normal_union_eq_iff, forall₂_congr_of_mem fun v here w there => ih v here (parts w there)]
      constructor
      · exact .union
      · intro alike
        cases alike with
        | union each => exact each
    | _ => exact normal_eq_iff_alike_of_kinds rfl
  | reference name =>
    cases second with
    | reference other =>
      rw [normal, normal, Shape.reference.injEq]
      constructor
      · rintro rfl
        exact .reference name
      · intro alike
        cases alike
        rfl
    | _ => exact normal_eq_iff_alike_of_kinds rfl

/-! The tests of equality. -/

section Equality

variable {s t : Shape}

theorem key_eq_iff_beq (first : Buildable s) (second : Buildable t) :
    s.key = t.key ↔ (s == t) = true := by
  rw [key_eq_iff, beq_iff_normal first second]

theorem digest_eq_iff (first : Buildable s) (second : Buildable t) :
    s.digest = t.digest ↔ (s == t) = true ∨
      (s.encoding ≠ t.encoding ∧ Sha256.digest s.encoding = Sha256.digest t.encoding) := by
  have encodings : s.encoding = t.encoding ↔ (s == t) = true := by
    rw [encoding_eq_iff, beq_iff_normal first second]
  rw [digest_eq, digest_eq, ← encodings]
  constructor
  · intro same
    by_cases equal : s.encoding = t.encoding
    · exact .inl equal
    · exact .inr ⟨equal, same⟩
  · rintro (equal | ⟨_, same⟩)
    · rw [equal]
    · exact same

theorem rank?_eq_of_beq (equal : (s == t) = true) : s.rank? = t.rank? := by
  cases s <;> cases t <;> simp_all [BEq.beq, same, rank?]

theorem sortKey?_eq_iff (first : Buildable s) (second : Buildable t) {place : Nat × String}
    (placed : s.sortKey? = some place) : t.sortKey? = some place ↔ (s == t) = true := by
  rw [← placed]
  constructor
  · intro tied
    rw [placed, sortKey?, Option.map_eq_some_iff] at tied
    rw [sortKey?, Option.map_eq_some_iff] at placed
    obtain ⟨_, _, rfl⟩ := placed
    obtain ⟨_, _, same⟩ := tied
    exact (key_eq_iff_beq first second).mp (congrArg Prod.snd same).symm
  · intro equal
    rw [sortKey?, sortKey?, rank?_eq_of_beq equal, (key_eq_iff_beq first second).mpr equal]

theorem precedes_antisymm_iff (first : Buildable s) (second : Buildable t) :
    (precedes s t = true ∧ precedes t s = true) ↔ (s == t) = true := by
  rw [← key_eq_iff_beq first second]
  constructor
  · rintro ⟨before, after⟩
    have ranks : s.rank = t.rank :=
      Nat.le_antisymm (rank_le_of_precedes before) (rank_le_of_precedes after)
    simp only [precedes, ranks, Nat.lt_irrefl, decide_false, Bool.false_or, beq_self_eq_true,
      Bool.true_and, decide_eq_true_eq] at before after
    exact String.le_antisymm before after
  · intro keys
    have ranks : s.rank = t.rank := by
      rw [rank, rank, rank?_eq_of_beq ((key_eq_iff_beq first second).mp keys)]
    simp [precedes, ranks, keys]

end Equality

/-- Shapes that can be built have one canonical text exactly if they are equal, and equal exactly if they say
the same. So their digests agree for equal shapes, and for others only where the hash collides on what they
are taken of; and one place in the order of variants is given to equal shapes and to no others. -/
theorem key_decides_equality {s t : Shape} (first : Buildable s) (second : Buildable t) :
    (s.key = t.key ↔ (s == t) = true) ∧ ((s == t) = true ↔ Alike s t) ∧
      (s.digest = t.digest ↔ (s == t) = true ∨
        (s.encoding ≠ t.encoding ∧ Sha256.digest s.encoding = Sha256.digest t.encoding)) ∧
        ((s == t) = true → s.toJson.fingerprint = t.toJson.fingerprint) ∧
          (∀ place, s.sortKey? = some place → (t.sortKey? = some place ↔ (s == t) = true)) ∧
            ((precedes s t = true ∧ precedes t s = true) ↔ (s == t) = true) := by
  refine ⟨key_eq_iff_beq first second, ?_, digest_eq_iff first second, ?_,
    fun place placed => sortKey?_eq_iff first second placed, precedes_antisymm_iff first second⟩
  · rw [beq_iff_normal first second]
    exact normal_eq_iff_alike first second
  · intro equal
    have texts : s.toJson.canonicalText = t.toJson.canonicalText :=
      (key_eq_iff_beq first second).mpr equal
    rw [Value.fingerprint, Value.fingerprint, texts]

/-- Two objects with their fields in different orders, and a third one whose union is in another order. The
names of the fields are those that the text uses itself. -/
theorem key_decides_equality_of_reordered :
    let choice : Shape := .union [.null, .reference "😀"]
    let s : Shape := .object [("type", ⟨.array .null true, false⟩), ("$ref", ⟨choice, true⟩)]
    let t : Shape := .object [("$ref", ⟨choice, true⟩), ("type", ⟨.array .null false, false⟩)]
    let u : Shape := .object [("$ref", ⟨.union [.reference "😀", .null], true⟩),
      ("type", ⟨.array .null false, false⟩)]
    (Buildable s ∧ Buildable t ∧ Buildable u) ∧ (s.key = t.key ∧ Alike s t) ∧
      s.key ≠ u.key ∧ ¬Alike s u := by
  intro choice s t u
  have union : ∀ v w : Shape, v.isUnion = false → w.isUnion = false → Buildable v → Buildable w →
      Buildable (.union [v, w]) := fun v w single other first second =>
    .union (Nat.le_refl 2) (by simp [single, other]) (by simp [first, second])
  have null : Buildable .null := .primitive .null
  have reference : Buildable (.reference "😀") := .reference _
  have first : Buildable s := .object (by decide)
    (by simpa [Buildable.array true null] using union _ _ rfl rfl null reference)
  have second : Buildable t := .object (by decide)
    (by simpa [Buildable.array false null] using union _ _ rfl rfl null reference)
  have third : Buildable u := .object (by decide)
    (by simpa [Buildable.array false null] using union _ _ rfl rfl reference null)
  obtain ⟨text, same, _⟩ := key_decides_equality first second
  obtain ⟨otherText, otherwise, _⟩ := key_decides_equality first third
  have equal : (s == t) = true := by decide
  have differ : ¬(s == u) = true := by decide
  exact ⟨⟨first, second, third⟩, ⟨text.mpr equal, same.mp equal⟩, fun one => differ (otherText.mp one),
    fun alike => differ (otherwise.mpr alike)⟩

end SampleTypes.Shape
