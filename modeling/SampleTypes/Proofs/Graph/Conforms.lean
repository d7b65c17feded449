import SampleTypes.Graph.Validation
import SampleTypes.Proofs.Graph.References
import SampleTypes.Proofs.Shape.Encoding
import SampleTypes.Proofs.Value

/-! Which values are instances of a shape, by rules, and that validation decides it when every
reference leads to an entry of the table. -/

namespace SampleTypes

/-- The instances of a shape. A null needs no match in an optional field. -/
inductive Conforms (table : Table) : Value → Shape → Prop where
  | primitive {v : Value} {kind : Kind} (matched : matchesKind v kind = true) :
      Conforms table v (.primitive kind)
  | array {items : List Value} {e : Shape} (placeholder : Bool)
      (each : ∀ item ∈ items, Conforms table item e) :
      Conforms table (.list items) (.array e placeholder)
  | object {entries : List (Key × Value)} {fields : Fields}
      (known : ∀ entry ∈ entries, entry.1.isIn fields = true)
      (required : ∀ entry ∈ fields, entry.2.optional = false →
        (entries.lookup (.name entry.1)).isSome)
      (present : ∀ entry ∈ fields, ∀ v, entries.lookup (.name entry.1) = some v →
        (v.isNull && entry.2.optional) = false → Conforms table v entry.2.shape) :
      Conforms table (.object entries) (.object fields)
  | reference {v : Value} {name : String} {fields : Fields}
      (resolved : table.lookup name = some fields)
      (object : Conforms table v (.object fields)) : Conforms table v (.reference name)
  | union {v : Value} {w : Shape} {variants : List Shape} (here : w ∈ variants)
      (chosen : Conforms table v w) : Conforms table v (.union variants)

/-- What the entries of a value owe to one field: a value if it is required, and a match in what they
have, save a null in an optional field. -/
def Fits (table : Table) (entries : List (Key × Value)) (field : Str × Field) : Prop :=
  (field.2.optional = false → (entries.lookup (.name field.1)).isSome) ∧
    ∀ v, entries.lookup (.name field.1) = some v → (v.isNull && field.2.optional) = false →
      Conforms table v field.2.shape

namespace Conforms

variable {table : Table} {v : Value}

theorem primitive_iff {kind : Kind} :
    Conforms table v (.primitive kind) ↔ matchesKind v kind = true := by
  constructor
  · intro conforms
    cases conforms with
    | primitive matched => exact matched
  · exact .primitive

theorem array_iff {items : List Value} {e : Shape} {placeholder : Bool} :
    Conforms table (.list items) (.array e placeholder) ↔ ∀ item ∈ items, Conforms table item e := by
  constructor
  · intro conforms
    cases conforms with
    | array _ each => exact each
  · exact .array placeholder

theorem object_iff {entries : List (Key × Value)} {fields : Fields} :
    Conforms table (.object entries) (.object fields) ↔
      (∀ entry ∈ entries, entry.1.isIn fields = true) ∧
        ∀ field ∈ fields, Fits table entries field := by
  constructor
  · intro conforms
    cases conforms with
    | object known required present =>
      exact ⟨known, fun field here => ⟨required field here, present field here⟩⟩
  · rintro ⟨known, fits⟩
    exact .object known (fun field here => (fits field here).1) fun field here => (fits field here).2

theorem union_iff {variants : List Shape} :
    Conforms table v (.union variants) ↔ ∃ w ∈ variants, Conforms table v w := by
  constructor
  · intro conforms
    cases conforms with
    | union here chosen => exact ⟨_, here, chosen⟩
  · rintro ⟨w, here, chosen⟩
    exact .union here chosen

theorem iff_variants {s : Shape} : Conforms table v s ↔ ∃ w ∈ s.variants, Conforms table v w := by
  cases s with
  | union variants => exact union_iff
  | _ => simp [Shape.variants]

theorem reference_iff {name : String} {fields : Fields} (resolved : table.lookup name = some fields) :
    Conforms table v (.reference name) ↔ Conforms table v (.object fields) := by
  constructor
  · intro conforms
    cases conforms with
    | reference found object =>
      rw [resolved, Option.some.injEq] at found
      exact found ▸ object
  · exact .reference resolved

end Conforms

/-! Objects with the same fields under other shapes, or in another order. -/

theorem Key.isIn_congr {fields others : Fields}
    (keys : ∀ name, name ∈ Entries.keys fields ↔ name ∈ Entries.keys others) (key : Key) :
    key.isIn fields = key.isIn others := by
  cases key with
  | name field =>
    rw [Key.isIn, Key.isIn, Bool.eq_iff_iff, Entries.lookup_isSome, Entries.lookup_isSome]
    exact keys field
  | other shown => rfl

namespace Conforms

open Shape (mapFields)

variable {table other : Table}

theorem object_perm {fields others : Fields} (perm : fields.Perm others) {v : Value} :
    Conforms table v (.object fields) ↔ Conforms table v (.object others) := by
  cases v with
  | object entries =>
    have keys : ∀ key : Key, key.isIn fields = key.isIn others :=
      Key.isIn_congr fun name => (Entries.keys_perm perm).mem_iff
    simp only [object_iff, keys, perm.mem_iff]
  | _ => constructor <;> intro conforms <;> cases conforms

theorem object_mapFields {f : Shape → Shape} {fields : Fields} {entries : List (Key × Value)}
    (same : ∀ entry ∈ entries, ∀ field ∈ fields,
      (Conforms table entry.2 (f field.2.shape) ↔ Conforms other entry.2 field.2.shape)) :
    Conforms table (.object entries) (.object (mapFields f fields)) ↔
      Conforms other (.object entries) (.object fields) := by
  have keys : ∀ key : Key, key.isIn (mapFields f fields) = key.isIn fields :=
    Key.isIn_congr fun name => by rw [Shape.keys_mapFields]
  have fits : ∀ field ∈ fields,
      (Fits table entries (field.1, field.2.map f) ↔ Fits other entries field) := by
    intro field here
    apply and_congr Iff.rfl
    apply forall₂_congr
    intro v found
    apply imp_congr Iff.rfl
    exact same _ (Entries.mem_of_lookup found) field here
  rw [object_iff, object_iff]
  apply and_congr
  · simp only [keys]
  · rw [mapFields, List.forall_mem_map]
    exact forall₂_congr fits

/-- The order of fields and the placeholder marks have no say in what conforms. -/
theorem normal_iff {v : Value} {s : Shape} : Conforms table v s.normal ↔ Conforms table v s := by
  induction s generalizing v with
  | primitive kind => rfl
  | array e placeholder ih =>
    rw [Shape.normal]
    cases v with
    | list items => simp only [array_iff, ih]
    | _ => constructor <;> intro conforms <;> cases conforms
  | object fields ih =>
    rw [Shape.normal_object, ← object_perm (sortByName_perm fields)]
    cases v with
    | object entries =>
      apply object_mapFields
      intro entry _ field here
      exact ih field ((sortByName_perm fields).mem_iff.mp here)
    | _ => constructor <;> intro conforms <;> cases conforms
  | union variants ih =>
    rw [Shape.normal_union, union_iff, union_iff]
    simp only [List.mem_map, exists_exists_and_eq_and]
    exact exists_congr fun w => and_congr_right fun here => ih w here
  | reference name => rfl

end Conforms

inductive Decides : Verdict → Prop → Prop where
  | accepted {P : Prop} (holds : P) : Decides (.ok ()) P
  | refused {P : Prop} (cause : Mismatch) (location : Location) (fails : ¬P) :
      Decides (.error (.mismatch cause location)) P

namespace Decides

variable {verdict : Verdict} {P Q : Prop}

theorem eq_ok (decides : Decides verdict P) : verdict = .ok () ↔ P := by
  cases decides with
  | accepted holds => exact ⟨fun _ => holds, fun _ => rfl⟩
  | refused cause location fails =>
    constructor
    · intro equal
      cases equal
    · intro holds
      exact absurd holds fails

theorem congr (decides : Decides verdict P) (same : P ↔ Q) : Decides verdict Q := by
  rw [← propext same]
  exact decides

theorem both {second : Verdict} (first : Decides verdict P) (later : Decides second Q) :
    Decides (verdict >>= fun _ => second) (P ∧ Q) := by
  cases first with
  | accepted holds => exact later.congr (iff_and_self.mpr fun _ => holds)
  | refused cause location fails => exact .refused cause location fun both => fails both.1

theorem under (step : Step) (decides : Decides verdict P) :
    Decides (verdict.mapError (.under step)) P := by
  cases decides with
  | accepted holds => exact .accepted holds
  | refused cause location fails => exact .refused cause (step :: location) fails

theorem ofTest (test : Bool) (cause : Mismatch) :
    Decides (if test then .ok () else .mismatch cause) (test = true) := by
  cases test with
  | true => exact .accepted rfl
  | false => exact .refused cause [] Bool.false_ne_true

end Decides

open Shape (Resolved)

variable {table : Table} {v : Value}

/-! The checks of one value. -/

theorem decides_checkKind (kind : Kind) :
    Decides (checkKind v kind) (Conforms table v (.primitive kind)) :=
  (Decides.ofTest (matchesKind v kind) (.wrongType kind.name v.typeName)).congr
    Conforms.primitive_iff.symm

theorem decides_wrongType {P : Prop} (expected : String) (fails : ¬P) :
    Decides (wrongType v expected) P :=
  .refused _ [] fails

theorem decides_validateItems {items : List Value} {e : Shape}
    (each : ∀ item ∈ items, Decides (validate table item e) (Conforms table item e)) (start : Nat) :
    Decides (validateItems table start items e) (∀ item ∈ items, Conforms table item e) := by
  induction items generalizing start with
  | nil => exact .accepted (List.forall_mem_nil _)
  | cons item rest ih =>
    rw [List.forall_mem_cons] at each
    rw [validateItems, List.forall_mem_cons]
    exact (each.1.under (.index start)).both (ih each.2 (start + 1))

theorem entryChecks_eq (entries : List (Key × Value)) :
    entryChecks table entries =
      entries.map fun entry => (entry.1, ⟨entry.2.isNull, validate table entry.2⟩) := by
  induction entries with
  | nil => rfl
  | cons entry rest ih => rw [entryChecks, ih, List.map_cons]

theorem decides_checkUnknown (entries : List (Key × Value)) (fields : Fields) :
    Decides (checkUnknown fields (entryChecks table entries))
      (∀ entry ∈ entries, entry.1.isIn fields = true) := by
  rw [checkUnknown, entryChecks_eq, List.find?_map, Function.comp_def]
  cases unknown : entries.find? fun entry => !entry.1.isIn fields with
  | none =>
    rw [List.find?_eq_none] at unknown
    exact .accepted (by simpa using unknown)
  | some entry =>
    have refused := List.find?_some unknown
    refine .refused _ [] fun known => ?_
    rw [known entry (List.mem_of_find?_eq_some unknown)] at refused
    cases refused

theorem lookup_entryChecks (entries : List (Key × Value)) (name : Str) :
    (entryChecks table entries).lookup (.name name) =
      (entries.lookup (.name name)).map fun v => ⟨v.isNull, validate table v⟩ := by
  rw [entryChecks_eq]
  exact Entries.lookup_map (fun _ v => (⟨v.isNull, validate table v⟩ : EntryCheck)) _ entries

theorem decides_checkField {entries : List (Key × Value)} (name : Str) {field : Field}
    (each : ∀ entry ∈ entries,
      Decides (validate table entry.2 field.shape) (Conforms table entry.2 field.shape)) :
    Decides (checkField (entryChecks table entries) name field)
      (Fits table entries (name, field)) := by
  rw [checkField, lookup_entryChecks, Fits]
  cases found : entries.lookup (.name name) with
  | none =>
    apply (Decides.ofTest field.optional (.missingField name)).congr
    simp
  | some v =>
    have inner := each _ (Entries.mem_of_lookup found)
    simp only [Option.map_some, Option.some.injEq, forall_eq', Option.isSome_some, implies_true,
      true_and]
    cases allowed : v.isNull && field.optional with
    | true => exact .accepted (by simp)
    | false => exact (inner.under (.key name)).congr (by simp)

theorem decides_checkFields {entries : List (Key × Value)} {fields : Fields}
    (each : ∀ entry ∈ entries, ∀ field ∈ fields,
      Decides (validate table entry.2 field.2.shape) (Conforms table entry.2 field.2.shape)) :
    Decides (checkFields (entryChecks table entries) fields)
      (∀ field ∈ fields, Fits table entries field) := by
  induction fields with
  | nil => exact .accepted (List.forall_mem_nil _)
  | cons field rest ih =>
    rw [checkFields, List.forall_mem_cons]
    apply Decides.both
    · exact decides_checkField field.1 fun entry here => each entry here field List.mem_cons_self
    · exact ih fun entry here other later => each entry here other (List.mem_cons_of_mem field later)

theorem decides_checkObject {entries : List (Key × Value)} {fields : Fields}
    (each : ∀ entry ∈ entries, ∀ field ∈ fields,
      Decides (validate table entry.2 field.2.shape) (Conforms table entry.2 field.2.shape)) :
    Decides (checkObject (entryChecks table entries) fields)
      (Conforms table (.object entries) (.object fields)) := by
  exact ((decides_checkUnknown entries fields).both (decides_checkFields each)).congr
    Conforms.object_iff.symm

/-! Down a shape, with the value kept. -/

theorem decides_checkVariants {checks : Checks} {variants : List Shape}
    (each : ∀ w ∈ variants, Decides (checkShape table checks w) (Conforms table v w)) :
    Decides (checkVariants table checks variants) (∃ w ∈ variants, Conforms table v w) := by
  induction variants with
  | nil => exact .refused .noVariant [] (by simp)
  | cons w rest ih =>
    rw [List.forall_mem_cons] at each
    obtain ⟨first, later⟩ := each
    rw [checkVariants]
    generalize checkShape table checks w = verdict at first
    cases first with
    | accepted holds => exact .accepted ⟨w, List.mem_cons_self, holds⟩
    | refused cause location fails =>
      apply (ih later).congr
      simp [fails]

theorem decides_checkShape {checks : Checks} (closed : table.Closed)
    (primitive : ∀ kind, Decides (checks.primitive kind) (Conforms table v (.primitive kind)))
    (array : ∀ e placeholder, Resolved table e →
      Decides (checks.array e) (Conforms table v (.array e placeholder)))
    (object : ∀ fields, Resolved table (.object fields) →
      Decides (checks.object fields) (Conforms table v (.object fields)))
    {s : Shape} (resolved : Resolved table s) :
    Decides (checkShape table checks s) (Conforms table v s) := by
  induction s with
  | primitive kind => exact primitive kind
  | array e placeholder ih => exact array e placeholder resolved
  | object fields ih => exact object fields resolved
  | union variants ih =>
    have each := fun w here => ih w here (resolved.variant here)
    exact (decides_checkVariants each).congr Conforms.union_iff.symm
  | reference name =>
    obtain ⟨fields, found⟩ := Option.isSome_iff_exists.mp (resolved name List.mem_cons_self)
    rw [checkShape, Table.resolve, found]
    exact (object fields (closed name fields found)).congr (Conforms.reference_iff found).symm

/-- With every reference resolved, validation accepts the instances of a shape and reports a mismatch
for anything else. -/
theorem decides_validate (closed : table.Closed) (v : Value) {s : Shape}
    (resolved : Resolved table s) :
    Decides (validate table v s) (Conforms table v s) := by
  induction v generalizing s with
  | list items ih =>
    rw [validate]
    refine decides_checkShape closed decides_checkKind ?_ ?_ resolved
    · intro e placeholder inside
      have each := decides_validateItems (fun item here => ih item here inside) 0
      exact each.congr Conforms.array_iff.symm
    · intro fields inside
      apply decides_wrongType "object"
      intro conforms
      cases conforms
  | object entries ih =>
    rw [validate]
    refine decides_checkShape closed decides_checkKind ?_ ?_ resolved
    · intro e placeholder inside
      apply decides_wrongType "array"
      intro conforms
      cases conforms
    · intro fields inside
      exact decides_checkObject fun entry here field within => ih entry here (inside.field within)
  | _ =>
    rw [validate]
    · refine decides_checkShape closed decides_checkKind ?_ ?_ resolved
      · intro e placeholder inside
        apply decides_wrongType "array"
        intro conforms
        cases conforms
      · intro fields inside
        apply decides_wrongType "object"
        intro conforms
        cases conforms
    all_goals simp

theorem Graph.isValid_eq_ok {g : Graph} (closed : g.table.Closed) (resolved : Resolved g.table g.root)
    {v : Value} {accepted : Bool} :
    g.isValid v = .ok accepted ↔ (accepted = true ↔ Conforms g.table v g.root) := by
  have decides := decides_validate closed v resolved
  rw [Graph.isValid, Graph.validate]
  generalize SampleTypes.validate g.table v g.root = verdict at decides
  cases decides with
  | accepted holds => simp [holds, eq_comm]
  | refused cause location fails => simp [fails, eq_comm]

end SampleTypes
