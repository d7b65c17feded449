import SampleTypes.Proofs.Graph.Conforms
import SampleTypes.Proofs.Number.ExactValues
import SampleTypes.Proofs.Runs
import SampleTypes.Proofs.Shape.Equality

/-! Where mismatches are reported. The location of a mismatch leads to a part of the value that is no
instance of the shape that governs it, and a value that no variant of a union takes is reported as a whole. -/

namespace SampleTypes

/-- The values of a primitive. An integer is a number with an integral value, and a float any number. -/
inductive OfKind : Value → Kind → Prop where
  | null : OfKind .null .null
  | boolean (b : Bool) : OfKind (.bool b) .boolean
  | string (s : Str) : OfKind (.string s) .string
  | integer {v : Value} {i : Int} (integral : v.toRat? = some (i : ℚ)) : OfKind v .integer
  | int (i : Int) : OfKind (.int i) .float
  | float (x : Binary64) : OfKind (.float x) .float

theorem matchesKind_iff {v : Value} {kind : Kind} : matchesKind v kind = true ↔ OfKind v kind := by
  constructor
  · intro matched
    cases kind with
    | integer =>
      obtain ⟨i, integral⟩ := Option.isSome_iff_exists.mp matched
      exact .integer (Value.toInt?_eq_some.mp integral)
    | _ => cases v <;> cases matched <;> constructor
  · intro ofKind
    cases ofKind with
    | integer integral => rw [matchesKind, Value.toInt?_eq_some.mpr integral, Option.isSome_some]
    | _ => rfl

namespace Shape

/-- The shape that governs a location. Nothing below a union is governed, whatever its variants are. -/
def at? (table : Table) : Shape → Location → Option Shape
  | s, [] => some s
  | .array e _, .index _ :: rest => e.at? table rest
  | .object fields, .key name :: rest =>
    (fields.lookup name).bind fun field => field.shape.at? table rest
  | .reference name, .key key :: rest =>
    (table.lookup name).bind fun fields =>
      (fields.lookup key).bind fun field => field.shape.at? table rest
  | _, _ :: _ => none

theorem at?_append (table : Table) (s : Shape) (before after : Location) :
    s.at? table (before ++ after) = (s.at? table before).bind fun t => t.at? table after := by
  induction before generalizing s with
  | nil => rw [List.nil_append, at?, Option.bind_some]
  | cons step rest ih =>
    cases s <;> cases step <;> simp only [List.cons_append, at?, ih, Option.bind_assoc, Option.bind_none]

end Shape

/-! One step of a location. -/

inductive Descends (table : Table) : Value → Shape → Step → Value → Shape → Prop where
  | item {items : List Value} {e : Shape} {placeholder : Bool} {i : Nat} {w : Value}
      (here : items[i]? = some w) : Descends table (.list items) (.array e placeholder) (.index i) w e
  | field {entries : List (Key × Value)} {fields : Fields} {name : Str} {w : Value} {field : Field}
      (present : entries.lookup (.name name) = some w) (declared : (name, field) ∈ fields) :
      Descends table (.object entries) (.object fields) (.key name) w field.shape
  | reference {v w : Value} {t : Shape} {name : String} {fields : Fields} {step : Step}
      (resolved : table.lookup name = some fields) (inner : Descends table v (.object fields) step w t) :
      Descends table v (.reference name) step w t

inductive Arises (table : Table) (v : Value) (s : Shape) (cause : Mismatch) : Location → Prop where
  | here (own : cause = .noVariant ↔ s.isUnion = true) : Arises table v s cause []
  | below {step : Step} {rest : Location} {w : Value} {t : Shape} (descends : Descends table v s step w t)
      (failed : validate table w t = .error (.mismatch cause rest)) : Arises table v s cause (step :: rest)

section Steps

variable {table : Table} {v : Value} {s : Shape} {cause : Mismatch} {location : Location}

theorem exists_of_under {verdict : Verdict} {step : Step}
    (failed : verdict.mapError (ValidationError.under step) =
      (.error (.mismatch cause location) : Verdict)) :
    ∃ rest, location = step :: rest ∧ verdict = .error (.mismatch cause rest) := by
  obtain ⟨inner, same, under⟩ := exists_of_mapError failed
  cases inner with
  | mismatch cause rest => cases under; exact ⟨rest, rfl, same⟩
  | dangling cause => cases under

theorem exists_of_validateItems {items : List Value} {e : Shape} {start : Nat}
    (failed : validateItems table start items e = .error (.mismatch cause location)) :
    ∃ i w rest, location = .index (start + i) :: rest ∧ items[i]? = some w ∧
      validate table w e = .error (.mismatch cause rest) := by
  induction items generalizing start with
  | nil => cases failed
  | cons item others ih =>
    rw [validateItems] at failed
    rcases error_of_bind failed with first | ⟨_, _, later⟩
    · obtain ⟨rest, rfl, inner⟩ := exists_of_under first
      exact ⟨0, item, rest, rfl, rfl, inner⟩
    · obtain ⟨i, w, rest, rfl, here, inner⟩ := ih later
      exact ⟨i + 1, w, rest, by rw [Nat.add_assoc, Nat.add_comm 1 i], here, inner⟩

theorem arises_of_wrongType {expected : String} (single : s.isUnion = false)
    (failed : wrongType v expected = .error (.mismatch cause location)) :
    Arises table v s cause location := by
  cases failed
  exact .here (by simp [single])

theorem arises_of_checkKind {kind : Kind}
    (failed : checkKind v kind = .error (.mismatch cause location)) :
    Arises table v (.primitive kind) cause location := by
  rw [checkKind] at failed
  split_ifs at failed
  exact arises_of_wrongType rfl failed

theorem arises_of_checkFields {entries : List (Key × Value)} {fields declared : Fields}
    (among : ∀ field ∈ fields, field ∈ declared)
    (failed : checkFields (entryChecks table entries) fields = .error (.mismatch cause location)) :
    Arises table (.object entries) (.object declared) cause location := by
  induction fields with
  | nil => cases failed
  | cons field rest ih =>
    obtain ⟨name, field⟩ := field
    rw [List.forall_mem_cons] at among
    rw [checkFields] at failed
    rcases error_of_bind failed with first | ⟨_, _, later⟩
    · rw [checkField, lookup_entryChecks] at first
      cases present : entries.lookup (.name name) with
      | none =>
        rw [present] at first
        dsimp only [Option.map_none] at first
        split_ifs at first
        cases first
        exact .here (by simp [Shape.isUnion])
      | some w =>
        rw [present] at first
        dsimp only [Option.map_some] at first
        split_ifs at first
        obtain ⟨rest, rfl, inner⟩ := exists_of_under first
        exact .below (.field present among.1) inner
    · exact ih among.2 later

theorem arises_of_checkObject {entries : List (Key × Value)} {fields : Fields}
    (failed : checkObject (entryChecks table entries) fields = .error (.mismatch cause location)) :
    Arises table (.object entries) (.object fields) cause location := by
  rw [checkObject] at failed
  rcases error_of_bind failed with unknown | ⟨_, _, inside⟩
  · rw [checkUnknown] at unknown
    split at unknown
    · cases unknown
      exact .here (by simp [Shape.isUnion])
    · cases unknown
  · exact arises_of_checkFields (fun _ here => here) inside

theorem Arises.reference {name : String} {fields : Fields} (resolved : table.lookup name = some fields)
    (arises : Arises table v (.object fields) cause location) :
    Arises table v (.reference name) cause location := by
  cases arises with
  | here own => exact .here own
  | below descends failed => exact .below (.reference resolved descends) failed

theorem eq_of_checkVariants {checks : Checks} {variants : List Shape}
    (failed : checkVariants table checks variants = .error (.mismatch cause location)) :
    cause = .noVariant ∧ location = [] := by
  induction variants with
  | nil =>
    cases failed
    exact ⟨rfl, rfl⟩
  | cons first rest ih =>
    rw [checkVariants] at failed
    split at failed
    · cases failed
    · exact ih failed
    · cases failed

theorem arises_of_checkShape {checks : Checks}
    (primitive : ∀ kind, checks.primitive kind = .error (.mismatch cause location) →
      Arises table v (.primitive kind) cause location)
    (array : ∀ e placeholder, checks.array e = .error (.mismatch cause location) →
      Arises table v (.array e placeholder) cause location)
    (object : ∀ fields, checks.object fields = .error (.mismatch cause location) →
      Arises table v (.object fields) cause location)
    (failed : checkShape table checks s = .error (.mismatch cause location)) :
    Arises table v s cause location := by
  cases s with
  | primitive kind => exact primitive kind failed
  | array e placeholder => exact array e placeholder failed
  | object fields => exact object fields failed
  | union variants =>
    obtain ⟨rfl, rfl⟩ := eq_of_checkVariants failed
    exact .here (by simp [Shape.isUnion])
  | reference name =>
    rw [checkShape, Table.resolve] at failed
    cases resolved : table.lookup name with
    | none => rw [resolved] at failed; cases failed
    | some fields =>
      rw [resolved] at failed
      exact (object fields failed).reference resolved

theorem arises_of_validate (failed : validate table v s = .error (.mismatch cause location)) :
    Arises table v s cause location := by
  cases v with
  | list items =>
    rw [validate] at failed
    refine arises_of_checkShape (fun kind => arises_of_checkKind) ?_
      (fun fields => arises_of_wrongType rfl) failed
    intro e placeholder failed
    obtain ⟨i, w, rest, rfl, here, inner⟩ := exists_of_validateItems failed
    rw [Nat.zero_add]
    exact .below (.item here) inner
  | object entries =>
    rw [validate] at failed
    exact arises_of_checkShape (fun kind => arises_of_checkKind)
      (fun e placeholder => arises_of_wrongType rfl) (fun fields => arises_of_checkObject) failed
  | _ =>
    rw [validate] at failed
    · exact arises_of_checkShape (fun kind => arises_of_checkKind)
        (fun e placeholder => arises_of_wrongType rfl) (fun fields => arises_of_wrongType rfl) failed
    all_goals simp

end Steps

/-! A whole location. -/

open Shape (Resolved Buildable)

namespace Descends

variable {table : Table} {v w : Value} {s t : Shape} {step : Step}

theorem value_at? (descends : Descends table v s step w t) (rest : Location) :
    v.at? (step :: rest) = w.at? rest := by
  induction descends with
  | item here => rw [Value.at?, here, Option.bind_some]
  | field present declared => rw [Value.at?, present, Option.bind_some]
  | reference resolved inner ih => exact ih

theorem shape_at? (descends : Descends table v s step w t) (buildable : Buildable s)
    (entries : ∀ name fields, table.lookup name = some fields → Buildable (.object fields))
    (rest : Location) : s.at? table (step :: rest) = t.at? table rest := by
  have declaredOnce : ∀ {fields : Fields} {name : Str} {field : Field}, Buildable (.object fields) →
      (name, field) ∈ fields → fields.lookup name = some field :=
    fun object declared => Entries.lookup_of_mem (Shape.buildable_object.mp object).1 declared
  cases descends with
  | item here => rfl
  | field present declared => rw [Shape.at?, declaredOnce buildable declared, Option.bind_some]
  | reference resolved inner =>
    cases inner with
    | field present declared =>
      rw [Shape.at?, resolved, Option.bind_some, declaredOnce (entries _ _ resolved) declared,
        Option.bind_some]

theorem buildable (descends : Descends table v s step w t) (buildable : Buildable s)
    (entries : ∀ name fields, table.lookup name = some fields → Buildable (.object fields)) :
    Buildable t := by
  induction descends with
  | item here => exact Shape.buildable_array.mp buildable
  | field present declared => exact (Shape.buildable_object.mp buildable).2 _ declared
  | reference resolved inner ih => exact ih (entries _ _ resolved)

theorem resolved (descends : Descends table v s step w t) (resolved : Resolved table s)
    (closed : table.Closed) : Resolved table t := by
  induction descends with
  | item here => exact resolved
  | field present declared => exact resolved.field declared
  | reference found inner ih => exact ih (closed _ _ found)

end Descends

/-- The part of the value at the location is no instance of the shape that governs it, which is a union
if no variant takes that part. -/
def Misfits (table : Table) (v : Value) (s : Shape) (cause : Mismatch) (location : Location) : Prop :=
  ∃ w t, v.at? location = some w ∧ s.at? table location = some t ∧ ¬Conforms table w t ∧
    (cause = .noVariant ↔ t.isUnion = true)

theorem misfits_of_validate {table : Table} (closed : table.Closed)
    (entries : ∀ name fields, table.lookup name = some fields → Buildable (.object fields)) {v : Value}
    {s : Shape} (resolved : Resolved table s) (buildable : Buildable s) {cause : Mismatch}
    {location : Location} (failed : validate table v s = .error (.mismatch cause location)) :
    Misfits table v s cause location := by
  induction location generalizing v s with
  | nil =>
    cases arises_of_validate failed with
    | here own =>
      refine ⟨v, s, by rw [Value.at?], by rw [Shape.at?], ?_, own⟩
      have decides := decides_validate closed v resolved
      rw [failed] at decides
      cases decides with
      | refused _ _ fails => exact fails
  | cons step rest ih =>
    cases arises_of_validate failed with
    | below descends inner =>
      rw [Misfits, descends.value_at?, descends.shape_at? buildable entries]
      exact ih (descends.resolved resolved closed) (descends.buildable buildable entries) inner

theorem eq_of_union_prefix {table : Table} {s t : Shape} {before location : Location}
    {variants : List Shape} (governed : s.at? table location = some t) (part : before <+: location)
    (union : s.at? table before = some (.union variants)) : before = location := by
  obtain ⟨after, rfl⟩ := part
  rw [Shape.at?_append, union, Option.bind_some] at governed
  cases after with
  | nil => exact (List.append_nil before).symm
  | cons step rest => cases step <;> cases governed

/-- What the report of a mismatch says. Its text shows the steps of the location, one after the other. -/
structure Reported (g : Graph) (v : Value) (cause : Mismatch) (location : Location) : Prop where
  misfits : Misfits g.table v g.root cause location
  outside : ∀ before variants, before <+: location →
    g.root.at? g.table before = some (.union variants) → before = location
  message : (ValidationError.mismatch cause location).message =
    cause.message ++ " at " ++ ("#" ++ location.flatMap Step.text)

/-- If every reference resolves, a mismatch is reported for exactly the values that are no instances of the
root, and at a location where the value does not fit. -/
theorem validate_reported {g : Graph} (root : Buildable g.root)
    (entries : ∀ entry ∈ g.table, Buildable (.object entry.2))
    (resolved : ∀ name ∈ g.references, (g.table.lookup name).isSome) (v : Value) :
    (∀ w kind, Conforms g.table w (.primitive kind) ↔ OfKind w kind) ∧
      (g.validate v = .ok () ↔ Conforms g.table v g.root) ∧
        ((∃ cause location, g.validate v = .error (.mismatch cause location)) ↔
          ¬Conforms g.table v g.root) ∧
          ∀ cause location, g.validate v = .error (.mismatch cause location) →
            Reported g v cause location := by
  have checked := Graph.check_eq_ok.mpr resolved
  have closed := Graph.closed_of_check checked
  have decides := decides_validate closed v (Graph.resolved_of_check checked)
  refine ⟨fun w kind => Conforms.primitive_iff.trans matchesKind_iff, decides.eq_ok, ?_, ?_⟩
  · rw [Graph.validate]
    generalize validate g.table v g.root = verdict at decides
    cases decides with
    | accepted holds => simp [holds]
    | refused cause location fails => simp [fails]
  · intro cause location failed
    have misfits := misfits_of_validate closed
      (fun name fields found => entries _ (Entries.mem_of_lookup found))
      (Graph.resolved_of_check checked) root failed
    constructor
    · exact misfits
    · obtain ⟨w, t, _, governed, _⟩ := misfits
      exact fun before variants part => eq_of_union_prefix governed part
    · rw [ValidationError.message, Location.text_eq]

/-- A null in a list of integers and strings, in an object that is reached through a cycle of references. -/
theorem validate_reported_of_cycle :
    let item : Shape := .union [.primitive .integer, .primitive .string]
    let fields : Fields := [("next", ⟨.reference "Node", true⟩), ("tags", ⟨.array item false, false⟩)]
    let g : Graph := ⟨"Node", .reference "Node", [("Node", fields)]⟩
    let inner : Value := .object [(.name "tags", .list [.int 1, .null])]
    let v : Value := .object [(.name "tags", .list []), (.name "next", inner)]
    let location : Location := [.key "next", .key "tags", .index 1]
    (∀ name ∈ g.references, (g.table.lookup name).isSome) ∧
      g.validate v = .error (.mismatch .noVariant location) ∧
        ¬Conforms g.table v g.root ∧ Reported g v .noVariant location := by
  intro item fields g inner v location
  have union : Buildable item := .union (by decide) (by simp [Shape.isUnion]) (by simp [Buildable.primitive])
  have object : Buildable (.object fields) :=
    .object (by decide) (by simpa [fields, Buildable.reference] using Buildable.array false union)
  have resolved : ∀ name ∈ g.references, (g.table.lookup name).isSome := by decide
  have failed : g.validate v = .error (.mismatch .noVariant location) := rfl
  obtain ⟨_, _, refused, reported⟩ :=
    validate_reported (.reference "Node") (by simpa [g] using object) resolved v
  exact ⟨resolved, failed, refused.mp ⟨_, _, failed⟩, reported _ _ failed⟩

end SampleTypes
