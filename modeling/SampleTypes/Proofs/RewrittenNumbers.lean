import SampleTypes.Proofs.Graph.Conforms
import SampleTypes.Proofs.Number.ExactValues
import SampleTypes.Proofs.Samples.Inference

/-! Values whose numbers are written in another way. Inference and validation see what a number is, and
not whether it is written as an integer or as a double. -/

namespace SampleTypes

/-- `w` comes from `v` by writing numbers of the same exact value for numbers, at any depth. -/
inductive Rewritten : Value → Value → Prop where
  | refl (v : Value) : Rewritten v v
  | trans {u v w : Value} (first : Rewritten u v) (second : Rewritten v w) : Rewritten u w
  | number {v w : Value} {q : ℚ} (old : v.toRat? = some q) (new : w.toRat? = some q) : Rewritten v w
  | item {v w : Value} (before after : List Value) (inner : Rewritten v w) :
      Rewritten (.list (before ++ v :: after)) (.list (before ++ w :: after))
  | entry {v w : Value} (key : Key) (before after : List (Key × Value)) (inner : Rewritten v w) :
      Rewritten (.object (before ++ (key, v) :: after)) (.object (before ++ (key, w) :: after))

namespace Value

theorem Supported.of_number {v : Value} {q : ℚ} (number : v.toRat? = some q) : v.Supported := by
  rcases number_cases number with ⟨i, rfl⟩ | ⟨x, rfl, finite⟩
  · exact .int i
  · exact .float finite

theorem Supported.rewritten {v w : Value} (supported : v.Supported) (rewritten : Rewritten v w) :
    w.Supported := by
  induction rewritten with
  | refl v => exact supported
  | trans first second ih ih' => exact ih' (ih supported)
  | number old new => exact .of_number new
  | item before after inner ih =>
    rw [supported_list] at supported ⊢
    simp only [List.forall_mem_append, List.forall_mem_cons] at supported ⊢
    exact ⟨supported.1, ih supported.2.1, supported.2.2⟩
  | entry key before after inner ih =>
    rw [supported_object] at supported ⊢
    simp only [List.forall_mem_append, List.forall_mem_cons, Entries.keys, List.map_append,
      List.map_cons] at supported ⊢
    obtain ⟨distinct, named, first, middle, last⟩ := supported
    exact ⟨distinct, named, first, ih middle, last⟩

end Value

/-! Inferring. -/

namespace Shape

variable {widen : Bool} {v w : Value}

theorem infer_number {q : ℚ} (number : v.toRat? = some q) :
    infer widen v = .ok (.primitive (v.toInt?.elim .float Kind.ofInt)) := by
  rcases Value.number_cases number with ⟨i, rfl⟩ | ⟨x, rfl, finite⟩
  · rfl
  · rw [infer, if_pos finite, Kind.ofFloat, Value.toInt?]
    cases x.toInt? <;> rfl

theorem inferItems_replaced (same : infer widen w = infer widen v) (before after : List Value) (i : Nat) :
    inferItems widen i (before ++ w :: after) = inferItems widen i (before ++ v :: after) := by
  induction before generalizing i with
  | nil => rw [List.nil_append, List.nil_append, inferItems, inferItems, same]
  | cons first rest ih => rw [List.cons_append, List.cons_append, inferItems, inferItems, ih]

theorem inferEntries_replaced (same : infer widen w = infer widen v) (key : Key)
    (before after : List (Key × Value)) :
    inferEntries widen (before ++ (key, w) :: after) =
      inferEntries widen (before ++ (key, v) :: after) := by
  induction before with
  | nil => cases key <;> simp only [List.nil_append, inferEntries, same]
  | cons first rest ih =>
    obtain ⟨other, item⟩ := first
    cases other <;> simp only [List.cons_append, inferEntries, ih]

theorem infer_rewritten (rewritten : Rewritten v w) : infer widen w = infer widen v := by
  induction rewritten with
  | refl v => rfl
  | trans first second ih ih' => rw [ih', ih]
  | @number v w q old new =>
    rw [infer_number old, infer_number new, Value.toInt?_congr (old.trans new.symm)]
  | item before after inner ih => rw [infer, infer, inferItems_replaced ih]
  | entry key before after inner ih => rw [infer, infer, inferEntries_replaced ih]

end Shape

/-! What a verdict comes to. -/

namespace Verdict

/-- A mismatch is a refusal, wherever and whatever it is. -/
def outcome : Verdict → Except DanglingReference Bool
  | .ok () => .ok true
  | .error (.mismatch _ _) => .ok false
  | .error (.dangling cause) => .error cause

theorem outcome_bind (first second : Verdict) :
    outcome (first >>= fun _ => second) =
      first.outcome >>= fun accepted => if accepted then second.outcome else .ok false := by
  rcases first with (_ | _) | _ <;> rfl

theorem outcome_under (step : Step) (verdict : Verdict) :
    outcome (verdict.mapError (.under step)) = verdict.outcome := by
  rcases verdict with (_ | _) | _ <;> rfl

theorem outcome_test (test : Bool) (cause : Mismatch) :
    outcome (if test then .ok () else .mismatch cause) = .ok test := by
  cases test <;> rfl

end Verdict

theorem Graph.isValid_eq_outcome (g : Graph) (v : Value) : g.isValid v = (g.validate v).outcome := by
  rw [Graph.isValid]
  rcases g.validate v with (_ | _) | _ <;> rfl

/-! Validating. -/

open Verdict

section Validating

variable {table : Table} {v w : Value}

theorem outcome_checkVariants_cons (checks : Checks) (s : Shape) (rest : List Shape) :
    (checkVariants table checks (s :: rest)).outcome =
      (checkShape table checks s).outcome >>= fun accepted =>
        if accepted then .ok true else (checkVariants table checks rest).outcome := by
  rw [checkVariants]
  rcases checkShape table checks s with (_ | _) | _ <;> rfl

theorem outcome_checkShape {checks others : Checks}
    (primitive : ∀ kind, (checks.primitive kind).outcome = (others.primitive kind).outcome)
    (array : ∀ e, (checks.array e).outcome = (others.array e).outcome)
    (object : ∀ fields, (checks.object fields).outcome = (others.object fields).outcome) (s : Shape) :
    (checkShape table checks s).outcome = (checkShape table others s).outcome := by
  induction s with
  | primitive kind => exact primitive kind
  | array e placeholder ih => exact array e
  | object fields ih => exact object fields
  | union variants ih =>
    rw [checkShape, checkShape]
    induction variants with
    | nil => rfl
    | cons s rest later =>
      rw [List.forall_mem_cons] at ih
      rw [outcome_checkVariants_cons, outcome_checkVariants_cons, ih.1, later ih.2]
  | reference name =>
    rw [checkShape, checkShape]
    cases table.resolve name with
    | ok fields => exact object fields
    | error cause => rfl

theorem validate_number {q : ℚ} (number : v.toRat? = some q) (s : Shape) :
    validate table v s = checkShape table
      { primitive := checkKind v
        array := fun _ => wrongType v "array"
        object := fun _ => wrongType v "object" } s := by
  rcases Value.number_cases number with ⟨i, rfl⟩ | ⟨x, rfl, finite⟩
  · rw [validate] <;> simp
  · rw [validate] <;> simp

theorem matchesKind_number {q : ℚ} (old : v.toRat? = some q) (new : w.toRat? = some q) (kind : Kind) :
    matchesKind w kind = matchesKind v kind := by
  cases kind with
  | integer => rw [matchesKind, matchesKind, Value.toInt?_congr (old.trans new.symm)]
  | _ =>
    rcases Value.number_cases old with ⟨i, rfl⟩ | ⟨x, rfl, _⟩ <;>
      rcases Value.number_cases new with ⟨j, rfl⟩ | ⟨y, rfl, _⟩ <;> rfl

theorem outcome_checkKind (v : Value) (kind : Kind) :
    (checkKind v kind).outcome = .ok (matchesKind v kind) := by
  rw [checkKind, outcome_test]

theorem outcome_validateItems_replaced
    (same : ∀ s, (validate table w s).outcome = (validate table v s).outcome)
    (before after : List Value) (start : Nat) (e : Shape) :
    (validateItems table start (before ++ w :: after) e).outcome =
      (validateItems table start (before ++ v :: after) e).outcome := by
  induction before generalizing start with
  | nil =>
    rw [List.nil_append, List.nil_append, validateItems, validateItems, outcome_bind, outcome_bind,
      outcome_under, outcome_under, same]
  | cons first rest ih =>
    rw [List.cons_append, List.cons_append, validateItems, validateItems, outcome_bind, outcome_bind, ih]

theorem outcome_checkUnknown (fields : Fields) (entries : List (Key × EntryCheck)) :
    (checkUnknown fields entries).outcome = .ok (entries.all fun entry => entry.1.isIn fields) := by
  induction entries with
  | nil => rfl
  | cons entry rest ih =>
    obtain ⟨key, check⟩ := entry
    rw [checkUnknown, List.find?_cons, List.all_cons]
    dsimp only
    cases key.isIn fields with
    | true => exact ih
    | false => rfl

section Entry

variable (same : ∀ s, (validate table w s).outcome = (validate table v s).outcome)
  (null : w.isNull = v.isNull) (key : Key) (before after : List (Key × Value))

include same null

theorem outcome_checkField_replaced (name : Str) (field : Field) :
    (checkField (entryChecks table (before ++ (key, w) :: after)) name field).outcome =
      (checkField (entryChecks table (before ++ (key, v) :: after)) name field).outcome := by
  rw [checkField, checkField, lookup_entryChecks, lookup_entryChecks, List.lookup_append,
    List.lookup_append, List.lookup_cons, List.lookup_cons]
  cases before.lookup (Key.name name) with
  | some other => rfl
  | none =>
    cases Key.name name == key with
    | false => rfl
    | true =>
      simp only [Option.none_or, Option.map_some, null]
      split_ifs
      · rfl
      · rw [outcome_under, outcome_under, same]

theorem outcome_checkFields_replaced (fields : Fields) :
    (checkFields (entryChecks table (before ++ (key, w) :: after)) fields).outcome =
      (checkFields (entryChecks table (before ++ (key, v) :: after)) fields).outcome := by
  induction fields with
  | nil => rfl
  | cons field rest ih =>
    rw [checkFields, checkFields, outcome_bind, outcome_bind,
      outcome_checkField_replaced same null key before after, ih]

theorem outcome_checkObject_replaced (fields : Fields) :
    (checkObject (entryChecks table (before ++ (key, w) :: after)) fields).outcome =
      (checkObject (entryChecks table (before ++ (key, v) :: after)) fields).outcome := by
  have unknown : (checkUnknown fields (entryChecks table (before ++ (key, w) :: after))).outcome =
      (checkUnknown fields (entryChecks table (before ++ (key, v) :: after))).outcome := by
    simp only [outcome_checkUnknown, entryChecks_eq, List.map_append, List.map_cons, List.all_append,
      List.all_cons]
  rw [checkObject, checkObject, outcome_bind, outcome_bind, unknown,
    outcome_checkFields_replaced same null key before after]

end Entry

theorem isNull_rewritten (rewritten : Rewritten v w) : w.isNull = v.isNull := by
  induction rewritten with
  | trans first second ih ih' => rw [ih', ih]
  | number old new =>
    rcases Value.number_cases old with ⟨i, rfl⟩ | ⟨x, rfl, _⟩ <;>
      rcases Value.number_cases new with ⟨j, rfl⟩ | ⟨y, rfl, _⟩ <;> rfl
  | _ => rfl

theorem outcome_validate_rewritten (rewritten : Rewritten v w) (s : Shape) :
    (validate table w s).outcome = (validate table v s).outcome := by
  induction rewritten generalizing s with
  | refl v => rfl
  | trans first second ih ih' => rw [ih', ih]
  | number old new =>
    rw [validate_number old, validate_number new]
    apply outcome_checkShape
    · intro kind
      simp only [outcome_checkKind, matchesKind_number old new]
    · exact fun _ => rfl
    · exact fun _ => rfl
  | item before after inner ih =>
    rw [validate, validate]
    apply outcome_checkShape
    · intro kind
      cases kind <;> rfl
    · exact outcome_validateItems_replaced ih before after 0
    · exact fun _ => rfl
  | entry key before after inner ih =>
    rw [validate, validate]
    apply outcome_checkShape
    · intro kind
      cases kind <;> rfl
    · exact fun _ => rfl
    · exact outcome_checkObject_replaced ih (isNull_rewritten inner) key before after

end Validating

/-- Samples that differ in how numbers are written have one shape, and a graph accepts both or neither, or
meets the same dangling reference in both. -/
theorem alike_of_rewritten {v w : Value} (supported : v.Supported) (rewritten : Rewritten v w) :
    w.Supported ∧
      (∀ widen, ∃ s, Shape.infer widen v = .ok s ∧ Shape.infer widen w = .ok s) ∧
        ∀ g : Graph, g.isValid w = g.isValid v := by
  refine ⟨supported.rewritten rewritten, fun widen => ?_, fun g => ?_⟩
  · refine ⟨_, Shape.infer_eq_observed supported, ?_⟩
    rw [Shape.infer_rewritten rewritten]
    exact Shape.infer_eq_observed supported
  · rw [Graph.isValid_eq_outcome, Graph.isValid_eq_outcome]
    exact outcome_validate_rewritten rewritten g.root

/-- An integer, an unsafe integer and a negative zero, against an optional list of integers. -/
theorem alike_of_rewritten_of_boundaries :
    let three : Value := .float ⟨0x4008000000000000⟩
    let unsafeInteger : Value := .float ⟨0x4340000000000000⟩
    let negativeZero : Value := .float ⟨0x8000000000000000⟩
    let v : Value := .object [(.name "a", .list [.int 3, .int (2 ^ 53), negativeZero])]
    let w : Value := .object [(.name "a", .list [three, unsafeInteger, .int 0])]
    let fields : Fields := [("a", ⟨.array (.primitive .integer) false, true⟩)]
    let g : Graph := ⟨"Root", .reference "Root", [("Root", fields)]⟩
    v.Supported ∧ Rewritten v w ∧
      (∃ s, Shape.infer false v = .ok s ∧ Shape.infer false w = .ok s) ∧
        g.isValid v = .ok true ∧ g.isValid w = .ok true := by
  intro three unsafeInteger negativeZero v w fields g
  have zero : Value.Supported negativeZero := .float (by decide)
  have items : Value.Supported (.list [.int 3, .int (2 ^ 53), negativeZero]) :=
    .list (by simpa [Value.Supported.int] using zero)
  have supported : v.Supported := .object (by decide) (by simp) (by simpa using items)
  have valueThree : three.toRat? = some ((3 : Int) : ℚ) := Value.toInt?_eq_some.mp rfl
  have valueLarge : unsafeInteger.toRat? = some ((2 ^ 53 : Int) : ℚ) := Value.toInt?_eq_some.mp rfl
  have valueZero : negativeZero.toRat? = some ((0 : Int) : ℚ) :=
    Value.toInt?_eq_some.mp (by decide +kernel)
  have first : Rewritten (.int 3) three := .number rfl valueThree
  have second : Rewritten (.int (2 ^ 53)) unsafeInteger := .number rfl valueLarge
  have third : Rewritten negativeZero (.int 0) := .number valueZero rfl
  have inside : Rewritten (.list [.int 3, .int (2 ^ 53), negativeZero])
      (.list [three, unsafeInteger, .int 0]) :=
    .trans (.item [] [.int (2 ^ 53), negativeZero] first)
      (.trans (.item [three] [negativeZero] second) (.item [three, unsafeInteger] [] third))
  have rewritten : Rewritten v w := .entry (.name "a") [] [] inside
  obtain ⟨_, inferred, alike⟩ := alike_of_rewritten supported rewritten
  have accepted : g.isValid w = .ok true := rfl
  exact ⟨supported, rewritten, inferred false, (alike g).symm.trans accepted, accepted⟩

end SampleTypes
