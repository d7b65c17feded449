import Mathlib.Data.List.MinMax
import SampleTypes.Proofs.Graph.MismatchLocations

/-! Validation as one recursion on a value and a shape, in which a reference leads on to any entry of the
table and perhaps back to where it stands. Its calls nest no deeper than the value and the shapes do: with
that much room it ends, on every table, and its verdict is that of validation. -/

namespace SampleTypes

/-! Depths. -/

def deepest (depths : List Nat) : Nat := depths.foldr max 0

theorem le_deepest {depths : List Nat} {n : Nat} (here : n ∈ depths) : n ≤ deepest depths :=
  List.le_max_of_le' 0 here (Nat.le_refl n)

namespace Value

mutual

def depth : Value → Nat
  | .list items => depthOfItems items + 1
  | .object entries => depthOfEntries entries + 1
  | _ => 0

def depthOfItems : List Value → Nat
  | [] => 0
  | item :: rest => max item.depth (depthOfItems rest)

def depthOfEntries : List (Key × Value) → Nat
  | [] => 0
  | (_, v) :: rest => max v.depth (depthOfEntries rest)

end

theorem depth_list (items : List Value) :
    (Value.list items).depth = deepest (items.map depth) + 1 := by
  have inner : depthOfItems items = deepest (items.map depth) := by
    induction items with
    | nil => rfl
    | cons item rest ih => rw [depthOfItems, ih]; rfl
  rw [depth, inner]

theorem depth_object (entries : List (Key × Value)) :
    (Value.object entries).depth = deepest (entries.map fun entry => entry.2.depth) + 1 := by
  have inner : depthOfEntries entries = deepest (entries.map fun entry => entry.2.depth) := by
    induction entries with
    | nil => rfl
    | cons entry rest ih => rw [depthOfEntries, ih]; rfl
  rw [depth, inner]

end Value

namespace Shape

mutual

/-- How deep arrays, objects and unions nest in a shape. A reference adds nothing to it. -/
def depth : Shape → Nat
  | .array e _ => e.depth + 1
  | .object fields => depthOfFields fields + 1
  | .union variants => depthOfVariants variants + 1
  | .primitive _ => 0
  | .reference _ => 0

def depthOfFields : Fields → Nat
  | [] => 0
  | (_, field) :: rest => max field.shape.depth (depthOfFields rest)

def depthOfVariants : List Shape → Nat
  | [] => 0
  | v :: rest => max v.depth (depthOfVariants rest)

end

theorem depth_object (fields : Fields) :
    (Shape.object fields).depth = deepest (fields.map fun entry => entry.2.shape.depth) + 1 := by
  have inner : depthOfFields fields = deepest (fields.map fun entry => entry.2.shape.depth) := by
    induction fields with
    | nil => rfl
    | cons entry rest ih => rw [depthOfFields, ih]; rfl
  rw [depth, inner]

theorem depth_union (variants : List Shape) :
    (Shape.union variants).depth = deepest (variants.map depth) + 1 := by
  have inner : depthOfVariants variants = deepest (variants.map depth) := by
    induction variants with
    | nil => rfl
    | cons v rest ih => rw [depthOfVariants, ih]; rfl
  rw [depth, inner]

end Shape

def Graph.depth (g : Graph) : Nat :=
  deepest (g.root.depth :: g.table.map fun entry => (Shape.object entry.2).depth)

/-! The recursion, with a limit to how deep its calls may nest. -/

/-- A verdict, or none where calls nest too deep. -/
abbrev Attempt := ExceptT ValidationError Option Unit

def Attempt.done (verdict : Verdict) : Attempt := ExceptT.mk (some verdict)

section Attempts

variable (call : Value → Shape → Attempt)

def attemptItems (element : Shape) : Nat → List Value → Attempt
  | _, [] => return ()
  | i, item :: rest => do
    (call item element).adapt (.under (.index i))
    attemptItems element (i + 1) rest

def attemptField (entries : List (Key × Value)) (name : Str) (field : Field) : Attempt :=
  match entries.lookup (.name name) with
  | none => if field.optional then return () else throw (.mismatch (.missingField name) [])
  | some v =>
    if v.isNull && field.optional then return ()
    else (call v field.shape).adapt (.under (.key name))

def attemptFields (entries : List (Key × Value)) : Fields → Attempt
  | [] => return ()
  | (name, field) :: rest => do
    attemptField call entries name field
    attemptFields entries rest

def attemptObject (fields : Fields) : Value → Attempt
  | .object entries =>
    match entries.find? fun (key, _) => !key.isIn fields with
    | some (key, _) => throw (.mismatch (.unexpectedField key.text) [])
    | none => attemptFields call entries fields
  | v => .done (wrongType v "object")

def attemptVariants (v : Value) : List Shape → Attempt
  | [] => throw (.mismatch .noVariant [])
  | w :: rest => tryCatch (call v w) fun
    | .mismatch _ _ => attemptVariants v rest
    | .dangling cause => throw (.dangling cause)

end Attempts

def validateWithin (table : Table) : (limit : Nat) → Value → Shape → Attempt
  | 0, _, _ => ExceptT.mk none
  | limit + 1, v, s =>
    match s with
    | .primitive kind => .done (checkKind v kind)
    | .array e _ =>
      match v with
      | .list items => attemptItems (validateWithin table limit) e 0 items
      | v => .done (wrongType v "array")
    | .object fields => attemptObject (validateWithin table limit) fields v
    | .reference name =>
      match table.resolve name with
      | .ok fields => attemptObject (validateWithin table limit) fields v
      | .error cause => throw (.dangling cause)
    | .union variants => attemptVariants (validateWithin table limit) v variants

def Graph.validateWithin (g : Graph) (limit : Nat) (v : Value) : Option Verdict :=
  (SampleTypes.validateWithin g.table limit v g.root).run

def Graph.isValidWithin (g : Graph) (limit : Nat) (v : Value) : Option (Except DanglingReference Bool) :=
  match g.validateWithin limit v with
  | some (.ok ()) => some (.ok true)
  | some (.error (.mismatch _ _)) => some (.ok false)
  | some (.error (.dangling cause)) => some (.error cause)
  | none => none

/-- What a call for a value and a shape calls for in its turn. A union passes the value on as it is, and
anything else a part of it. -/
inductive Calls (table : Table) : Value → Shape → Value → Shape → Prop where
  | part {v w : Value} {s t : Shape} {step : Step} (descends : Descends table v s step w t) :
      Calls table v s w t
  | variant {v : Value} {t : Shape} {variants : List Shape} (here : t ∈ variants) :
      Calls table v (.union variants) v t

/-! Calls go down. -/

section Depths

variable {table : Table} {bound : Nat} {v w : Value} {s t : Shape} {step : Step}

theorem Descends.depth_value_lt (descends : Descends table v s step w t) : w.depth < v.depth := by
  induction descends with
  | item here =>
    rw [Value.depth_list, Nat.lt_succ_iff]
    exact le_deepest (List.mem_map_of_mem (List.mem_of_getElem? here))
  | field present declared =>
    rw [Value.depth_object, Nat.lt_succ_iff]
    exact le_deepest (List.mem_map_of_mem (f := fun entry => entry.2.depth) (Entries.mem_of_lookup present))
  | reference resolved inner ih => exact ih

theorem Descends.depth_shape_le
    (entries : ∀ name fields, table.lookup name = some fields → (Shape.object fields).depth ≤ bound)
    (root : s.depth ≤ bound) (descends : Descends table v s step w t) : t.depth ≤ bound := by
  induction descends with
  | item here =>
    rw [Shape.depth] at root
    exact Nat.le_of_succ_le root
  | field present declared =>
    rw [Shape.depth_object] at root
    apply Nat.le_trans _ (Nat.le_of_succ_le root)
    exact le_deepest (List.mem_map_of_mem (f := fun entry => entry.2.shape.depth) declared)
  | reference resolved inner ih => exact ih (entries _ _ resolved)

theorem depth_variant_lt {variants : List Shape} (here : t ∈ variants) :
    t.depth < (Shape.union variants).depth := by
  rw [Shape.depth_union, Nat.lt_succ_iff]
  exact le_deepest (List.mem_map_of_mem here)

theorem Calls.falls
    (entries : ∀ name fields, table.lookup name = some fields → (Shape.object fields).depth ≤ bound)
    (root : s.depth ≤ bound) (calls : Calls table v s w t) :
    t.depth ≤ bound ∧
      w.depth * (bound + 1) + t.depth < v.depth * (bound + 1) + s.depth := by
  cases calls with
  | part descends =>
    have shallow := descends.depth_shape_le entries root
    have smaller : (w.depth + 1) * (bound + 1) ≤ v.depth * (bound + 1) :=
      Nat.mul_le_mul_right (bound + 1) descends.depth_value_lt
    rw [Nat.succ_mul] at smaller
    exact ⟨shallow, by omega⟩
  | variant here =>
    have smaller := depth_variant_lt here
    exact ⟨by omega, by omega⟩

end Depths

/-! One call, when those that it makes are done. -/

namespace Attempt

theorem bind_done (first second : Verdict) :
    (done first >>= fun _ => done second) = done (first >>= fun _ => second) := by
  cases first <;> rfl

theorem adapt_done (verdict : Verdict) (f : ValidationError → ValidationError) :
    (done verdict).adapt f = done (verdict.mapError f) := by
  cases verdict <;> rfl

end Attempt

section Steps

open Attempt (done bind_done adapt_done)

variable {table : Table} {call : Value → Shape → Attempt}

theorem attemptItems_eq {items : List Value} {e : Shape}
    (each : ∀ item ∈ items, call item e = done (validate table item e)) (start : Nat) :
    attemptItems call e start items = done (validateItems table start items e) := by
  induction items generalizing start with
  | nil => rfl
  | cons item rest ih =>
    rw [List.forall_mem_cons] at each
    rw [attemptItems, each.1, ih each.2, adapt_done, bind_done, validateItems]

theorem attemptField_eq {entries : List (Key × Value)} {name : Str} {field : Field}
    (each : ∀ w, entries.lookup (.name name) = some w →
      call w field.shape = done (validate table w field.shape)) :
    attemptField call entries name field = done (checkField (entryChecks table entries) name field) := by
  rw [attemptField, checkField, lookup_entryChecks]
  cases present : entries.lookup (.name name) with
  | none =>
    dsimp only [Option.map_none]
    split_ifs <;> rfl
  | some w =>
    dsimp only [Option.map_some]
    rw [each w present, adapt_done]
    split_ifs <;> rfl

theorem attemptFields_eq {entries : List (Key × Value)} {fields : Fields}
    (each : ∀ field ∈ fields, ∀ w, entries.lookup (.name field.1) = some w →
      call w field.2.shape = done (validate table w field.2.shape)) :
    attemptFields call entries fields = done (checkFields (entryChecks table entries) fields) := by
  induction fields with
  | nil => rfl
  | cons field rest ih =>
    rw [List.forall_mem_cons] at each
    rw [attemptFields, attemptField_eq each.1, ih each.2, bind_done, checkFields]

theorem attemptObject_eq {v : Value} {fields : Fields}
    (each : ∀ w t, Calls table v (.object fields) w t → call w t = done (validate table w t)) :
    attemptObject call fields v = done (validate table v (.object fields)) := by
  cases v with
  | object entries =>
    have inside : attemptFields call entries fields =
        done (checkFields (entryChecks table entries) fields) :=
      attemptFields_eq fun field declared w present => each w _ (.part (.field present declared))
    change _ = done (checkObject (entryChecks table entries) fields)
    rw [attemptObject, inside, checkObject, checkUnknown, entryChecks_eq, List.find?_map,
      Function.comp_def]
    cases entries.find? fun entry => !entry.1.isIn fields <;> rfl
  | _ => rfl

theorem validate_eq_checkShape (table : Table) (v : Value) :
    ∃ checks, ∀ s, validate table v s = checkShape table checks s := by
  cases v <;> exact ⟨_, fun _ => rfl⟩

theorem attemptVariants_eq {v : Value} {variants : List Shape}
    (each : ∀ t ∈ variants, call v t = done (validate table v t)) :
    attemptVariants call v variants = done (validate table v (.union variants)) := by
  obtain ⟨checks, checked⟩ := validate_eq_checkShape table v
  rw [checked, checkShape]
  induction variants with
  | nil => rfl
  | cons t rest ih =>
    rw [List.forall_mem_cons, checked] at each
    rw [attemptVariants, each.1, ih each.2, checkVariants]
    rcases checkShape table checks t with (⟨_, _⟩ | _) | _ <;> rfl

theorem validateWithin_succ {limit : Nat} {v : Value} {s : Shape}
    (each : ∀ w t, Calls table v s w t → validateWithin table limit w t = done (validate table w t)) :
    validateWithin table (limit + 1) v s = done (validate table v s) := by
  cases s with
  | primitive kind => cases v <;> rfl
  | array e placeholder =>
    cases v with
    | list items =>
      rw [validateWithin, validate, checkShape]
      apply attemptItems_eq
      intro item here
      obtain ⟨i, there⟩ := List.getElem?_of_mem here
      exact each item e (.part (.item there))
    | _ => rfl
  | object fields => exact attemptObject_eq each
  | union variants => exact attemptVariants_eq fun t here => each v t (.variant here)
  | reference name =>
    obtain ⟨checks, checked⟩ := validate_eq_checkShape table v
    rw [validateWithin, checked, checkShape, Table.resolve]
    cases found : table.lookup name with
    | none => rfl
    | some fields =>
      have object : checks.object fields = validate table v (.object fields) := by
        rw [checked, checkShape]
      dsimp only
      rw [object]
      apply attemptObject_eq
      intro w t calls
      cases calls with
      | part descends => exact each w t (.part (.reference found descends))

end Steps

/-! The whole run. -/

theorem validateWithin_eq {table : Table} {bound : Nat}
    (entries : ∀ name fields, table.lookup name = some fields → (Shape.object fields).depth ≤ bound)
    {limit : Nat} {v : Value} {s : Shape} (root : s.depth ≤ bound)
    (enough : v.depth * (bound + 1) + s.depth < limit) :
    validateWithin table limit v s = Attempt.done (validate table v s) := by
  induction limit generalizing v s with
  | zero => exact absurd enough (Nat.not_lt_zero _)
  | succ limit ih =>
    apply validateWithin_succ
    intro w t calls
    obtain ⟨shallow, smaller⟩ := calls.falls entries root
    -- What is left of the limit covers what is left of the value and of the shape.
    exact ih shallow (by omega)

/-- Validation ends on every graph, however its references lead in circles: when calls may nest as deep as
the value and the shapes make necessary, or deeper, the run ends with the verdict. It is positive, a
mismatch or a dangling reference, and that a value is valid is found out within the same limit. -/
theorem validate_terminates (g : Graph) (v : Value) {limit : Nat}
    (enough : (v.depth + 1) * (g.depth + 1) ≤ limit) :
    g.validateWithin limit v = some (g.validate v) ∧
      g.isValidWithin limit v = some (g.isValid v) ∧
        ((g.validate v = .ok () ∧ g.isValid v = .ok true) ∨
          (∃ cause location, g.validate v = .error (.mismatch cause location) ∧
            g.isValid v = .ok false) ∨
          ∃ cause, g.validate v = .error (.dangling cause) ∧ g.isValid v = .error cause) := by
  have root : g.root.depth ≤ g.depth := le_deepest List.mem_cons_self
  have entries : ∀ name fields, g.table.lookup name = some fields →
      (Shape.object fields).depth ≤ g.depth := by
    intro name fields found
    apply le_deepest
    apply List.mem_cons_of_mem
    exact List.mem_map_of_mem (f := fun entry => (Shape.object entry.2).depth)
      (Entries.mem_of_lookup found)
  have ended : g.validateWithin limit v = some (g.validate v) := by
    rw [Nat.succ_mul] at enough
    exact validateWithin_eq entries root (by omega)
  refine ⟨ended, ?_⟩
  rw [Graph.isValidWithin, Graph.isValid, ended]
  rcases g.validate v with (⟨cause, location⟩ | cause) | _
  · exact ⟨rfl, .inr (.inl ⟨cause, location, rfl, rfl⟩)⟩
  · exact ⟨rfl, .inr (.inr ⟨cause, rfl, rfl⟩)⟩
  · exact ⟨rfl, .inl ⟨rfl, rfl⟩⟩

/-- An entry that refers to itself in an optional field and in a union in an array. -/
theorem validate_terminates_of_cycle :
    let kids : Shape := .array (.union [.reference "Node", .null]) false
    let g : Graph := ⟨"Node", .reference "Node",
      [("Node", [("next", ⟨.reference "Node", true⟩), ("kids", ⟨kids, false⟩)])]⟩
    let leaf : Value := .object [(.name "kids", .list [])]
    let v : Value := .object [(.name "next", leaf), (.name "kids", .list [leaf, .null, .int 1])]
    (v.depth + 1) * (g.depth + 1) ≤ 20 ∧
      g.validateWithin 20 v = some (g.validate v) ∧ g.isValidWithin 20 v = some (.ok false) ∧
        g.validate v = .error (.mismatch .noVariant [.key "kids", .index 2]) := by
  intro kids g leaf v
  have enough : (v.depth + 1) * (g.depth + 1) ≤ 20 := by decide
  obtain ⟨ended, decided, _⟩ := validate_terminates g v enough
  exact ⟨enough, ended, decided, rfl⟩

end SampleTypes
