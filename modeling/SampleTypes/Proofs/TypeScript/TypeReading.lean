import Mathlib.Tactic.Choose
import SampleTypes.Proofs.FirstOccurrences
import SampleTypes.Proofs.TypeScript.Rendering
import SampleTypes.Proofs.TypeScript.TypeGrammar

/-! Type expressions read back. The text of a shape says what the shape is, with integers and floats
taken for numbers and equal members of a union taken together. Members are told apart by their texts, of
which a type may have two, one with more parentheses than it needs: such members are both written. -/

namespace SampleTypes.TypeScript

open Shape (Buildable Resolved)

/-! What shapes are as types. -/

def Keyword.ofKind : Kind → Keyword
  | .null => .null
  | .boolean => .boolean
  | .string => .string
  | .integer => .number
  | .float => .number

theorem Keyword.text_ofKind (kind : Kind) : (Keyword.ofKind kind).text = kindText kind := by
  cases kind <;> rfl

mutual

/-- Integers and floats are numbers, equal members of a union are merged at the place of the first, and
a member that is left alone stands for the union. -/
def typeTree : Shape → TypeTree
  | .primitive kind => .keyword (.ofKind kind)
  | .reference name => .name name
  | .array e _ => .array (typeTree e)
  | .union variants => .ofMembers (typeTrees variants).eraseDups
  | .object _ => .union []

def typeTrees : List Shape → List TypeTree
  | [] => []
  | v :: rest => typeTree v :: typeTrees rest

end

theorem typeTrees_eq (variants : List Shape) : typeTrees variants = variants.map typeTree := by
  induction variants with
  | nil => rfl
  | cons v rest ih => rw [typeTrees, ih, List.map_cons]

def memberTrees : Shape → List TypeTree
  | .union variants => (variants.map typeTree).eraseDups
  | s => [typeTree s]

theorem ofMembers_memberTrees (s : Shape) : .ofMembers (memberTrees s) = typeTree s := by
  cases s with
  | union variants => rw [typeTree, typeTrees_eq, memberTrees]
  | _ => rfl

theorem memberTrees_of_single {s : Shape} (single : s.isUnion = false) :
    memberTrees s = [typeTree s] := by
  cases s with
  | union variants => cases single
  | _ => rfl

namespace TypeTree

mutual

def merged : TypeTree → TypeTree
  | .keyword k => .keyword k
  | .name n => .name n
  | .array t => .array t.merged
  | .union members => .ofMembers (mergedAll members).eraseDups

def mergedAll : List TypeTree → List TypeTree
  | [] => []
  | t :: rest => t.merged :: mergedAll rest

end

theorem mergedAll_eq (members : List TypeTree) : mergedAll members = members.map merged := by
  induction members with
  | nil => rfl
  | cons t rest ih => rw [mergedAll, ih, List.map_cons]

theorem merged_ofMembers (members : List TypeTree) :
    (ofMembers members).merged = ofMembers (members.map merged).eraseDups := by
  match members with
  | [t] => rfl
  | [] => rfl
  | t :: u :: rest => rw [ofMembers_of_several (by simp), merged, mergedAll_eq]

end TypeTree

/-! Texts and their members. -/

theorem holdsSeparator_iff {text : List Char} :
    holdsSeparator text = true ↔ separator.toList <:+: text := by
  induction text with
  | nil => exact ⟨nofun, fun inside => absurd (List.eq_nil_of_infix_nil inside) (by decide)⟩
  | cons c rest ih =>
    rw [holdsSeparator, Bool.or_eq_true, ih, List.isPrefixOf_iff_prefix, List.infix_cons_iff]

theorem reads_intercalate {parts : List (String × TypeTree)} (several : parts ≠ [])
    (each : ∀ part ∈ parts, Reads part.1.toList [part.2]) :
    Reads (separator.intercalate (parts.map Prod.fst)).toList (parts.map Prod.snd) := by
  rw [String.toList_intercalate]
  induction parts with
  | nil => exact absurd rfl several
  | cons part rest ih =>
    rw [List.forall_mem_cons] at each
    cases rest with
    | nil => simpa using each.1
    | cons next later =>
      have others := ih (List.cons_ne_nil next later) each.2
      simpa [List.intercalate_cons_cons] using Reads.bar each.1 others

/-- The text of a shape has these members, and merging equal ones gives those of the shape. -/
structure Spells (s : Shape) (members : List TypeTree) : Prop where
  reads : Reads (plainText true s).toList members
  merged : (members.map TypeTree.merged).eraseDups = memberTrees s
  single : s.isUnion = false → ∃ t, members = [t]

theorem Spells.merged_tree {s : Shape} {members : List TypeTree} (spells : Spells s members) :
    (TypeTree.ofMembers members).merged = typeTree s := by
  rw [TypeTree.merged_ofMembers, spells.merged, ofMembers_memberTrees]

theorem spells_single {s : Shape} {t : TypeTree} (reads : Reads (plainText true s).toList [t])
    (merged : t.merged = typeTree s) (single : s.isUnion = false) : Spells s [t] := by
  refine ⟨reads, ?_, fun _ => ⟨t, rfl⟩⟩
  rw [memberTrees_of_single single, List.map_singleton, merged]
  rfl

theorem Spells.array {e : Shape} {members : List TypeTree} (element : Spells e members)
    (placeholder : Bool) : Spells (.array e placeholder) [.array (.ofMembers members)] := by
  have tree : (TypeTree.array (.ofMembers members)).merged = typeTree (.array e placeholder) := by
    rw [TypeTree.merged, element.merged_tree, typeTree]
  refine spells_single ?_ tree rfl
  rw [plainText, arrayText]
  split
  · have grouped := Reads.array (Reads.group element.reads)
    simpa using grouped
  · rename_i bare
    -- without parentheses there is a single member: the element is no union, or its text has no bar
    have alone : ∃ t, members = [t] := by
      cases union : e.isUnion with
      | false => exact element.single union
      | true =>
        apply element.reads.single
        rw [← holdsSeparator_iff]
        intro bar
        exact bare (by rw [union, bar]; rfl)
    obtain ⟨t, rfl⟩ := alone
    have bracketed := Reads.array element.reads
    simpa [TypeTree.ofMembers] using bracketed

theorem tree_eq_of_text_eq {v w : Shape} {t u : TypeTree} (first : Spells v [t]) (second : Spells w [u])
    (same : plainText true v = plainText true w) : t = u := by
  have reads := second.reads
  rw [← same] at reads
  exact List.singleton_injective (first.reads.unique reads)

theorem spells_union {variants : List Shape} (several : 2 ≤ variants.length) (tree : Shape → TypeTree)
    (each : ∀ v ∈ variants, Spells v [tree v]) (single : ∀ v ∈ variants, v.isUnion = false) :
    ∃ members, Spells (.union variants) members := by
  -- the first variant of each text, as its text and what that says
  let parts := variants.map fun v => (plainText true v, tree v)
  have apart : ∀ p ∈ parts, ∀ q ∈ parts, p.1 = q.1 → p = q := by
    intro p here q there same
    obtain ⟨v, inside, rfl⟩ := List.mem_map.mp here
    obtain ⟨w, within, rfl⟩ := List.mem_map.mp there
    rw [Prod.mk.injEq]
    exact ⟨same, tree_eq_of_text_eq (each v inside) (each w within) same⟩
  have texts : (variants.map (plainText true)).eraseDups = parts.eraseDups.map Prod.fst := by
    rw [← eraseDups_map apart, List.map_map]
    rfl
  have nonempty : parts.eraseDups ≠ [] := by
    obtain ⟨v, rest, rfl⟩ := List.exists_cons_of_length_pos (Nat.lt_of_lt_of_le Nat.zero_lt_two several)
    rw [show parts = _ :: _ from List.map_cons, eraseDups_cons_eq]
    exact List.cons_ne_nil _ _
  refine ⟨parts.eraseDups.map Prod.snd, ?_, ?_, nofun⟩
  · rw [plainText_union, if_pos rfl, unionText, texts]
    apply reads_intercalate nonempty
    intro p here
    obtain ⟨v, inside, rfl⟩ := List.mem_map.mp (List.mem_eraseDups.mp here)
    exact (each v inside).reads
  · rw [List.map_map, eraseDups_map_eraseDups, List.map_map, memberTrees]
    congr 1
    apply List.map_congr_left
    intro v here
    have whole := (each v here).merged
    rw [memberTrees_of_single (single v here)] at whole
    exact List.singleton_injective whole

/-! The hypotheses. -/

/-- A name for an object: a letter and then letters and digits, and not one of the keywords. -/
structure ReferenceName (name : String) : Prop where
  letters : ∃ c rest, name.toList = c :: rest ∧ c.isAlpha = true ∧ ∀ d ∈ rest, d.isAlphanum = true
  free : ∀ k : Keyword, name ≠ k.text

theorem ReferenceName.identifier {name : String} (word : ReferenceName name) :
    Identifier name.toList := by
  obtain ⟨c, rest, spelled, start, parts⟩ := word.letters
  refine ⟨c, rest, spelled, ?_, ?_⟩
  · rw [isIdentifierStart, start]
    rfl
  · intro d here
    rw [isIdentifierPart, parts d here]
    rfl

/-- A shape of which a type expression is made: with references in the place of objects, all of them
in the table and under names that an object can have. -/
structure Expressible (table : Table) (s : Shape) : Prop where
  buildable : Buildable s
  bare : s.outerObjects = []
  resolved : Resolved table s
  names : ∀ name ∈ s.references, ReferenceName name

namespace Expressible

variable {table : Table}

theorem element {e : Shape} {placeholder : Bool} (fit : Expressible table (.array e placeholder)) :
    Expressible table e :=
  ⟨Shape.buildable_array.mp fit.buildable, fit.bare, fit.resolved, fit.names⟩

theorem variant {variants : List Shape} (fit : Expressible table (.union variants)) {v : Shape}
    (here : v ∈ variants) : Expressible table v := by
  refine ⟨(Shape.buildable_union.mp fit.buildable).2.2 v here, ?_, fit.resolved.variant here, ?_⟩
  · have bare := fit.bare
    rw [Shape.outerObjects, Shape.outerObjectsOfVariants_eq, List.flatMap_eq_nil_iff] at bare
    exact bare v here
  · exact fun name inside => fit.names name (Shape.mem_references_of_variant here inside)

theorem exists_spells {s : Shape} (fit : Expressible table s) : ∃ members, Spells s members := by
  induction s with
  | primitive kind =>
    refine ⟨_, spells_single (t := .keyword (.ofKind kind)) ?_ rfl rfl⟩
    rw [plainText, ← Keyword.text_ofKind]
    exact Reads.keyword _
  | reference name =>
    have word := fit.names name (List.mem_singleton.mpr rfl)
    exact ⟨_, spells_single (Reads.name word.identifier word.free) rfl rfl⟩
  | array e placeholder ih =>
    obtain ⟨members, spells⟩ := ih fit.element
    exact ⟨_, spells.array placeholder⟩
  | union variants ih =>
    obtain ⟨several, single, _⟩ := Shape.buildable_union.mp fit.buildable
    have each : ∀ v ∈ variants, ∃ t, Spells v [t] := by
      intro v here
      obtain ⟨members, spells⟩ := ih v here (fit.variant here)
      obtain ⟨t, rfl⟩ := spells.single (single v here)
      exact ⟨t, spells⟩
    choose! tree spells using each
    exact spells_union several tree spells single
  | object fields ih => exact absurd fit.bare (List.cons_ne_nil _ _)

end Expressible

/-! Shapes whose text has only the parentheses that the type needs. -/

namespace TypeTree

def isUnion : TypeTree → Bool
  | .union _ => true
  | _ => false

mutual

/-- The text of a type. Only a union in an array stands in parentheses. -/
def text : TypeTree → String
  | .keyword k => k.text
  | .name n => n
  | .array t => if t.isUnion then "(" ++ t.text ++ ")[]" else t.text ++ "[]"
  | .union members => separator.intercalate (texts members)

def texts : List TypeTree → List String
  | [] => []
  | t :: rest => t.text :: texts rest

end

theorem texts_eq (members : List TypeTree) : texts members = members.map text := by
  induction members with
  | nil => rfl
  | cons t rest ih => rw [texts, ih, List.map_cons]

theorem text_ofMembers (members : List TypeTree) :
    (ofMembers members).text = separator.intercalate (members.map text) := by
  match members with
  | [t] => rfl
  | [] => rfl
  | t :: u :: rest => rw [ofMembers_of_several (by simp), text, texts_eq]

end TypeTree

theorem isUnion_typeTree {s : Shape} (single : s.isUnion = false) (bare : s.outerObjects = []) :
    (typeTree s).isUnion = false := by
  cases s with
  | union variants => cases single
  | object fields => cases bare
  | _ => rfl

/-- No union is the element of an array that is written in parentheses and yet has one member only, which
has a union inside. -/
inductive Unfolded : Shape → Prop where
  | primitive (kind : Kind) : Unfolded (.primitive kind)
  | reference (name : String) : Unfolded (.reference name)
  | array {e : Shape} (placeholder : Bool) (element : Unfolded e)
      (several : e.isUnion = true → separator.toList <:+: (plainText true e).toList →
        2 ≤ (memberTrees e).length) : Unfolded (.array e placeholder)
  | union {variants : List Shape} (shapes : ∀ v ∈ variants, Unfolded v) : Unfolded (.union variants)

structure SpellsBriefly (s : Shape) : Prop where
  reads : Reads (plainText true s).toList (memberTrees s)
  text : plainText true s = (typeTree s).text

theorem isUnion_of_memberTrees {s : Shape} (buildable : Buildable s) (bare : s.outerObjects = [])
    (one : memberTrees s = [typeTree s]) : (typeTree s).isUnion = false := by
  cases s with
  | union variants =>
    obtain ⟨_, single, _⟩ := Shape.buildable_union.mp buildable
    rw [Shape.outerObjects, Shape.outerObjectsOfVariants_eq, List.flatMap_eq_nil_iff] at bare
    have here : typeTree (.union variants) ∈ memberTrees (.union variants) := by
      rw [one]
      exact List.mem_singleton.mpr rfl
    obtain ⟨v, member, tree⟩ := List.mem_map.mp (List.mem_eraseDups.mp here)
    rw [← tree]
    exact isUnion_typeTree (single v member) (bare v member)
  | _ => exact isUnion_typeTree rfl bare

theorem spellsBriefly_array {table : Table} {e : Shape} {placeholder : Bool}
    (fit : Expressible table (.array e placeholder)) (element : SpellsBriefly e)
    (several : e.isUnion = true → separator.toList <:+: (plainText true e).toList →
      2 ≤ (memberTrees e).length) : SpellsBriefly (.array e placeholder) := by
  have spelled : plainText true (.array e placeholder) = arrayText e (plainText true e) := rfl
  have members : memberTrees (.array e placeholder) = [.array (typeTree e)] := rfl
  have tree : typeTree (.array e placeholder) = .array (typeTree e) := rfl
  cases grouped : e.isUnion && holdsSeparator (plainText true e).toList with
  | true =>
    obtain ⟨union, bar⟩ := Bool.and_eq_true_iff.mp grouped
    have many : typeTree e = .union (memberTrees e) := by
      rw [← ofMembers_memberTrees, TypeTree.ofMembers_of_several (several union (holdsSeparator_iff.mp bar))]
    rw [arrayText, grouped, if_pos rfl] at spelled
    constructor
    · rw [spelled, members, ← ofMembers_memberTrees]
      have written := Reads.array (Reads.group element.reads)
      simpa using written
    · rw [spelled, tree, TypeTree.text, many, ← many, element.text, if_pos (by rw [many]; rfl)]
  | false =>
    have alone : memberTrees e = [typeTree e] := by
      cases union : e.isUnion with
      | false => exact memberTrees_of_single union
      | true =>
        have plain : ¬ separator.toList <:+: (plainText true e).toList := by
          rw [← holdsSeparator_iff]
          intro bar
          rw [union, bar] at grouped
          cases grouped
        obtain ⟨t, one⟩ := element.reads.single plain
        rw [one, ← ofMembers_memberTrees, one, TypeTree.ofMembers_singleton]
    have flat := isUnion_of_memberTrees fit.element.buildable fit.element.bare alone
    rw [arrayText, grouped, if_neg Bool.false_ne_true] at spelled
    constructor
    · have reads := element.reads
      rw [alone] at reads
      rw [spelled, members, String.toList_append]
      exact Reads.array reads
    · rw [spelled, tree, TypeTree.text, flat, if_neg Bool.false_ne_true, element.text]

theorem spellsBriefly_union {variants : List Shape} (several : 2 ≤ variants.length)
    (single : ∀ v ∈ variants, v.isUnion = false) (each : ∀ v ∈ variants, SpellsBriefly v) :
    SpellsBriefly (.union variants) := by
  have reads : ∀ v ∈ variants, Reads (typeTree v).text.toList [typeTree v] := by
    intro v here
    rw [← (each v here).text, ← memberTrees_of_single (single v here)]
    exact (each v here).reads
  -- A text says one thing only.
  have apart : ∀ t ∈ variants.map typeTree, ∀ u ∈ variants.map typeTree, t.text = u.text → t = u := by
    intro t here u there same
    obtain ⟨v, inside, rfl⟩ := List.mem_map.mp here
    obtain ⟨w, within, rfl⟩ := List.mem_map.mp there
    have second := reads w within
    rw [← same] at second
    exact List.singleton_injective ((reads v inside).unique second)
  have texts : (variants.map (plainText true)).eraseDups =
      (memberTrees (.union variants)).map TypeTree.text := by
    rw [memberTrees, ← eraseDups_map apart, List.map_map]
    congr 1
    exact List.map_congr_left fun v here => (each v here).text
  have spelled : plainText true (.union variants) =
      separator.intercalate ((memberTrees (.union variants)).map TypeTree.text) := by
    rw [plainText_union, if_pos rfl, unionText, texts]
  constructor
  · let parts := (memberTrees (.union variants)).map fun t => (t.text, t)
    have nonempty : parts ≠ [] := by
      obtain ⟨v, rest, rfl⟩ :=
        List.exists_cons_of_length_pos (Nat.lt_of_lt_of_le Nat.zero_lt_two several)
      simp only [parts, memberTrees, List.map_cons, eraseDups_cons_eq]
      exact List.cons_ne_nil _ _
    have written := reads_intercalate nonempty fun part here => by
      obtain ⟨t, inside, rfl⟩ := List.mem_map.mp here
      obtain ⟨v, member, rfl⟩ := List.mem_map.mp (List.mem_eraseDups.mp inside)
      exact reads v member
    simp only [parts, List.map_map, Function.comp_def, List.map_id'] at written
    rw [spelled]
    exact written
  · rw [spelled, ← TypeTree.text_ofMembers, ofMembers_memberTrees]

theorem spellsBriefly_of_unfolded {table : Table} {s : Shape} (fit : Expressible table s)
    (unfolded : Unfolded s) : SpellsBriefly s := by
  induction unfolded with
  | primitive kind =>
    constructor
    · rw [plainText, ← Keyword.text_ofKind]
      exact Reads.keyword _
    · exact (Keyword.text_ofKind kind).symm
  | reference name =>
    have word := fit.names name (List.mem_singleton.mpr rfl)
    exact ⟨Reads.name word.identifier word.free, rfl⟩
  | array placeholder element several ih => exact spellsBriefly_array fit (ih fit.element) several
  | union shapes ih =>
    obtain ⟨several, single, _⟩ := Shape.buildable_union.mp fit.buildable
    exact spellsBriefly_union several single fun v here => ih v here (fit.variant here)

/-! What a text says. -/

theorem Spells.says_iff {s : Shape} {members : List TypeTree} (spells : Spells s members)
    {t : TypeTree} : Says (plainText true s) t ↔ t = .ofMembers members := by
  have said : Says (plainText true s) (.ofMembers members) := ⟨members, spells.reads, rfl⟩
  constructor
  · exact fun other => other.unique said
  · rintro rfl
    exact said

theorem eq_of_renders {α : Type} {x : Rendering α} {a b : α} (first : Renders x a)
    (second : Renders x b) : a = b := by
  obtain ⟨_, ran⟩ := first []
  obtain ⟨_, again⟩ := second []
  rw [ran] at again
  cases again
  rfl

/-- The text of a shape is a type expression and says one thing only. Merging equal members, which differ
in parentheses, makes it what the shape is as a type, and there is nothing to merge if no array is
written with more parentheses than it needs. Shapes with one text are one type. -/
theorem typeText_readsBack {table : Table} {s : Shape} (fit : Expressible table s) :
    ∃ text tree, Renders (typeText table true s) text ∧ (∀ t, Says text t ↔ t = tree) ∧
      tree.merged = typeTree s ∧ (Unfolded s → tree = typeTree s) ∧
      ∀ (others : Table) (other : Shape), Expressible others other →
        Renders (typeText others true other) text → typeTree other = typeTree s := by
  obtain ⟨members, spells⟩ := fit.exists_spells
  refine ⟨plainText true s, .ofMembers members, renders_typeText fit.bare fit.resolved,
    fun t => spells.says_iff, spells.merged_tree, ?_, ?_⟩
  · intro unfolded
    rw [spells.reads.unique (spellsBriefly_of_unfolded fit unfolded).reads, ofMembers_memberTrees]
  · intro others other fit' renders
    obtain ⟨members', spells'⟩ := fit'.exists_spells
    have same : plainText true other = plainText true s :=
      eq_of_renders (renders_typeText fit'.bare fit'.resolved) renders
    have reads := spells'.reads
    rw [same] at reads
    rw [← spells'.merged_tree, reads.unique spells.reads, spells.merged_tree]

theorem typeText_readsBack_of_numbers :
    let s : Shape := .union [.primitive .integer, .primitive .float,
      .array (.union [.primitive .string, .reference "A"]) false]
    Expressible [("A", [])] s ∧ ∃ text tree, Renders (typeText [("A", [])] true s) text ∧
      (∀ t, Says text t ↔ t = tree) ∧
      tree.merged = .union [.keyword .number, .array (.union [.keyword .string, .name "A"])] := by
  intro s
  have inner : Buildable (.union [.primitive .string, .reference "A"]) :=
    .union (by decide) (by decide) (by simp [Buildable.primitive, Buildable.reference])
  have buildable : Buildable s :=
    .union (by decide) (by decide) (by simp [inner, Buildable.primitive, Buildable.array])
  have names : ∀ name ∈ s.references, name = "A" := by decide
  have fit : Expressible [("A", [])] s := by
    refine ⟨buildable, rfl, ?_, ?_⟩
    · intro name here
      rw [names name here]
      rfl
    · intro name here
      rw [names name here]
      exact ⟨⟨'A', [], rfl, rfl, nofun⟩, by rintro (_ | _ | _ | _) <;> decide⟩
  obtain ⟨text, tree, renders, reads, merged, _⟩ := typeText_readsBack fit
  exact ⟨fit, text, tree, renders, reads, merged⟩

/-- A union that is one array only, of a union, is written in parentheses as the element of an array. The
text with them and the text without stand side by side and are the same type. -/
theorem says_twice_of_parentheses :
    let numbers : Shape := .union [.primitive .integer, .primitive .string]
    let floats : Shape := .union [.primitive .float, .primitive .string]
    let s : Shape := .union [.array (.union [.array numbers false, .array floats false]) false,
      .array (.array numbers false) false]
    let t : TypeTree := .array (.array (.union [.keyword .number, .keyword .string]))
    let text := "((number | string)[])[] | (number | string)[][]"
    Expressible [] s ∧ Renders (typeText [] true s) text ∧ typeTree s = t ∧ ¬ Says text t := by
  intro numbers floats s t text
  have inner : Buildable numbers := .union (by decide) (by decide) (by simp [Buildable.primitive])
  have inner' : Buildable floats := .union (by decide) (by decide) (by simp [Buildable.primitive])
  have arrays : Buildable (.union [.array numbers false, .array floats false]) :=
    .union (by decide) (by decide) (by simp [inner, inner', Buildable.array])
  have buildable : Buildable s :=
    .union (by decide) (by decide) (by simp [inner, arrays, Buildable.array])
  have fit : Expressible [] s := ⟨buildable, rfl, nofun, nofun⟩
  have written : plainText true s = text := by decide +kernel
  refine ⟨fit, written ▸ renders_typeText fit.bare fit.resolved, rfl, ?_⟩
  rintro ⟨members, reads, tree⟩
  obtain ⟨others, operand, spelled, ran⟩ := Reader.run_of_reads reads [] []
  have whole : Reader.run ⟨[], [], .before⟩ text.toList = some ⟨[], [t], .after (.closed t)⟩ := by
    decide +kernel
  rw [whole] at ran
  cases ran
  rw [spelled] at tree
  exact absurd tree (by decide +kernel)

end SampleTypes.TypeScript
