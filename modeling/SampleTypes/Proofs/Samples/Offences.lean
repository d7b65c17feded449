import SampleTypes.Proofs.CheckedGeneration

/-! Parts of a value that are no JSON values. Inference rejects exactly the values that have such a part,
and reports the first one in reading order. -/

namespace SampleTypes

def Key.name? : Key → Option Str
  | .name text => some text
  | .other _ => none

namespace Value

/-- No object has a name twice. Other keys may be shown alike. -/
inductive Keyed : Value → Prop where
  | leaf {v : Value} (noList : v.isList = false) (noObject : v.isObject = false) : Keyed v
  | list {items : List Value} (each : ∀ v ∈ items, Keyed v) : Keyed (.list items)
  | object {entries : List (Key × Value)}
      (distinct : (entries.filterMap fun entry => entry.1.name?).Nodup)
      (each : ∀ entry ∈ entries, Keyed entry.2) : Keyed (.object entries)

/-- At some depth there is a number that is not finite, a value of a foreign type or an object with a key
that is no name. -/
inductive Offends : Value → Prop where
  | nonFinite {x : Binary64} (infinite : x.isFinite = false) : Offends (.float x)
  | foreign (typeName : String) : Offends (.foreign typeName)
  | key {entries : List (Key × Value)} {entry : Key × Value} {shown : String} (here : entry ∈ entries)
      (other : entry.1 = .other shown) : Offends (.object entries)
  | item {items : List Value} {v : Value} (here : v ∈ items) (inside : Offends v) : Offends (.list items)
  | entry {entries : List (Key × Value)} {entry : Key × Value} (here : entry ∈ entries)
      (inside : Offends entry.2) : Offends (.object entries)

end Value

def Clean (entry : Key × Value) : Prop := (∃ name, entry.1 = .name name) ∧ ¬entry.2.Offends

/-- The offence that comes first, reading from left to right and a key before its value. -/
inductive FirstOffence : Value → Unsupported → Prop where
  | nonFinite {x : Binary64} (infinite : x.isFinite = false) :
      FirstOffence (.float x) ⟨.nonFinite x, []⟩
  | foreign (typeName : String) : FirstOffence (.foreign typeName) ⟨.foreignType typeName, []⟩
  | item {before after : List Value} {v : Value} {u : Unsupported} (clean : ∀ w ∈ before, ¬w.Offends)
      (inside : FirstOffence v u) :
      FirstOffence (.list (before ++ v :: after)) (u.under (.index before.length))
  | key {before after : List (Key × Value)} {shown : String} {v : Value}
      (clean : ∀ entry ∈ before, Clean entry) :
      FirstOffence (.object (before ++ (.other shown, v) :: after)) ⟨.keyNotName shown, []⟩
  | entry {before after : List (Key × Value)} {name : Str} {v : Value} {u : Unsupported}
      (clean : ∀ entry ∈ before, Clean entry) (inside : FirstOffence v u) :
      FirstOffence (.object (before ++ (.name name, v) :: after)) (u.under (.key name))

/-! The first offence of a value that has one. -/

theorem exists_first {α : Type} {P : α → Prop} {items : List α} (present : ∃ a ∈ items, P a) :
    ∃ before a after, items = before ++ a :: after ∧ (∀ b ∈ before, ¬P b) ∧ P a := by
  classical
  have hits : (items.find? fun a => decide (P a)).isSome := by simpa using present
  obtain ⟨a, found⟩ := Option.isSome_iff_exists.mp hits
  obtain ⟨holds, before, after, rfl, misses⟩ := List.find?_eq_some_iff_append.mp found
  exact ⟨before, a, after, rfl, by simpa using misses, of_decide_eq_true holds⟩

theorem not_clean_iff {key : Key} {v : Value} :
    ¬Clean (key, v) ↔ (∃ shown, key = .other shown) ∨ (∃ name, key = .name name) ∧ v.Offends := by
  cases key <;> simp [Clean]

theorem exists_name_of_clean {entries : List (Key × Value)} (clean : ¬(Value.object entries).Offends) :
    ∀ entry ∈ entries, ∃ name, entry.1 = .name name := by
  intro entry here
  cases key : entry.1 with
  | name name => exact ⟨name, rfl⟩
  | other shown => exact absurd (.key here key) clean

theorem Value.Offends.exists_firstOffence {v : Value} (offends : v.Offends) : ∃ u, FirstOffence v u := by
  induction v with
  | list items ih =>
    cases offends with
    | item here inside =>
      obtain ⟨before, v, after, rfl, clean, hit⟩ := exists_first ⟨_, here, inside⟩
      obtain ⟨u, first⟩ := ih v (by simp) hit
      exact ⟨_, .item clean first⟩
  | object entries ih =>
    -- A bad key and an offence in a value are one kind of hit here, as they are told apart at the first.
    have unclean : ∃ entry ∈ entries, ¬Clean entry := by
      cases offends with
      | key here other => exact ⟨_, here, fun clean => by simp [Clean, other] at clean⟩
      | entry here inside => exact ⟨_, here, fun clean => clean.2 inside⟩
    obtain ⟨before, ⟨key, v⟩, after, rfl, clean, hit⟩ := exists_first unclean
    simp only [not_not] at clean
    rcases not_clean_iff.mp hit with ⟨shown, rfl⟩ | ⟨⟨name, rfl⟩, inside⟩
    · exact ⟨_, .key clean⟩
    · obtain ⟨u, first⟩ := ih (.name name, v) (by simp) inside
      exact ⟨_, .entry clean first⟩
  | float x =>
    cases offends with
    | nonFinite infinite => exact ⟨_, .nonFinite infinite⟩
  | foreign typeName => exact ⟨_, .foreign typeName⟩
  | _ => cases offends

/-! Inferring. -/

namespace Shape

variable {widen : Bool}

theorem exists_inferItems {items : List Value} (each : ∀ v ∈ items, ∃ s, infer widen v = .ok s) (i : Nat) :
    ∃ shapes, inferItems widen i items = .ok shapes := by
  induction items generalizing i with
  | nil => exact ⟨[], rfl⟩
  | cons v rest ih =>
    rw [List.forall_mem_cons] at each
    obtain ⟨s, first⟩ := each.1
    obtain ⟨shapes, later⟩ := ih each.2 (i + 1)
    exact ⟨s :: shapes, by rw [inferItems, first, later]; rfl⟩

theorem exists_inferEntries {entries : List (Key × Value)}
    (each : ∀ entry ∈ entries, (∃ name, entry.1 = .name name) ∧ ∃ s, infer widen entry.2 = .ok s) :
    ∃ fields, inferEntries widen entries = .ok fields := by
  induction entries with
  | nil => exact ⟨[], rfl⟩
  | cons entry rest ih =>
    obtain ⟨key, v⟩ := entry
    rw [List.forall_mem_cons] at each
    obtain ⟨⟨⟨name, rfl⟩, s, first⟩, others⟩ := each
    obtain ⟨fields, later⟩ := ih others
    exact ⟨_, by rw [inferEntries, first, later]; rfl⟩

theorem exists_infer {v : Value} (clean : ¬v.Offends) : ∃ s, infer widen v = .ok s := by
  induction v with
  | float x =>
    have finite : x.isFinite = true := Bool.not_eq_false _ ▸ fun infinite => clean (.nonFinite infinite)
    exact ⟨_, by rw [infer, if_pos finite]⟩
  | list items ih =>
    obtain ⟨shapes, inside⟩ := exists_inferItems (fun v here => ih v here fun bad => clean (.item here bad)) 0
    exact ⟨_, by rw [infer, inside]; rfl⟩
  | object entries ih =>
    obtain ⟨fields, inside⟩ := exists_inferEntries fun entry here =>
      ⟨exists_name_of_clean clean entry here, ih entry here fun bad => clean (.entry here bad)⟩
    exact ⟨_, by rw [infer, inside]; rfl⟩
  | foreign typeName => exact absurd (.foreign typeName) clean
  | _ => exact ⟨_, rfl⟩

theorem inferItems_of_first {before after : List Value} {v : Value} {u : Unsupported}
    (clean : ∀ w ∈ before, ¬w.Offends) (failed : infer widen v = .error u) (i : Nat) :
    inferItems widen i (before ++ v :: after) = .error (u.under (.index (i + before.length))) := by
  induction before generalizing i with
  | nil => rw [List.nil_append, inferItems, failed]; rfl
  | cons first rest ih =>
    rw [List.forall_mem_cons] at clean
    obtain ⟨s, inferred⟩ : ∃ s, infer widen first = .ok s := exists_infer clean.1
    rw [List.cons_append, inferItems, inferred, ih clean.2, List.length_cons, Nat.add_assoc,
      Nat.add_comm 1]
    rfl

theorem inferEntries_of_first {before rest : List (Key × Value)} {u : Unsupported}
    (clean : ∀ entry ∈ before, Clean entry) (failed : inferEntries widen rest = .error u) :
    inferEntries widen (before ++ rest) = .error u := by
  induction before with
  | nil => exact failed
  | cons first others ih =>
    obtain ⟨key, v⟩ := first
    rw [List.forall_mem_cons] at clean
    obtain ⟨⟨⟨name, rfl⟩, harmless⟩, later⟩ := clean
    obtain ⟨s, inferred⟩ : ∃ s, infer widen v = .ok s := exists_infer harmless
    rw [List.cons_append, inferEntries, inferred, ih later]
    rfl

theorem infer_of_firstOffence {v : Value} {u : Unsupported} (first : FirstOffence v u) :
    infer widen v = .error u := by
  induction first with
  | nonFinite infinite => rw [infer, infinite, if_neg Bool.false_ne_true]
  | foreign typeName => rfl
  | item clean inside ih => rw [infer, inferItems_of_first clean ih, Nat.zero_add]; rfl
  | key clean =>
    rw [infer, inferEntries_of_first clean rfl]
    rfl
  | entry clean inside ih =>
    rw [infer, inferEntries_of_first clean (by rw [inferEntries, ih]; rfl)]
    rfl

theorem offends_of_infer {v : Value} {u : Unsupported} (failed : infer widen v = .error u) :
    v.Offends := by
  by_contra clean
  obtain ⟨s, inferred⟩ : ∃ s, infer widen v = .ok s := exists_infer clean
  rw [inferred] at failed
  cases failed

theorem infer_eq_error_iff {v : Value} {u : Unsupported} :
    infer widen v = .error u ↔ FirstOffence v u := by
  refine ⟨fun failed => ?_, infer_of_firstOffence⟩
  obtain ⟨other, first⟩ := (offends_of_infer failed).exists_firstOffence
  have same : infer widen v = .error other := infer_of_firstOffence first
  rw [failed] at same
  cases same
  exact first

theorem exists_infer_error_iff {v : Value} : (∃ u, infer widen v = .error u) ↔ v.Offends := by
  constructor
  · rintro ⟨u, failed⟩
    exact offends_of_infer failed
  · intro offends
    obtain ⟨u, first⟩ := offends.exists_firstOffence
    exact ⟨u, infer_of_firstOffence first⟩

end Shape

/-! Merging what is inferred on the way fails no check. -/

theorem Value.Keyed.supported {v : Value} (keyed : v.Keyed) (clean : ¬v.Offends) : v.Supported := by
  induction keyed with
  | @leaf v noList noObject =>
    cases v with
    | null => exact .null
    | bool b => exact .bool b
    | int i => exact .int i
    | float x => exact .float (Bool.not_eq_false _ ▸ fun infinite => clean (.nonFinite infinite))
    | string s => exact .string s
    | list items => cases noList
    | object entries => cases noObject
    | foreign typeName => exact absurd (.foreign typeName) clean
  | list each ih => exact .list fun v here => ih v here fun bad => clean (.item here bad)
  | @object entries distinct each ih =>
    have named := exists_name_of_clean clean
    refine .object ?_ named fun entry here => ih entry here fun bad => clean (.entry here bad)
    have keys : Entries.keys entries =
        (entries.filterMap fun entry => entry.1.name?).map Key.name := by
      rw [List.map_filterMap, Entries.keys, ← List.filterMap_eq_map]
      apply List.filterMap_congr
      intro entry here
      obtain ⟨name, spelled⟩ := named entry here
      simp [spelled, Key.name?]
    rw [keys]
    exact distinct.map fun _ _ => Key.name.inj

namespace Shape

variable {widen : Bool}

theorem checkedOfItems_of_sound {shapes : List Shape} (sound : ∀ s ∈ shapes, Sound widen s) :
    checkedOfItems widen shapes = .ok (ofItems widen shapes) := by
  cases shapes with
  | nil => rfl
  | cons first rest =>
    rw [List.forall_mem_cons] at sound
    rw [checkedOfItems, checkedMergeAll_of_sound sound.1 sound.2]
    rfl

theorem mapError_unchecked {ε ε' α : Type} (f : ε → ε') (x : Except ε α) :
    (unchecked x).mapError (.map f) = unchecked (x.mapError f) := by
  cases x <;> rfl

theorem checkedInferItems_eq {items : List Value}
    (each : ∀ v ∈ items, checkedInfer widen v = unchecked (infer widen v)) (i : Nat) :
    checkedInferItems widen i items = unchecked (inferItems widen i items) := by
  induction items generalizing i with
  | nil => rfl
  | cons v rest ih =>
    rw [List.forall_mem_cons] at each
    rw [checkedInferItems, inferItems, each.1, ih each.2, mapError_unchecked, unchecked, unchecked,
      unchecked, mapError_bind]
    cases inferItems widen (i + 1) rest <;> rfl

theorem checkedInferEntries_eq {entries : List (Key × Value)}
    (each : ∀ entry ∈ entries, checkedInfer widen entry.2 = unchecked (infer widen entry.2)) :
    checkedInferEntries widen entries = unchecked (inferEntries widen entries) := by
  induction entries with
  | nil => rfl
  | cons entry rest ih =>
    obtain ⟨key, v⟩ := entry
    rw [List.forall_mem_cons] at each
    cases key with
    | other shown => rfl
    | name name =>
      rw [checkedInferEntries, inferEntries, each.1, ih each.2, mapError_unchecked, unchecked, unchecked,
        unchecked, mapError_bind]
      cases inferEntries widen rest <;> rfl

theorem forall_of_inferItems {P : Shape → Prop} {items : List Value}
    (each : ∀ v ∈ items, ∀ s, infer widen v = .ok s → P s) {i : Nat} {shapes : List Shape}
    (ran : inferItems widen i items = .ok shapes) : ∀ s ∈ shapes, P s := by
  induction items generalizing i shapes with
  | nil =>
    cases ran
    exact List.forall_mem_nil _
  | cons v rest ih =>
    rw [List.forall_mem_cons] at each
    obtain ⟨s, first, ran⟩ := eq_ok_of_bind ran
    obtain ⟨later, inferred, ran⟩ := eq_ok_of_bind ran
    cases ran
    exact List.forall_mem_cons.mpr ⟨each.1 s (mapError_eq_ok.mp first), ih each.2 inferred⟩

theorem sound_of_keyed {v : Value} (keyed : v.Keyed) {s : Shape} (ran : infer widen v = .ok s) :
    Sound widen s := by
  refine sound_of_infer (keyed.supported fun offends => ?_) ran
  obtain ⟨u, failed⟩ := exists_infer_error_iff.mpr offends
  rw [failed] at ran
  cases ran

theorem checkedInfer_eq {v : Value} (keyed : v.Keyed) :
    checkedInfer widen v = unchecked (infer widen v) := by
  induction keyed with
  | leaf noList noObject => exact checkedInfer_of_leaf noList noObject
  | @list items each ih =>
    rw [checkedInfer, checkedInferItems_eq ih, infer]
    cases ran : inferItems widen 0 items with
    | error u => rfl
    | ok shapes =>
      -- All items have been inferred before the first merge, so what is merged is sound throughout.
      change checking (checkedOfItems widen shapes) = _
      rw [checkedOfItems_of_sound (forall_of_inferItems (fun v here s => sound_of_keyed (each v here)) ran)]
      rfl
  | @object entries distinct each ih =>
    rw [checkedInfer, checkedInferEntries_eq ih, infer]
    cases inferEntries widen entries <;> rfl

/-- A value is rejected when it has an offence, and then for the first one: the merges of the shapes inferred
on the way fail no check. The path of the error is the start path with the steps to that offence. -/
theorem checkedInfer_outcome (widen : Bool) {v : Value} (keyed : v.Keyed) :
    checkedInfer widen v = unchecked (infer widen v) ∧
      ((∃ u, infer widen v = .error u) ↔ v.Offends) ∧
      (∀ u, infer widen v = .error u ↔ FirstOffence v u) ∧
      ∀ (u : Unsupported) (root : Points),
        u.path root = root ++ u.location.flatMap Step.text :=
  ⟨checkedInfer_eq keyed, exists_infer_error_iff, fun _ => infer_eq_error_iff,
    fun u root => u.location.text_eq root⟩

theorem checkedInfer_outcome_of_nested :
    let mixed : Value := .list [.int 1, .string "x", .null]
    let numbered : Value := .object [(.name "k", .bool true), (.other "2", .foreign "set")]
    let later : Value := .float .nan
    let v : Value :=
      .object [(.name "a", mixed), (.name "b", .list [mixed, numbered, later]), (.name "c", later)]
    let u : Unsupported := ⟨.keyNotName "2", [.key "b", .index 1]⟩
    v.Keyed ∧ v.Offends ∧ FirstOffence v u ∧ checkedInfer true v = .error (.reported u) ∧
      u.path "#" = "#/b/1" := by
  intro mixed numbered later v u
  have keyedMixed : mixed.Keyed :=
    .list (by simpa using ⟨.leaf rfl rfl, .leaf rfl rfl, .leaf rfl rfl⟩)
  have keyedNumbered : numbered.Keyed :=
    .object (by decide) (by simpa using ⟨.leaf rfl rfl, .leaf rfl rfl⟩)
  have keyedLater : later.Keyed := .leaf rfl rfl
  have keyed : v.Keyed := .object (by decide) (by
    simpa [keyedMixed, keyedLater] using Value.Keyed.list (by simp [keyedMixed, keyedNumbered, keyedLater]))
  have failed : infer true v = .error u := rfl
  obtain ⟨same, rejected, first, path⟩ := checkedInfer_outcome true keyed
  refine ⟨keyed, rejected.mp ⟨u, failed⟩, (first u).mp failed, ?_, ?_⟩
  · rw [same, failed]
    rfl
  · rw [path]
    rfl

end Shape

end SampleTypes
