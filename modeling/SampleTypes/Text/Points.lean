/-!
Texts by their code points. A surrogate may stand in such a text, although it is no character and has
no bytes in UTF-8. A `Str` is a string as an escaped text spells it, in which the two halves of a pair
are always one character: what holds them apart is no `Str`, and nothing is said about it anywhere.
-/

namespace SampleTypes

/-- A character, or a surrogate by its distance from U+D800. -/
inductive Point where
  | char (c : Char)
  | surrogate (offset : Fin 0x800)
  deriving DecidableEq, Repr

namespace Point

instance : Coe Char Point := ⟨char⟩

def code : Point → Nat
  | .char c => c.toNat
  | .surrogate offset => 0xD800 + offset.val

def ofCode (n : Nat) : Point :=
  if surrogate : 0xD800 ≤ n ∧ n < 0xE000 then .surrogate ⟨n - 0xD800, by omega⟩
  else .char (Char.ofNat n)

def isHigh : Point → Bool
  | .char _ => false
  | .surrogate offset => decide (offset.val < 0x400)

def isLow : Point → Bool
  | .char _ => false
  | .surrogate offset => decide (0x400 ≤ offset.val)

def char? : Point → Option Char
  | .char c => some c
  | .surrogate _ => none

theorem code_injective {p q : Point} (equal : p.code = q.code) : p = q := by
  cases p with
  | char c =>
    have valid : c.toNat < 0xD800 ∨ 0xDFFF < c.toNat := c.valid.imp_right And.left
    cases q with
    | char d => rw [Char.toNat_inj.mp equal]
    | surrogate offset =>
      simp only [code] at equal
      omega
  | surrogate offset =>
    cases q with
    | char d =>
      have valid : d.toNat < 0xD800 ∨ 0xDFFF < d.toNat := d.valid.imp_right And.left
      simp only [code] at equal
      omega
    | surrogate other =>
      simp only [code, Nat.add_left_cancel_iff] at equal
      rw [Fin.ext equal]

end Point

abbrev Points := List Point

namespace Points

def ofString (s : String) : Points := s.toList.map .char

instance : Coe String Points := ⟨ofString⟩

/-- No two halves of a pair stand side by side. -/
def isJoined : Points → Bool
  | [] => true
  | [_] => true
  | p :: q :: rest => !(p.isHigh && q.isLow) && isJoined (q :: rest)

def string? (text : Points) : Option String := (text.mapM Point.char?).map String.ofList

@[simp]
theorem ofString_append (s t : String) : ofString (s ++ t) = ofString s ++ ofString t := by
  simp [ofString]

theorem ofString_intercalate (separator : String) (texts : List String) :
    ofString (separator.intercalate texts) = List.intercalate (ofString separator) (texts.map ofString) := by
  induction texts with
  | nil => rfl
  | cons text rest ih =>
    cases rest with
    | nil => simp
    | cons next later =>
      have more : next :: later ≠ [] := List.cons_ne_nil next later
      rw [String.intercalate_cons_of_ne_nil more, ofString_append, ofString_append, ih]
      exact List.intercalate_cons_cons.symm

@[simp]
theorem mem_ofString {c : Char} {s : String} : .char c ∈ ofString s ↔ c ∈ s.toList := by
  simp [ofString]

theorem ofString_injective {s t : String} (equal : ofString s = ofString t) : s = t :=
  String.toList_injective (List.map_inj_right (fun _ _ => Point.char.inj) |>.mp equal)

theorem mapM_char? (chars : List Char) : (chars.map Point.char).mapM Point.char? = some chars := by
  induction chars with
  | nil => rfl
  | cons c rest ih => rw [List.map_cons, List.mapM_cons, ih]; rfl

@[simp]
theorem string?_ofString (s : String) : (ofString s).string? = some s := by
  rw [string?, ofString, mapM_char?, Option.map_some, String.ofList_toList]

theorem eq_of_mapM_char? {text : Points} {chars : List Char} (all : text.mapM Point.char? = some chars) :
    text = chars.map Point.char := by
  induction text generalizing chars with
  | nil => cases all; rfl
  | cons p rest ih =>
    cases p with
    | surrogate offset => cases all
    | char c =>
      cases inner : rest.mapM Point.char? with
      | none => rw [List.mapM_cons, inner] at all; cases all
      | some others =>
        rw [List.mapM_cons, inner] at all
        cases all
        rw [ih inner, List.map_cons]

theorem string?_eq_some {text : Points} {s : String} : text.string? = some s ↔ text = ofString s := by
  constructor
  · intro found
    obtain ⟨chars, all, rfl⟩ := Option.map_eq_some_iff.mp found
    rw [eq_of_mapM_char? all, ofString, String.toList_ofList]
  · rintro rfl
    exact string?_ofString s

theorem exists_string {text : Points} (plain : ∀ offset, .surrogate offset ∉ text) :
    ∃ s : String, text = ofString s := by
  have chars : ∃ chars : List Char, text = chars.map .char := by
    induction text with
    | nil => exact ⟨[], rfl⟩
    | cons p rest ih =>
      obtain ⟨chars, spelled⟩ := ih fun offset inside => plain offset (List.mem_cons_of_mem p inside)
      cases p with
      | char c => exact ⟨c :: chars, by rw [spelled, List.map_cons]⟩
      | surrogate offset => exact absurd List.mem_cons_self (plain offset)
  obtain ⟨chars, rfl⟩ := chars
  exact ⟨String.ofList chars, by rw [ofString, String.toList_ofList]⟩

theorem isJoined_chars (chars : List Char) : isJoined (chars.map Point.char) = true := by
  induction chars with
  | nil => rfl
  | cons c rest ih =>
    cases rest with
    | nil => rfl
    | cons d later => exact ih

end Points

structure Str where
  points : Points
  joined : points.isJoined = true
  deriving DecidableEq, Repr

namespace Str

def ofString (s : String) : Str := ⟨.ofString s, Points.isJoined_chars s.toList⟩

instance : Coe String Str := ⟨ofString⟩

instance : Coe Str Points := ⟨points⟩

def string? (s : Str) : Option String := s.points.string?

instance : LE Str := ⟨fun s t => List.le (s.points.map Point.code) (t.points.map Point.code)⟩

instance (s t : Str) : Decidable (s ≤ t) :=
  List.decidableLE (s.points.map Point.code) (t.points.map Point.code)

theorem ext {s t : Str} (equal : s.points = t.points) : s = t := by
  cases s
  cases t
  cases equal
  rfl

theorem le_total (s t : Str) : s ≤ t ∨ t ≤ s := List.le_total _ _

theorem le_trans {s t u : Str} (first : s ≤ t) (second : t ≤ u) : s ≤ u := List.le_trans first second

theorem le_antisymm {s t : Str} (before : s ≤ t) (after : t ≤ s) : s = t :=
  ext (List.map_inj_right (fun _ _ => Point.code_injective) |>.mp (List.le_antisymm before after))

@[simp]
theorem points_ofString (s : String) : (ofString s).points = .ofString s := rfl

theorem ofString_injective {s t : String} (equal : ofString s = ofString t) : s = t :=
  Points.ofString_injective (congrArg points equal)

@[simp]
theorem ofString_inj {s t : String} : ofString s = ofString t ↔ s = t :=
  ⟨ofString_injective, congrArg ofString⟩

@[simp]
theorem string?_ofString (s : String) : (ofString s).string? = some s := Points.string?_ofString s

theorem string?_eq_some {name : Str} {s : String} : name.string? = some s ↔ name = ofString s :=
  ⟨fun found => ext (Points.string?_eq_some.mp found), fun equal => equal ▸ string?_ofString s⟩

end Str

end SampleTypes
