import Mathlib.Algebra.Group.Nat.Defs
import Mathlib.Tactic.SplitIfs
import SampleTypes.Json.Token
import SampleTypes.Json.Writer
import SampleTypes.Proofs.Text.Utf8

/-! A quoted string read back. The scanner finds the closing quote of what the writer wrote and
returns the characters that were written. -/

namespace SampleTypes.Json

/-! Escapes of four digits. -/

theorem readHex?_hexFixed {width n : Nat} (small : n < 16 ^ width) :
    readHex? (Text.hexFixed width n) = some n := by
  induction width generalizing n with
  | zero =>
    have zero : n = 0 := by simpa using small
    rw [zero]
    rfl
  | succ width ih =>
    have higher : n / 16 < 16 ^ width := by
      rw [Nat.div_lt_iff_lt_mul (by decide)]
      rwa [Nat.pow_succ] at small
    have lowest := Text.hexValue?_hexDigit (n % 16) (Nat.mod_lt n (by decide))
    have before := ih higher
    rw [readHex?] at before ⊢
    rw [Text.hexFixed, List.foldlM_append, before]
    simp only [Option.bind_eq_bind, Option.bind_some, List.foldlM_cons, List.foldlM_nil, lowest,
      Option.map_some, Option.pure_def, Option.some.injEq]
    omega

theorem scanUnits_unitEscape {n : Nat} {rest : List Char} (small : n < 0x10000) (more : rest ≠ []) :
    scanUnits (unitEscape n ++ rest) = consUnit n (scanUnits rest) := by
  change scanUnits ('\\' :: 'u' :: Text.hexFixed 4 n ++ rest) = _
  have four : n < 16 ^ 4 := small
  have digits := readHex?_hexFixed four
  obtain ⟨c, after, rfl⟩ := List.exists_cons_of_ne_nil more
  simp only [Text.hexFixed, List.nil_append, List.cons_append] at digits ⊢
  rw [scanUnits.eq_def]
  simp only [digits]

/-! One character. -/

/-- The units as which a character is written, two of them for one above U+FFFF in ASCII. -/
def charUnits (charset : Charset) (c : Char) : List Nat :=
  if charset = .ascii ∧ 0x10000 ≤ c.toNat then
    [0xD800 + (c.toNat - 0x10000) / 0x400, 0xDC00 + (c.toNat - 0x10000) % 0x400]
  else [c.toNat]

theorem scanUnits_unicodeEscape {c : Char} {rest : List Char} (more : rest ≠ []) :
    scanUnits (unicodeEscape c ++ rest) = (charUnits .ascii c).foldr consUnit (scanUnits rest) := by
  have valid := Text.toNat_of_char c
  by_cases small : c.toNat < 0x10000
  · have alone : ¬(Charset.ascii = .ascii ∧ 0x10000 ≤ c.toNat) := fun wide => by omega
    rw [unicodeEscape, if_pos small, charUnits, if_neg alone]
    exact scanUnits_unitEscape small more
  · rw [unicodeEscape, if_neg small, charUnits, if_pos ⟨rfl, Nat.le_of_not_lt small⟩, List.append_assoc]
    rw [scanUnits_unitEscape (by omega) (by simp [unitEscape]), scanUnits_unitEscape (by omega) more]
    rfl

theorem charUnits_small (charset : Charset) {c : Char} (small : c.toNat < 0x10000) :
    charUnits charset c = [c.toNat] := by
  rw [charUnits, if_neg fun wide => by omega]

theorem scanUnits_plain {c : Char} (visible : ' ' ≤ c) (unquoted : c ≠ '"') (unescaped : c ≠ '\\')
    (rest : List Char) : scanUnits (c :: rest) = consUnit c.toNat (scanUnits rest) := by
  have reached : ¬c < ' ' := Char.not_lt.mpr visible
  rw [scanUnits, if_neg reached]
  all_goals simp [unquoted, unescaped]

theorem scanUnits_escapeChar (charset : Charset) (c : Char) {rest : List Char} (more : rest ≠ []) :
    scanUnits (escapeChar charset c ++ rest) =
      (charUnits charset c).foldr consUnit (scanUnits rest) := by
  unfold escapeChar
  split
  case h_8 quote backslash _ _ _ _ _ =>
    cases charset with
    | ascii =>
      dsimp only
      split_ifs with plain
      · have visible : ' ' ≤ c ∧ c ≤ '~' := by simpa [isVisibleAscii] using plain
        have bound : c.toNat ≤ '~'.toNat := visible.2
        have tilde : '~'.toNat = 126 := rfl
        rw [charUnits_small .ascii (by omega)]
        exact scanUnits_plain visible.1 quote backslash rest
      · exact scanUnits_unicodeEscape more
    | unicode =>
      dsimp only
      have single : charUnits .unicode c = [c.toNat] := if_neg (by simp)
      rw [single]
      split_ifs with plain
      · exact scanUnits_plain (of_decide_eq_true plain) quote backslash rest
      · have below : c.toNat < ' '.toNat := Nat.lt_of_not_le fun above => plain (decide_eq_true above)
        have space : ' '.toNat = 32 := rfl
        rw [scanUnits_unicodeEscape more, charUnits_small .ascii (by omega)]
  all_goals
    rw [charUnits_small charset (by decide)]
    obtain ⟨d, after, rfl⟩ := List.exists_cons_of_ne_nil more
    rfl

/-! Code points and their units. -/

theorem ofCode_toNat (c : Char) : Point.ofCode c.toNat = .char c := by
  have valid := Text.toNat_of_char c
  rw [Point.ofCode, dif_neg (by omega), Char.ofNat_toNat]

theorem ofCode_surrogate (offset : Fin 0x800) : Point.ofCode (0xD800 + offset) = .surrogate offset := by
  rw [Point.ofCode, dif_pos (by omega)]
  simp

theorem joinUnits_charUnits (charset : Charset) (c : Char) (units : List Nat) :
    joinUnits (charUnits charset c ++ units) = .char c :: joinUnits units := by
  have valid := Text.toNat_of_char c
  unfold charUnits
  split_ifs with wide
  · have high : isHighSurrogate (0xD800 + (c.toNat - 0x10000) / 0x400) = true := by
      simp only [isHighSurrogate, Bool.and_eq_true, decide_eq_true_eq]
      omega
    have low : isLowSurrogate (0xDC00 + (c.toNat - 0x10000) % 0x400) = true := by
      simp only [isLowSurrogate, Bool.and_eq_true, decide_eq_true_eq]
      omega
    have whole : 0x10000 + (0xD800 + (c.toNat - 0x10000) / 0x400 - 0xD800) * 0x400 +
        (0xDC00 + (c.toNat - 0x10000) % 0x400 - 0xDC00) = c.toNat := by omega
    rw [List.cons_append, List.cons_append, List.nil_append, joinUnits,
      if_pos (by rw [high, low]; rfl), whole, Char.ofNat_toNat]
  · have notHigh : isHighSurrogate c.toNat = false := by
      simp only [isHighSurrogate, Bool.and_eq_false_iff, decide_eq_false_iff_not]
      omega
    cases units with
    | nil => simp [joinUnits, ofCode_toNat]
    | cons unit rest => simp [joinUnits, notHigh, ofCode_toNat]

def pointUnits (charset : Charset) : Point → List Nat
  | .char c => charUnits charset c
  | .surrogate offset => [0xD800 + offset]

theorem exists_pointUnits_cons (charset : Charset) (p : Point) :
    ∃ unit units, pointUnits charset p = unit :: units ∧ isLowSurrogate unit = p.isLow := by
  cases p with
  | surrogate offset =>
    refine ⟨_, _, rfl, ?_⟩
    rw [← isLow_ofCode, ofCode_surrogate]
  | char c =>
    have valid := Text.toNat_of_char c
    rw [pointUnits, charUnits]
    split_ifs
    · refine ⟨_, _, rfl, ?_⟩
      simp only [isLowSurrogate, Point.isLow, Bool.and_eq_false_iff, decide_eq_false_iff_not]
      omega
    · refine ⟨_, _, rfl, ?_⟩
      rw [← isLow_ofCode, ofCode_toNat]

/-- A surrogate is joined with nothing that follows it in a `Str`. -/
theorem joinUnits_pointUnits (charset : Charset) {text : Points} (joined : text.isJoined = true) :
    joinUnits (text.flatMap (pointUnits charset)) = text := by
  induction text with
  | nil => rfl
  | cons p rest ih =>
    rw [List.flatMap_cons]
    cases p with
    | char c =>
      have later : Points.isJoined rest = true := by
        cases rest with
        | nil => rfl
        | cons q later => exact joined
      rw [pointUnits, joinUnits_charUnits, ih later]
    | surrogate offset =>
      rw [pointUnits, List.singleton_append]
      cases rest with
      | nil => rw [List.flatMap_nil, joinUnits, ofCode_surrogate]
      | cons q later =>
        rw [Points.isJoined, Bool.and_eq_true, Bool.not_eq_true'] at joined
        obtain ⟨unit, units, spelled, low⟩ := exists_pointUnits_cons charset q
        have text := ih joined.2
        rw [List.flatMap_cons, spelled, List.cons_append] at text ⊢
        have apart : (isHighSurrogate (0xD800 + offset) && isLowSurrogate unit) = false := by
          rw [low, ← isHigh_ofCode, ofCode_surrogate]
          exact joined.1
        rw [joinUnits, apart, if_neg Bool.false_ne_true, text, ofCode_surrogate]

/-! A whole string. -/

theorem scanUnits_escapePoint (charset : Charset) (p : Point) {rest : List Char} (more : rest ≠ []) :
    scanUnits (escapePoint charset p ++ rest) = (pointUnits charset p).foldr consUnit (scanUnits rest) := by
  cases p with
  | char c => exact scanUnits_escapeChar charset c more
  | surrogate offset => exact scanUnits_unitEscape (by omega) more

theorem scanUnits_escaped (charset : Charset) (text : Points) (rest : List Char) :
    scanUnits (text.flatMap (escapePoint charset) ++ '"' :: rest) =
      .ok (text.flatMap (pointUnits charset), rest) := by
  induction text with
  | nil => rw [List.flatMap_nil, List.nil_append, scanUnits]; rfl
  | cons p text ih =>
    rw [List.flatMap_cons, List.append_assoc, scanUnits_escapePoint charset p (by simp), ih,
      List.flatMap_cons]
    induction pointUnits charset p with
    | nil => rfl
    | cons unit units ih => rw [List.foldr_cons, ih]; rfl

theorem toList_quote (text : Str) : (quote text).toList = quoteChars .ascii text.points :=
  String.toList_ofList

theorem scan_quoteChars (charset : Charset) (text : Str) (rest : List Char) :
    ∃ opened, quoteChars charset text.points ++ rest = '"' :: opened ∧
      scan '"' opened = (.string text, rest) := by
  refine ⟨text.points.flatMap (escapePoint charset) ++ '"' :: rest, ?_, ?_⟩
  · simp [quoteChars]
  · have whole : strOfUnits (text.points.flatMap (pointUnits charset)) = text :=
      Str.ext (joinUnits_pointUnits charset text.joined)
    change scanString _ = _
    rw [scanString, scanUnits_escaped]
    simp only [whole]

theorem quoteChars_append_inj {charset : Charset} {text other : Str} {rest after : List Char}
    (equal : quoteChars charset text.points ++ rest = quoteChars charset other.points ++ after) :
    text = other ∧ rest = after := by
  obtain ⟨first, here, scanned⟩ := scan_quoteChars charset text rest
  obtain ⟨second, there, again⟩ := scan_quoteChars charset other after
  have opened : first = second := by simpa [here, there] using equal
  rw [opened, again] at scanned
  simpa [eq_comm] using scanned

end SampleTypes.Json
