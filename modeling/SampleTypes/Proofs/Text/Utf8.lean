import Mathlib.Data.List.TakeWhile
import Mathlib.Tactic.SplitIfs
import SampleTypes.Proofs.Runs
import SampleTypes.Text.Utf8

/-! The bytes of a text are read back as the text, and no other bytes are read at all. -/

namespace SampleTypes.Text

theorem toNat_of_char (c : Char) : c.toNat < 0xD800 ∨ 0xDFFF < c.toNat ∧ c.toNat < 0x110000 := by
  have valid := c.valid
  simp only [UInt32.isValidChar, Nat.isValidChar] at valid
  exact valid

namespace Utf8

theorem toNat_ofNat {n : Nat} (small : n < 256) : (UInt8.ofNat n).toNat = n := by
  rw [UInt8.toNat_ofNat']
  exact Nat.mod_eq_of_lt small

/-! One step of the decoder. -/

variable {position : Nat} {rest : List UInt8}

theorem decodeFrom_first {n : Nat} {pending : Pending} (high : 0x80 ≤ n) (small : n < 256)
    (announced : Pending.ofFirst? position (UInt8.ofNat n) = some pending) :
    decodeFrom none position (UInt8.ofNat n :: rest) =
      decodeFrom (some pending) (position + 1) rest := by
  have long : ¬UInt8.ofNat n < 0x80 := by
    rw [UInt8.lt_iff_toNat_lt, toNat_ofNat small]
    exact Nat.not_lt.mpr high
  rw [decodeFrom, if_neg long, announced]

theorem decodeFrom_next {n : Nat} {pending : Pending} (low : pending.low ≤ 0x80 + n)
    (high : 0x80 + n ≤ pending.high) (small : n < 64) (several : 1 < pending.owed) :
    decodeFrom (some pending) position (UInt8.ofNat (0x80 + n) :: rest) =
      decodeFrom (some { pending with
        owed := pending.owed - 1, bits := pending.bits * 64 + n, low := 0x80, high := 0xBF })
        (position + 1) rest := by
  have bounded : ¬(decide (0x80 + n < pending.low) || decide (pending.high < 0x80 + n)) = true := by
    simp only [Bool.or_eq_true, decide_eq_true_eq]
    omega
  rw [decodeFrom, toNat_ofNat (by omega), if_neg bounded, if_neg (Nat.not_le.mpr several),
    Nat.add_sub_cancel_left]

theorem decodeFrom_last {n : Nat} {pending : Pending} (low : pending.low ≤ 0x80 + n)
    (high : 0x80 + n ≤ pending.high) (small : n < 64) (one : pending.owed = 1) :
    decodeFrom (some pending) position (UInt8.ofNat (0x80 + n) :: rest) =
      (decodeFrom none (position + 1) rest).map (Char.ofNat (pending.bits * 64 + n) :: ·) := by
  have bounded : ¬(decide (0x80 + n < pending.low) || decide (pending.high < 0x80 + n)) = true := by
    simp only [Bool.or_eq_true, decide_eq_true_eq]
    omega
  rw [decodeFrom, toNat_ofNat (by omega), if_neg bounded, if_pos (Nat.le_of_eq one),
    Nat.add_sub_cancel_left]
  rfl

/-! What the first byte of each length announces. -/

theorem ofFirst?_two (position : Nat) {n : Nat} (low : 0x80 ≤ n) (high : n < 0x800) :
    Pending.ofFirst? position (UInt8.ofNat (0xC0 + n / 64)) =
      some ⟨position, UInt8.ofNat (0xC0 + n / 64), 1, n / 64, 0x80, 0xBF⟩ := by
  rw [Pending.ofFirst?, toNat_ofNat (by omega), if_neg (by omega), if_pos (by omega),
    Nat.add_sub_cancel_left]

theorem ofFirst?_three (position : Nat) {n : Nat} (low : 0x800 ≤ n) (high : n < 0x10000)
    (valid : n < 0xD800 ∨ 0xDFFF < n) :
    ∃ least greatest, Pending.ofFirst? position (UInt8.ofNat (0xE0 + n / 4096)) =
        some ⟨position, UInt8.ofNat (0xE0 + n / 4096), 2, n / 4096, least, greatest⟩ ∧
      least ≤ 0x80 + n / 64 % 64 ∧ 0x80 + n / 64 % 64 ≤ greatest := by
  rw [Pending.ofFirst?, toNat_ofNat (by omega), if_neg (by omega), if_neg (by omega),
    Nat.add_sub_cancel_left]
  have below : 0xE0 + n / 4096 < 0xF0 := by omega
  rw [if_pos below]
  split_ifs with first surrogates
  · exact ⟨0xA0, 0xBF, rfl, by omega, by omega⟩
  · exact ⟨0x80, 0x9F, rfl, by omega, by omega⟩
  · exact ⟨0x80, 0xBF, rfl, by omega, by omega⟩

theorem ofFirst?_four (position : Nat) {n : Nat} (low : 0x10000 ≤ n) (high : n < 0x110000) :
    ∃ least greatest, Pending.ofFirst? position (UInt8.ofNat (0xF0 + n / 262144)) =
        some ⟨position, UInt8.ofNat (0xF0 + n / 262144), 3, n / 262144, least, greatest⟩ ∧
      least ≤ 0x80 + n / 4096 % 64 ∧ 0x80 + n / 4096 % 64 ≤ greatest := by
  rw [Pending.ofFirst?, toNat_ofNat (by omega), if_neg (by omega), if_neg (by omega),
    if_neg (by omega), if_neg (by omega), if_neg (by omega), Nat.add_sub_cancel_left]
  split_ifs with first inner last
  · exact ⟨0x90, 0xBF, rfl, by omega, by omega⟩
  · exact ⟨0x80, 0xBF, rfl, by omega, by omega⟩
  · exact ⟨0x80, 0x8F, rfl, by omega, by omega⟩
  · omega

/-! A whole text. -/

theorem decodeFrom_encodeChar (position : Nat) (c : Char) (rest : List UInt8) :
    ∃ after, decodeFrom none position (encodeChar c ++ rest) =
      (decodeFrom none after rest).map (c :: ·) := by
  have valid := toNat_of_char c
  have whole : Char.ofNat c.toNat = c := Char.ofNat_toNat c
  rw [encodeChar]
  generalize c.toNat = n at valid whole
  have powers : Nat.pow 64 0 = 1 ∧ Nat.pow 64 1 = 64 ∧ Nat.pow 64 2 = 4096 := ⟨rfl, rfl, rfl⟩
  simp only [powers, Nat.div_one]
  split_ifs with one two three
  · have short : UInt8.ofNat n < 0x80 := by
      rw [UInt8.lt_iff_toNat_lt, toNat_ofNat (by omega)]
      exact one
    refine ⟨position + 1, ?_⟩
    rw [List.singleton_append, decodeFrom, if_pos short, toNat_ofNat (by omega), whole]
    rfl
  · refine ⟨position + 2, ?_⟩
    have bits : n / 64 * 64 + n % 64 = n := by omega
    rw [List.cons_append, List.singleton_append,
      decodeFrom_first (by omega) (by omega) (ofFirst?_two position (by omega) two),
      decodeFrom_last (by dsimp only; omega) (by dsimp only; omega) (by omega) rfl]
    simp only [bits, whole]
  · obtain ⟨least, greatest, announced, low, high⟩ :=
      ofFirst?_three position (by omega) three (by omega)
    refine ⟨position + 3, ?_⟩
    have bits : (n / 4096 * 64 + n / 64 % 64) * 64 + n % 64 = n := by omega
    simp only [List.cons_append, List.nil_append]
    rw [decodeFrom_first (by omega) (by omega) announced,
      decodeFrom_next low high (by omega) (by dsimp only; omega),
      decodeFrom_last (by dsimp only; omega) (by dsimp only; omega) (by omega) rfl]
    simp only [bits, whole]
  · have wide : 0x10000 ≤ n := Nat.not_lt.mp three
    obtain ⟨least, greatest, announced, low, high⟩ := ofFirst?_four position wide (by omega)
    refine ⟨position + 4, ?_⟩
    have bits : ((n / 262144 * 64 + n / 4096 % 64) * 64 + n / 64 % 64) * 64 + n % 64 = n := by omega
    simp only [List.cons_append, List.nil_append]
    rw [decodeFrom_first (by omega) (by omega) announced,
      decodeFrom_next low high (by omega) (by dsimp only; omega),
      decodeFrom_next (by dsimp only; omega) (by dsimp only; omega) (by omega) (by dsimp only; omega),
      decodeFrom_last (by dsimp only; omega) (by dsimp only; omega) (by omega) rfl]
    simp only [bits, whole]

theorem decode_encode (text : List Char) : decode (encode text) = .ok text := by
  have general : ∀ position, decodeFrom none position (encode text) = .ok text := by
    induction text with
    | nil => exact fun _ => rfl
    | cons c text ih =>
      intro position
      obtain ⟨after, step⟩ := decodeFrom_encodeChar position c (encode text)
      rw [encode, List.flatMap_cons, ← encode, step, ih after]
      rfl
  exact general 0

theorem encode_injective : Function.Injective encode := by
  intro text other equal
  have read := decode_encode text
  rw [equal, decode_encode other, Except.ok.injEq] at read
  exact read.symm

/-! Bytes that are read. -/

variable {bytes : List UInt8} {pending : Pending} {text : List Char}

theorem of_decodeFrom_next (several : 1 < pending.owed)
    (read : decodeFrom (some pending) position bytes = .ok text) :
    ∃ byte rest, bytes = byte :: rest ∧ pending.low ≤ byte.toNat ∧ byte.toNat ≤ pending.high ∧
      decodeFrom (some { pending with
        owed := pending.owed - 1, bits := pending.bits * 64 + (byte.toNat - 0x80), low := 0x80,
        high := 0xBF }) (position + 1) rest = .ok text := by
  cases bytes with
  | nil => cases read
  | cons byte rest =>
    rw [decodeFrom] at read
    split at read
    · cases read
    · rename_i inside
      rw [if_neg (Nat.not_le.mpr several)] at read
      simp only [Bool.or_eq_true, decide_eq_true_eq, not_or, Nat.not_lt] at inside
      exact ⟨byte, rest, rfl, inside.1, inside.2, read⟩

theorem of_decodeFrom_last (one : pending.owed = 1)
    (read : decodeFrom (some pending) position bytes = .ok text) :
    ∃ byte rest others, bytes = byte :: rest ∧ pending.low ≤ byte.toNat ∧
      byte.toNat ≤ pending.high ∧ text = Char.ofNat (pending.bits * 64 + (byte.toNat - 0x80)) :: others ∧
      decodeFrom none (position + 1) rest = .ok others := by
  cases bytes with
  | nil => cases read
  | cons byte rest =>
    rw [decodeFrom] at read
    split at read
    · cases read
    · rename_i inside
      rw [if_pos (Nat.le_of_eq one)] at read
      simp only [Bool.or_eq_true, decide_eq_true_eq, not_or, Nat.not_lt] at inside
      obtain ⟨others, later, equal⟩ := eq_ok_of_bind read
      cases equal
      exact ⟨byte, rest, others, rfl, inside.1, inside.2, rfl, later⟩

/-- A first byte announces one, two or three more. The bounds of the next leave out what is no
character or has a shorter form. -/
theorem cases_of_ofFirst? {byte : UInt8} (announced : Pending.ofFirst? position byte = some pending) :
    (0xC2 ≤ byte.toNat ∧ byte.toNat < 0xE0 ∧
      pending = ⟨position, byte, 1, byte.toNat - 0xC0, 0x80, 0xBF⟩) ∨
    (∃ low high, pending = ⟨position, byte, 2, byte.toNat - 0xE0, low, high⟩ ∧
      0xE0 ≤ byte.toNat ∧ byte.toNat < 0xF0 ∧ 0x80 ≤ low ∧ high ≤ 0xBF ∧
      (byte.toNat = 0xE0 → 0xA0 ≤ low) ∧ (byte.toNat = 0xED → high ≤ 0x9F)) ∨
    (∃ low high, pending = ⟨position, byte, 3, byte.toNat - 0xF0, low, high⟩ ∧
      0xF0 ≤ byte.toNat ∧ byte.toNat ≤ 0xF4 ∧ 0x80 ≤ low ∧ high ≤ 0xBF ∧
      (byte.toNat = 0xF0 → 0x90 ≤ low) ∧ (byte.toNat = 0xF4 → high ≤ 0x8F)) := by
  unfold Pending.ofFirst? at announced
  dsimp only at announced
  split_ifs at announced with under two <;> cases announced
  · exact .inl ⟨Nat.not_lt.mp under, two, rfl⟩
  · exact .inr (.inl ⟨_, _, rfl, by omega⟩)
  · exact .inr (.inl ⟨_, _, rfl, by omega⟩)
  · exact .inr (.inl ⟨_, _, rfl, by omega⟩)
  · exact .inr (.inr ⟨_, _, rfl, by omega⟩)
  · exact .inr (.inr ⟨_, _, rfl, by omega⟩)
  · exact .inr (.inr ⟨_, _, rfl, by omega⟩)

/-! They are the bytes of the text. -/

theorem toNat_charOfNat {n : Nat} (valid : n < 0xD800 ∨ 0xDFFF < n ∧ n < 0x110000) :
    (Char.ofNat n).toNat = n := by
  have sound : n.isValidChar := valid
  rw [Char.ofNat, dif_pos sound]
  rfl

theorem ofNat_eq {n : Nat} (byte : UInt8) (same : n = byte.toNat) : UInt8.ofNat n = byte := by
  rw [same, UInt8.ofNat_toNat]

def Continues (byte : UInt8) : Prop := 0x80 ≤ byte.toNat ∧ byte.toNat ≤ 0xBF

section Characters

variable {first second third fourth : UInt8} {n : Nat}

theorem encodeChar_one (short : first < 0x80) : encodeChar (Char.ofNat first.toNat) = [first] := by
  rw [UInt8.lt_iff_toNat_lt] at short
  have small : first.toNat < 0x80 := short
  rw [encodeChar, toNat_charOfNat (.inl (by omega))]
  dsimp only
  rw [if_pos small, UInt8.ofNat_toNat]

theorem encodeChar_two (bits : n = (first.toNat - 0xC0) * 64 + (second.toNat - 0x80))
    (low : 0xC2 ≤ first.toNat) (high : first.toNat < 0xE0) (next : Continues second) :
    encodeChar (Char.ofNat n) = [first, second] := by
  obtain ⟨_, _⟩ := next
  rw [encodeChar, toNat_charOfNat (by omega)]
  have powers : Nat.pow 64 0 = 1 := rfl
  simp only [powers, Nat.div_one]
  rw [if_neg (by omega), if_pos (by omega), ofNat_eq first (by omega),
    ofNat_eq second (by omega)]

theorem encodeChar_three
    (bits : n = ((first.toNat - 0xE0) * 64 + (second.toNat - 0x80)) * 64 + (third.toNat - 0x80))
    (low : 0xE0 ≤ first.toNat) (high : first.toNat < 0xF0) (next : Continues second)
    (last : Continues third) (long : 0x800 ≤ n) (valid : n < 0xD800 ∨ 0xDFFF < n) :
    encodeChar (Char.ofNat n) = [first, second, third] := by
  obtain ⟨_, _⟩ := next
  obtain ⟨_, _⟩ := last
  rw [encodeChar, toNat_charOfNat (by omega)]
  have powers : Nat.pow 64 0 = 1 ∧ Nat.pow 64 1 = 64 := ⟨rfl, rfl⟩
  simp only [powers, Nat.div_one]
  rw [if_neg (by omega), if_neg (by omega), if_pos (by omega), ofNat_eq first (by omega),
    ofNat_eq second (by omega), ofNat_eq third (by omega)]

theorem encodeChar_four
    (bits : n = (((first.toNat - 0xF0) * 64 + (second.toNat - 0x80)) * 64 +
      (third.toNat - 0x80)) * 64 + (fourth.toNat - 0x80))
    (low : 0xF0 ≤ first.toNat) (next : Continues second) (inner : Continues third)
    (last : Continues fourth) (long : 0x10000 ≤ n) (valid : n < 0x110000) :
    encodeChar (Char.ofNat n) = [first, second, third, fourth] := by
  obtain ⟨_, _⟩ := next
  obtain ⟨_, _⟩ := inner
  obtain ⟨_, _⟩ := last
  rw [encodeChar, toNat_charOfNat (by omega)]
  have powers : Nat.pow 64 0 = 1 ∧ Nat.pow 64 1 = 64 ∧ Nat.pow 64 2 = 4096 := ⟨rfl, rfl, rfl⟩
  simp only [powers, Nat.div_one]
  rw [if_neg (by omega), if_neg (by omega), if_neg (by omega), ofNat_eq first (by omega),
    ofNat_eq second (by omega), ofNat_eq third (by omega),
    ofNat_eq fourth (by omega)]

end Characters

theorem exists_encodeChar_of_decodeFrom {byte : UInt8}
    (read : decodeFrom none position (byte :: rest) = .ok text) :
    ∃ c others later after, text = c :: others ∧ byte :: rest = encodeChar c ++ later ∧
      decodeFrom none after later = .ok others := by
  rw [decodeFrom] at read
  split at read
  · rename_i short
    obtain ⟨others, later, equal⟩ := eq_ok_of_bind read
    cases equal
    exact ⟨_, others, rest, _, rfl, by rw [encodeChar_one short]; rfl, later⟩
  · split at read
    · cases read
    · rename_i pending announced
      obtain ⟨low, high, rfl⟩ | ⟨least, greatest, rfl, bounds⟩ | ⟨least, greatest, rfl, bounds⟩ :=
        cases_of_ofFirst? announced
      · obtain ⟨second, rest, others, rfl, low', high', rfl, later⟩ := of_decodeFrom_last rfl read
        refine ⟨_, others, rest, _, rfl, ?_, later⟩
        rw [encodeChar_two rfl low high ⟨low', high'⟩]
        rfl
      · obtain ⟨second, rest, rfl, low, high, read⟩ := of_decodeFrom_next (by dsimp only; omega) read
        obtain ⟨third, rest, others, rfl, low', high', rfl, later⟩ := of_decodeFrom_last rfl read
        dsimp only at low high low' high'
        refine ⟨_, others, rest, _, rfl, ?_, later⟩
        rw [encodeChar_three rfl (by omega) (by omega) (by unfold Continues; omega) ⟨low', high'⟩
          (by omega) (by omega)]
        rfl
      · obtain ⟨second, rest, rfl, low, high, read⟩ := of_decodeFrom_next (by dsimp only; omega) read
        obtain ⟨third, rest, rfl, low', high', read⟩ := of_decodeFrom_next (by dsimp only; omega) read
        obtain ⟨fourth, rest, others, rfl, low'', high'', rfl, later⟩ := of_decodeFrom_last rfl read
        dsimp only at low high low' high' low'' high''
        refine ⟨_, others, rest, _, rfl, ?_, later⟩
        rw [encodeChar_four rfl (by omega) (by unfold Continues; omega) ⟨low', high'⟩
          ⟨low'', high''⟩ (by omega) (by omega)]
        rfl

theorem eq_encode_of_decodeFrom (read : decodeFrom none position bytes = .ok text) :
    bytes = encode text := by
  induction text generalizing position bytes with
  | nil =>
    cases bytes with
    | nil => rfl
    | cons byte rest =>
      obtain ⟨_, _, _, _, spelled, _⟩ := exists_encodeChar_of_decodeFrom read
      cases spelled
  | cons c text ih =>
    cases bytes with
    | nil => cases read
    | cons byte rest =>
      obtain ⟨d, others, later, after, spelled, whole, next⟩ := exists_encodeChar_of_decodeFrom read
      cases spelled
      rw [whole, ih next]
      rfl

/-- Just those bytes are read that some text is written as, and they are read as that text. -/
theorem decode_eq_ok : decode bytes = .ok text ↔ bytes = encode text := by
  constructor
  · exact eq_encode_of_decodeFrom
  · rintro rfl
    exact decode_encode text

/-! Texts with surrogates. -/

section Surrogates

variable {points : Points} {content : List UInt8} {cause : Unencodable}

theorem encodePoints_ofString (s : String) : encodePoints s = .ok (encode s.toList) := by
  have all : (Points.ofString s).dropWhile (fun p => p.char?.isSome) = [] := by
    rw [List.dropWhile_eq_nil_iff, Points.ofString, List.forall_mem_map]
    exact fun _ _ => rfl
  have chars : (Points.ofString s).filterMap Point.char? = s.toList := by
    rw [Points.ofString, List.filterMap_map]
    exact List.filterMap_some
  simp only [encodePoints, all, chars]

theorem exists_surrogate_of_encodePoints (refused : encodePoints points = .error cause) :
    ∃ offset, .surrogate offset ∈ points := by
  by_contra plain
  obtain ⟨s, rfl⟩ := Points.exists_string (not_exists.mp plain)
  rw [encodePoints_ofString] at refused
  cases refused

theorem encodePoints_eq_ok :
    encodePoints points = .ok content ↔ ∃ s : String, points = s ∧ content = encode s.toList := by
  constructor
  · intro encoded
    have all : ∀ p ∈ points, p.char?.isSome = true := by
      unfold encodePoints at encoded
      split at encoded
      · rename_i dropped
        exact List.dropWhile_eq_nil_iff.mp dropped
      · cases encoded
    obtain ⟨s, rfl⟩ := Points.exists_string fun offset inside => Bool.false_ne_true (all _ inside)
    rw [encodePoints_ofString] at encoded
    exact ⟨s, rfl, (Except.ok.inj encoded).symm⟩
  · rintro ⟨s, rfl, rfl⟩
    exact encodePoints_ofString s

end Surrogates

end Utf8

end SampleTypes.Text
