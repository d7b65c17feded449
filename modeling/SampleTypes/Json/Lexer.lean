import SampleTypes.Json.Token

/-!
`lex` cuts a whole text into tokens and drops the space between them. It ends because every token
takes at least its first character off the text.
-/

namespace SampleTypes.Json

theorem eq_ok_of_consUnit {unit : Nat} {units : List Nat} {rest : List Char}
    {scanned : Except Malformed (List Nat × List Char)}
    (h : consUnit unit scanned = .ok (units, rest)) : ∃ others, scanned = .ok (others, rest) := by
  rcases scanned with _ | ⟨others, after⟩
  · cases h
  · simp only [consUnit, Except.ok.injEq, Prod.mk.injEq] at h
    exact ⟨others, by rw [h.2]⟩

theorem suffix_of_scanUnits {text rest : List Char} {units : List Nat}
    (h : scanUnits text = .ok (units, rest)) : rest <:+ text := by
  fun_induction scanUnits text generalizing units rest with
  | case1 | case3 | case4 | case5 | case7 | case8 | case10 => cases h
  | case2 => cases h; exact List.suffix_cons _ _
  | case6 | case9 | case11 =>
    rename_i ih
    obtain ⟨others, scanned⟩ := eq_ok_of_consUnit h
    exact (ih scanned).trans (by simp [List.suffix_cons_iff])

theorem suffix_of_scanInteger {text digits rest : List Char}
    (h : scanInteger text = some (digits, rest)) : rest <:+ text.tail := by
  unfold scanInteger at h
  split at h
  · cases h
  · split at h
    · cases h
      exact List.suffix_rfl
    · split at h
      · cases h
        exact List.dropWhile_suffix isDigit
      · cases h

theorem suffix_of_scanFraction {text digits rest : List Char}
    (h : scanFraction text = some (digits, rest)) : rest <:+ text := by
  unfold scanFraction at h
  split at h
  · rename_i after
    split at h
    · cases h
    · cases h
      exact (List.dropWhile_suffix isDigit).trans (List.suffix_cons '.' after)
  · cases h

theorem scanSign_suffix (text : List Char) : (scanSign text).2 <:+ text := by
  unfold scanSign
  split
  · exact List.suffix_cons _ _
  · exact List.suffix_cons _ _
  · exact List.suffix_rfl

theorem suffix_of_scanExponent {text rest : List Char} {exponent : Int}
    (h : scanExponent text = some (exponent, rest)) : rest <:+ text := by
  unfold scanExponent at h
  split at h
  · cases h
  · rename_i c after
    have digits : ((scanSign after).2.dropWhile isDigit) <:+ (scanSign after).2 :=
      List.dropWhile_suffix isDigit
    split at h
    · dsimp only at h
      split at h
      · cases h
      · cases h
        exact (digits.trans (scanSign_suffix after)).trans (List.suffix_cons c after)
    · cases h

theorem optionally_suffix {α : Type} {scan : List Char → Option (α × List Char)}
    (shorter : ∀ text part rest, scan text = some (part, rest) → rest <:+ text)
    (text : List Char) : (optionally scan text).2 <:+ text := by
  unfold optionally
  split
  · exact shorter _ _ _ ‹_›
  · exact List.suffix_rfl

theorem suffix_of_scanNumber {negative : Bool} {text rest : List Char} {token : Token}
    (h : scanNumber negative text = some (token, rest)) : rest <:+ text.tail := by
  simp only [scanNumber, Option.bind_eq_bind, Option.bind_eq_some_iff] at h
  obtain ⟨⟨integer, afterInteger⟩, scanned, h⟩ := h
  have fraction : (optionally scanFraction afterInteger).2 <:+ afterInteger :=
    optionally_suffix (fun _ _ _ => suffix_of_scanFraction) _
  have exponent : ∀ after, (optionally scanExponent after).2 <:+ after :=
    optionally_suffix (fun _ _ _ => suffix_of_scanExponent)
  cases h
  exact (exponent _).trans (fraction.trans (suffix_of_scanInteger scanned))

theorem suffix_of_scanLiteral {c : Char} {text rest : List Char} {token : Token}
    (h : scanLiteral c text = some (token, rest)) : rest <:+ text := by
  obtain ⟨⟨first, word, literal⟩, _, found⟩ := List.exists_of_findSome?_eq_some h
  dsimp only at found
  split at found
  · obtain ⟨after, dropped, equal⟩ := Option.map_eq_some_iff.mp found
    cases equal
    unfold dropWord? at dropped
    split at dropped
    · cases dropped
      exact List.drop_suffix _ _
    · cases dropped
  · cases found

theorem scanString_suffix (text : List Char) : (scanString text).2 <:+ text := by
  unfold scanString
  split
  · exact suffix_of_scanUnits ‹_›
  · exact List.nil_suffix

theorem scanPlain_suffix (c : Char) (text : List Char) : (scanPlain c text).2 <:+ text := by
  unfold scanPlain
  split
  · exact suffix_of_scanLiteral ‹_›
  · split
    · rename_i scanned
      split at scanned
      · exact (suffix_of_scanNumber scanned).trans (List.tail_suffix text)
      · exact suffix_of_scanNumber scanned
    · exact List.suffix_rfl

theorem scan_suffix (c : Char) (text : List Char) : (scan c text).2 <:+ text := by
  unfold scan
  split <;>
    first
    | exact List.suffix_rfl
    | exact scanString_suffix text
    | exact scanPlain_suffix _ text

def lex : List Char → List Token
  | [] => []
  | c :: text => if isSpace c then lex text else (scan c text).1 :: lex (scan c text).2
termination_by text => text.length
decreasing_by
  · simp
  · have := (scan_suffix c text).length_le
    simp only [List.length_cons]
    omega

end SampleTypes.Json
