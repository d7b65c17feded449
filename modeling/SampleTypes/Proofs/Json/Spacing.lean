import SampleTypes.Json.Lexer
import SampleTypes.Proofs.Json.Quoting
import SampleTypes.Text.Blank

/-! Texts with space between them. Space ends every token, so the tokens of two such texts are those of the
first and then those of the second. -/

namespace SampleTypes.Json

theorem isSpace_iff {c : Char} : isSpace c = true ↔ c = ' ' ∨ c = '\t' ∨ c = '\n' ∨ c = '\r' := by
  simp [isSpace, or_assoc]

theorem isDigit_of_space {c : Char} (space : isSpace c = true) : isDigit c = false := by
  rcases isSpace_iff.mp space with rfl | rfl | rfl | rfl <;> rfl

def Token.isSound : Token → Bool
  | .stray _ | .broken _ => false
  | _ => true

/-- The text is empty or starts with space. -/
inductive Apart : List Char → Prop where
  | nil : Apart []
  | space {c : Char} (rest : List Char) (space : isSpace c = true) : Apart (c :: rest)

theorem Apart.each {P : ∀ text, Apart text → Prop} {text : List Char} (apart : Apart text)
    (nil : P [] .nil) (blank : ∀ rest, P (' ' :: rest) (.space rest rfl))
    (tab : ∀ rest, P ('\t' :: rest) (.space rest rfl)) (lineFeed : ∀ rest, P ('\n' :: rest) (.space rest rfl))
    (carriageReturn : ∀ rest, P ('\r' :: rest) (.space rest rfl)) : P text apart := by
  cases apart with
  | nil => exact nil
  | space rest space =>
    rcases isSpace_iff.mp space with rfl | rfl | rfl | rfl
    · exact blank rest
    · exact tab rest
    · exact lineFeed rest
    · exact carriageReturn rest

/-- What is found at the start of a text, when another text comes after it. -/
def followedBy {α : Type} (after : List Char) (found : α × List Char) : α × List Char :=
  (found.1, found.2 ++ after)

section Scanning

variable {after : List Char}

theorem digits_append (apart : Apart after) (text : List Char) :
    (text ++ after).takeWhile isDigit = text.takeWhile isDigit ∧
      (text ++ after).dropWhile isDigit = text.dropWhile isDigit ++ after := by
  induction text with
  | nil =>
    cases apart with
    | nil => exact ⟨rfl, rfl⟩
    | space rest space => simp [isDigit_of_space space]
  | cons c rest ih =>
    rw [List.cons_append, List.takeWhile_cons, List.takeWhile_cons, List.dropWhile_cons,
      List.dropWhile_cons, ih.1, ih.2]
    cases isDigit c <;> exact ⟨rfl, rfl⟩

theorem scanInteger_append (apart : Apart after) (text : List Char) :
    scanInteger (text ++ after) = (scanInteger text).map (followedBy after) := by
  cases text with
  | nil => cases apart using Apart.each <;> rfl
  | cons c rest =>
    obtain ⟨taken, left⟩ := digits_append apart rest
    rw [List.cons_append, scanInteger, scanInteger, taken, left]
    split
    · rfl
    · split <;> rfl

theorem scanFraction_append (apart : Apart after) (text : List Char) :
    scanFraction (text ++ after) = (scanFraction text).map (followedBy after) := by
  cases text with
  | nil => cases apart using Apart.each <;> rfl
  | cons c rest =>
    obtain ⟨taken, left⟩ := digits_append apart rest
    by_cases point : c = '.'
    · subst point
      simp only [List.cons_append, scanFraction, taken, left]
      split <;> rfl
    · simp [scanFraction, point]

theorem scanSign_append (apart : Apart after) (text : List Char) :
    scanSign (text ++ after) = followedBy after (scanSign text) := by
  cases text with
  | nil => cases apart using Apart.each <;> rfl
  | cons c rest =>
    by_cases minus : c = '-'
    · rw [minus]
      rfl
    · by_cases plus : c = '+'
      · rw [plus]
        rfl
      · simp [scanSign, minus, plus, followedBy]

theorem scanExponent_append (apart : Apart after) (text : List Char) :
    scanExponent (text ++ after) = (scanExponent text).map (followedBy after) := by
  cases text with
  | nil => cases apart using Apart.each <;> rfl
  | cons c rest =>
    obtain ⟨taken, left⟩ := digits_append apart (scanSign rest).2
    rw [List.cons_append, scanExponent, scanExponent, scanSign_append apart]
    simp only [followedBy, taken, left]
    split
    · split <;> rfl
    · rfl

theorem optionally_append {α : Type} {scan : List Char → Option (α × List Char)}
    (same : ∀ text, scan (text ++ after) = (scan text).map (followedBy after)) (text : List Char) :
    optionally scan (text ++ after) = followedBy after (optionally scan text) := by
  rw [optionally, optionally, same]
  cases scan text <;> rfl

theorem scanNumber_append (apart : Apart after) (negative : Bool) (text : List Char) :
    scanNumber negative (text ++ after) = (scanNumber negative text).map (followedBy after) := by
  rw [scanNumber, scanNumber, scanInteger_append apart]
  cases scanInteger text with
  | none => rfl
  | some found =>
    simp only [Option.map_some, Option.bind_eq_bind, Option.bind_some, followedBy,
      optionally_append (scanFraction_append apart), optionally_append (scanExponent_append apart)]
    rfl

theorem dropWord?_append (apart : Apart after) {word : List Char}
    (solid : ∀ c ∈ word, isSpace c = false) (text : List Char) :
    dropWord? word (text ++ after) = (dropWord? word text).map (· ++ after) := by
  have front : word.isPrefixOf (text ++ after) = word.isPrefixOf text := by
    induction word generalizing text with
    | nil => rfl
    | cons d word ih =>
      rw [List.forall_mem_cons] at solid
      cases text with
      | nil =>
        cases apart with
        | nil => rfl
        | @space c rest space =>
          have differ : d ≠ c := by
            rintro rfl
            rw [solid.1] at space
            cases space
          simp [List.isPrefixOf, differ]
      | cons c rest => simp [List.isPrefixOf, ih solid.2 rest]
  rw [dropWord?, dropWord?, front]
  split
  · rename_i found
    have short := (List.isPrefixOf_iff_prefix.mp found).length_le
    rw [List.drop_append_of_le_length short]
    rfl
  · rfl

theorem scanLiteral_append (apart : Apart after) (c : Char) (text : List Char) :
    scanLiteral c (text ++ after) = (scanLiteral c text).map (followedBy after) := by
  have letters : (literals.all fun literal => literal.2.1.toList.all fun d => !isSpace d) = true := rfl
  have solid : ∀ literal ∈ literals, ∀ d ∈ literal.2.1.toList, isSpace d = false := by
    simpa only [List.all_eq_true, Bool.not_eq_true'] using letters
  unfold scanLiteral
  generalize literals = listed at solid ⊢
  induction listed with
  | nil => rfl
  | cons literal others ih =>
    obtain ⟨first, word, token⟩ := literal
    rw [List.forall_mem_cons] at solid
    rw [List.findSome?_cons, List.findSome?_cons, ih solid.2]
    dsimp only at solid ⊢
    rw [dropWord?_append apart solid.1]
    split_ifs
    · cases dropWord? word.toList text <;> rfl
    · rfl

theorem scanPlain_append (apart : Apart after) (c : Char) (text : List Char) :
    scanPlain c (text ++ after) = followedBy after (scanPlain c text) := by
  have number : (if c = '-' then scanNumber true (text ++ after) else scanNumber false (c :: (text ++ after))) =
      (if c = '-' then scanNumber true text else scanNumber false (c :: text)).map (followedBy after) := by
    rw [← List.cons_append, scanNumber_append apart, scanNumber_append apart]
    split <;> rfl
  rw [scanPlain, scanPlain, scanLiteral_append apart, number]
  cases scanLiteral c text with
  | some found => rfl
  | none =>
    simp only [Option.map_none]
    cases (if c = '-' then scanNumber true text else scanNumber false (c :: text)) <;> rfl

theorem consUnit_eq_ok {unit : Nat} {units : List Nat} {rest : List Char}
    {scanned : Except Malformed (List Nat × List Char)} : consUnit unit scanned = .ok (units, rest) ↔
      ∃ others, scanned = .ok (others, rest) ∧ units = unit :: others := by
  cases scanned with
  | error cause => exact ⟨nofun, nofun⟩
  | ok found =>
    constructor
    · rintro same
      cases same
      exact ⟨found.1, rfl, rfl⟩
    · rintro ⟨others, same, rfl⟩
      cases same
      rfl

theorem exists_of_scanUnits {text left : List Char} {units : List Nat}
    (scanned : scanUnits text = .ok (units, left)) :
    ∃ body, text = body ++ '"' :: left ∧
      ∀ other, scanUnits (body ++ '"' :: other) = .ok (units, other) := by
  fun_induction scanUnits text generalizing units left with
  | case1 | case3 | case4 | case5 | case7 | case8 | case10 => cases scanned
  | case2 rest =>
    cases scanned
    exact ⟨[], rfl, fun other => by rw [List.nil_append, scanUnits]⟩
  | case6 a b c d next rest unit digits ih =>
    obtain ⟨others, inner, rfl⟩ := consUnit_eq_ok.mp scanned
    obtain ⟨body, spelled, elsewhere⟩ := ih inner
    refine ⟨'\\' :: 'u' :: a :: b :: c :: d :: body, by rw [spelled]; rfl, fun other => ?_⟩
    -- The four digits are read only if a character follows, which the closing quote does.
    have more : body ++ '"' :: other ≠ [] := by simp
    obtain ⟨first, others', opened⟩ := List.exists_cons_of_ne_nil more
    have read := elsewhere other
    rw [opened] at read
    simp only [List.cons_append, opened]
    rw [scanUnits.eq_def]
    simp only [digits, read, consUnit]
  | case9 c rest _ single plain escape ih =>
    obtain ⟨others, inner, rfl⟩ := consUnit_eq_ok.mp scanned
    obtain ⟨body, spelled, elsewhere⟩ := ih inner
    refine ⟨'\\' :: c :: body, by rw [spelled]; rfl, fun other => ?_⟩
    rw [List.cons_append, List.cons_append, scanUnits]
    · simp only [escape, elsewhere, consUnit]
    · exact fun _ _ _ _ _ same _ => single same
    · exact single
  | case11 c rest quote alone _ _ escape visible ih =>
    obtain ⟨others, inner, rfl⟩ := consUnit_eq_ok.mp scanned
    obtain ⟨body, spelled, elsewhere⟩ := ih inner
    have backslash : c ≠ '\\' := by
      rintro rfl
      cases rest with
      | nil => exact alone rfl rfl
      | cons d rest => exact escape d rest rfl rfl
    refine ⟨c :: body, by rw [spelled]; rfl, fun other => ?_⟩
    rw [List.cons_append, scanUnits_plain (Char.not_lt.mp visible) quote backslash, elsewhere]
    rfl

theorem scanString_append {text : List Char} (sound : (scanString text).1.isSound) :
    scanString (text ++ after) = followedBy after (scanString text) := by
  cases scanned : scanUnits text with
  | error cause =>
    rw [scanString, scanned] at sound
    cases sound
  | ok found =>
    obtain ⟨units, left⟩ := found
    obtain ⟨body, rfl, elsewhere⟩ := exists_of_scanUnits scanned
    rw [scanString, scanString, scanned, List.append_assoc, List.cons_append, elsewhere]
    rfl

theorem scanString_append_space {text : List Char} (space : ∀ d ∈ after, isSpace d = true)
    (sound : (scanString (text ++ after)).1.isSound) :
    scanString (text ++ after) = followedBy after (scanString text) := by
  cases scanned : scanUnits (text ++ after) with
  | error cause =>
    rw [scanString, scanned] at sound
    cases sound
  | ok found =>
    obtain ⟨units, left⟩ := found
    obtain ⟨body, spelled, elsewhere⟩ := exists_of_scanUnits scanned
    have unquoted : '"' ∉ after := fun here => absurd (space '"' here) (by decide)
    have closed : ∃ inner, text = body ++ '"' :: inner ∧ left = inner ++ after := by
      rcases List.append_eq_append_iff.mp spelled with ⟨more, rfl, later⟩ | ⟨more, rfl, later⟩
      · rw [later] at unquoted
        exact absurd (List.mem_append_right more List.mem_cons_self) unquoted
      · cases more with
        | nil =>
          rw [List.nil_append] at later
          rw [← later] at unquoted
          exact absurd List.mem_cons_self unquoted
        | cons quote inner =>
          cases later
          exact ⟨inner, rfl, rfl⟩
    obtain ⟨inner, rfl, rfl⟩ := closed
    rw [scanString, scanString, scanned, elsewhere]
    rfl

theorem scan_append (apart : Apart after) {c : Char} {text : List Char} (sound : (scan c text).1.isSound) :
    scan c (text ++ after) = followedBy after (scan c text) := by
  unfold scan at sound ⊢
  split
  case h_7 => exact scanString_append sound
  case h_8 => exact scanPlain_append apart c text
  all_goals rfl

theorem scan_append_space (space : ∀ d ∈ after, isSpace d = true) {c : Char} {text : List Char}
    (sound : (scan c (text ++ after)).1.isSound) :
    scan c (text ++ after) = followedBy after (scan c text) := by
  have apart : Apart after := by
    cases after with
    | nil => exact .nil
    | cons d rest => exact .space rest (space d List.mem_cons_self)
  unfold scan at sound ⊢
  split
  case h_7 => exact scanString_append_space space sound
  case h_8 => exact scanPlain_append apart c text
  all_goals rfl

end Scanning

/-! Tokens of a whole text. -/

def Sound (text : List Char) : Prop := ∀ token ∈ lex text, token.isSound

section Lexing

variable {text after : List Char}

theorem lex_of_space (space : ∀ c ∈ text, isSpace c = true) (after : List Char) :
    lex (text ++ after) = lex after := by
  induction text with
  | nil => rfl
  | cons c text ih =>
    rw [List.forall_mem_cons] at space
    rw [List.cons_append, lex, if_pos space.1, ih space.2]

theorem sound_of_scan {c : Char} (visible : ¬isSpace c = true) (sound : Sound (c :: text)) :
    (scan c text).1.isSound ∧ Sound (scan c text).2 := by
  unfold Sound at sound
  rw [lex, if_neg visible, List.forall_mem_cons] at sound
  exact sound

/-- Space keeps the tokens before it apart from those after it. -/
theorem lex_append (apart : Apart after) (sound : Sound text) :
    lex (text ++ after) = lex text ++ lex after := by
  fun_induction lex text with
  | case1 => rfl
  | case2 c text space ih =>
    have inner : Sound text := by rwa [Sound, lex, if_pos space] at sound
    rw [List.cons_append, lex, if_pos space, ih inner]
  | case3 c text visible ih =>
    obtain ⟨first, others⟩ := sound_of_scan visible sound
    rw [List.cons_append, lex, if_neg visible, scan_append apart first]
    simp only [followedBy]
    rw [ih others, List.cons_append]

theorem lex_append_space (space : ∀ c ∈ after, isSpace c = true) (sound : Sound (text ++ after)) :
    lex (text ++ after) = lex text := by
  fun_induction lex text with
  | case1 =>
    have none_left := lex_of_space space []
    rw [List.append_nil, lex] at none_left
    exact none_left
  | case2 c text blank ih =>
    have inner : Sound (text ++ after) := by
      rwa [Sound, List.cons_append, lex, if_pos blank] at sound
    rw [List.cons_append, lex, if_pos blank, ih inner]
  | case3 c text visible ih =>
    obtain ⟨first, others⟩ := sound_of_scan visible sound
    change (scan c (text ++ after)).1.isSound at first
    change Sound (scan c (text ++ after)).2 at others
    rw [scan_append_space space first] at others
    rw [List.cons_append, lex, if_neg visible, scan_append_space space first]
    simp only [followedBy] at others ⊢
    rw [ih others]

end Lexing

end SampleTypes.Json
