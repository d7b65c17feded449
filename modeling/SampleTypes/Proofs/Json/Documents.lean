import SampleTypes.Json.Reader
import SampleTypes.Proofs.Json.Spacing
import SampleTypes.Proofs.Runs
import SampleTypes.Proofs.Text.Trimming

/-! Documents and what may stand around them. Only space does, so trimming a document drops nothing of it,
and a document that more than space comes after is none. -/

namespace SampleTypes.Json

/-! The last character of a token. -/

def EndsBefore (rest text : List Char) : Prop :=
  ∃ used c, text = used ++ c :: rest ∧ Text.isBlank c = false

theorem isBlank_of_space {c : Char} (space : isSpace c = true) : Text.isBlank c = true := by
  rcases isSpace_iff.mp space with rfl | rfl | rfl | rfl <;> rfl

theorem isBlank_of_digit {c : Char} (digit : isDigit c = true) : Text.isBlank c = false := by
  rw [isDigit, Bool.and_eq_true, decide_eq_true_iff, decide_eq_true_iff] at digit
  have low : '0'.toNat ≤ c.toNat := digit.1
  have high : c.toNat ≤ '9'.toNat := digit.2
  have zero : '0'.toNat = 48 := rfl
  have nine : '9'.toNat = 57 := rfl
  simp only [Text.isBlank, Text.blankRanges, Text.Ranges.contains, List.any_cons, List.any_nil, Bool.or_false,
    Bool.or_eq_false_iff, Bool.and_eq_false_iff, decide_eq_false_iff_not]
  omega

section Ends

variable {text middle rest : List Char}

namespace EndsBefore

theorem of_suffix (ends : EndsBefore rest middle) (inside : middle <:+ text) : EndsBefore rest text := by
  obtain ⟨before, rfl⟩ := inside
  obtain ⟨used, c, rfl, visible⟩ := ends
  exact ⟨before ++ used, c, (List.append_assoc _ _ _).symm, visible⟩

theorem suffix (ends : EndsBefore rest text) : rest <:+ text := by
  obtain ⟨used, c, rfl, _⟩ := ends
  exact (List.suffix_cons c rest).trans (List.suffix_append used _)

theorem cons (ends : EndsBefore rest text) (c : Char) : EndsBefore rest (c :: text) :=
  ends.of_suffix (List.suffix_cons c text)

theorem optionally {α : Type} {scan : List Char → Option (α × List Char)} (ends : EndsBefore middle text)
    (part : ∀ {found rest}, scan middle = some (found, rest) → EndsBefore rest middle) :
    EndsBefore (optionally scan middle).2 text := by
  unfold Json.optionally
  split
  · exact (part ‹_›).of_suffix ends.suffix
  · exact ends

end EndsBefore

theorem endsBefore_digits (digits : text.takeWhile isDigit ≠ []) :
    EndsBefore (text.dropWhile isDigit) text := by
  obtain nil | ⟨front, d, taken⟩ := List.eq_nil_or_concat (text.takeWhile isDigit)
  · exact absurd nil digits
  · refine ⟨front, d, ?_, isBlank_of_digit ?_⟩
    · calc text = text.takeWhile isDigit ++ text.dropWhile isDigit :=
          (List.takeWhile_append_dropWhile).symm
        _ = front ++ d :: text.dropWhile isDigit := by rw [taken]; simp
    · have each : ∀ c ∈ text.takeWhile isDigit, isDigit c = true := List.all_eq_true.mp List.all_takeWhile
      exact each d (by rw [taken]; simp)

theorem endsBefore_of_scanInteger {digits : List Char} (found : scanInteger text = some (digits, rest)) :
    EndsBefore rest text := by
  unfold scanInteger at found
  split at found
  · cases found
  · rename_i c after
    split at found
    · rename_i zero
      cases found
      exact ⟨[], c, rfl, by rw [zero]; rfl⟩
    · split at found
      · rename_i digit
        cases found
        have ends : EndsBefore ((c :: after).dropWhile isDigit) (c :: after) :=
          endsBefore_digits (by simp [digit])
        rwa [List.dropWhile_cons_of_pos digit] at ends
      · cases found

theorem endsBefore_of_scanFraction {digits : List Char} (found : scanFraction text = some (digits, rest)) :
    EndsBefore rest text := by
  unfold scanFraction at found
  split at found
  · split at found
    · cases found
    · rename_i after some_digit
      cases found
      exact (endsBefore_digits (by simpa using some_digit)).cons '.'
  · cases found

theorem endsBefore_of_scanExponent {exponent : Int} (found : scanExponent text = some (exponent, rest)) :
    EndsBefore rest text := by
  unfold scanExponent at found
  split at found
  · cases found
  · rename_i c after
    split at found
    · dsimp only at found
      split at found
      · cases found
      · rename_i some_digit
        cases found
        have ends : EndsBefore ((scanSign after).2.dropWhile isDigit) (scanSign after).2 :=
          endsBefore_digits (by simpa using some_digit)
        exact (ends.of_suffix (scanSign_suffix after)).cons c
    · cases found

theorem endsBefore_of_scanNumber {negative : Bool} {token : Token}
    (found : scanNumber negative text = some (token, rest)) : EndsBefore rest text := by
  simp only [scanNumber, Option.bind_eq_bind, Option.bind_eq_some_iff] at found
  obtain ⟨⟨integer, after⟩, scanned, found⟩ := found
  cases found
  exact ((endsBefore_of_scanInteger scanned).optionally endsBefore_of_scanFraction).optionally
    endsBefore_of_scanExponent

theorem endsBefore_of_scanLiteral {c : Char} {token : Token}
    (found : scanLiteral c text = some (token, rest)) : EndsBefore rest text := by
  have ending : ∀ literal ∈ literals, ∃ d ∈ literal.2.1.toList.getLast?, Text.isBlank d = false := by
    simp only [literals, List.forall_mem_cons]
    exact ⟨⟨'l', rfl, rfl⟩, ⟨'e', rfl, rfl⟩, ⟨'e', rfl, rfl⟩, ⟨'N', rfl, rfl⟩, ⟨'y', rfl, rfl⟩,
      ⟨'y', rfl, rfl⟩, List.forall_mem_nil _⟩
  obtain ⟨⟨first, word, literal⟩, listed, found⟩ := List.exists_of_findSome?_eq_some found
  obtain ⟨d, last, visible⟩ := ending _ listed
  obtain ⟨front, spelled⟩ := List.getLast?_eq_some_iff.mp last
  dsimp only at found spelled
  split at found
  · obtain ⟨after, dropped, equal⟩ := Option.map_eq_some_iff.mp found
    cases equal
    unfold dropWord? at dropped
    split at dropped
    · rename_i start
      cases dropped
      obtain ⟨others, rfl⟩ := List.isPrefixOf_iff_prefix.mp start
      rw [List.drop_left, spelled]
      exact ⟨front, d, by simp, visible⟩
    · cases dropped
  · cases found

theorem endsBefore_scanPlain {c : Char} (sound : (scanPlain c text).1.isSound) :
    EndsBefore (scanPlain c text).2 (c :: text) := by
  unfold scanPlain at sound ⊢
  split
  · exact (endsBefore_of_scanLiteral ‹_›).cons c
  · rename_i none_found
    rw [none_found] at sound
    split
    · rename_i number
      split at number
      · exact (endsBefore_of_scanNumber number).cons c
      · exact endsBefore_of_scanNumber number
    · rename_i none_found
      rw [none_found] at sound
      cases sound

theorem endsBefore_scan {c : Char} (sound : (scan c text).1.isSound) :
    EndsBefore (scan c text).2 (c :: text) := by
  revert sound
  unfold scan
  split <;> intro sound
  case h_7 =>
    unfold scanString at sound ⊢
    split
    · rename_i scanned
      obtain ⟨body, rfl, _⟩ := exists_of_scanUnits scanned
      exact ⟨'"' :: body, '"', rfl, rfl⟩
    · rename_i failed
      rw [failed] at sound
      cases sound
  case h_8 => exact endsBefore_scanPlain sound
  all_goals exact ⟨[], _, rfl, rfl⟩

end Ends

/-! The blanks around a text of tokens. -/

/-- The characters with which a token starts that is no number without a sign. -/
def starters : List Char := "[]\x7b\x7d,:\"ntfNI-".toList

theorem scan_stray {c : Char} (other : c ∉ starters) (plain : isDigit c = false) (text : List Char) :
    scan c text = (.stray c, text) := by
  have named : ∀ literal ∈ literals, literal.1 ∈ starters := by decide
  have literal : scanLiteral c text = none := by
    refine List.findSome?_eq_none_iff.mpr fun literal listed => if_neg ?_
    rintro rfl
    exact other (named literal listed)
  have number : scanNumber false (c :: text) = none := by
    have zero : c ≠ '0' := by
      rintro rfl
      cases plain
    simp [scanNumber, scanInteger, zero, plain]
  have minus : c ≠ '-' := by
    rintro rfl
    exact other (by decide)
  unfold scan
  split
  case h_8 => rw [scanPlain, literal, if_neg minus, number]
  all_goals exact absurd (by decide) other

section Around

variable {c : Char} {text : List Char}

theorem visible_of_sound (sound : Sound (c :: text)) (visible : ¬isSpace c = true) :
    Text.isBlank c = false := by
  have solid : (starters.all fun d => !Text.isBlank d) = true := rfl
  by_contra blank
  have other : c ∉ starters := fun here => blank (by simpa using List.all_eq_true.mp solid c here)
  have plain : isDigit c = false := by
    by_contra digit
    exact blank (isBlank_of_digit (by simpa using digit))
  have first := (sound_of_scan visible sound).1
  rw [scan_stray other plain] at first
  cases first

theorem space_margin (sound : Sound text) : ∀ d ∈ Text.margin text, isSpace d = true := by
  induction text with
  | nil => exact List.forall_mem_nil _
  | cons c text ih =>
    by_cases space : isSpace c = true
    · have inner : Sound text := by rwa [Sound, lex, if_pos space] at sound
      rw [Text.margin, List.takeWhile_cons_of_pos (isBlank_of_space space)]
      exact List.forall_mem_cons.mpr ⟨space, ih inner⟩
    · rw [Text.margin, List.takeWhile_cons_of_neg (by simp [visible_of_sound sound space])]
      exact List.forall_mem_nil _

theorem endsBefore_space (sound : Sound text) : (∀ d ∈ text, isSpace d = true) ∨
    ∃ space, EndsBefore space text ∧ ∀ d ∈ space, isSpace d = true := by
  fun_induction lex text with
  | case1 => exact .inl (List.forall_mem_nil _)
  | case2 c text space ih =>
    have inner : Sound text := by rwa [Sound, lex, if_pos space] at sound
    obtain all | ⟨left, ends, all⟩ := ih inner
    · exact .inl (List.forall_mem_cons.mpr ⟨space, all⟩)
    · exact .inr ⟨left, ends.cons c, all⟩
  | case3 c text visible ih =>
    obtain ⟨first, others⟩ := sound_of_scan visible sound
    have token := endsBefore_scan first
    obtain all | ⟨left, ends, all⟩ := ih others
    · exact .inr ⟨_, token, all⟩
    · exact .inr ⟨left, ends.of_suffix token.suffix, all⟩

theorem exists_space (sound : Sound text) :
    ∃ space, text = Text.trimRight text ++ space ∧ ∀ d ∈ space, isSpace d = true := by
  obtain all | ⟨space, ⟨used, c, whole, visible⟩, all⟩ := endsBefore_space sound
  · have blank : Text.Blank text := fun d here => isBlank_of_space (all d here)
    exact ⟨text, by rw [Text.trimRight_eq_nil.mpr blank, List.nil_append], all⟩
  · have blank : Text.Blank space := fun d here => isBlank_of_space (all d here)
    have last : ¬Text.Blank [c] := fun hidden => by
      rw [hidden c List.mem_cons_self] at visible
      cases visible
    have left : Text.trimRight [c] = [c] := by simp [Text.trimRight, visible]
    refine ⟨space, ?_, all⟩
    calc text = (used ++ [c]) ++ space := by rw [whole]; simp
      _ = Text.trimRight (used ++ [c]) ++ space := by rw [Text.trimRight_append_of_visible used last, left]
      _ = Text.trimRight text ++ space := by
        rw [← Text.trimRight_append_of_blank _ blank, whole]
        simp

theorem lex_trimLeft (sound : Sound text) : lex (Text.trimLeft text) = lex text := by
  have same := lex_of_space (space_margin sound) (Text.trimLeft text)
  rwa [Text.margin_append_trimLeft, eq_comm] at same

theorem lex_trimRight (sound : Sound text) : lex (Text.trimRight text) = lex text := by
  obtain ⟨space, whole, all⟩ := exists_space sound
  have same : Sound (Text.trimRight text ++ space) := whole ▸ sound
  rw [← lex_append_space all same, ← whole]

theorem lex_ne_nil (visible : ¬Text.Blank text) : lex text ≠ [] := by
  fun_induction lex text with
  | case1 => exact absurd (List.forall_mem_nil _) visible
  | case2 c text space ih =>
    exact ih fun blank => visible (List.forall_mem_cons.mpr ⟨isBlank_of_space space, blank⟩)
  | case3 => exact List.cons_ne_nil _ _

end Around

/-! Documents. -/

section Reading

variable {text : List Char} {v : Value}

theorem isSound_of_beginValue {frames : List Frame} {token : Token} {next : State}
    (stepped : State.beginValue frames token = .ok next) : token.isSound := by
  cases token with
  | stray c => cases stepped
  | broken fault => cases stepped
  | _ => rfl

theorem isSound_of_readName {frames : List Frame} {before : List (Key × Value)} {mayClose : Bool}
    {token : Token} {next : State} (stepped : State.readName frames before mayClose token = .ok next) :
    token.isSound := by
  cases token with
  | stray c => cases stepped
  | broken fault => cases fault <;> cases stepped
  | _ => rfl

theorem isSound_of_resume {frames : List Frame} {token : Token} {next : State}
    (stepped : State.resume v frames token = .ok next) : token.isSound := by
  unfold State.resume at stepped
  split at stepped
  case h_2 | h_3 | h_4 | h_5 => rfl
  all_goals cases stepped

theorem isSound_of_step {state next : State} {token : Token} (stepped : state.step token = .ok next) :
    token.isSound := by
  unfold State.step at stepped
  split at stepped
  · exact isSound_of_beginValue stepped
  · split at stepped
    · rename_i closed
      rw [closed]
      rfl
    · exact isSound_of_beginValue stepped
  · exact isSound_of_readName stepped
  · split at stepped
    · rename_i colon
      rw [colon]
      rfl
    · cases stepped
  · exact isSound_of_resume stepped

theorem finish_eq_ok {state : State} : state.finish = .ok v ↔ state = ⟨[], .afterValue v⟩ := by
  obtain ⟨frames, expected⟩ := state
  cases expected <;> cases frames <;> simp [State.finish]

theorem head_ne_of_run {state : State} (ran : (lex text).foldlM State.step .start = .ok state) :
    text.head? ≠ some byteOrderMark := by
  intro first
  obtain ⟨rest, rfl⟩ := List.head?_eq_some_iff.mp first
  have mark : scan byteOrderMark rest = (.stray byteOrderMark, rest) := scan_stray (by decide) (by decide) rest
  rw [lex, if_neg (by decide), mark] at ran
  cases ran

theorem read_eq_ok : read text = .ok v ↔ (lex text).foldlM State.step .start = .ok ⟨[], .afterValue v⟩ := by
  rw [read]
  split
  · rename_i first
    exact ⟨nofun, fun ran => absurd first (head_ne_of_run ran)⟩
  · constructor
    · intro ran
      obtain ⟨state, run, ends⟩ := eq_ok_of_bind ran
      rw [run, finish_eq_ok.mp ends]
    · intro run
      rw [run]
      rfl

theorem sound_of_read (document : read text = .ok v) : Sound text := by
  intro token here
  obtain ⟨state, next, stepped⟩ := exists_of_foldlM_ok (read_eq_ok.mp document) token here
  exact isSound_of_step stepped

theorem read_trimLeft (document : read text = .ok v) : read (Text.trimLeft text) = .ok v := by
  rw [read_eq_ok, lex_trimLeft (sound_of_read document)]
  exact read_eq_ok.mp document

theorem read_trimRight (document : read text = .ok v) : read (Text.trimRight text) = .ok v := by
  rw [read_eq_ok, lex_trimRight (sound_of_read document)]
  exact read_eq_ok.mp document

theorem read_trim (document : read text = .ok v) : read (Text.trim text) = .ok v :=
  read_trimRight (read_trimLeft document)

theorem not_blank_of_read (document : read text = .ok v) : ¬Text.Blank text := by
  intro blank
  have nothing := read_trim document
  rw [Text.trim_eq_nil.mpr blank, read_eq_ok, lex] at nothing
  cases nothing

theorem read_append {after : List Char} (document : read text = .ok v) (apart : Apart after)
    (more : ¬Text.Blank after) : read (text ++ after) = .error (.malformed .extraData) := by
  have run := read_eq_ok.mp document
  have nonempty : text ≠ [] := by
    rintro rfl
    rw [lex] at run
    cases run
  have first : (text ++ after).head? ≠ some byteOrderMark := by
    rw [List.head?_append_of_ne_nil _ nonempty]
    exact head_ne_of_run run
  obtain ⟨token, others, tokens⟩ := List.exists_cons_of_ne_nil (lex_ne_nil more)
  rw [read, if_neg first, lex_append apart (sound_of_read document), tokens, List.foldlM_append, run]
  rfl

end Reading

end SampleTypes.Json
