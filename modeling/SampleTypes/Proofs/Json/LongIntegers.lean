import SampleTypes.Json.Reader
import SampleTypes.Proofs.Runs

/-! Integers with too many digits. A text is only refused for one if as many digits stand in it in
a row. -/

namespace SampleTypes.Json

/-- So many digits stand in the text, one after the other. -/
def DigitRun (length : Nat) (text : List Char) : Prop :=
  ∃ digits, digits <:+: text ∧ digits.length = length ∧ ∀ d ∈ digits, isDigit d = true

variable {n : Nat} {c : Char} {text whole rest : List Char}

theorem DigitRun.within (run : DigitRun n text) (inside : text <:+: whole) : DigitRun n whole := by
  obtain ⟨digits, inside', length, each⟩ := run
  exact ⟨digits, inside'.trans inside, length, each⟩

/-! Tokens. -/

theorem digitRun_of_scanInteger {digits : List Char} (found : scanInteger text = some (digits, rest)) :
    DigitRun digits.length text := by
  unfold scanInteger at found
  split at found
  · cases found
  · rename_i c after
    split at found
    · rename_i zero
      cases found
      refine ⟨[c], List.infix_cons_iff.mpr (.inl (by simp)), rfl, ?_⟩
      rw [zero]
      exact List.forall_mem_singleton.mpr rfl
    · split at found
      · rename_i first
        cases found
        have front : c :: after.takeWhile isDigit <+: c :: after :=
          List.cons_prefix_cons.mpr ⟨rfl, List.takeWhile_prefix isDigit⟩
        have others : ∀ d ∈ after.takeWhile isDigit, isDigit d = true :=
          List.all_eq_true.mp List.all_takeWhile
        exact ⟨_, front.isInfix, rfl, List.forall_mem_cons.mpr ⟨first, others⟩⟩
      · cases found

theorem eq_of_numberToken {negative : Bool} {integer : List Char} {fraction : Option (List Char)}
    {exponent : Option Int} {fault : Fault}
    (broken : numberToken negative integer fraction exponent = .broken fault) :
    fault = .integerTooLong integer.length ∧ maxIntegerDigits < integer.length := by
  unfold numberToken at broken
  split at broken
  · split at broken
    · rename_i long
      cases broken
      exact ⟨rfl, long⟩
    · cases broken
  · cases broken

structure TooLong (n : Nat) (text : List Char) : Prop where
  above : maxIntegerDigits < n
  run : DigitRun n text

theorem TooLong.within (long : TooLong n text) (inside : text <:+: whole) : TooLong n whole :=
  ⟨long.above, long.run.within inside⟩

theorem tooLong_of_scanNumber {negative : Bool}
    (broken : scanNumber negative text = some (.broken (.integerTooLong n), rest)) : TooLong n text := by
  simp only [scanNumber, Option.bind_eq_bind, Option.bind_eq_some_iff] at broken
  obtain ⟨⟨integer, after⟩, scanned, broken⟩ := broken
  have token := congrArg Prod.fst (Option.some.inj broken)
  obtain ⟨same, above⟩ := eq_of_numberToken token
  cases same
  exact ⟨above, digitRun_of_scanInteger scanned⟩

theorem ne_broken_of_scanLiteral {token : Token} (found : scanLiteral c text = some (token, rest))
    (fault : Fault) : token ≠ .broken fault := by
  obtain ⟨⟨first, word, literal⟩, listed, found⟩ := List.exists_of_findSome?_eq_some found
  have sound : literal ≠ .broken fault := by
    rintro rfl
    simp [literals] at listed
  dsimp only at found
  split at found
  · obtain ⟨after, _, equal⟩ := Option.map_eq_some_iff.mp found
    cases equal
    exact sound
  · cases found

theorem tooLong_of_scan (broken : (scan c text).1 = .broken (.integerTooLong n)) :
    TooLong n (c :: text) := by
  unfold scan at broken
  split at broken
  case h_7 =>
    unfold scanString at broken
    split at broken <;> cases broken
  case h_8 =>
    unfold scanPlain at broken
    split at broken
    · rename_i found
      exact absurd broken (ne_broken_of_scanLiteral found _)
    · split at broken
      · rename_i found number
        obtain ⟨token, rest⟩ := found
        obtain rfl : token = _ := broken
        split at number
        · exact (tooLong_of_scanNumber number).within (List.suffix_cons c text).isInfix
        · exact tooLong_of_scanNumber number
      · cases broken
  all_goals cases broken

theorem exists_scan_of_mem_lex {token : Token} (here : token ∈ lex text) :
    ∃ c rest, c :: rest <:+ text ∧ (scan c rest).1 = token := by
  fun_induction lex text with
  | case1 => cases here
  | case2 c text blank ih =>
    obtain ⟨first, rest, inside, scanned⟩ := ih here
    exact ⟨first, rest, inside.trans (List.suffix_cons c text), scanned⟩
  | case3 c text visible ih =>
    obtain rfl | later := List.mem_cons.mp here
    · exact ⟨c, text, List.suffix_rfl, rfl⟩
    · obtain ⟨first, rest, inside, scanned⟩ := ih later
      exact ⟨first, rest, inside.trans ((scan_suffix c text).trans (List.suffix_cons c text)), scanned⟩

/-! The reader. -/

theorem eq_broken_of_step {state : State} {token : Token}
    (failed : state.step token = .error (.integerTooLong n)) : token = .broken (.integerTooLong n) := by
  have value : ∀ frames, State.beginValue frames token = .error (.integerTooLong n) →
      token = .broken (.integerTooLong n) := by
    intro frames failed
    cases token <;> cases failed
    rfl
  unfold State.step at failed
  split at failed
  · exact value _ failed
  · split at failed
    · cases failed
    · exact value _ failed
  · unfold State.readName at failed
    split at failed <;> try cases failed
    split at failed <;> cases failed
  · split at failed <;> cases failed
  · unfold State.resume at failed
    split at failed <;> cases failed

theorem tooLong_of_read (failed : read text = .error (.integerTooLong n)) : TooLong n text := by
  unfold read at failed
  split at failed
  · cases failed
  · cases ran : (lex text).foldlM State.step .start with
    | ok last =>
      rw [ran] at failed
      change last.finish = _ at failed
      unfold State.finish at failed
      split at failed <;> cases failed
    | error cause =>
      rw [ran] at failed
      cases failed
      obtain ⟨token, here, state, step⟩ := exists_of_foldlM_error ran
      obtain ⟨c, rest, inside, scanned⟩ := exists_scan_of_mem_lex here
      rw [eq_broken_of_step step] at scanned
      exact (tooLong_of_scan scanned).within inside.isInfix

end SampleTypes.Json
