import SampleTypes.Proofs.Samples.JsonLines

/-! Lines that are no documents. An error names the first of them, but its number counts from the first line
with text: the line feeds among the blanks in front of a text are not counted. -/

namespace SampleTypes.Samples

def Rejected (line : List Char) (cause : Json.Malformed) : Prop :=
  ¬Text.Blank line ∧ Json.read (Text.trim line) = .error (.malformed cause)

def Passed (line : List Char) : Prop :=
  Text.Blank line ∨ ∃ v, Json.read (Text.trim line) = .ok v

/-- The line of the number, counted from one, is rejected, and all lines before it have passed. -/
def FirstRejected (lines : List (List Char)) (number : Nat) (cause : Json.Malformed) : Prop :=
  ∃ before line after, lines = before ++ line :: after ∧ number = before.length + 1 ∧
    Rejected line cause ∧ ∀ earlier ∈ before, Passed earlier

variable {source shown : String} {line : List Char} {lines : List (List Char)} {number other : Nat}
  {cause reason : Json.Malformed}

theorem Rejected.not_passed (rejected : Rejected line cause) : ¬Passed line := by
  rintro (blank | ⟨v, read⟩)
  · exact rejected.1 blank
  · rw [rejected.2] at read
    cases read

theorem firstRejected_cons : FirstRejected (line :: lines) number cause ↔
    (number = 1 ∧ Rejected line cause) ∨
      (Passed line ∧ ∃ k, number = k + 1 ∧ FirstRejected lines k cause) := by
  constructor
  · rintro ⟨before, text, after, whole, rfl, rejected, passed⟩
    cases before with
    | nil =>
      cases whole
      exact .inl ⟨rfl, rejected⟩
    | cons first before =>
      cases whole
      rw [List.forall_mem_cons] at passed
      exact .inr ⟨passed.1, _, rfl, before, text, after, rfl, rfl, rejected, passed.2⟩
  · rintro (⟨rfl, rejected⟩ | ⟨passed, k, rfl, before, text, after, rfl, rfl, rejected, others⟩)
    · exact ⟨[], line, lines, rfl, rfl, rejected, List.forall_mem_nil _⟩
    · exact ⟨line :: before, text, after, rfl, rfl, rejected, List.forall_mem_cons.mpr ⟨passed, others⟩⟩

theorem exists_firstRejected_cons (passed : Passed line) (n : Nat) :
    (∃ k, number + 1 = n + k ∧ FirstRejected (line :: lines) k cause) ↔
      ∃ k, number + 1 = n + 1 + k ∧ FirstRejected lines k cause := by
  constructor
  · rintro ⟨k, counted, first⟩
    rcases firstRejected_cons.mp first with ⟨_, rejected⟩ | ⟨_, k, rfl, later⟩
    · exact absurd passed rejected.not_passed
    · exact ⟨k, by omega, later⟩
  · rintro ⟨k, counted, first⟩
    exact ⟨k + 1, by omega, firstRejected_cons.mpr (.inr ⟨passed, k, rfl, first⟩)⟩

theorem ofLines_eq_invalidJson (n : Nat) :
    ofLines source n lines = .error (.invalidJson shown number cause) ↔
      shown = source ∧ ∃ k, number + 1 = n + k ∧ FirstRejected lines k cause := by
  induction lines generalizing n with
  | nil =>
    refine ⟨nofun, ?_⟩
    rintro ⟨_, _, _, before, line, after, whole, _⟩
    exact absurd whole.symm (by simp)
  | cons line lines ih =>
    by_cases blank : Text.Blank line
    · rw [ofLines_blank blank, ih, exists_firstRejected_cons (.inl blank)]
    · rw [ofLines_visible blank]
      cases read : Json.read (Text.trim line) with
      | ok v =>
        rw [exists_firstRejected_cons (.inr ⟨v, read⟩), ← ih]
        cases ofLines source (n + 1) lines with
        | ok values => exact ⟨nofun, nofun⟩
        | error fault => rfl
      | error fault =>
        cases fault with
        | malformed other =>
          constructor
          · intro same
            cases same
            exact ⟨rfl, 1, rfl, firstRejected_cons.mpr (.inl ⟨rfl, blank, read⟩)⟩
          · rintro ⟨rfl, k, counted, first⟩
            rcases firstRejected_cons.mp first with ⟨rfl, rejected⟩ | ⟨passed, _⟩
            · cases Nat.succ.inj counted
              have same := rejected.2
              rw [read] at same
              cases same
              rfl
            · exact absurd passed (Rejected.not_passed ⟨blank, read⟩)
        | integerTooLong digits =>
          refine ⟨nofun, ?_⟩
          rintro ⟨_, k, _, first⟩
          rcases firstRejected_cons.mp first with ⟨_, rejected⟩ | ⟨passed | ⟨v, passed⟩, _⟩
          · have same := rejected.2
            rw [read] at same
            cases same
          · exact absurd passed blank
          · rw [read] at passed
            cases passed

theorem ofLines_one_eq_invalidJson :
    ofLines source 1 lines = .error (.invalidJson shown number cause) ↔
      shown = source ∧ FirstRejected lines number cause := by
  rw [ofLines_eq_invalidJson]
  refine and_congr_right fun _ => ⟨?_, fun first => ⟨number, Nat.add_comm number 1, first⟩⟩
  rintro ⟨k, counted, first⟩
  obtain rfl : k = number := by omega
  exact first

theorem FirstRejected.unique (first : FirstRejected lines number cause)
    (second : FirstRejected lines other reason) : number = other ∧ cause = reason := by
  have here : ofLines "" 1 lines = .error (.invalidJson "" number cause) :=
    ofLines_one_eq_invalidJson.mpr ⟨rfl, first⟩
  rw [ofLines_one_eq_invalidJson.mpr ⟨rfl, second⟩] at here
  cases here
  exact ⟨rfl, rfl⟩

theorem firstRejected_trim {content : List Char} :
    FirstRejected (Text.splitLines content) (number + (Text.margin content).count '\n') cause ↔
      FirstRejected (Text.splitLines (Text.trim content)) number cause := by
  generalize skipped : (Text.margin content).count '\n' = m
  have both : ofLines "" (1 + m) (Text.splitLines (Text.trim content)) =
      ofLines "" 1 (Text.splitLines content) := skipped ▸ ofLines_trim 1 content
  have whole : ofLines "" 1 (Text.splitLines content) = .error (.invalidJson "" (number + m) cause) ↔
      "" = "" ∧ FirstRejected (Text.splitLines content) (number + m) cause := ofLines_one_eq_invalidJson
  rw [← both, ofLines_eq_invalidJson] at whole
  constructor
  · intro first
    obtain ⟨_, k, counted, later⟩ := whole.mpr ⟨rfl, first⟩
    obtain rfl : k = number := by omega
    exact later
  · intro first
    exact (whole.mp ⟨rfl, number, by omega, first⟩).2

/-- A text is refused with a line exactly if, without the blanks around it, it is no document, and one of
its lines is none either. The number is that of the first such line of the text as it was given, less the
line feeds among the blanks in front. -/
theorem parse_eq_invalidJson (source shown : String) (splitRootArray : Bool) (content : List Char)
    (number : Nat) (cause : Json.Malformed) :
    parse source splitRootArray content = .error (.invalidJson shown number cause) ↔
      shown = source ∧ (∃ reason, Json.read (Text.trim content) = .error (.malformed reason)) ∧
        FirstRejected (Text.splitLines content) (number + (Text.margin content).count '\n') cause := by
  rw [firstRejected_trim, parse]
  split
  · rename_i empty
    constructor
    · intro same
      cases same
    · intro refused
      have stopped : ofLines "" 1 (Text.splitLines (Text.trim content)) =
          .error (.invalidJson "" number cause) := ofLines_one_eq_invalidJson.mpr ⟨rfl, refused.2.2⟩
      rw [List.isEmpty_iff.mp empty] at stopped
      cases stopped
  · cases read : Json.read (Text.trim content) with
    | ok v => simp
    | error fault =>
      cases fault with
      | malformed reason =>
        dsimp only
        rw [ofLines_one_eq_invalidJson]
        exact and_congr_right fun _ => (and_iff_right ⟨reason, rfl⟩).symm
      | integerTooLong digits => simp

/-- A document and then a text that is none, below an empty line: the number is that of the document. -/
theorem parse_of_lineFeed :
    parse "<input>" true "\n1\n\x7b".toList = .error (.invalidJson "<input>" 2 .missingName) ∧
      FirstRejected (Text.splitLines "\n1\n\x7b".toList) 3 .missingName ∧
      ¬FirstRejected (Text.splitLines "\n1\n\x7b".toList) 2 .missingName := by
  have third : FirstRejected (Text.splitLines "\n1\n\x7b".toList) 3 .missingName := by
    refine ⟨[[], ['1']], ['\x7b'], [], rfl, rfl, ⟨by decide, by with_unfolding_all rfl⟩, ?_⟩
    rw [List.forall_mem_cons, List.forall_mem_singleton]
    exact ⟨.inl (by decide), .inr ⟨.int 1, by with_unfolding_all rfl⟩⟩
  exact ⟨by with_unfolding_all rfl, third, fun second => absurd (third.unique second).1 (by decide)⟩

end SampleTypes.Samples
