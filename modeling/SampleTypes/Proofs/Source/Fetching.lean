import SampleTypes.Proofs.Json.LongIntegers
import SampleTypes.Proofs.Text.Lines
import SampleTypes.Proofs.Text.Utf8
import SampleTypes.Source.Fetch

/-! What fetching gives. Samples that are fetched are at least one. Not every failure is reported as one of
fetching: four kinds of input lead to failures that get through. -/

namespace SampleTypes

namespace Samples

theorem ofDocument_ne_nil (splitRootArray : Bool) (v : Value) : ofDocument splitRootArray v ≠ [] := by
  unfold ofDocument
  split <;> exact List.cons_ne_nil _ _

theorem ofLines_ne_nil {source : String} {line : Nat} {text : List Char} {rest : List (List Char)}
    {values : List Value} (visible : Text.trim text ≠ [])
    (read : ofLines source line (text :: rest) = .ok values) : values ≠ [] := by
  rw [ofLines, if_neg (by rwa [List.isEmpty_iff])] at read
  split at read
  · obtain ⟨others, _, equal⟩ := eq_ok_of_bind read
    cases equal
    exact List.cons_ne_nil _ _
  · cases read
  · cases read

theorem ne_nil_of_parse {source : String} {splitRootArray : Bool} {content : List Char}
    {values : List Value} (parsed : parse source splitRootArray content = .ok values) : values ≠ [] := by
  unfold parse at parsed
  simp only at parsed
  split at parsed
  · cases parsed
  · rename_i nonempty
    split at parsed
    · cases parsed
      exact ofDocument_ne_nil splitRootArray _
    · cases parsed
    · rw [List.isEmpty_iff] at nonempty
      obtain ⟨c, rest, trimmed⟩ := List.exists_cons_of_ne_nil nonempty
      have visible := Text.isBlank_of_trim trimmed
      have inside : c ≠ '\n' := by
        rintro rfl
        cases visible
      -- The first line of a trimmed text is not blank, so it gives a value.
      obtain ⟨line, lines, split⟩ := Text.splitLines_cons inside rest
      rw [trimmed, split] at parsed
      exact ofLines_ne_nil (Text.trim_ne_nil visible line) parsed

theorem tooLong_of_ofLines {source : String} {line n : Nat} {lines : List (List Char)}
    (failed : ofLines source line lines = .error (.integerTooLong n)) :
    ∃ text ∈ lines, Json.TooLong n text := by
  induction lines generalizing line with
  | nil => cases failed
  | cons text rest ih =>
    rw [ofLines] at failed
    have later : ∀ {next}, ofLines source next rest = .error (.integerTooLong n) →
        ∃ other ∈ text :: rest, Json.TooLong n other := by
      intro next failed
      obtain ⟨other, here, long⟩ := ih failed
      exact ⟨other, List.mem_cons_of_mem text here, long⟩
    split at failed
    · exact later failed
    · split at failed
      · cases others : ofLines source (line + 1) rest with
        | ok values =>
          rw [others] at failed
          cases failed
        | error cause =>
          rw [others] at failed
          cases failed
          exact later others
      · cases failed
      · rename_i read
        cases failed
        exact ⟨text, List.mem_cons_self, (Json.tooLong_of_read read).within (Text.infix_trim text)⟩

theorem tooLong_of_parse {source : String} {splitRootArray : Bool} {content : List Char} {n : Nat}
    (failed : parse source splitRootArray content = .error (.integerTooLong n)) :
    Json.TooLong n content := by
  unfold parse at failed
  simp only at failed
  split at failed
  · cases failed
  · split at failed
    · cases failed
    · rename_i read
      cases failed
      exact (Json.tooLong_of_read read).within (Text.infix_trim content)
    · obtain ⟨line, here, long⟩ := tooLong_of_ofLines failed
      exact long.within ((Text.infix_of_mem_splitLines here).trans (Text.infix_trim content))

end Samples

namespace FetchError

/-- Whether a failure is turned into one of fetching. The others get through as they are. -/
def isReported : FetchError → Bool
  | .badUrl _ | .nulCharacter | .undecodable _ | .badContent (.integerTooLong _) => false
  | .unsupportedScheme _ | .requestFailed _ _ | .unreadable _ _ _ | .badContent (.noData _)
  | .badContent (.invalidJson _ _ _) => true

/-- The input from which a failure comes that gets through: a source that cannot be split, a path with
a NUL in it, a file that is no UTF-8, and a content with too many digits in a row. -/
def ComesThrough (world : World) (source : String) : FetchError → Prop
  | .badUrl cause => Url.parse source = .error cause
  | .nulCharacter => ∃ path, Origin.ofSource source = .ok (.file path) ∧ '\x00' ∈ path.toList
  | .undecodable _ => ∃ path bytes, Origin.ofSource source = .ok (.file path) ∧
      world.tree.read path.toList = .ok bytes ∧ ∀ text, bytes ≠ Text.Utf8.encode text
  | .badContent (.integerTooLong n) => ∃ content, fetchContent world source = .ok content ∧
      Json.TooLong n content.toList
  | _ => False

end FetchError

open FetchError (ComesThrough)

section Outcomes

variable {world : World} {source path : String}

theorem fetchContent_of_file (origin : Origin.ofSource source = .ok (.file path)) :
    fetchContent world source = readText world.tree source path := by
  rw [fetchContent, origin]
  rfl

theorem ofSource_of_badUrl {cause : UrlError} (malformed : Url.parse source = .error cause) :
    Origin.ofSource source = .error (.badUrl cause) := by
  rw [Origin.ofSource, malformed]
  rfl

theorem read_of_nul {tree : FileTree} {path : List Char} (nul : '\x00' ∈ path) :
    tree.read path = .error .nulCharacter := by
  rw [FileTree.read, FileTree.atPlace, if_pos (List.contains_iff_mem.mpr nul)]

theorem mem_of_read {tree : FileTree} {path : List Char}
    (failed : tree.read path = .error .nulCharacter) : '\x00' ∈ path := by
  rw [FileTree.read, FileTree.atPlace] at failed
  split at failed
  · rename_i nul
    exact List.contains_iff_mem.mp nul
  · obtain ⟨fault, _, equal⟩ := exists_of_mapError failed
    cases equal

theorem undecodable_of_bytes {bytes : Bytes} (origin : Origin.ofSource source = .ok (.file path))
    (read : world.tree.read path.toList = .ok bytes) (other : ∀ text, bytes ≠ Text.Utf8.encode text) :
    ∃ fault, fetchContent world source = .error (.undecodable fault) := by
  cases decoded : Text.Utf8.decode bytes with
  | ok text => exact absurd (Text.Utf8.decode_eq_ok.mp decoded) (other text)
  | error fault =>
    refine ⟨fault, ?_⟩
    rw [fetchContent_of_file origin, readText, read]
    change ((Text.Utf8.decode bytes).mapError FetchError.undecodable >>= _) = _
    rw [decoded]
    rfl

theorem comesThrough_of_ofSource {cause : FetchError} (failed : Origin.ofSource source = .error cause) :
    cause.isReported = true ∨ ComesThrough world source cause := by
  obtain split | ⟨url, _, failed⟩ := error_of_bind failed
  · obtain ⟨inner, malformed, rfl⟩ := exists_of_mapError split
    exact .inr malformed
  · split at failed
    · cases failed
    · split at failed
      · cases failed
      · split at failed
        · cases failed
        · cases failed
          exact .inl rfl

theorem comesThrough_of_readText {cause : FetchError} (origin : Origin.ofSource source = .ok (.file path))
    (failed : readText world.tree source path = .error cause) :
    cause.isReported = true ∨ ComesThrough world source cause := by
  obtain closed | ⟨bytes, read, failed⟩ := error_of_bind failed
  · obtain ⟨fault, unread, rfl⟩ := exists_of_mapError closed
    cases fault with
    | nulCharacter => exact .inr ⟨path, origin, mem_of_read unread⟩
    | system fault shown => exact .inl rfl
  · rw [mapError_eq_ok] at read
    obtain broken | ⟨text, _, failed⟩ := error_of_bind failed
    · obtain ⟨fault, undecoded, rfl⟩ := exists_of_mapError broken
      refine .inr ⟨path, bytes, origin, read, ?_⟩
      rintro text rfl
      rw [Text.Utf8.decode_encode] at undecoded
      cases undecoded
    · cases failed

theorem comesThrough_of_fetchContent {cause : FetchError}
    (failed : fetchContent world source = .error cause) :
    cause.isReported = true ∨ ComesThrough world source cause := by
  obtain nowhere | ⟨origin, found, failed⟩ := error_of_bind failed
  · exact comesThrough_of_ofSource nowhere
  · cases origin with
    | web url =>
      obtain ⟨inner, _, rfl⟩ := exists_of_mapError failed
      exact .inl rfl
    | file path => exact comesThrough_of_readText found failed

theorem comesThrough_of_parse {content : String} {cause : SamplesError} {splitRootArray : Bool}
    (fetched : fetchContent world source = .ok content)
    (failed : Samples.parse source splitRootArray content.toList = .error cause) :
    (FetchError.badContent cause).isReported = true ∨ ComesThrough world source (.badContent cause) := by
  cases cause with
  | noData source => exact .inl rfl
  | invalidJson source line cause => exact .inl rfl
  | integerTooLong n => exact .inr ⟨content, fetched, Samples.tooLong_of_parse failed⟩

theorem fetchSamples_of_error {cause : FetchError} (splitRootArray : Bool)
    (failed : fetchContent world source = .error cause) :
    fetchSamples world splitRootArray source = .error cause := by
  rw [fetchSamples, failed]
  rfl

end Outcomes

end SampleTypes
