import SampleTypes.Proofs.Json.Documents
import SampleTypes.Proofs.Samples.Offences
import SampleTypes.Source.Fetch

/-! Values that are read. No object among them has a name twice, since a repeated name is put in its old
place, so inference rejects them for numbers that are not finite only. -/

namespace SampleTypes

open Value (Keyed)

namespace Json

structure KeyedEntries (entries : List (Key × Value)) : Prop where
  distinct : (Entries.keys entries).Nodup
  each : ∀ entry ∈ entries, entry.2.Keyed

variable {entries : List (Key × Value)} {v : Value} {frames : List Frame} {state next : State} {token : Token}

theorem KeyedEntries.nil : KeyedEntries [] := ⟨List.nodup_nil, List.forall_mem_nil _⟩

theorem KeyedEntries.put (keyed : KeyedEntries entries) (name : Str) (value : v.Keyed) :
    KeyedEntries (Entries.put (.name name) v entries) := by
  refine ⟨Entries.nodup_keys_put keyed.distinct, fun entry here => ?_⟩
  rcases Entries.mem_put here with rfl | old
  · exact value
  · exact keyed.each entry old

theorem KeyedEntries.object (keyed : KeyedEntries entries) : Keyed (.object entries) := by
  refine .object ?_ keyed.each
  have names : (entries.filterMap fun entry => entry.1.name?) =
      (Entries.keys entries).filterMap Key.name? := by
    rw [Entries.keys, List.filterMap_map]
    rfl
  rw [names]
  apply keyed.distinct.filterMap
  intro key other name here there
  cases key <;> cases other <;> simp_all [Key.name?]

def Frame.Keyed : Frame → Prop
  | .item before => ∀ v ∈ before, v.Keyed
  | .member before _ => KeyedEntries before

def Expected.Keyed : Expected → Prop
  | .value => True
  | .firstItem => True
  | .name before _ => KeyedEntries before
  | .colon before _ => KeyedEntries before
  | .afterValue v => v.Keyed

structure State.Keyed (state : State) : Prop where
  frames : ∀ frame ∈ state.frames, frame.Keyed
  expected : state.expected.Keyed

theorem keyed_beginValue (open_frames : ∀ frame ∈ frames, frame.Keyed)
    (ran : State.beginValue frames token = .ok next) : next.Keyed := by
  cases token <;> cases ran
  case openBracket => exact ⟨open_frames, trivial⟩
  case openBrace => exact ⟨open_frames, .nil⟩
  all_goals exact ⟨open_frames, .leaf rfl rfl⟩

theorem keyed_readName {mayClose : Bool} (open_frames : ∀ frame ∈ frames, frame.Keyed)
    (keyed : KeyedEntries entries) (ran : State.readName frames entries mayClose token = .ok next) :
    next.Keyed := by
  unfold State.readName at ran
  split at ran
  · cases ran
    exact ⟨open_frames, keyed⟩
  · cases ran
  · split at ran
    · cases ran
      exact ⟨open_frames, keyed.object⟩
    · cases ran
  · cases ran

theorem keyed_cons {before : List Value} (value : v.Keyed) (inner : (Frame.item before).Keyed) :
    ∀ w ∈ v :: before, w.Keyed :=
  List.forall_mem_cons.mpr ⟨value, inner⟩

theorem keyed_resume (open_frames : ∀ frame ∈ frames, frame.Keyed) (value : v.Keyed)
    (ran : State.resume v frames token = .ok next) : next.Keyed := by
  unfold State.resume at ran
  split at ran
  case h_1 => cases ran
  case h_6 => cases ran
  all_goals
    cases ran
    rw [List.forall_mem_cons] at open_frames
    obtain ⟨inner, outer⟩ := open_frames
  · have items := keyed_cons value inner
    exact ⟨List.forall_mem_cons.mpr ⟨items, outer⟩, trivial⟩
  · have items := keyed_cons value inner
    exact ⟨outer, .list fun w here => items w (List.mem_reverse.mp here)⟩
  · exact ⟨outer, KeyedEntries.put inner _ value⟩
  · exact ⟨outer, (KeyedEntries.put inner _ value).object⟩

/-- A token keeps what is open, and what was read, free of repeated names. -/
theorem State.Keyed.step (keyed : state.Keyed) (ran : state.step token = .ok next) : next.Keyed := by
  obtain ⟨frames, expected⟩ := state
  obtain ⟨open_frames, now⟩ := keyed
  unfold State.step at ran
  cases expected with
  | value => exact keyed_beginValue open_frames ran
  | firstItem =>
    simp only at ran
    split at ran
    · cases ran
      exact ⟨open_frames, .list (List.forall_mem_nil _)⟩
    · have opened : (Frame.item []).Keyed := List.forall_mem_nil _
      exact keyed_beginValue (List.forall_mem_cons.mpr ⟨opened, open_frames⟩) ran
  | name before mayClose => exact keyed_readName open_frames now ran
  | colon before name =>
    simp only at ran
    split at ran
    · cases ran
      exact ⟨List.forall_mem_cons.mpr ⟨now, open_frames⟩, trivial⟩
    · cases ran
  | afterValue v => exact keyed_resume open_frames now ran

theorem State.Keyed.run {tokens : List Token} (keyed : state.Keyed)
    (ran : tokens.foldlM State.step state = .ok next) : next.Keyed := by
  induction tokens generalizing state with
  | nil =>
    cases ran
    exact keyed
  | cons token rest ih =>
    obtain ⟨middle, first, later⟩ := eq_ok_of_bind ran
    exact ih (keyed.step first) later

theorem keyed_read {text : List Char} (ran : read text = .ok v) : v.Keyed := by
  have start : State.Keyed .start := ⟨List.forall_mem_nil _, trivial⟩
  exact (start.run (read_eq_ok.mp ran)).expected

end Json

namespace Samples

variable {source : String} {splitRootArray : Bool} {values : List Value}

theorem keyed_ofDocument {v : Value} (keyed : v.Keyed) : ∀ w ∈ ofDocument splitRootArray v, w.Keyed := by
  unfold ofDocument
  split
  · cases keyed with
    | leaf noList _ => cases noList
    | list each => exact each
  · exact List.forall_mem_singleton.mpr keyed

theorem keyed_ofLines {line : Nat} {lines : List (List Char)} (ran : ofLines source line lines = .ok values) :
    ∀ v ∈ values, v.Keyed := by
  induction lines generalizing line values with
  | nil =>
    cases ran
    exact List.forall_mem_nil _
  | cons text rest ih =>
    rw [ofLines] at ran
    split at ran
    · exact ih ran
    · split at ran
      · rename_i v read
        obtain ⟨others, later, ran⟩ := eq_ok_of_bind ran
        cases ran
        exact List.forall_mem_cons.mpr ⟨Json.keyed_read read, ih later⟩
      · cases ran
      · cases ran

theorem keyed_parse {content : List Char} (ran : parse source splitRootArray content = .ok values) :
    ∀ v ∈ values, v.Keyed := by
  unfold parse at ran
  simp only at ran
  split at ran
  · cases ran
  · split at ran
    · rename_i v read
      cases ran
      exact keyed_ofDocument (Json.keyed_read read)
    · cases ran
    · exact keyed_ofLines ran

end Samples

section Loading

variable {world : World} {limit : Int} {splitRootArray : Bool} {source : String} {sources : List String}
  {loaded samples : List Value}

theorem keyed_fetchSamples (ran : fetchSamples world splitRootArray source = .ok samples) :
    ∀ v ∈ samples, v.Keyed := by
  obtain ⟨content, _, parsed⟩ := eq_ok_of_bind ran
  exact Samples.keyed_parse (mapError_eq_ok.mp parsed)

theorem keyed_loadMore (before : ∀ v ∈ loaded, v.Keyed)
    (ran : loadMore world limit splitRootArray loaded sources = .ok samples) : ∀ v ∈ samples, v.Keyed := by
  induction sources generalizing loaded with
  | nil =>
    cases ran
    exact before
  | cons source rest ih =>
    rw [loadMore] at ran
    split at ran
    · cases ran
      exact before
    · obtain ⟨fetched, first, later⟩ := eq_ok_of_bind ran
      exact ih (List.forall_mem_append.mpr ⟨before, keyed_fetchSamples first⟩) later

theorem keyed_loadSamples (ran : loadSamples world limit splitRootArray sources = .ok samples) :
    ∀ v ∈ samples, v.Keyed := by
  obtain ⟨all, first, ran⟩ := eq_ok_of_bind ran
  have each := keyed_loadMore (List.forall_mem_nil _) first
  cases ran
  split
  · exact fun v here => each v (List.mem_of_mem_take here)
  · exact each

end Loading

end SampleTypes
