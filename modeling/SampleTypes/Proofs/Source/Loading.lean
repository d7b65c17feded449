import Mathlib.Data.List.Induction
import SampleTypes.Proofs.Runs
import SampleTypes.Source.Fetch

/-! Loading up to a limit. Sources are fetched in order until they hold enough samples together, and the
first of these samples are kept. A source that fails matters only while more samples are needed. -/

namespace SampleTypes

/-! Loading on record. -/

section Recording

/-- `loadMore` with any way of fetching. -/
def loadMoreBy {m : Type → Type} [Monad m] (fetch : String → m (List Value)) (limit : Int)
    (loaded : List Value) : List String → m (List Value)
  | [] => pure loaded
  | source :: rest =>
    if reachesLimit limit loaded.length then pure loaded
    else do
      let samples ← fetch source
      loadMoreBy fetch limit (loaded ++ samples) rest

/-- The samples that a limit leaves. One that is not positive is none. -/
def withinLimit (limit : Int) (samples : List Value) : List Value :=
  if 0 < limit then samples.take limit.toNat else samples

def loadBy {m : Type → Type} [Monad m] (fetch : String → m (List Value)) (limit : Int)
    (sources : List String) : m (List Value) :=
  withinLimit limit <$> loadMoreBy fetch limit [] sources

/-- A record of the sources that are fetched is kept on the way. -/
abbrev Recording := ExceptT FetchError (StateM (List String))

def fetchRecorded (world : World) (splitRootArray : Bool) (source : String) : Recording (List Value) := do
  modify (· ++ [source])
  ExceptT.mk (pure (fetchSamples world splitRootArray source))

def loadRecorded (world : World) (limit : Int) (splitRootArray : Bool) (sources : List String) :
    Except FetchError (List Value) × List String :=
  (loadBy (fetchRecorded world splitRootArray) limit sources).run.run []

variable {world : World} {limit : Int} {splitRootArray : Bool} {loaded samples : List Value}
  {source : String} {rest record : List String} {cause : FetchError}

theorem loadSamples_eq_loadBy (world : World) (limit : Int) (splitRootArray : Bool)
    (sources : List String) : loadSamples world limit splitRootArray sources =
      loadBy (fetchSamples world splitRootArray) limit sources := by
  have more : ∀ loaded, loadMore world limit splitRootArray loaded sources =
      loadMoreBy (fetchSamples world splitRootArray) limit loaded sources := by
    induction sources with
    | nil => exact fun _ => rfl
    | cons source rest ih =>
      intro loaded
      rw [loadMore, loadMoreBy]
      simp only [ih]
      rfl
  rw [loadSamples, more, loadBy]
  rfl

theorem loadMoreBy_of_enough (enough : rest = [] ∨ reachesLimit limit loaded.length = true) :
    (loadMoreBy (fetchRecorded world splitRootArray) limit loaded rest).run.run record =
      (.ok loaded, record) := by
  cases rest with
  | nil => rfl
  | cons source rest =>
    rw [loadMoreBy, if_pos (enough.resolve_left (List.cons_ne_nil source rest))]
    rfl

theorem loadMoreBy_of_fetched (short : reachesLimit limit loaded.length = false)
    (fetched : fetchSamples world splitRootArray source = .ok samples) :
    (loadMoreBy (fetchRecorded world splitRootArray) limit loaded (source :: rest)).run.run record =
      (loadMoreBy (fetchRecorded world splitRootArray) limit (loaded ++ samples) rest).run.run
        (record ++ [source]) := by
  have here : (fetchRecorded world splitRootArray source).run.run record =
      (.ok samples, record ++ [source]) := by
    rw [← fetched]
    rfl
  rw [loadMoreBy, if_neg (Bool.eq_false_iff.mp short), ExceptT.run_bind, StateT.run_bind, here]
  rfl

theorem loadMoreBy_of_failed (short : reachesLimit limit loaded.length = false)
    (failed : fetchSamples world splitRootArray source = .error cause) :
    (loadMoreBy (fetchRecorded world splitRootArray) limit loaded (source :: rest)).run.run record =
      (.error cause, record ++ [source]) := by
  have here : (fetchRecorded world splitRootArray source).run.run record =
      (.error cause, record ++ [source]) := by
    rw [← failed]
    rfl
  rw [loadMoreBy, if_neg (Bool.eq_false_iff.mp short), ExceptT.run_bind, StateT.run_bind, here]
  rfl

theorem fst_loadMoreBy (world : World) (limit : Int) (splitRootArray : Bool) (loaded : List Value)
    (sources record : List String) :
    ((loadMoreBy (fetchRecorded world splitRootArray) limit loaded sources).run.run record).1 =
      loadMoreBy (fetchSamples world splitRootArray) limit loaded sources := by
  induction sources generalizing loaded record with
  | nil => rfl
  | cons source rest ih =>
    cases short : reachesLimit limit loaded.length with
    | true =>
      rw [loadMoreBy_of_enough (.inr short), loadMoreBy, if_pos short]
      rfl
    | false =>
      rw [loadMoreBy.eq_2 (fetchSamples world splitRootArray), if_neg (Bool.eq_false_iff.mp short)]
      cases fetched : fetchSamples world splitRootArray source with
      | ok samples => rw [loadMoreBy_of_fetched short fetched, ih]; rfl
      | error cause => rw [loadMoreBy_of_failed short fetched]; rfl

theorem loadRecorded_of_run {sources : List String} {outcome : Except FetchError (List Value)}
    (ran : (loadMoreBy (fetchRecorded world splitRootArray) limit [] sources).run.run [] =
      (outcome, record)) :
    loadRecorded world limit splitRootArray sources = (outcome.map (withinLimit limit), record) := by
  rw [loadRecorded, loadBy, ExceptT.run_map, StateT.run_map, ran]
  rfl

theorem fst_loadRecorded (world : World) (limit : Int) (splitRootArray : Bool) (sources : List String) :
    (loadRecorded world limit splitRootArray sources).1 =
      loadBy (fetchSamples world splitRootArray) limit sources := by
  cases ran : (loadMoreBy (fetchRecorded world splitRootArray) limit [] sources).run.run [] with
  | mk outcome record =>
    have same := fst_loadMoreBy world limit splitRootArray [] sources []
    rw [ran] at same
    rw [loadRecorded_of_run ran, loadBy, ← same]
    rfl

end Recording

/-! All samples of some sources. -/

section Everything

variable {world : World} {splitRootArray : Bool} {source : String} {first second before sources : List String}
  {samples part all : List Value}

def fetchAll (world : World) (splitRootArray : Bool) (sources : List String) :
    Except FetchError (List Value) :=
  List.flatten <$> sources.mapM (fetchSamples world splitRootArray)

theorem fetchAll_append : fetchAll world splitRootArray (first ++ second) = .ok all ↔
    ∃ part others, fetchAll world splitRootArray first = .ok part ∧
      fetchAll world splitRootArray second = .ok others ∧ all = part ++ others := by
  unfold fetchAll
  rw [List.mapM_append]
  cases first.mapM (fetchSamples world splitRootArray) with
  | error cause => simp [bind, Except.bind, Functor.map, Except.map]
  | ok parts =>
    cases second.mapM (fetchSamples world splitRootArray) with
    | error cause => simp [bind, Except.bind, Functor.map, Except.map]
    | ok others =>
      simp [bind, Except.bind, Functor.map, Except.map, pure, Except.pure, eq_comm]

theorem fetchAll_concat : fetchAll world splitRootArray (first ++ [source]) = .ok all ↔
    ∃ part others, fetchAll world splitRootArray first = .ok part ∧
      fetchSamples world splitRootArray source = .ok others ∧ all = part ++ others := by
  have single : fetchAll world splitRootArray [source] = fetchSamples world splitRootArray source := by
    unfold fetchAll
    rw [List.mapM_cons, List.mapM_nil]
    cases fetchSamples world splitRootArray source with
    | error cause => rfl
    | ok samples => simp [bind, Except.bind, Functor.map, Except.map, pure, Except.pure]
  rw [fetchAll_append, single]

theorem length_le_of_front (front : before <+: sources)
    (fetched : fetchAll world splitRootArray sources = .ok samples)
    (first : fetchAll world splitRootArray before = .ok part) : part.length ≤ samples.length := by
  obtain ⟨rest, rfl⟩ := front
  obtain ⟨own, others, here, _, rfl⟩ := fetchAll_append.mp fetched
  rw [first] at here
  cases here
  rw [List.length_append]
  exact Nat.le_add_right _ _

end Everything

/-! Up to a limit. -/

section Limit

def Reached (limit : Int) (samples : List Value) : Prop := 0 < limit ∧ limit ≤ samples.length

theorem reachesLimit_iff {limit : Int} {samples : List Value} :
    reachesLimit limit samples.length = true ↔ Reached limit samples := by
  rw [reachesLimit, Bool.and_eq_true, decide_eq_true_iff, decide_eq_true_iff, Reached]

/-- These sources hold the samples, and without the last of them the limit is not reached. -/
structure Needed (world : World) (limit : Int) (splitRootArray : Bool) (sources : List String)
    (samples : List Value) : Prop where
  fetched : fetchAll world splitRootArray sources = .ok samples
  short : ∀ before, before <+: sources → before ≠ sources → ∀ part,
    fetchAll world splitRootArray before = .ok part → ¬Reached limit part

variable {world : World} {limit : Int} {splitRootArray : Bool} {samples : List Value}
  {source : String} {before rest : List String} {cause : FetchError}

theorem not_reached_of_front {first : List String} {part : List Value} (front : first <+: before)
    (fetched : fetchAll world splitRootArray before = .ok samples) (short : ¬Reached limit samples)
    (here : fetchAll world splitRootArray first = .ok part) : ¬Reached limit part := by
  intro reached
  refine short ⟨reached.1, ?_⟩
  calc limit ≤ part.length := reached.2
    _ ≤ samples.length := Int.ofNat_le.mpr (length_le_of_front front fetched here)

namespace Needed

theorem nil : Needed world limit splitRootArray [] [] :=
  ⟨rfl, fun _ front proper => absurd (List.prefix_nil.mp front) proper⟩

theorem of_short (fetched : fetchAll world splitRootArray before = .ok samples)
    (short : ¬Reached limit samples) : Needed world limit splitRootArray before samples :=
  ⟨fetched, fun _ front _ _ here => not_reached_of_front front fetched short here⟩

theorem concat_iff : Needed world limit splitRootArray (before ++ [source]) samples ↔
    ∃ part others, fetchAll world splitRootArray before = .ok part ∧ ¬Reached limit part ∧
      fetchSamples world splitRootArray source = .ok others ∧ samples = part ++ others := by
  constructor
  · intro needed
    obtain ⟨part, others, first, last, whole⟩ := fetchAll_concat.mp needed.fetched
    have short := needed.short before (List.prefix_append _ _) (by simp) part first
    exact ⟨part, others, first, short, last, whole⟩
  · rintro ⟨part, others, first, short, last, whole⟩
    refine ⟨fetchAll_concat.mpr ⟨part, others, first, last, whole⟩, ?_⟩
    intro front inside proper some here
    have shorter : front <+: before := (List.prefix_concat_iff.mp inside).resolve_left proper
    exact not_reached_of_front shorter first short here

theorem loadMoreBy_append (needed : Needed world limit splitRootArray before samples) (rest : List String) :
    (loadMoreBy (fetchRecorded world splitRootArray) limit [] (before ++ rest)).run.run [] =
      (loadMoreBy (fetchRecorded world splitRootArray) limit samples rest).run.run before := by
  induction before using List.reverseRecOn generalizing samples rest with
  | nil =>
    cases needed.fetched
    rfl
  | append_singleton before source ih =>
    obtain ⟨part, others, first, short, last, rfl⟩ := concat_iff.mp needed
    rw [← reachesLimit_iff, Bool.not_eq_true] at short
    rw [List.append_assoc, ih (of_short first (by rwa [← reachesLimit_iff, Bool.not_eq_true]))]
    exact loadMoreBy_of_fetched short last

end Needed

structure EndsAfter (world : World) (limit : Int) (splitRootArray : Bool) (fetched rest : List String)
    (samples : List Value) : Prop extends Needed world limit splitRootArray fetched samples where
  enough : rest = [] ∨ Reached limit samples

structure StopsAt (world : World) (limit : Int) (splitRootArray : Bool) (before : List String)
    (source : String) (cause : FetchError) : Prop where
  short : ∃ samples, fetchAll world splitRootArray before = .ok samples ∧ ¬Reached limit samples
  failed : fetchSamples world splitRootArray source = .error cause

theorem EndsAfter.loadRecorded (ends : EndsAfter world limit splitRootArray before rest samples) :
    loadRecorded world limit splitRootArray (before ++ rest) = (.ok (withinLimit limit samples), before) := by
  have ran := ends.loadMoreBy_append rest
  rw [loadMoreBy_of_enough (ends.enough.imp_right reachesLimit_iff.mpr)] at ran
  exact loadRecorded_of_run ran

theorem StopsAt.loadRecorded (stops : StopsAt world limit splitRootArray before source cause)
    (rest : List String) : loadRecorded world limit splitRootArray (before ++ source :: rest) =
      (.error cause, before ++ [source]) := by
  obtain ⟨samples, first, short⟩ := stops.short
  have ran := (Needed.of_short first short).loadMoreBy_append (source :: rest)
  rw [← reachesLimit_iff, Bool.not_eq_true] at short
  rw [loadMoreBy_of_failed short stops.failed] at ran
  exact loadRecorded_of_run ran

/-- One source after the other is needed until one of them is enough, or fails. -/
theorem endsAfter_or_stopsAt (world : World) (limit : Int) (splitRootArray : Bool) (sources : List String) :
    (∃ fetched rest samples, sources = fetched ++ rest ∧
      EndsAfter world limit splitRootArray fetched rest samples) ∨
    ∃ before source rest cause, sources = before ++ source :: rest ∧
      StopsAt world limit splitRootArray before source cause := by
  induction sources using List.reverseRecOn with
  | nil => exact .inl ⟨[], [], [], rfl, .nil, .inl rfl⟩
  | append_singleton sources last ih =>
    rcases ih with ⟨fetched, rest, samples, rfl, ends⟩ | ⟨before, source, rest, cause, rfl, stops⟩
    · by_cases reached : Reached limit samples
      · left
        exact ⟨fetched, rest ++ [last], samples, List.append_assoc _ _ _, ends.toNeeded, .inr reached⟩
      · obtain rfl := ends.enough.resolve_right reached
        rw [List.append_nil]
        cases fetch : fetchSamples world splitRootArray last with
        | ok others =>
          left
          have needed := Needed.concat_iff.mpr ⟨samples, others, ends.fetched, reached, fetch, rfl⟩
          exact ⟨fetched ++ [last], [], _, (List.append_nil _).symm, needed, .inl rfl⟩
        | error cause =>
          right
          exact ⟨fetched, last, [], cause, rfl, ⟨samples, ends.fetched, reached⟩, fetch⟩
    · right
      exact ⟨before, source, rest ++ [last], cause, by simp, stops⟩

/-- Loading gives the first samples of as many sources as are needed to reach the limit, or of all of them,
and fails with a source that is needed for that. It fetches no other source. -/
theorem loadSamples_outcome (world : World) (limit : Int) (splitRootArray : Bool) (sources : List String) :
    loadSamples world limit splitRootArray sources = loadBy (fetchSamples world splitRootArray) limit sources ∧
    loadSamples world limit splitRootArray sources =
      (loadRecorded world limit splitRootArray sources).1 ∧
    (∀ values fetched, loadRecorded world limit splitRootArray sources = (.ok values, fetched) ↔
      ∃ rest samples, sources = fetched ++ rest ∧
        EndsAfter world limit splitRootArray fetched rest samples ∧ values = withinLimit limit samples) ∧
    ∀ cause fetched, loadRecorded world limit splitRootArray sources = (.error cause, fetched) ↔
      ∃ before source rest, sources = before ++ source :: rest ∧
        StopsAt world limit splitRootArray before source cause ∧ fetched = before ++ [source] := by
  have same := loadSamples_eq_loadBy world limit splitRootArray sources
  refine ⟨same, same.trans (fst_loadRecorded world limit splitRootArray sources).symm, ?_, ?_⟩
  · intro values fetched
    constructor
    · intro ran
      rcases endsAfter_or_stopsAt world limit splitRootArray sources with
        ⟨needed, rest, samples, rfl, ends⟩ | ⟨before, source, rest, cause, rfl, stops⟩
      · rw [ends.loadRecorded] at ran
        cases ran
        exact ⟨rest, samples, rfl, ends, rfl⟩
      · rw [stops.loadRecorded] at ran
        cases ran
    · rintro ⟨rest, samples, rfl, ends, rfl⟩
      exact ends.loadRecorded
  · intro cause fetched
    constructor
    · intro ran
      rcases endsAfter_or_stopsAt world limit splitRootArray sources with
        ⟨needed, rest, samples, rfl, ends⟩ | ⟨before, source, rest, other, rfl, stops⟩
      · rw [ends.loadRecorded] at ran
        cases ran
      · rw [stops.loadRecorded] at ran
        cases ran
        exact ⟨before, source, rest, rfl, stops, rfl⟩
    · rintro ⟨before, source, rest, rfl, stops, rfl⟩
      exact stops.loadRecorded rest

end Limit

end SampleTypes
