/-! Runs of computations that may fail, taken apart step by step. -/

namespace SampleTypes

variable {ε α β σ : Type}

theorem eq_ok_of_bind {x : Except ε α} {f : α → Except ε β} {b : β} (ran : (x >>= f) = .ok b) :
    ∃ a, x = .ok a ∧ f a = .ok b := by
  cases x with
  | error cause => cases ran
  | ok a => exact ⟨a, rfl, ran⟩

theorem mapError_eq_ok {ε' : Type} {h : ε → ε'} {x : Except ε α} {a : α} :
    x.mapError h = .ok a ↔ x = .ok a := by
  cases x with
  | error cause => exact ⟨nofun, nofun⟩
  | ok b => exact ⟨fun same => congrArg Except.ok (Except.ok.inj same), fun same => same ▸ rfl⟩

theorem bind_ok_iff {x y : Except ε α} {f g : α → Except ε β} {b : β}
    (first : ∀ a, x = .ok a ↔ y = .ok a) (next : ∀ a, f a = .ok b ↔ g a = .ok b) :
    (x >>= f) = .ok b ↔ (y >>= g) = .ok b := by
  constructor
  · intro ran
    obtain ⟨a, here, ran⟩ := eq_ok_of_bind ran
    rw [(first a).mp here]
    exact (next a).mp ran
  · intro ran
    obtain ⟨a, here, ran⟩ := eq_ok_of_bind ran
    rw [(first a).mpr here]
    exact (next a).mpr ran

theorem exists_of_mapError {ε' : Type} {h : ε → ε'} {x : Except ε α} {cause : ε'}
    (failed : x.mapError h = .error cause) : ∃ inner, x = .error inner ∧ h inner = cause := by
  cases x with
  | error inner => exact ⟨inner, rfl, Except.error.inj failed⟩
  | ok a => cases failed

theorem error_of_bind {x : Except ε α} {f : α → Except ε β} {cause : ε}
    (failed : (x >>= f) = .error cause) : x = .error cause ∨ ∃ a, x = .ok a ∧ f a = .error cause := by
  cases x with
  | error other =>
    cases failed
    exact .inl rfl
  | ok a => exact .inr ⟨a, rfl, failed⟩

theorem mapError_bind {ε' : Type} (h : ε → ε') (x : Except ε α) (f : α → Except ε β) :
    (x >>= f).mapError h = x.mapError h >>= fun a => (f a).mapError h := by
  cases x <;> rfl

theorem exists_of_foldlM_error {f : σ → α → Except ε σ} {items : List α} {s : σ} {cause : ε}
    (failed : items.foldlM f s = .error cause) : ∃ a ∈ items, ∃ middle, f middle a = .error cause := by
  induction items generalizing s with
  | nil => cases failed
  | cons a rest ih =>
    rw [List.foldlM_cons] at failed
    cases first : f s a with
    | error other =>
      rw [first] at failed
      cases failed
      exact ⟨a, List.mem_cons_self, s, first⟩
    | ok next =>
      rw [first] at failed
      obtain ⟨b, here, middle, step⟩ := ih failed
      exact ⟨b, List.mem_cons_of_mem a here, middle, step⟩

theorem exists_of_foldlM_ok {f : σ → α → Except ε σ} {items : List α} {s later : σ}
    (ran : items.foldlM f s = .ok later) : ∀ a ∈ items, ∃ middle next, f middle a = .ok next := by
  induction items generalizing s with
  | nil => exact List.forall_mem_nil _
  | cons a rest ih =>
    rw [List.foldlM_cons] at ran
    obtain ⟨next, first, ran⟩ := eq_ok_of_bind ran
    exact List.forall_mem_cons.mpr ⟨⟨s, next, first⟩, ih ran⟩

theorem adapt_adapt {m : Type → Type} [Monad m] [LawfulMonad m] {ε' ε'' : Type} (f : ε → ε')
    (g : ε' → ε'') (x : ExceptT ε m α) : (x.adapt f).adapt g = x.adapt (g ∘ f) := by
  change Except.mapError g <$> Except.mapError f <$> x.run = Except.mapError (g ∘ f) <$> x.run
  rw [← comp_map]
  congr 1
  funext out
  cases out <;> rfl

theorem exists_of_bind_run {x : ExceptT ε (StateM σ) α} {f : α → ExceptT ε (StateM σ) β} {s later : σ}
    {b : β} (ran : (x >>= f).run.run s = (.ok b, later)) :
    ∃ a middle, x.run.run s = (.ok a, middle) ∧ (f a).run.run middle = (.ok b, later) := by
  rw [ExceptT.run_bind, StateT.run_bind] at ran
  cases first : x.run.run s with
  | mk outcome middle =>
    rw [first] at ran
    cases outcome with
    | error cause => cases ran
    | ok a => exact ⟨a, middle, rfl, ran⟩

theorem adapt_run {ε' : Type} (h : ε → ε') (x : ExceptT ε (StateM σ) α) (s : σ) :
    (x.adapt h).run.run s = ((x.run.run s).1.mapError h, (x.run.run s).2) := rfl

theorem length_of_mapM_run {f : α → ExceptT ε (StateM σ) β} {items : List α} {s later : σ}
    {results : List β} (ran : (items.mapM f).run.run s = (.ok results, later)) :
    results.length = items.length := by
  induction items generalizing s results with
  | nil =>
    rw [List.mapM_nil] at ran
    cases ran
    rfl
  | cons a rest ih =>
    rw [List.mapM_cons] at ran
    obtain ⟨b, _, _, ran⟩ := exists_of_bind_run ran
    obtain ⟨others, _, second, ran⟩ := exists_of_bind_run ran
    cases ran
    rw [List.length_cons, List.length_cons, ih second]

theorem forall_of_mapM_run {P : β → Prop} {f : α → ExceptT ε (StateM σ) β} {items : List α}
    (step : ∀ a ∈ items, ∀ {s b later}, (f a).run.run s = (.ok b, later) → P b) {s later : σ}
    {results : List β} (ran : (items.mapM f).run.run s = (.ok results, later)) :
    ∀ b ∈ results, P b := by
  induction items generalizing s results with
  | nil =>
    rw [List.mapM_nil] at ran
    cases ran
    exact List.forall_mem_nil _
  | cons a rest ih =>
    rw [List.forall_mem_cons] at step
    rw [List.mapM_cons] at ran
    obtain ⟨b, _, first, ran⟩ := exists_of_bind_run ran
    obtain ⟨others, _, second, ran⟩ := exists_of_bind_run ran
    cases ran
    exact List.forall_mem_cons.mpr ⟨step.1 first, ih step.2 second⟩

theorem exists_of_mem_mapM_run {f : α → ExceptT ε (StateM σ) β} {items : List α} {a : α} (here : a ∈ items)
    {s later : σ} {results : List β} (ran : (items.mapM f).run.run s = (.ok results, later)) :
    ∃ b ∈ results, ∃ before after, (f a).run.run before = (.ok b, after) := by
  induction items generalizing s results with
  | nil => cases here
  | cons first rest ih =>
    rw [List.mapM_cons] at ran
    obtain ⟨b, middle, own, ran⟩ := exists_of_bind_run ran
    obtain ⟨others, _, second, ran⟩ := exists_of_bind_run ran
    cases ran
    rcases List.mem_cons.mp here with rfl | there
    · exact ⟨b, List.mem_cons_self, s, middle, own⟩
    · obtain ⟨other, inside, step⟩ := ih there second
      exact ⟨other, List.mem_cons_of_mem b inside, step⟩

theorem mapM_cons_run (f : α → StateT σ (Except ε) β) (a : α) (rest : List α) (s : σ) :
    (a :: rest).mapM f s = do
      let (b, next) ← f a s
      let (others, last) ← rest.mapM f next
      return (b :: others, last) := by
  rw [List.mapM_cons]
  rfl

theorem mapM_eq_ok {f : α → Except ε β} {g : α → β} {items : List α}
    (each : ∀ a ∈ items, f a = .ok (g a)) : items.mapM f = .ok (items.map g) := by
  induction items with
  | nil => rfl
  | cons a rest ih =>
    rw [List.forall_mem_cons] at each
    rw [List.mapM_cons, each.1, ih each.2]
    rfl

theorem mapM_congr {m : Type → Type} [Monad m] [LawfulMonad m] {f g : α → m β} {items : List α}
    (agree : ∀ a ∈ items, f a = g a) : items.mapM f = items.mapM g := by
  induction items with
  | nil => rfl
  | cons a rest ih =>
    rw [List.forall_mem_cons] at agree
    rw [List.mapM_cons, List.mapM_cons, agree.1, ih agree.2]

/-- Two runs that correspond at every step give the same results in corresponding states. -/
theorem mapM_corresponds {γ : Type} {f : α → StateT σ (Except ε) β} {g : γ → StateT σ (Except ε) β}
    {h : α → γ} {φ : σ → σ} (items : List α)
    (step : ∀ a ∈ items, ∀ s, g (h a) (φ s) = (f a s).map fun out => (out.1, φ out.2)) (s : σ) :
    (items.map h).mapM g (φ s) = (items.mapM f s).map fun out => (out.1, φ out.2) := by
  induction items generalizing s with
  | nil => rfl
  | cons a rest ih =>
    rw [List.forall_mem_cons] at step
    rw [List.map_cons, mapM_cons_run, mapM_cons_run, step.1 s]
    cases first : f a s with
    | error cause => rfl
    | ok out =>
      have others := ih step.2 out.2
      simp only [Except.map, bind, Except.bind] at others ⊢
      rw [others]
      cases rest.mapM f out.2 <;> rfl

theorem mapM_mapError {ε' : Type} {f : α → StateT σ (Except ε) β} {g : α → StateT σ (Except ε') β}
    {h : ε → ε'} {items : List α} (step : ∀ a ∈ items, ∀ s, g a s = (f a s).mapError h) (s : σ) :
    items.mapM g s = (items.mapM f s).mapError h := by
  induction items generalizing s with
  | nil => rfl
  | cons a rest ih =>
    rw [List.forall_mem_cons] at step
    rw [mapM_cons_run, mapM_cons_run, step.1 s, mapError_bind]
    congr 1
    funext out
    change (rest.mapM g out.2 >>= _) = Except.mapError h (rest.mapM f out.2 >>= _)
    rw [ih step.2, mapError_bind]
    rfl

theorem map_of_mapM {γ : Type} {f : α → StateT σ (Except ε) β} {p : α → γ} {q : β → γ}
    {items : List α} (step : ∀ a ∈ items, ∀ {s b later}, f a s = .ok (b, later) → q b = p a)
    {s later : σ} {results : List β} (ran : items.mapM f s = .ok (results, later)) :
    results.map q = items.map p := by
  induction items generalizing s results with
  | nil =>
    rw [List.mapM_nil] at ran
    cases ran
    rfl
  | cons a rest ih =>
    rw [List.forall_mem_cons] at step
    rw [mapM_cons_run] at ran
    obtain ⟨⟨b, next⟩, first, ran⟩ := eq_ok_of_bind ran
    obtain ⟨⟨others, last⟩, second, ran⟩ := eq_ok_of_bind ran
    cases ran
    rw [List.map_cons, List.map_cons, step.1 first, ih step.2 second]

/-- What relates a value to the state, when every step takes both on, relates them after the whole run. -/
theorem foldl_of_mapM {γ : Type} {I : γ → σ → Prop} (advance : γ → α → γ) {f : α → StateT σ (Except ε) β}
    {items : List α}
    (step : ∀ a ∈ items, ∀ {c s b later}, I c s → f a s = .ok (b, later) → I (advance c a) later)
    {c : γ} {s later : σ} {results : List β} (start : I c s)
    (ran : items.mapM f s = .ok (results, later)) : I (items.foldl advance c) later := by
  induction items generalizing c s results with
  | nil =>
    rw [List.mapM_nil] at ran
    cases ran
    exact start
  | cons a rest ih =>
    rw [List.forall_mem_cons] at step
    rw [mapM_cons_run] at ran
    obtain ⟨⟨b, next⟩, first, ran⟩ := eq_ok_of_bind ran
    obtain ⟨⟨others, last⟩, second, ran⟩ := eq_ok_of_bind ran
    cases ran
    exact ih step.2 (step.1 start first) second

theorem invariant_of_mapM {I : σ → Prop} {f : α → StateT σ (Except ε) β} {items : List α}
    (step : ∀ a ∈ items, ∀ {s b later}, I s → f a s = .ok (b, later) → I later) {s later : σ}
    {results : List β} (start : I s) (ran : items.mapM f s = .ok (results, later)) : I later :=
  foldl_of_mapM (I := fun _ : Unit => I) (c := ()) (fun _ _ => ()) (fun a here => step a here) start ran

theorem exists_of_mapM {I : σ → Prop} {f : α → StateT σ (Except ε) β} (items : List α)
    (step : ∀ a ∈ items, ∀ {s}, I s → ∃ b later, f a s = .ok (b, later) ∧ I later) {s : σ} (start : I s) :
    ∃ results later, items.mapM f s = .ok (results, later) ∧ I later := by
  induction items generalizing s with
  | nil => exact ⟨[], s, rfl, start⟩
  | cons a rest ih =>
    rw [List.forall_mem_cons] at step
    obtain ⟨b, next, first, kept⟩ := step.1 start
    obtain ⟨others, last, second, whole⟩ := ih step.2 kept
    refine ⟨b :: others, last, ?_, whole⟩
    rw [mapM_cons_run, first]
    change (rest.mapM f next >>= _) = _
    rw [second]
    rfl

theorem forall_of_mapM {P : β → Prop} {f : α → StateT σ (Except ε) β} {items : List α}
    (step : ∀ a ∈ items, ∀ {s b later}, f a s = .ok (b, later) → P b) {s later : σ} {results : List β}
    (ran : items.mapM f s = .ok (results, later)) : ∀ b ∈ results, P b := by
  induction items generalizing s results with
  | nil =>
    rw [List.mapM_nil] at ran
    cases ran
    exact List.forall_mem_nil _
  | cons a rest ih =>
    rw [List.forall_mem_cons] at step
    rw [mapM_cons_run] at ran
    obtain ⟨⟨b, next⟩, first, ran⟩ := eq_ok_of_bind ran
    obtain ⟨⟨others, last⟩, second, ran⟩ := eq_ok_of_bind ran
    cases ran
    exact List.forall_mem_cons.mpr ⟨step.1 first, ih step.2 second⟩

end SampleTypes
