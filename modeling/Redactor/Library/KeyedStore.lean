import Redactor.Library.VersionedStore

/-!
# Versioned values under keys

Every client works on the value under its own key.  Seen through one key, the
run of all clients is the run of a single versioned value, in which the clients
of the other keys never move.
-/

namespace VersionedStore

structure KeyedSystem (κ ι α ω : Type) where
  stored : κ → Option (Versioned α)
  phase : ι → Phase α ω

section Keys

variable {κ ι α ω : Type} [DecidableEq κ] [DecidableEq ι]

def KeyedSystem.set (system : KeyedSystem κ ι α ω) (client : ι)
    (phase : Phase α ω) : KeyedSystem κ ι α ω :=
  { system with phase := Function.update system.phase client phase }

variable (keyOf : ι → κ) (value : ω → α)
  (computes : ι → Option α → ω → Prop)

/-- A step of one client on the value under its key. -/
inductive KeyedStep :
    KeyedSystem κ ι α ω → KeyedSystem κ ι α ω → Prop
  | load (system : KeyedSystem κ ι α ω) (client : ι) :
      system.phase client = .idle →
      KeyedStep system
        (system.set client (.loaded (system.stored (keyOf client))))
  | compute (system : KeyedSystem κ ι α ω) (client : ι)
      (seen : Option (Versioned α)) (outcome : ω) :
      system.phase client = .loaded seen →
      computes client (seen.map Versioned.value) outcome →
      KeyedStep system (system.set client (.computed seen outcome))
  | save (system : KeyedSystem κ ι α ω) (client : ι)
      (seen : Option (Versioned α)) (outcome : ω) :
      system.phase client = .computed seen outcome →
      versionOf (system.stored (keyOf client)) = versionOf seen →
      KeyedStep system
        { stored :=
            Function.update system.stored (keyOf client)
              (some (replacing value seen outcome))
          phase :=
            Function.update system.phase client (.saved seen outcome) }
  | fail (system : KeyedSystem κ ι α ω) (client : ι) :
      (∀ seen outcome, system.phase client ≠ .saved seen outcome) →
      KeyedStep system (system.set client .failed)

def KeyedSystem.initial : KeyedSystem κ ι α ω where
  stored := fun _ => none
  phase := fun _ => .idle

inductive KeyedReachable : KeyedSystem κ ι α ω → Prop
  | initial : KeyedReachable .initial
  | step {system next : KeyedSystem κ ι α ω} :
      KeyedReachable system → KeyedStep keyOf value computes system next →
      KeyedReachable next

/-- What is seen of the system through one key. -/
def KeyedSystem.through (system : KeyedSystem κ ι α ω) (key : κ) :
    System ι α ω where
  stored := system.stored key
  phase := fun client =>
    if keyOf client = key then system.phase client else .idle

variable {keyOf value computes} {system next : KeyedSystem κ ι α ω}
  {key : κ} {client : ι}

omit [DecidableEq ι] in
theorem KeyedSystem.through_phase (here : keyOf client = key) :
    (system.through keyOf key).phase client = system.phase client :=
  if_pos here

/-- The clients of other keys do not show. -/
theorem KeyedSystem.through_update (phase : Phase α ω) :
    (fun other =>
      if keyOf other = key then
        Function.update system.phase client phase other
      else .idle) =
      if keyOf client = key then
        Function.update (system.through keyOf key).phase client phase
      else (system.through keyOf key).phase := by
  by_cases here : keyOf client = key
  · rw [if_pos here]
    funext other
    by_cases same : other = client
    · rw [same, if_pos here, Function.update_self, Function.update_self]
    · rw [Function.update_of_ne same, Function.update_of_ne same]
      rfl
  · rw [if_neg here]
    funext other
    by_cases same : other = client
    · rw [same]
      simp [KeyedSystem.through, here]
    · rw [Function.update_of_ne same]
      rfl

theorem KeyedSystem.through_set (phase : Phase α ω) :
    (system.set client phase).through keyOf key =
      if keyOf client = key then
        (system.through keyOf key).set client phase
      else system.through keyOf key := by
  have phases :=
    @KeyedSystem.through_update κ ι α ω _ _ keyOf system key client phase
  by_cases here : keyOf client = key
  · rw [if_pos here] at phases ⊢
    exact congrArg (System.mk (system.stored key)) phases
  · rw [if_neg here] at phases ⊢
    exact congrArg (System.mk (system.stored key)) phases

/-- Through one key a step is a step of the value under the key, or does not
show. -/
theorem KeyedStep.through
    (step : KeyedStep keyOf value computes system next) (key : κ) :
    next.through keyOf key = system.through keyOf key ∨
      Step value computes (system.through keyOf key)
        (next.through keyOf key) := by
  cases step with
  | load client idle =>
      rw [KeyedSystem.through_set]
      by_cases here : keyOf client = key
      · rw [if_pos here, here]
        exact .inr (.load _ client
          ((KeyedSystem.through_phase here).trans idle))
      · exact .inl (if_neg here)
  | compute client seen outcome isLoaded justified =>
      rw [KeyedSystem.through_set]
      by_cases here : keyOf client = key
      · rw [if_pos here]
        exact .inr (.compute _ client seen outcome
          ((KeyedSystem.through_phase here).trans isLoaded) justified)
      · exact .inl (if_neg here)
  | save client seen outcome isComputed current =>
      have phases :=
        @KeyedSystem.through_update κ ι α ω _ _ keyOf system key client
          (.saved seen outcome)
      by_cases here : keyOf client = key
      · subst here
        rw [if_pos rfl] at phases
        right
        have saved :
            Step value computes (system.through keyOf (keyOf client))
              { stored := some (replacing value seen outcome)
                phase :=
                  Function.update
                    (system.through keyOf (keyOf client)).phase client
                    (.saved seen outcome) } :=
          .save _ client seen outcome
            ((KeyedSystem.through_phase rfl).trans isComputed) current
        rw [← phases] at saved
        simpa [KeyedSystem.through] using saved
      · rw [if_neg here] at phases
        left
        have stored :
            Function.update system.stored (keyOf client)
                (some (replacing value seen outcome)) key =
              system.stored key :=
          Function.update_of_ne (Ne.symm here) _ _
        exact congrArg₂ System.mk stored phases
  | fail client unsaved =>
      rw [KeyedSystem.through_set]
      by_cases here : keyOf client = key
      · rw [if_pos here]
        refine .inr (.fail _ client ?_)
        intro seen outcome
        rw [KeyedSystem.through_phase here]
        exact unsaved seen outcome
      · exact .inl (if_neg here)

omit [DecidableEq ι] in
theorem KeyedSystem.through_initial :
    (KeyedSystem.initial : KeyedSystem κ ι α ω).through keyOf key =
      System.initial := by
  unfold KeyedSystem.through KeyedSystem.initial System.initial
  simp

/-- Through one key a reachable system is a reachable versioned value. -/
theorem KeyedReachable.through
    (reachable : KeyedReachable keyOf value computes system) (key : κ) :
    Reachable value computes (system.through keyOf key) := by
  induction reachable with
  | initial =>
      rw [KeyedSystem.through_initial]
      exact .initial
  | step _ step inductionHypothesis =>
      rcases step.through key with same | stepped
      · rw [same]
        exact inductionHypothesis
      · exact .step inductionHypothesis stepped

end Keys

end VersionedStore
