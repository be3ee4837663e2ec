import Mathlib.Logic.Function.Basic

/-!
# Conditional writes to a key that may vanish

Clients share one key.  A client loads what is stored and writes later, if a
check takes what is then stored for what it has loaded.  The key may vanish at
any moment.  The check compares values, while every write makes a record of its
own: the writes hit the record that was loaded as long as no value is written
that the check takes for a record which another client still holds.
-/

namespace ConditionalWrites

/-- A value with the number of the write that made it. -/
structure Record (ρ : Type) where
  stamp : Nat
  value : ρ
  deriving DecidableEq

/-- What is stored, the number of writes so far, and what every client has
loaded and not used yet. -/
structure System (ι ρ : Type) where
  stored : Option (Record ρ)
  writes : Nat
  held : ι → Option (Option (Record ρ))

inductive Event (ι ρ : Type) where
  | load (client : ι)
  | write (client : ι) (value : ρ)
  | drop (client : ι)
  | vanish

section Steps

variable {ι ρ : Type} [DecidableEq ι] (accepts : ρ → ρ → Prop)

/-- The check of a write: the stored value is taken for the loaded one, or
there was nothing and is nothing. -/
def Passes : Option (Record ρ) → Option (Record ρ) → Prop
  | none, none => True
  | some current, some seen => accepts current.value seen.value
  | _, _ => False

def System.hold (system : System ι ρ) (client : ι)
    (held : Option (Option (Record ρ))) : System ι ρ :=
  { system with held := Function.update system.held client held }

def System.write (system : System ι ρ) (client : ι) (value : ρ) :
    System ι ρ where
  stored := some { stamp := system.writes, value }
  writes := system.writes + 1
  held := Function.update system.held client none

inductive Step : System ι ρ → Event ι ρ → System ι ρ → Prop
  | load (system : System ι ρ) (client : ι) :
      Step system (.load client) (system.hold client (some system.stored))
  | write (system : System ι ρ) (client : ι) (seen : Option (Record ρ))
      (value : ρ) :
      system.held client = some seen →
      Passes accepts system.stored seen →
      Step system (.write client value) (system.write client value)
  | drop (system : System ι ρ) (client : ι) :
      Step system (.drop client) (system.hold client none)
  | vanish (system : System ι ρ) :
      Step system .vanish { system with stored := none }

def System.initial : System ι ρ where
  stored := none
  writes := 0
  held := fun _ => none

/-- The systems that are reached by steps that are all allowed. -/
inductive ReachedBy (allowed : System ι ρ → Event ι ρ → Prop) :
    System ι ρ → Prop
  | initial : ReachedBy allowed .initial
  | step {system next : System ι ρ} {event : Event ι ρ} :
      ReachedBy allowed system → allowed system event →
      Step accepts system event next → ReachedBy allowed next

/-- No value is written that would be taken for a record which another client
holds. -/
def Fresh (system : System ι ρ) : Event ι ρ → Prop
  | .write client value =>
      ∀ other record, other ≠ client →
        system.held other = some (some record) →
        ¬ accepts value record.value
  | _ => True

end Steps

section Holding

variable {ι ρ : Type} [DecidableEq ι] {system : System ι ρ}
  {client other : ι} {held : Option (Option (Record ρ))} {value : ρ}
  {seen : Option (Record ρ)}

theorem held_hold :
    (system.hold client held).held =
      Function.update system.held client held := rfl

theorem held_write :
    (system.write client value).held =
      Function.update system.held client none := rfl

theorem held_hold_eq_some
    (holds : (system.hold client held).held other = some seen) :
    other = client ∧ held = some seen ∨
      other ≠ client ∧ system.held other = some seen := by
  rw [held_hold] at holds
  by_cases same : other = client
  · rw [same, Function.update_self] at holds
    exact Or.inl ⟨same, holds⟩
  · rw [Function.update_of_ne same] at holds
    exact Or.inr ⟨same, holds⟩

/-- Who still holds something after a write is not the one who wrote. -/
theorem held_write_eq_some
    (holds : (system.write client value).held other = some seen) :
    other ≠ client ∧ system.held other = some seen := by
  rw [held_write] at holds
  by_cases same : other = client
  · rw [same, Function.update_self] at holds
    cases holds
  · rw [Function.update_of_ne same] at holds
    exact ⟨same, holds⟩

end Holding

/-! ## Invariants -/

section Invariants

variable {ι ρ : Type} [DecidableEq ι] {accepts : ρ → ρ → Prop}
  {allowed : System ι ρ → Event ι ρ → Prop} {system next : System ι ρ}
  {event : Event ι ρ}

/-- All records are of writes that were made. -/
structure Stamped (system : System ι ρ) : Prop where
  stored :
    ∀ record, system.stored = some record → record.stamp < system.writes
  held :
    ∀ client record, system.held client = some (some record) →
      record.stamp < system.writes

theorem stamped_step (stamped : Stamped system)
    (step : Step accepts system event next) : Stamped next := by
  cases step with
  | load client =>
      refine ⟨stamped.stored, ?_⟩
      intro other record holds
      rcases held_hold_eq_some holds with ⟨_, loaded⟩ | ⟨_, before⟩
      · exact stamped.stored record (Option.some.inj loaded)
      · exact stamped.held other record before
  | write client seen value _ _ =>
      constructor
      · intro record stored
        cases stored
        exact Nat.lt_succ_self _
      · intro other record holds
        obtain ⟨_, before⟩ := held_write_eq_some holds
        exact Nat.lt_succ_of_lt (stamped.held other record before)
  | drop client =>
      refine ⟨stamped.stored, ?_⟩
      intro other record holds
      rcases held_hold_eq_some holds with ⟨_, dropped⟩ | ⟨_, before⟩
      · cases dropped
      · exact stamped.held other record before
  | vanish =>
      refine ⟨?_, stamped.held⟩
      intro record stored
      cases stored

theorem stamped_of_reachedBy (reached : ReachedBy accepts allowed system) :
    Stamped system := by
  induction reached with
  | initial =>
      constructor
      · intro record stored
        cases stored
      · intro client record holds
        cases holds
  | step _ _ step inductionHypothesis =>
      exact stamped_step inductionHypothesis step

/-- Whatever a client holds is stored, or not taken for what is. -/
def Told (accepts : ρ → ρ → Prop) (system : System ι ρ) : Prop :=
  ∀ client record, system.held client = some (some record) →
    system.stored = some record ∨
      ∀ current, system.stored = some current →
        ¬ accepts current.value record.value

theorem told_step (told : Told accepts system)
    (fresh : Fresh accepts system event)
    (step : Step accepts system event next) : Told accepts next := by
  intro other record holds
  cases step with
  | load client =>
      rcases held_hold_eq_some holds with ⟨_, loaded⟩ | ⟨_, before⟩
      · exact Or.inl (Option.some.inj loaded)
      · exact told other record before
  | write client seen value _ _ =>
      obtain ⟨different, before⟩ := held_write_eq_some holds
      right
      intro current stored
      cases stored
      exact fresh other record different before
  | drop client =>
      rcases held_hold_eq_some holds with ⟨_, dropped⟩ | ⟨_, before⟩
      · cases dropped
      · exact told other record before
  | vanish =>
      right
      intro current stored
      cases stored

theorem told_of_reachedBy
    (reached : ReachedBy accepts (Fresh accepts) system) :
    Told accepts system := by
  induction reached with
  | initial =>
      intro client record holds
      cases holds
  | step _ fresh step inductionHypothesis =>
      exact told_step inductionHypothesis fresh step

/-- After fresh writes only, a check that passes has found the record that was
loaded. -/
theorem stored_eq_of_passes
    (reached : ReachedBy accepts (Fresh accepts) system) {client : ι}
    {seen : Option (Record ρ)} (holds : system.held client = some seen)
    (passes : Passes accepts system.stored seen) :
    system.stored = seen := by
  cases seen with
  | none =>
      cases stored : system.stored with
      | none =>
          rfl
      | some current =>
          rw [stored] at passes
          exact passes.elim
  | some record =>
      rcases told_of_reachedBy reached client record holds with
        itself | different
      · exact itself
      · cases stored : system.stored with
        | none =>
            rw [stored] at passes
            exact passes.elim
        | some current =>
            rw [stored] at passes
            exact absurd passes (different current stored)

/-- After a write that is not fresh another client's check passes although the
record is a different one. -/
theorem exists_mistaken (reached : ReachedBy accepts allowed system)
    {client : ι} {value : ρ}
    (stale : ¬ Fresh accepts system (.write client value)) :
    ∃ other record,
      (system.write client value).held other = some (some record) ∧
      Passes accepts (system.write client value).stored (some record) ∧
      (system.write client value).stored ≠ some record := by
  simp only [Fresh, not_forall, not_not] at stale
  obtain ⟨other, record, different, holds, mistaken⟩ := stale
  refine ⟨other, record, ?_, mistaken, ?_⟩
  · rw [held_write, Function.update_of_ne different]
    exact holds
  · intro same
    have earlier := (stamped_of_reachedBy reached).held other record holds
    rw [← Option.some.inj same] at earlier
    exact Nat.lt_irrefl _ earlier

end Invariants

section Numbered

variable {ι ρ : Type} [DecidableEq ι] (version : ρ → Nat)

/-- The number of a value; nothing stored counts as zero. -/
def versionOf : Option (Record ρ) → Nat
  | none => 0
  | some record => version record.value

/-- A write counts on from what its client has loaded, and the key does not
vanish while a client holds a record. -/
def Quiet (system : System ι ρ) : Event ι ρ → Prop
  | .write client value =>
      ∀ seen, system.held client = some seen →
        version value = versionOf version seen + 1
  | .vanish => ∀ client record, system.held client ≠ some (some record)
  | _ => True

variable {version} {accepts : ρ → ρ → Prop} {system next : System ι ρ}
  {event : Event ι ρ}

/-- What clients hold is not newer than what is stored. -/
def Behind (version : ρ → Nat) (system : System ι ρ) : Prop :=
  ∀ client record, system.held client = some (some record) →
    ∃ current, system.stored = some current ∧
      version record.value ≤ version current.value

omit [DecidableEq ι] in
/-- A write whose check passes counts on from a record that is as new as the
stored one. -/
theorem version_of_passes
    (same :
      ∀ current seen, accepts current seen → version current = version seen)
    {client : ι} {seen : Option (Record ρ)} {value : ρ} {current : Record ρ}
    (quiet : Quiet version system (.write client value))
    (holds : system.held client = some seen)
    (passes : Passes accepts (some current) seen) :
    version value = version current.value + 1 := by
  have counted := quiet seen holds
  cases seen with
  | none =>
      exact passes.elim
  | some loaded =>
      rw [counted, versionOf, same current.value loaded.value passes]

theorem behind_step
    (same :
      ∀ current seen, accepts current seen → version current = version seen)
    (behind : Behind version system) (quiet : Quiet version system event)
    (step : Step accepts system event next) : Behind version next := by
  intro other record holds
  cases step with
  | load client =>
      rcases held_hold_eq_some holds with ⟨_, loaded⟩ | ⟨_, before⟩
      · exact ⟨record, Option.some.inj loaded, Nat.le_refl _⟩
      · exact behind other record before
  | write client seen value holdsSeen passes =>
      obtain ⟨_, before⟩ := held_write_eq_some holds
      obtain ⟨current, stored, ordered⟩ := behind other record before
      rw [stored] at passes
      have counted := version_of_passes same quiet holdsSeen passes
      refine ⟨_, rfl, ?_⟩
      simp only
      omega
  | drop client =>
      rcases held_hold_eq_some holds with ⟨_, dropped⟩ | ⟨_, before⟩
      · cases dropped
      · exact behind other record before
  | vanish =>
      exact absurd holds (quiet other record)

theorem behind_of_reachedBy
    (same :
      ∀ current seen, accepts current seen → version current = version seen)
    (reached : ReachedBy accepts (Quiet version) system) :
    Behind version system := by
  induction reached with
  | initial =>
      intro client record holds
      cases holds
  | step _ quiet step inductionHypothesis =>
      exact behind_step same inductionHypothesis quiet step

/-- As long as the key vanishes only while no client holds a record, every
write is fresh. -/
theorem fresh_of_quiet
    (same :
      ∀ current seen, accepts current seen → version current = version seen)
    (reached : ReachedBy accepts (Quiet version) system)
    (quiet : Quiet version system event)
    (step : Step accepts system event next) :
    Fresh accepts system event := by
  have behind := behind_of_reachedBy same reached
  cases step with
  | write client seen value holdsSeen passes =>
      intro other record _ holds mistaken
      obtain ⟨current, stored, ordered⟩ := behind other record holds
      rw [stored] at passes
      have counted := version_of_passes same quiet holdsSeen passes
      have repeated := same _ _ mistaken
      omega
  | load _ =>
      trivial
  | drop _ =>
      trivial
  | vanish =>
      trivial

end Numbered

end ConditionalWrites
