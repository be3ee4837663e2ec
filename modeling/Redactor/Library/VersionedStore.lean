import Mathlib.Logic.Function.Basic
import Mathlib.Data.List.Nodup
import Mathlib.Data.List.Infix

/-!
# Optimistic updates of a versioned value

Clients share one stored value.  A client loads it, computes an outcome from
what it has seen, and saves the value of the outcome if the version is still
the one it has seen.  In every interleaving the clients that saved stand in a
row, each of them having seen exactly what the one before it saved.
-/

namespace VersionedStore

structure Versioned (α : Type) where
  version : Nat
  value : α

inductive Phase (α ω : Type) where
  | idle
  | loaded (seen : Option (Versioned α))
  | computed (seen : Option (Versioned α)) (outcome : ω)
  | saved (seen : Option (Versioned α)) (outcome : ω)
  | failed

structure System (ι α ω : Type) where
  stored : Option (Versioned α)
  phase : ι → Phase α ω

/-- The number of the version; nothing stored counts as zero. -/
def versionOf {α : Type} : Option (Versioned α) → Nat
  | none => 0
  | some seen => seen.version

section Steps

variable {ι α ω : Type} [DecidableEq ι]

def System.set (system : System ι α ω) (client : ι) (phase : Phase α ω) :
    System ι α ω :=
  { system with phase := Function.update system.phase client phase }

variable (value : ω → α) (computes : ι → Option α → ω → Prop)

/-- The value that an outcome stores over what was seen. -/
def replacing (seen : Option (Versioned α)) (outcome : ω) : Versioned α where
  version := versionOf seen + 1
  value := value outcome

inductive Step : System ι α ω → System ι α ω → Prop
  | load (system : System ι α ω) (client : ι) :
      system.phase client = .idle →
      Step system (system.set client (.loaded system.stored))
  | compute (system : System ι α ω) (client : ι)
      (seen : Option (Versioned α)) (outcome : ω) :
      system.phase client = .loaded seen →
      computes client (seen.map Versioned.value) outcome →
      Step system (system.set client (.computed seen outcome))
  | save (system : System ι α ω) (client : ι)
      (seen : Option (Versioned α)) (outcome : ω) :
      system.phase client = .computed seen outcome →
      versionOf system.stored = versionOf seen →
      Step system
        { stored := some (replacing value seen outcome)
          phase :=
            Function.update system.phase client (.saved seen outcome) }
  | fail (system : System ι α ω) (client : ι) :
      (∀ seen outcome, system.phase client ≠ .saved seen outcome) →
      Step system (system.set client .failed)

def System.initial : System ι α ω where
  stored := none
  phase := fun _ => .idle

inductive Reachable : System ι α ω → Prop
  | initial : Reachable .initial
  | step {system next : System ι α ω} :
      Reachable system → Step value computes system next → Reachable next

end Steps

section Rows

variable {ι α ω : Type} (value : ω → α) (phase : ι → Phase α ω)

/-- The clients of a row have saved one after the other, each over what the one
before it left. -/
def Row : Option (Versioned α) → List ι → Option (Versioned α) → Prop
  | seen, [], latest => latest = seen
  | seen, client :: rest, latest =>
      ∃ outcome,
        phase client = .saved seen outcome ∧
          Row (some (replacing value seen outcome)) rest latest

variable {value phase} {seen latest : Option (Versioned α)}

theorem row_append {left right : List ι} :
    Row value phase seen (left ++ right) latest ↔
      ∃ middle,
        Row value phase seen left middle ∧
          Row value phase middle right latest := by
  induction left generalizing seen with
  | nil =>
      simp [Row]
  | cons client rest inductionHypothesis =>
      simp only [List.cons_append, Row, inductionHypothesis]
      constructor
      · intro row
        obtain ⟨outcome, saved, middle, first, second⟩ := row
        exact ⟨middle, ⟨outcome, saved, first⟩, second⟩
      · intro row
        obtain ⟨middle, ⟨outcome, saved, first⟩, second⟩ := row
        exact ⟨outcome, saved, middle, first, second⟩

/-- A row fixes what it leaves. -/
theorem Row.unique {order : List ι} {other : Option (Versioned α)}
    (row : Row value phase seen order latest)
    (again : Row value phase seen order other) :
    latest = other := by
  induction order generalizing seen with
  | nil =>
      exact row.trans again.symm
  | cons client rest inductionHypothesis =>
      obtain ⟨outcome, saved, later⟩ := row
      obtain ⟨outcome', saved', later'⟩ := again
      have same := saved.symm.trans saved'
      cases same
      exact inductionHypothesis later later'

/-- Versions count the clients. -/
theorem Row.versionOf_eq {order : List ι}
    (row : Row value phase seen order latest) :
    versionOf latest = versionOf seen + order.length := by
  induction order generalizing seen with
  | nil =>
      rw [row]
      rfl
  | cons client rest inductionHypothesis =>
      obtain ⟨outcome, _, later⟩ := row
      have counted := inductionHypothesis later
      simp only [versionOf, replacing, List.length_cons] at counted ⊢
      omega

/-- A row looks at its own clients only. -/
theorem Row.congr {order : List ι} {next : ι → Phase α ω}
    (row : Row value phase seen order latest)
    (unchanged : ∀ client ∈ order, next client = phase client) :
    Row value next seen order latest := by
  induction order generalizing seen with
  | nil =>
      exact row
  | cons client rest inductionHypothesis =>
      obtain ⟨outcome, saved, later⟩ := row
      refine ⟨outcome, ?_, inductionHypothesis later ?_⟩
      · rw [unchanged client List.mem_cons_self]
        exact saved
      · intro other member
        exact unchanged other (List.mem_cons_of_mem client member)

end Rows

/-! ## The invariant -/

section Invariant

variable {ι α ω : Type} {value : ω → α}
  {computes : ι → Option α → ω → Prop}

/-- What a client has seen was left by an initial part of the row. -/
def SeenIn (value : ω → α) (phase : ι → Phase α ω) (order : List ι)
    (seen : Option (Versioned α)) : Prop :=
  ∃ before, before <+: order ∧ Row value phase none before seen

/-- The clients that saved stand in the row `order`. -/
structure InRow (value : ω → α) (computes : ι → Option α → ω → Prop)
    (system : System ι α ω) (order : List ι) : Prop where
  nodup : order.Nodup
  members :
    ∀ client, client ∈ order ↔
      ∃ seen outcome, system.phase client = .saved seen outcome
  row : Row value system.phase none order system.stored
  loaded :
    ∀ client seen, system.phase client = .loaded seen →
      SeenIn value system.phase order seen
  computed :
    ∀ client seen outcome, system.phase client = .computed seen outcome →
      SeenIn value system.phase order seen ∧
        computes client (seen.map Versioned.value) outcome
  saved :
    ∀ client seen outcome, system.phase client = .saved seen outcome →
      computes client (seen.map Versioned.value) outcome

theorem SeenIn.congr {phase next : ι → Phase α ω} {order : List ι}
    {seen : Option (Versioned α)} (seenIn : SeenIn value phase order seen)
    (unchanged : ∀ client ∈ order, next client = phase client) :
    SeenIn value next order seen := by
  obtain ⟨before, initial, row⟩ := seenIn
  exact ⟨before, initial, row.congr fun client member =>
    unchanged client (initial.subset member)⟩

theorem SeenIn.extend {phase : ι → Phase α ω} {order : List ι}
    {seen : Option (Versioned α)} (seenIn : SeenIn value phase order seen)
    (client : ι) :
    SeenIn value phase (order ++ [client]) seen := by
  obtain ⟨before, initial, row⟩ := seenIn
  exact ⟨before, initial.trans (List.prefix_append order [client]), row⟩

/-- Who has seen the current version has seen the stored value. -/
theorem SeenIn.eq_of_versionOf_eq {phase : ι → Phase α ω} {order : List ι}
    {seen latest : Option (Versioned α)}
    (seenIn : SeenIn value phase order seen)
    (row : Row value phase none order latest)
    (same : versionOf latest = versionOf seen) :
    latest = seen := by
  obtain ⟨before, initial, rowBefore⟩ := seenIn
  have all := row.versionOf_eq
  have part := rowBefore.versionOf_eq
  have whole : before = order := by
    apply initial.eq_of_length
    omega
  rw [whole] at rowBefore
  exact row.unique rowBefore

variable [DecidableEq ι]

omit [DecidableEq ι] in
/-- Only a client that has saved stands in the row. -/
theorem InRow.not_mem {system : System ι α ω} {order : List ι}
    (inRow : InRow value computes system order) {client : ι}
    (unsaved :
      ∀ seen outcome, system.phase client ≠ .saved seen outcome) :
    client ∉ order := by
  intro member
  obtain ⟨seen, outcome, saved⟩ := (inRow.members client).mp member
  exact unsaved seen outcome saved

/-- The clients of a row go on as they are when another one moves. -/
theorem update_of_not_mem {order : List ι} {client : ι}
    (outside : client ∉ order) (phases : ι → Phase α ω)
    (phase : Phase α ω) :
    ∀ other ∈ order, Function.update phases client phase other =
      phases other := by
  intro other member
  apply Function.update_of_ne
  intro same
  exact outside (same ▸ member)

/-- A step of a client that has not saved and does not save now. -/
theorem InRow.set {system : System ι α ω} {order : List ι}
    (inRow : InRow value computes system order) {client : ι}
    (unsaved :
      ∀ seen outcome, system.phase client ≠ .saved seen outcome)
    {phase : Phase α ω}
    (stays : ∀ seen outcome, phase ≠ .saved seen outcome)
    (loaded :
      ∀ seen, phase = .loaded seen → SeenIn value system.phase order seen)
    (computed :
      ∀ seen outcome, phase = .computed seen outcome →
        SeenIn value system.phase order seen ∧
          computes client (seen.map Versioned.value) outcome) :
    InRow value computes (system.set client phase) order := by
  have outside := inRow.not_mem unsaved
  have unchanged :
      ∀ other ∈ order,
        (system.set client phase).phase other = system.phase other :=
    update_of_not_mem outside system.phase phase
  have elsewhere :
      ∀ other, other ≠ client →
        (system.set client phase).phase other = system.phase other :=
    fun other different => Function.update_of_ne different _ _
  have here : (system.set client phase).phase client = phase :=
    Function.update_self _ _ _
  refine ⟨inRow.nodup, ?_, inRow.row.congr unchanged, ?_, ?_, ?_⟩
  · intro other
    by_cases same : other = client
    · rw [same, here]
      constructor
      · intro member
        exact absurd member outside
      · intro saved
        obtain ⟨seen, outcome, shape⟩ := saved
        exact absurd shape (stays seen outcome)
    · rw [elsewhere other same]
      exact inRow.members other
  · intro other seen shape
    by_cases same : other = client
    · rw [same, here] at shape
      exact (loaded seen shape).congr unchanged
    · rw [elsewhere other same] at shape
      exact (inRow.loaded other seen shape).congr unchanged
  · intro other seen outcome shape
    by_cases same : other = client
    · rw [same, here] at shape
      rw [same]
      obtain ⟨seenIn, justified⟩ := computed seen outcome shape
      exact ⟨seenIn.congr unchanged, justified⟩
    · rw [elsewhere other same] at shape
      obtain ⟨seenIn, justified⟩ := inRow.computed other seen outcome shape
      exact ⟨seenIn.congr unchanged, justified⟩
  · intro other seen outcome shape
    by_cases same : other = client
    · rw [same, here] at shape
      exact absurd shape (stays seen outcome)
    · rw [elsewhere other same] at shape
      exact inRow.saved other seen outcome shape

/-- A client that saves joins the row at its end. -/
theorem InRow.save {system : System ι α ω} {order : List ι}
    (inRow : InRow value computes system order) {client : ι}
    {seen : Option (Versioned α)} {outcome : ω}
    (shape : system.phase client = .computed seen outcome)
    (current : versionOf system.stored = versionOf seen) :
    InRow value computes
      { stored := some (replacing value seen outcome)
        phase :=
          Function.update system.phase client (.saved seen outcome) }
      (order ++ [client]) := by
  obtain ⟨seenIn, justified⟩ := inRow.computed client seen outcome shape
  have latest : system.stored = seen :=
    seenIn.eq_of_versionOf_eq inRow.row current
  have outside : client ∉ order := by
    apply inRow.not_mem
    intro seen' outcome' saved
    rw [shape] at saved
    cases saved
  have elsewhere :
      ∀ other, other ≠ client →
        Function.update system.phase client (.saved seen outcome) other =
          system.phase other :=
    fun other different => Function.update_of_ne different _ _
  have here :
      Function.update system.phase client (.saved seen outcome) client =
        .saved seen outcome :=
    Function.update_self _ _ _
  have unchanged :
      ∀ other ∈ order,
        Function.update system.phase client (.saved seen outcome) other =
          system.phase other :=
    update_of_not_mem outside system.phase (.saved seen outcome)
  refine ⟨?_, ?_, ?_, ?_, ?_, ?_⟩
  · rw [← List.concat_eq_append]
    exact inRow.nodup.concat outside
  · intro other
    simp only [List.mem_append, List.mem_singleton]
    by_cases same : other = client
    · rw [same, here]
      simp
    · rw [elsewhere other same, ← inRow.members other]
      simp [same]
  · have rowBefore := inRow.row.congr unchanged
    rw [latest] at rowBefore
    exact row_append.mpr ⟨seen, rowBefore, outcome, here, rfl⟩
  · intro other found isLoaded
    simp only at isLoaded
    by_cases same : other = client
    · rw [same, here] at isLoaded
      cases isLoaded
    · rw [elsewhere other same] at isLoaded
      exact ((inRow.loaded other found isLoaded).congr unchanged).extend client
  · intro other found result isComputed
    simp only at isComputed
    by_cases same : other = client
    · rw [same, here] at isComputed
      cases isComputed
    · rw [elsewhere other same] at isComputed
      obtain ⟨inside, holds⟩ := inRow.computed other found result isComputed
      exact ⟨(inside.congr unchanged).extend client, holds⟩
  · intro other found result isSaved
    simp only at isSaved
    by_cases same : other = client
    · rw [same, here] at isSaved
      cases isSaved
      rw [same]
      exact justified
    · rw [elsewhere other same] at isSaved
      exact inRow.saved other found result isSaved

theorem inRow_step {system next : System ι α ω} {order : List ι}
    (inRow : InRow value computes system order)
    (step : Step value computes system next) :
    ∃ order, InRow value computes next order := by
  cases step with
  | load client idle =>
      refine ⟨order, inRow.set (by simp [idle]) (by simp) ?_ (by simp)⟩
      intro seen same
      cases same
      exact ⟨order, List.prefix_refl order, inRow.row⟩
  | compute client seen outcome isLoaded justified =>
      refine ⟨order, inRow.set (by simp [isLoaded]) (by simp) (by simp) ?_⟩
      intro found result same
      cases same
      exact ⟨inRow.loaded client seen isLoaded, justified⟩
  | save client seen outcome isComputed current =>
      exact ⟨order ++ [client], inRow.save isComputed current⟩
  | fail client unsaved =>
      exact ⟨order, inRow.set unsaved (by simp) (by simp) (by simp)⟩

/-- In every reachable system the clients that saved stand in a row. -/
theorem inRow_of_reachable {system : System ι α ω}
    (reachable : Reachable value computes system) :
    ∃ order, InRow value computes system order := by
  induction reachable with
  | initial =>
      exact ⟨[], List.nodup_nil, by simp [System.initial], rfl,
        by simp [System.initial], by simp [System.initial],
        by simp [System.initial]⟩
  | step _ step inductionHypothesis =>
      obtain ⟨order, inRow⟩ := inductionHypothesis
      exact inRow_step inRow step

end Invariant

section Along

variable {ι α ω : Type} {value : ω → α} {phase : ι → Phase α ω}
  {good : α → Prop} {related : α → α → Prop}

/-- When every client makes a good value that is related to the one it has
seen, whatever a row leaves is good and related to all that came before. -/
theorem Row.spreads {order : List ι} {seen latest : Option (Versioned α)}
    (row : Row value phase seen order latest)
    (refl : ∀ value, good value → related value value)
    (trans : ∀ first second third,
      related first second → related second third → related first third)
    (makes :
      ∀ client ∈ order, ∀ found outcome,
        phase client = .saved found outcome →
        (∀ before, found.map Versioned.value = some before → good before) →
        good (value outcome) ∧
          ∀ before, found.map Versioned.value = some before →
            related before (value outcome))
    (start : ∀ before, seen.map Versioned.value = some before → good before) :
    (∀ last, latest.map Versioned.value = some last → good last) ∧
      (∀ before, seen.map Versioned.value = some before →
        ∃ last, latest.map Versioned.value = some last ∧
          related before last) ∧
      ∀ client ∈ order, ∀ found outcome,
        phase client = .saved found outcome →
        (∀ before, found.map Versioned.value = some before → good before) ∧
        good (value outcome) ∧
        ∃ last, latest.map Versioned.value = some last ∧
          related (value outcome) last := by
  induction order generalizing seen with
  | nil =>
      rw [row]
      exact ⟨start,
        fun before same => ⟨before, same, refl before (start before same)⟩,
        by simp⟩
  | cons client rest inductionHypothesis =>
      obtain ⟨outcome, saved, later⟩ := row
      obtain ⟨goodHere, relatedHere⟩ :=
        makes client List.mem_cons_self seen outcome saved start
      obtain ⟨goodLast, fromHere, each⟩ :=
        inductionHypothesis later
          (fun other member =>
            makes other (List.mem_cons_of_mem client member))
          (by
            intro before same
            cases same
            exact goodHere)
      obtain ⟨last, isLast, relatedLast⟩ := fromHere (value outcome) rfl
      refine ⟨goodLast, ?_, ?_⟩
      · intro before same
        exact ⟨last, isLast,
          trans _ _ _ (relatedHere before same) relatedLast⟩
      · intro other member found result isSaved
        rcases List.mem_cons.mp member with same | inRest
        · rw [same, saved] at isSaved
          cases isSaved
          exact ⟨start, goodHere, last, isLast, relatedLast⟩
        · exact each other inRest found result isSaved

end Along

end VersionedStore
