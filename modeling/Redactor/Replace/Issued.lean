import Mathlib.Data.Finset.Card
import Redactor.Replace.RoundTrip

/-!
# The tokens that findings get

A finding gets the token of its original, if the state has one, and otherwise
the next number of its kind.  So the findings and the state before them say
which tokens a redaction issues.
-/

namespace Redactor

open Utf8 Fallible

namespace SessionState

/-- The token of the allocation of a key. -/
def HasToken (state : SessionState) (key : FindingKind × Text)
    (token : Text) : Prop :=
  ∃ allocation,
    state.allocation? key = some allocation ∧ allocation.token = token

/-- The keys of a kind that are found and not allocated. -/
def newKeys (state : SessionState) (findings : List Finding)
    (kind : FindingKind) : Finset (FindingKind × Text) :=
  {key ∈ (findings.map Finding.key).toFinset |
    key.1 = kind ∧ state.allocation? key = none}

/-- The token of one of the numbers behind the counter, as many as there are new
keys of the kind. -/
def Numbers (runtime : Runtime) (state : SessionState)
    (findings : List Finding) (token : Text) : Prop :=
  ∃ kind number,
    0 < number ∧ number ≤ (state.newKeys findings kind).card ∧
      token =
        formatToken runtime state.scopeId kind
          ((state.counter kind + number) % (unsignedMax + 1))

/-- The token stands for one of the findings, in this state. -/
def Issues (runtime : Runtime) (state : SessionState)
    (findings : List Finding) (token : Text) : Prop :=
  (∃ finding ∈ findings, state.HasToken finding.key token) ∨
    state.Numbers runtime findings token

section Step

variable {runtime : Runtime} {state : SessionState} {finding : Finding}
  {findings : List Finding} {key : FindingKind × Text}
  {allocation : Allocation} {count counter : Nat} {token : Text}

theorem mem_newKeys {kind : FindingKind} :
    key ∈ state.newKeys findings kind ↔
      key ∈ findings.map Finding.key ∧ key.1 = kind ∧
        state.allocation? key = none := by
  simp only [newKeys, Finset.mem_filter, List.mem_toFinset]

theorem hasToken_reuse
    (found : state.allocation? finding.key = some allocation) :
    (state.reuse finding.key allocation count).HasToken key token ↔
      state.HasToken key token := by
  unfold HasToken
  rw [allocation?_reuse]
  by_cases same : finding.key = key
  · rw [if_pos same, ← same, found]
    simp
  · rw [if_neg same]

theorem newKeys_reuse
    (found : state.allocation? finding.key = some allocation)
    (kind : FindingKind) :
    (state.reuse finding.key allocation count).newKeys findings kind =
      state.newKeys (finding :: findings) kind := by
  ext key
  rw [mem_newKeys, mem_newKeys, allocation?_reuse, List.map_cons,
    List.mem_cons]
  by_cases same : finding.key = key
  · rw [← same, found]
    simp
  · simp [same, Ne.symm same]

theorem hasToken_allocate :
    (state.allocate runtime finding counter).HasToken key token ↔
      finding.key = key ∧
          token = formatToken runtime state.scopeId finding.kind counter ∨
        finding.key ≠ key ∧ state.HasToken key token := by
  unfold HasToken
  rw [allocation?_allocate]
  by_cases same : finding.key = key
  · simp [same, fresh, eq_comm]
  · simp [same]

theorem newKeys_allocate (kind : FindingKind) :
    (state.allocate runtime finding counter).newKeys findings kind =
      (state.newKeys (finding :: findings) kind).erase finding.key := by
  ext key
  rw [Finset.mem_erase, mem_newKeys, mem_newKeys, allocation?_allocate,
    List.map_cons, List.mem_cons]
  by_cases same : finding.key = key
  · simp [same]
  · simp [same, Ne.symm same]

/-- The allocated key is no longer new. -/
theorem card_newKeys_allocate
    (absent : state.allocation? finding.key = none) :
    ((state.allocate runtime finding counter).newKeys findings
        finding.kind).card + 1 =
      (state.newKeys (finding :: findings) finding.kind).card := by
  have listed :
      finding.key ∈ state.newKeys (finding :: findings) finding.kind :=
    mem_newKeys.mpr ⟨List.mem_cons_self, rfl, absent⟩
  rw [newKeys_allocate]
  exact Finset.card_erase_add_one listed

theorem newKeys_allocate_of_ne {kind : FindingKind}
    (other : finding.kind ≠ kind) :
    (state.allocate runtime finding counter).newKeys findings kind =
      state.newKeys (finding :: findings) kind := by
  rw [newKeys_allocate]
  apply Finset.erase_eq_of_notMem
  intro member
  exact other (mem_newKeys.mp member).2.1

/-- The order of the findings does not matter. -/
theorem newKeys_perm {reordered : List Finding}
    (perm : reordered.Perm findings) (kind : FindingKind) :
    state.newKeys reordered kind = state.newKeys findings kind := by
  ext key
  rw [mem_newKeys, mem_newKeys, (perm.map Finding.key).mem_iff]

theorem issues_perm {runtime : Runtime} {reordered : List Finding}
    (perm : reordered.Perm findings) :
    state.Issues runtime reordered token ↔
      state.Issues runtime findings token := by
  unfold Issues Numbers
  simp only [newKeys_perm perm, perm.mem_iff]

theorem not_issues_nil {runtime : Runtime} :
    ¬ state.Issues runtime [] token := by
  rintro (⟨finding, member, _⟩ | ⟨kind, number, positive, bound, _⟩)
  · exact absurd member List.not_mem_nil
  · simp only [newKeys, List.map_nil, List.toFinset_nil,
      Finset.filter_empty, Finset.card_empty] at bound
    omega

end Step

end SessionState

section Issue

variable {runtime : Runtime} {state next : SessionState} {finding : Finding}
  {findings : List Finding} {token given : Text} {hint : Option Text}

theorem AllocationStep.bounded
    (step : AllocationStep runtime state finding next given hint)
    (bounded : ∀ kind, state.counter kind ≤ unsignedMax) :
    ∀ kind, next.counter kind ≤ unsignedMax := by
  intro kind
  cases step with
  | reuse _ _ =>
      exact bounded kind
  | allocate _ incremented =>
      rw [SessionState.counter_allocate]
      split
      · exact increment_le incremented
      · exact bounded kind

/-- The numbers that are left after a new allocation. -/
theorem numbers_allocate_iff {counter : Nat}
    (absent : state.allocation? finding.key = none)
    (isNext :
      counter = (state.counter finding.kind + 1) % (unsignedMax + 1)) :
    state.Numbers runtime (finding :: findings) token ↔
      token = formatToken runtime state.scopeId finding.kind counter ∨
        (state.allocate runtime finding counter).Numbers runtime findings
          token := by
  have here :
      ((state.allocate runtime finding counter).newKeys findings
          finding.kind).card + 1 =
        (state.newKeys (finding :: findings) finding.kind).card :=
    SessionState.card_newKeys_allocate absent
  have elsewhere (kind : FindingKind) (other : finding.kind ≠ kind) :
      (state.allocate runtime finding counter).newKeys findings kind =
        state.newKeys (finding :: findings) kind :=
    SessionState.newKeys_allocate_of_ne other
  have further (number : Nat) :
      (counter + number) % (unsignedMax + 1) =
        (state.counter finding.kind + (number + 1)) % (unsignedMax + 1) := by
    rw [isNext, Nat.mod_add_mod, Nat.add_assoc, Nat.add_comm 1 number]
  constructor
  · rintro ⟨kind, number, positive, bound, rfl⟩
    by_cases same : finding.kind = kind
    · subst same
      cases number with
      | zero =>
          omega
      | succ number =>
          cases number with
          | zero =>
              left
              rw [isNext]
          | succ number =>
              right
              refine ⟨finding.kind, number + 1, Nat.succ_pos _, by omega, ?_⟩
              rw [SessionState.counter_allocate, if_pos rfl, further]
              rfl
    · right
      refine ⟨kind, number, positive, ?_, ?_⟩
      · rw [elsewhere kind same]
        exact bound
      · rw [SessionState.counter_allocate, if_neg same]
        rfl
  · rintro (rfl | ⟨kind, number, positive, bound, rfl⟩)
    · exact ⟨finding.kind, 1, Nat.one_pos, by omega, by rw [isNext]⟩
    · by_cases same : finding.kind = kind
      · subst same
        refine ⟨finding.kind, number + 1, Nat.succ_pos _, by omega, ?_⟩
        rw [SessionState.counter_allocate, if_pos rfl, further]
        rfl
      · refine ⟨kind, number, positive, ?_, ?_⟩
        · rw [← elsewhere kind same]
          exact bound
        · rw [SessionState.counter_allocate, if_neg same]
          rfl

/-- The first finding gets its token, the others theirs from the next state. -/
theorem AllocationStep.issues_cons_iff
    (step : AllocationStep runtime state finding next given hint)
    (bounded : ∀ kind, state.counter kind ≤ unsignedMax) :
    state.Issues runtime (finding :: findings) token ↔
      token = given ∨ next.Issues runtime findings token := by
  cases step with
  | @reuse allocation count found _ =>
      have here :
          state.HasToken finding.key token ↔ token = allocation.token := by
        simp [SessionState.HasToken, found, eq_comm]
      have sameNumbers :
          (state.reuse finding.key allocation count).Numbers runtime findings
              token ↔
            state.Numbers runtime (finding :: findings) token := by
        unfold SessionState.Numbers
        simp only [SessionState.newKeys_reuse found,
          SessionState.counter_reuse]
        rfl
      unfold SessionState.Issues
      simp only [List.mem_cons, exists_eq_or_imp, here, sameNumbers,
        SessionState.hasToken_reuse found, or_assoc]
  | @allocate counter absent incremented =>
      have isNext := increment_eq_mod (bounded finding.kind) incremented
      have notHere (key : FindingKind × Text)
          (hasToken : state.HasToken key token) : finding.key ≠ key := by
        rintro rfl
        obtain ⟨allocation, found, _⟩ := hasToken
        rw [absent] at found
        cases found
      unfold SessionState.Issues
      rw [numbers_allocate_iff absent isNext]
      simp only [SessionState.hasToken_allocate]
      constructor
      · rintro (⟨other, member, hasToken⟩ | first | later)
        · rcases List.mem_cons.mp member with here | further
          · rw [here] at hasToken
            exact absurd rfl (notHere _ hasToken)
          · exact Or.inr (Or.inl
              ⟨other, further, Or.inr ⟨notHere _ hasToken, hasToken⟩⟩)
        · exact Or.inl first
        · exact Or.inr (Or.inr later)
      · rintro (first | ⟨other, member, isNew | known⟩ | later)
        · exact Or.inr (Or.inl first)
        · exact Or.inr (Or.inl isNew.2)
        · exact Or.inl ⟨other, List.mem_cons_of_mem _ member, known.2⟩
        · exact Or.inr (Or.inr later)

theorem SessionState.Extends.hasToken {key : FindingKind × Text}
    (extended : state.Extends next) (known : state.HasToken key token) :
    next.HasToken key token := by
  obtain ⟨allocation, found, same⟩ := known
  obtain ⟨count, later⟩ := extended.allocations key allocation found
  exact ⟨_, later, same⟩

/-- In the state behind the findings they have the tokens that are issued. -/
theorem exists_hasToken_iff_issues {result : SessionState}
    (bounded : ∀ kind, state.counter kind ≤ unsignedMax)
    (done : allocateAll runtime state findings = some result) :
    (∃ finding ∈ findings, result.HasToken finding.key token) ↔
      state.Issues runtime findings token := by
  induction findings generalizing state with
  | nil =>
      refine iff_of_false ?_ SessionState.not_issues_nil
      rintro ⟨finding, member, _⟩
      exact absurd member List.not_mem_nil
  | cons finding findings inductionHypothesis =>
      obtain ⟨next, given, hint, step, rest⟩ := allocateAll_cons.mp done
      have here : result.HasToken finding.key token ↔ token = given := by
        obtain ⟨allocation, found, same⟩ :=
          (allocateAll_extends rest).hasToken step.allocated
        constructor
        · rintro ⟨other, foundOther, sameOther⟩
          rw [found] at foundOther
          cases foundOther
          exact sameOther.symm.trans same
        · rintro rfl
          exact ⟨allocation, found, same⟩
      rw [step.issues_cons_iff bounded,
        ← inductionHypothesis (step.bounded bounded) rest, ← here]
      simp only [List.mem_cons, exists_eq_or_imp]

/-- The keys that have a token behind the findings. -/
theorem exists_hasToken_iff {result : SessionState}
    (key : FindingKind × Text)
    (done : allocateAll runtime state findings = some result) :
    (∃ token, result.HasToken key token) ↔
      (∃ token, state.HasToken key token) ∨
        key ∈ findings.map Finding.key := by
  induction findings generalizing state with
  | nil =>
      cases done
      simp
  | cons finding findings inductionHypothesis =>
      obtain ⟨next, given, hint, step, rest⟩ := allocateAll_cons.mp done
      have here :
          (∃ token, next.HasToken key token) ↔
            (∃ token, state.HasToken key token) ∨ key = finding.key := by
        by_cases same : finding.key = key
        · refine iff_of_true ?_ (Or.inr same.symm)
          rw [← same]
          exact ⟨given, step.allocated⟩
        · unfold SessionState.HasToken
          rw [step.frame same]
          exact (or_iff_left (Ne.symm same)).symm
      rw [inductionHypothesis rest, here, List.map_cons, List.mem_cons,
        or_assoc]

/-- The tokens that have been put into the text. -/
theorem ReplacementProcessor.replacement_iff_issues
    {processor after : ReplacementProcessor} {text output : Text}
    {cursor : Nat}
    (bounded : ∀ kind, processor.state.counter kind ≤ unsignedMax)
    (done :
      redactFrom runtime text processor cursor findings =
        some (after, output)) :
    (∃ applied ∈ after.appliedReplacements, applied.replacement = token) ↔
      (∃ applied ∈ processor.appliedReplacements,
          applied.replacement = token) ∨
        processor.state.Issues runtime findings token := by
  induction findings generalizing processor cursor output with
  | nil =>
      obtain ⟨rfl, _⟩ := redactFrom_nil_eq_some.mp done
      exact (or_iff_left SessionState.not_issues_nil).symm
  | cons finding findings inductionHypothesis =>
      obtain ⟨gap, next, given, hint, rest, _, step, later, _⟩ :=
        redactFrom_cons_eq_some.mp done
      rw [inductionHypothesis (step.bounded bounded) later,
        step.issues_cons_iff bounded, ← or_assoc]
      refine or_congr ?_ Iff.rfl
      simp only [record, List.mem_append, List.mem_singleton, or_and_right,
        exists_or, exists_eq_left, @eq_comm _ token]

end Issue

end Redactor
