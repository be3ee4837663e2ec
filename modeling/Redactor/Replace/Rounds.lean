import Redactor.Replace.Continuation
import Redactor.Session.Authorization

/-!
# Rounds of redaction

A round redacts fragments of text and builds a session.  The session is valid
exactly when the state has distinct tokens that parse, and continues the prior
session exactly when the context is kept and no number of occurrences shrinks.
-/

namespace Redactor

open Utf8 Fallible

/-- A text with its findings. -/
structure Fragment where
  text : Text
  findings : List Finding
  deriving DecidableEq, Repr

/-- The findings from byte `cursor` on are in order, do not overlap, and cut
the text at character boundaries. -/
def InOrder (text : Text) : Nat → List Finding → Prop
  | _, [] => True
  | cursor, finding :: findings =>
      (slice? text cursor finding.start).isSome ∧
        (slice? text finding.start finding.finish).isSome ∧
        InOrder text finding.finish findings

def Fragment.InOrder (fragment : Fragment) : Prop :=
  Redactor.InOrder fragment.text 0 fragment.findings

/-- The stretches between the findings from byte `cursor` on; there are none
when a slice aborts. -/
def gapsFrom (text : Text) : Nat → List Finding → Option (List Text)
  | cursor, [] => do
      let tail ← slice? text cursor (byteLen text)
      pure [tail]
  | cursor, finding :: findings => do
      let gap ← slice? text cursor finding.start
      let gaps ← gapsFrom text finding.finish findings
      pure (gap :: gaps)

def Fragment.gaps (fragment : Fragment) : Option (List Text) :=
  gapsFrom fragment.text 0 fragment.findings

section Gaps

variable {text : Text} {cursor : Nat} {finding : Finding}
  {findings : List Finding} {gaps : List Text}

theorem gapsFrom_nil_eq_some :
    gapsFrom text cursor [] = some gaps ↔
      ∃ tail, slice? text cursor (byteLen text) = some tail ∧
        gaps = [tail] := by
  rw [gapsFrom]
  simp only [Option.bind_eq_bind, Option.bind_eq_some_iff, Option.pure_def,
    Option.some.injEq, @eq_comm _ gaps]

theorem gapsFrom_cons_eq_some :
    gapsFrom text cursor (finding :: findings) = some gaps ↔
      ∃ gap rest, slice? text cursor finding.start = some gap ∧
        gapsFrom text finding.finish findings = some rest ∧
        gaps = gap :: rest := by
  rw [gapsFrom]
  simp only [Option.bind_eq_bind, Option.bind_eq_some_iff, Option.pure_def,
    Option.some.injEq, @eq_comm _ gaps]
  constructor
  · rintro ⟨gap, sliced, rest, later, same⟩
    exact ⟨gap, rest, sliced, later, same⟩
  · rintro ⟨gap, rest, sliced, later, same⟩
    exact ⟨gap, sliced, rest, later, same⟩

theorem InOrder.exists_gaps (boundary : IsCharBoundary text cursor)
    (ordered : Redactor.InOrder text cursor findings) :
    ∃ gaps, gapsFrom text cursor findings = some gaps := by
  induction findings generalizing cursor with
  | nil =>
      obtain ⟨left, right, rfl, rfl⟩ := boundary
      have sliced :
          slice? (left ++ right) (byteLen left)
            (byteLen (left ++ right)) = some right :=
        slice?_eq_some.mpr ⟨left, [], by simp, rfl, by simp⟩
      exact ⟨_, gapsFrom_nil_eq_some.mpr ⟨right, sliced, rfl⟩⟩
  | cons finding findings inductionHypothesis =>
      obtain ⟨gapSliced, matchSliced, orderedRest⟩ := ordered
      obtain ⟨gap, sliced⟩ := Option.isSome_iff_exists.mp gapSliced
      obtain ⟨middle, inside⟩ := Option.isSome_iff_exists.mp matchSliced
      obtain ⟨left, right, shape, _, size⟩ := slice?_eq_some.mp inside
      obtain ⟨rest, later⟩ :=
        inductionHypothesis
          ⟨left ++ middle, right, shape, by rw [byteLen_append, size]⟩
          orderedRest
      exact ⟨_, gapsFrom_cons_eq_some.mpr ⟨gap, rest, sliced, later, rfl⟩⟩

end Gaps

namespace ReplacementProcessor

/-- Redact the fragments of a round, one after the other. -/
def redactFragments (runtime : Runtime) :
    ReplacementProcessor → List Fragment →
      Option (ReplacementProcessor × List Text)
  | processor, [] => some (processor, [])
  | processor, fragment :: fragments => do
      let (processor, output) ←
        processor.redactFragment runtime fragment.text fragment.findings
      let (processor, outputs) ← redactFragments runtime processor fragments
      pure (processor, output :: outputs)

end ReplacementProcessor

def AppliedReplacement.key (applied : AppliedReplacement) :
    FindingKind × Text :=
  (applied.kind, applied.original)

namespace ReplacementProcessor

/-- Every replacement that was made is the allocation of its key. -/
def Recorded (processor : ReplacementProcessor) : Prop :=
  ∀ applied ∈ processor.appliedReplacements, ∃ allocation,
    processor.state.allocation? (applied.kind, applied.original) =
        some allocation ∧
      allocation.token = applied.replacement

/-- The processor after one replacement. -/
def record (processor : ReplacementProcessor) (state : SessionState)
    (finding : Finding) (token : Text) (hint : Option Text) :
    ReplacementProcessor where
  state := state
  appliedReplacements :=
    processor.appliedReplacements ++
      [{ kind := finding.kind
         original := finding.matchText
         replacement := token
         displayValue := hint }]

section Redact

variable {runtime : Runtime} {processor : ReplacementProcessor}

theorem redactFrom_nil_eq_some {text output : Text} {cursor : Nat}
    {after : ReplacementProcessor} :
    redactFrom runtime text processor cursor [] = some (after, output) ↔
      after = processor ∧ slice? text cursor (byteLen text) = some output := by
  rw [redactFrom]
  simp only [Option.bind_eq_bind, Option.bind_eq_some_iff, Option.pure_def,
    Option.some.injEq, Prod.mk.injEq, @eq_comm _ after]
  constructor
  · rintro ⟨tail, sliced, rfl, rfl⟩
    exact ⟨rfl, sliced⟩
  · rintro ⟨rfl, sliced⟩
    exact ⟨output, sliced, rfl, rfl⟩

/-- One round of the loop over the findings. -/
theorem redactFrom_cons_eq_some {text output : Text} {cursor : Nat}
    {finding : Finding} {findings : List Finding}
    {after : ReplacementProcessor} :
    redactFrom runtime text processor cursor (finding :: findings) =
        some (after, output) ↔
      ∃ gap next token hint rest,
        slice? text cursor finding.start = some gap ∧
          AllocationStep runtime processor.state finding next token hint ∧
          redactFrom runtime text (processor.record next finding token hint)
            finding.finish findings = some (after, rest) ∧
          output = gap ++ (token ++ rest) := by
  rw [redactFrom]
  simp only [Option.bind_eq_bind, Option.bind_eq_some_iff, Prod.exists,
    allocationFor_eq_some, Option.pure_def, Option.some.injEq,
    Prod.mk.injEq]
  constructor
  · rintro ⟨gap, sliced, next, token, hint, step, after', rest, done, rfl,
      rfl⟩
    exact ⟨gap, next, token, hint, rest, sliced, step, done, rfl⟩
  · rintro ⟨gap, next, token, hint, rest, sliced, step, done, rfl⟩
    exact ⟨gap, sliced, next, token, hint, step, after, rest, done, rfl, rfl⟩

theorem redactFragments_cons_eq_some {fragment : Fragment}
    {fragments : List Fragment} {after : ReplacementProcessor}
    {outputs : List Text} :
    redactFragments runtime processor (fragment :: fragments) =
        some (after, outputs) ↔
      ∃ middle output rest,
        redactFrom runtime fragment.text processor 0 fragment.findings =
            some (middle, output) ∧
          redactFragments runtime middle fragments = some (after, rest) ∧
          outputs = output :: rest := by
  rw [redactFragments]
  simp only [redactFragment, Option.bind_eq_bind, Option.bind_eq_some_iff,
    Prod.exists, Option.pure_def, Option.some.injEq, Prod.mk.injEq]
  constructor
  · rintro ⟨middle, output, first, after', rest, later, rfl, rfl⟩
    exact ⟨middle, output, rest, first, later, rfl⟩
  · rintro ⟨middle, output, rest, first, later, rfl⟩
    exact ⟨middle, output, first, after, rest, later, rfl, rfl⟩

theorem Recorded.record {state : SessionState} {finding : Finding}
    {token : Text} {hint : Option Text} (recorded : processor.Recorded)
    (step : AllocationStep runtime processor.state finding state token hint) :
    (processor.record state finding token hint).Recorded := by
  intro applied member
  rcases List.mem_append.mp member with old | new
  · obtain ⟨allocation, found, same⟩ := recorded applied old
    obtain ⟨_, later⟩ := step.extends.allocations _ allocation found
    exact ⟨_, later, same⟩
  · rw [List.mem_singleton.mp new]
    exact step.allocated

/-- A redacted text has made the allocations of its findings. -/
theorem redactFrom_spec {text output : Text} {cursor : Nat}
    {findings : List Finding} {after : ReplacementProcessor}
    (done : redactFrom runtime text processor cursor findings =
      some (after, output))
    (recorded : processor.Recorded) :
    allocateAll runtime processor.state findings = some after.state ∧
      after.Recorded := by
  induction findings generalizing processor cursor output with
  | nil =>
      obtain ⟨rfl, _⟩ := redactFrom_nil_eq_some.mp done
      exact ⟨rfl, recorded⟩
  | cons finding findings inductionHypothesis =>
      obtain ⟨gap, next, token, hint, rest, _, step, later, _⟩ :=
        redactFrom_cons_eq_some.mp done
      obtain ⟨allocated, recordedAfter⟩ :=
        inductionHypothesis later (recorded.record step)
      exact ⟨allocateAll_cons.mpr ⟨next, token, hint, step, allocated⟩,
        recordedAfter⟩

/-- Whether a text is redacted depends on its slices and on the
allocations. -/
theorem redactFrom_of_gaps (processor : ReplacementProcessor)
    {text : Text} {cursor : Nat} {findings : List Finding}
    {gaps : List Text} {state : SessionState}
    (cut : gapsFrom text cursor findings = some gaps)
    (allocated : allocateAll runtime processor.state findings = some state) :
    ∃ after output,
      redactFrom runtime text processor cursor findings =
          some (after, output) ∧
        after.state = state := by
  induction findings generalizing processor cursor gaps with
  | nil =>
      obtain ⟨tail, sliced, _⟩ := gapsFrom_nil_eq_some.mp cut
      cases allocated
      exact ⟨processor, tail, redactFrom_nil_eq_some.mpr ⟨rfl, sliced⟩, rfl⟩
  | cons finding findings inductionHypothesis =>
      obtain ⟨gap, rest, sliced, cutRest, _⟩ := gapsFrom_cons_eq_some.mp cut
      obtain ⟨next, token, hint, step, allocatedRest⟩ :=
        allocateAll_cons.mp allocated
      obtain ⟨after, output, done, same⟩ :=
        inductionHypothesis (processor.record next finding token hint)
          cutRest allocatedRest
      exact ⟨after, _, redactFrom_cons_eq_some.mpr
        ⟨gap, next, token, hint, output, sliced, step, done, rfl⟩, same⟩

/-- Findings in order are redacted when the allocations succeed. -/
theorem redactFrom_of_allocateAll (processor : ReplacementProcessor)
    {text : Text} {cursor : Nat} {findings : List Finding}
    {state : SessionState}
    (boundary : IsCharBoundary text cursor)
    (ordered : InOrder text cursor findings)
    (allocated : allocateAll runtime processor.state findings = some state) :
    ∃ after output,
      redactFrom runtime text processor cursor findings =
          some (after, output) ∧
        after.state = state := by
  obtain ⟨gaps, cut⟩ := ordered.exists_gaps boundary
  exact redactFrom_of_gaps processor cut allocated

theorem exists_gaps_of_redactFrom {text output : Text} {cursor : Nat}
    {findings : List Finding} {after : ReplacementProcessor}
    (done : redactFrom runtime text processor cursor findings =
      some (after, output)) :
    ∃ gaps, gapsFrom text cursor findings = some gaps := by
  induction findings generalizing processor cursor output with
  | nil =>
      obtain ⟨_, sliced⟩ := redactFrom_nil_eq_some.mp done
      exact ⟨_, gapsFrom_nil_eq_some.mpr ⟨output, sliced, rfl⟩⟩
  | cons finding findings inductionHypothesis =>
      obtain ⟨gap, _, _, _, _, sliced, _, later, _⟩ :=
        redactFrom_cons_eq_some.mp done
      obtain ⟨rest, cut⟩ := inductionHypothesis later
      exact ⟨_, gapsFrom_cons_eq_some.mpr ⟨gap, rest, sliced, cut, rfl⟩⟩

/-- A replacement is recorded for every finding, in order. -/
theorem redactFrom_records {text output : Text} {cursor : Nat}
    {findings : List Finding} {after : ReplacementProcessor}
    (done : redactFrom runtime text processor cursor findings =
      some (after, output)) :
    after.appliedReplacements.map AppliedReplacement.key =
      processor.appliedReplacements.map AppliedReplacement.key ++
        findings.map Finding.key := by
  induction findings generalizing processor cursor output with
  | nil =>
      obtain ⟨rfl, _⟩ := redactFrom_nil_eq_some.mp done
      rw [List.map_nil, List.append_nil]
  | cons finding findings inductionHypothesis =>
      obtain ⟨_, _, _, _, _, _, _, later, _⟩ :=
        redactFrom_cons_eq_some.mp done
      rw [inductionHypothesis later, record, List.map_append,
        List.append_assoc]
      rfl

end Redact

section Fragments

variable {runtime : Runtime} {processor : ReplacementProcessor}

theorem allocateAll_append {state result : SessionState}
    {left right : List Finding} :
    allocateAll runtime state (left ++ right) = some result ↔
      ∃ middle, allocateAll runtime state left = some middle ∧
        allocateAll runtime middle right = some result := by
  induction left generalizing state with
  | nil =>
      simp [allocateAll]
  | cons finding left inductionHypothesis =>
      simp only [List.cons_append, allocateAll_cons, inductionHypothesis]
      constructor
      · rintro ⟨next, token, hint, step, middle, first, second⟩
        exact ⟨middle, ⟨next, token, hint, step, first⟩, second⟩
      · rintro ⟨middle, ⟨next, token, hint, step, first⟩, second⟩
        exact ⟨next, token, hint, step, middle, first, second⟩

/-- Redacting fragments has made the allocations of all their findings. -/
theorem redactFragments_spec {fragments : List Fragment}
    {outputs : List Text} {after : ReplacementProcessor}
    (done : redactFragments runtime processor fragments =
      some (after, outputs))
    (recorded : processor.Recorded) :
    allocateAll runtime processor.state
        (fragments.flatMap Fragment.findings) = some after.state ∧
      after.Recorded := by
  induction fragments generalizing processor outputs with
  | nil =>
      cases done
      exact ⟨rfl, recorded⟩
  | cons fragment fragments inductionHypothesis =>
      obtain ⟨middle, output, rest, first, later, _⟩ :=
        redactFragments_cons_eq_some.mp done
      obtain ⟨allocatedFirst, recordedMiddle⟩ :=
        redactFrom_spec first recorded
      obtain ⟨allocatedRest, recordedAfter⟩ :=
        inductionHypothesis later recordedMiddle
      rw [List.flatMap_cons]
      exact ⟨allocateAll_append.mpr ⟨_, allocatedFirst, allocatedRest⟩,
        recordedAfter⟩

/-- Fragments are redacted when their slices and the allocations succeed. -/
theorem redactFragments_of_gaps (processor : ReplacementProcessor)
    {fragments : List Fragment} {state : SessionState}
    (cut : ∀ fragment ∈ fragments, ∃ gaps, fragment.gaps = some gaps)
    (allocated :
      allocateAll runtime processor.state
        (fragments.flatMap Fragment.findings) = some state) :
    ∃ after outputs,
      redactFragments runtime processor fragments = some (after, outputs) ∧
        after.state = state := by
  induction fragments generalizing processor with
  | nil =>
      cases allocated
      exact ⟨processor, [], rfl, rfl⟩
  | cons fragment fragments inductionHypothesis =>
      rw [List.flatMap_cons] at allocated
      obtain ⟨middle, allocatedFirst, allocatedRest⟩ :=
        allocateAll_append.mp allocated
      obtain ⟨gaps, cutHere⟩ := cut fragment List.mem_cons_self
      obtain ⟨between, output, first, rfl⟩ :=
        redactFrom_of_gaps processor cutHere allocatedFirst
      obtain ⟨after, outputs, rest, same⟩ :=
        inductionHypothesis between
          (fun later member => cut later (List.mem_cons_of_mem _ member))
          allocatedRest
      exact ⟨after, _, redactFragments_cons_eq_some.mpr
        ⟨between, output, outputs, first, rest, rfl⟩, same⟩

/-- Fragments in order are redacted when the allocations succeed. -/
theorem redactFragments_of_allocateAll (processor : ReplacementProcessor)
    {fragments : List Fragment} {state : SessionState}
    (ordered : ∀ fragment ∈ fragments, fragment.InOrder)
    (allocated :
      allocateAll runtime processor.state
        (fragments.flatMap Fragment.findings) = some state) :
    ∃ after outputs,
      redactFragments runtime processor fragments = some (after, outputs) ∧
        after.state = state := by
  refine redactFragments_of_gaps processor ?_ allocated
  intro fragment member
  have boundary : IsCharBoundary fragment.text 0 :=
    ⟨[], fragment.text, rfl, rfl⟩
  exact (ordered fragment member).exists_gaps boundary

theorem exists_gaps_of_redactFragments {fragments : List Fragment}
    {outputs : List Text} {after : ReplacementProcessor}
    (done : redactFragments runtime processor fragments =
      some (after, outputs)) :
    ∀ fragment ∈ fragments, ∃ gaps, fragment.gaps = some gaps := by
  induction fragments generalizing processor outputs with
  | nil =>
      simp
  | cons fragment fragments inductionHypothesis =>
      obtain ⟨middle, output, rest, first, later, _⟩ :=
        redactFragments_cons_eq_some.mp done
      exact List.forall_mem_cons.mpr
        ⟨exists_gaps_of_redactFrom first, inductionHypothesis later⟩

theorem redactFragments_records {fragments : List Fragment}
    {outputs : List Text} {after : ReplacementProcessor}
    (done : redactFragments runtime processor fragments =
      some (after, outputs)) :
    after.appliedReplacements.map AppliedReplacement.key =
      processor.appliedReplacements.map AppliedReplacement.key ++
        (fragments.flatMap Fragment.findings).map Finding.key := by
  induction fragments generalizing processor outputs with
  | nil =>
      cases done
      simp
  | cons fragment fragments inductionHypothesis =>
      obtain ⟨middle, output, rest, first, later, _⟩ :=
        redactFragments_cons_eq_some.mp done
      rw [inductionHypothesis later, redactFrom_records first,
        List.flatMap_cons, List.map_append, List.append_assoc]

end Fragments

/-! ## The session that is built -/

section Build

variable {runtime : Runtime} {processor : ReplacementProcessor}
  {originalText redactedText : Text} {policy : RedactionPolicy}
  {sessionId : Text}

theorem mem_entries_iff {entry : RestorationEntry} :
    entry ∈ processor.entries ↔
      ∃ key allocation,
        processor.state.allocation? key = some allocation ∧
          entry = allocation.toEntry := by
  simp only [entries, List.mem_map, Prod.exists,
    Std.TreeMap.mem_toList_iff_getElem?_eq_some, SessionState.allocation?,
    @eq_comm _ entry]

theorem mem_issuedTokens_iff {token : Text} :
    token ∈ processor.issuedTokens ↔
      ∃ applied ∈ processor.appliedReplacements,
        applied.replacement = token := by
  rw [issuedTokens, Std.TreeSet.mem_toList, Std.TreeSet.mem_ofList]
  simp

theorem nodup_issuedTokens : processor.issuedTokens.Nodup := by
  refine Std.TreeSet.distinct_toList.imp ?_
  intro left right different same
  exact different (Std.LawfulEqCmp.compare_eq_iff_eq.mpr same)

/-- Entries of different keys, so a function of the entry that tells keys apart
has no repetition. -/
theorem nodup_map_entries {β : Type}
    (field : RestorationEntry → β) :
    (processor.entries.map field).Nodup ↔
      ∀ left right leftAllocation rightAllocation,
        processor.state.allocation? left = some leftAllocation →
          processor.state.allocation? right = some rightAllocation →
          field leftAllocation.toEntry = field rightAllocation.toEntry →
          left = right := by
  have keysDistinct :
      (processor.state.allocations.toList.map Prod.fst).Nodup := by
    refine List.pairwise_map.mpr
      (Std.TreeMap.distinct_keys_toList.imp ?_)
    intro left right different same
    exact different (allocationOrder_eq_iff.mpr same)
  have rows :
      ∀ key allocation,
        (key, allocation) ∈ processor.state.allocations.toList ↔
          processor.state.allocation? key = some allocation :=
    fun _ _ => Std.TreeMap.mem_toList_iff_getElem?_eq_some
  rw [entries, List.map_map]
  constructor
  · intro distinct left right leftAllocation rightAllocation foundLeft
      foundRight same
    have equal :=
      List.inj_on_of_nodup_map distinct ((rows _ _).mpr foundLeft)
        ((rows _ _).mpr foundRight) same
    exact congrArg Prod.fst equal
  · intro injective
    refine (List.nodup_map_iff_inj_on keysDistinct.of_map).mpr ?_
    intro left leftMember right rightMember same
    have sameKey :=
      injective _ _ _ _ ((rows left.1 left.2).mp leftMember)
        ((rows right.1 right.2).mp rightMember) same
    exact List.inj_on_of_nodup_map keysDistinct leftMember rightMember sameKey

/-- The session that is built is valid when the tokens are distinct and
parse. -/
theorem validSession_buildSession_iff
    (keyed : processor.state.Keyed) (recorded : processor.Recorded)
    (scopeId : processor.state.scopeId ≠ []) (named : sessionId ≠ []) :
    ValidSession runtime
        (processor.buildSession runtime originalText redactedText policy
          sessionId) ↔
      processor.state.Distinct ∧ processor.state.Parsed runtime := by
  have tokensNodup :
      (processor.entries.map RestorationEntry.token).Nodup ↔
        processor.state.Distinct :=
    nodup_map_entries RestorationEntry.token
  constructor
  · intro valid
    refine ⟨tokensNodup.mp valid.tokens, ?_⟩
    intro key allocation found
    have same := keyed key allocation found
    obtain ⟨counter, read⟩ :=
      valid.parsed allocation.toEntry
        (mem_entries_iff.mpr ⟨key, allocation, found, rfl⟩)
    refine ⟨counter, ?_⟩
    rw [← same]
    exact read
  · rintro ⟨distinct, parsed⟩
    refine
      { version := rfl
        sessionId := named
        scopeId := scopeId
        tokens := tokensNodup.mpr distinct
        mappings := ?_
        parsed := ?_
        issued := nodup_issuedTokens
        known := ?_ }
    · refine (nodup_map_entries fun entry =>
        (entry.kind, entry.original)).mpr ?_
      intro left right leftAllocation rightAllocation foundLeft foundRight
        same
      rw [← keyed left _ foundLeft, ← keyed right _ foundRight]
      exact same
    · intro entry member
      obtain ⟨key, allocation, found, rfl⟩ := mem_entries_iff.mp member
      obtain ⟨counter, read⟩ := parsed key allocation found
      refine ⟨counter, ?_⟩
      rw [← keyed key allocation found] at read
      exact read
    · intro token member
      obtain ⟨applied, appliedMember, rfl⟩ := mem_issuedTokens_iff.mp member
      obtain ⟨allocation, found, same⟩ := recorded applied appliedMember
      exact List.mem_map.mpr
        ⟨allocation.toEntry, mem_entries_iff.mpr ⟨_, _, found, rfl⟩, same⟩

/-- The session that is built continues the prior session when it keeps the
external identifier and every number of occurrences. -/
theorem continues_buildSession_iff {prior : RedactionSession}
    {loaded : SessionState} (valid : ValidSession runtime prior)
    (isLoaded : Loaded prior loaded)
    (scopeId : loaded.scopeId = prior.scopeId)
    (extended : loaded.Extends processor.state)
    (distinct : processor.state.Distinct) :
    Continues prior
        (processor.buildSession runtime originalText redactedText policy
          sessionId) ↔
      prior.externalId = processor.state.externalId ∧
        ∀ entry ∈ prior.entries,
          entry.occurrences ≤ processor.state.occurrences entry.key := by
  -- the entry of the next session for an entry of the prior session
  have nextEntry :
      ∀ entry ∈ prior.entries,
        (processor.buildSession runtime originalText redactedText policy
              sessionId).entryOf? entry.token =
          some
            { entry with
              occurrences := processor.state.occurrences entry.key } := by
    intro entry member
    obtain ⟨count, found⟩ :=
      extended.allocations entry.key (.ofEntry entry)
        ((isLoaded _ _).mpr ⟨entry, member, rfl, rfl⟩)
    have counted : processor.state.occurrences entry.key = count := by
      rw [SessionState.occurrences, found]
      rfl
    have inside :
        { entry with occurrences := count } ∈
          (processor.buildSession runtime originalText redactedText policy
            sessionId).entries :=
      mem_entries_iff.mpr ⟨entry.key, _, found, rfl⟩
    have tokensDistinct :
        (processor.buildSession runtime originalText redactedText policy
          sessionId).tokens.Nodup :=
      (nodup_map_entries RestorationEntry.token).mpr distinct
    rw [counted]
    exact entryOf?_of_mem tokensDistinct inside
  constructor
  · intro continues
    refine ⟨continues.externalId, fun entry member => ?_⟩
    obtain ⟨new, found, same⟩ := continues.entries entry member
    rw [nextEntry entry member] at found
    cases found
    exact same.occurrences
  · rintro ⟨externalId, occurrences⟩
    refine ⟨valid.version, ?_, externalId, ?_⟩
    · exact scopeId.symm.trans extended.scopeId.symm
    · intro entry member
      exact ⟨_, nextEntry entry member, rfl, rfl, rfl,
        occurrences entry member⟩

end Build

end ReplacementProcessor

def sampleFinding : Finding where
  kind := .email
  source := .rule
  matchText := lit "x@y.z"
  normalizedKey := lit "x@y.z"
  confidence := 90
  start := 0
  finish := 5

/-- The text that is one address. -/
def sampleFragment : Fragment where
  text := lit "x@y.z"
  findings := [sampleFinding]

end Redactor
