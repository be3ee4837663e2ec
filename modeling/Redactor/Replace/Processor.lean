import Redactor.Session.Validation
import Std.Data.TreeMap.Lemmas
import Std.Data.TreeSet.Lemmas

/-!
# The replacement processor

The processor replaces findings by tokens.  It allocates one token to each pair
of a kind and an original, numbers the tokens of a kind consecutively, and
continues the allocations and the numbers of a prior session.
-/

namespace Redactor

open Utf8 Fallible

/-- Order of the keys: by kind, then by text. -/
def allocationOrder : FindingKind × Text → FindingKind × Text → Ordering :=
  compareLex (compareOn Prod.fst) (compareOn Prod.snd)

instance : Std.TransCmp allocationOrder :=
  inferInstanceAs
    (Std.TransCmp (compareLex (compareOn Prod.fst) (compareOn Prod.snd)))

theorem allocationOrder_eq_iff {left right : FindingKind × Text} :
    allocationOrder left right = .eq ↔ left = right := by
  rw [allocationOrder, compareLex_eq_eq, compareOn, compareOn,
    Std.LawfulEqCmp.compare_eq_iff_eq, Std.LawfulEqCmp.compare_eq_iff_eq,
    Prod.ext_iff]

instance : Std.LawfulEqCmp allocationOrder where
  compare_self := allocationOrder_eq_iff.mpr rfl
  eq_of_compare := allocationOrder_eq_iff.mp

structure Allocation where
  token : Text
  kind : FindingKind
  original : Text
  replacementHint : Option Text
  occurrences : Nat
  deriving DecidableEq, Repr

/-- The allocation that a prior session's entry becomes. -/
def Allocation.ofEntry (entry : RestorationEntry) : Allocation where
  token := entry.token
  kind := entry.kind
  original := entry.original
  replacementHint := entry.replacementHint
  occurrences := entry.occurrences

/-- The entry that the allocation becomes in the next session. -/
def Allocation.toEntry (allocation : Allocation) : RestorationEntry where
  token := allocation.token
  kind := allocation.kind
  original := allocation.original
  replacementHint := allocation.replacementHint
  occurrences := allocation.occurrences

structure SessionState where
  allocations :
    Std.TreeMap (FindingKind × Text) Allocation allocationOrder := ∅
  counters : Std.TreeMap FindingKind Nat := ∅
  scopeId : Text
  externalId : Option Text := none

structure ReplacementProcessor where
  state : SessionState
  appliedReplacements : List AppliedReplacement := []

/-- Adding one to a machine integer: at the limit the addition aborts in a
build that checks it, and wraps around in one that does not. -/
def increment (runtime : Runtime) (value : Nat) : Option Nat :=
  if value < unsignedMax then some (value + 1)
  else if runtime.overflowChecks then none
  else some 0

def SessionState.counter (state : SessionState) (kind : FindingKind) : Nat :=
  state.counters.getD kind 0

section Allocate

variable (runtime : Runtime)

/-- The token and the hint of a finding. -/
def allocationFor (state : SessionState) (finding : Finding) :
    Option (SessionState × Text × Option Text) :=
  let key := (finding.kind, finding.matchText)
  match state.allocations[key]? with
  | some allocation => do
      let occurrences ← increment runtime allocation.occurrences
      let state :=
        { state with
          allocations :=
            state.allocations.insert key { allocation with occurrences } }
      pure (state, allocation.token, allocation.replacementHint)
  | none => do
      let counter ← increment runtime (state.counter finding.kind)
      let allocation : Allocation :=
        { token := formatToken runtime state.scopeId finding.kind counter
          kind := finding.kind
          original := finding.matchText
          replacementHint := displayHint runtime finding
          occurrences := 1 }
      let state :=
        { state with
          counters := state.counters.insert finding.kind counter
          allocations := state.allocations.insert key allocation }
      pure (state, allocation.token, allocation.replacementHint)

end Allocate

namespace ReplacementProcessor

section Methods

variable (runtime : Runtime)

/-- `scopeId` is the scope that the random generator returns. -/
def new (scopeId : Text) : ReplacementProcessor where
  state := { scopeId }

/-- One entry of the prior session. -/
def loadEntry (state : SessionState) (entry : RestorationEntry) :
    Except Text SessionState := do
  let parsed ← parseToken runtime entry.token
  let counter := max (state.counter parsed.kind) parsed.counter
  .ok
    { state with
      counters := state.counters.insert parsed.kind counter
      allocations :=
        state.allocations.insert (entry.kind, entry.original)
          (.ofEntry entry) }

/-- The processor that continues a prior session; the error is the message of
the validation error. -/
def withPriorSession (prior : Option RedactionSession)
    (externalId : Option Text) (scopeId : Text) :
    Except Text ReplacementProcessor := do
  let fresh : SessionState := { scopeId, externalId }
  match prior with
  | none => .ok { state := fresh }
  | some prior =>
      validatePriorSession runtime prior externalId
      let state :=
        { fresh with
          scopeId := prior.scopeId
          externalId := fresh.externalId.or prior.externalId }
      let state ← prior.entries.foldlM (loadEntry runtime) state
      .ok { state }

/-- The loop over the findings from byte `cursor` of the text on; there is no
result when a slice or an addition aborts. -/
def redactFrom (text : Text) :
    ReplacementProcessor → Nat → List Finding →
      Option (ReplacementProcessor × Text)
  | processor, cursor, [] => do
      let tail ← slice? text cursor (byteLen text)
      pure (processor, tail)
  | processor, cursor, finding :: findings => do
      let gap ← slice? text cursor finding.start
      let (state, token, replacementHint) ←
        allocationFor runtime processor.state finding
      let applied : AppliedReplacement :=
        { kind := finding.kind
          original := finding.matchText
          replacement := token
          displayValue := replacementHint }
      let (processor, output) ←
        redactFrom text
          { state
            appliedReplacements := processor.appliedReplacements ++ [applied] }
          finding.finish findings
      pure (processor, gap ++ (token ++ output))

def redactFragment (processor : ReplacementProcessor) (text : Text)
    (findings : List Finding) : Option (ReplacementProcessor × Text) :=
  redactFrom runtime text processor 0 findings

def maxTokenLen (processor : ReplacementProcessor) : Nat :=
  (processor.state.allocations.toList.map
    fun row => byteLen row.2.token).foldl max 0

def hasAppliedReplacements (processor : ReplacementProcessor) : Bool :=
  !processor.appliedReplacements.isEmpty

/-- The entries of the session, in the order of the keys. -/
def entries (processor : ReplacementProcessor) : List RestorationEntry :=
  processor.state.allocations.toList.map fun row => row.2.toEntry

/-- The tokens of the replacements made so far, sorted and without
repetition. -/
def issuedTokens (processor : ReplacementProcessor) : List Text :=
  (Std.TreeSet.ofList
    (processor.appliedReplacements.map
      AppliedReplacement.replacement)).toList

/-- `sessionId` is the random identifier of the session. -/
def buildSession (processor : ReplacementProcessor)
    (originalText redactedText : Text) (policy : RedactionPolicy)
    (sessionId : Text) : RedactionSession where
  version := 2
  sessionId := sessionId
  scopeId := processor.state.scopeId
  externalId := processor.state.externalId
  fingerprint := runtime.sha256Hex originalText
  redactedFingerprint := runtime.sha256Hex redactedText
  redactedText := redactedText
  policy := policy
  entries := processor.entries
  issuedTokens := processor.issuedTokens

end Methods

end ReplacementProcessor

end Redactor
