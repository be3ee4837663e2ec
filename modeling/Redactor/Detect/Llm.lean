import Redactor.Detect.Policy

/-!
# Candidates of a language model

The model names values; each is looked for in the text, and the candidates are
given occurrences that do not overlap.  The findings are then selected together
with those of the rules.
-/

namespace Redactor

open Utf8 Fallible

structure Candidate where
  kind : Text
  value : Text
  confidence : Option Nat
  deriving DecidableEq, Repr

def allowedLlmKinds (rules : RedactionRules) : List Text :=
  (if rules.person then [lit "person"] else []) ++
    (if rules.organization then [lit "organization"] else [])

def mapKind (kind : Text) (rules : RedactionRules) : Option FindingKind :=
  if kind = lit "person" ∧ rules.person then some .person
  else if kind = lit "organization" ∧ rules.organization then
    some .organization
  else none

/-- The loop of `collect_match_positions`; there is no result when a slice
begins inside a character. -/
def collectMatchPositionsFrom (text value : Text) :
    Nat → Nat → Option (List Nat)
  | 0, _ => some []
  | fuel + 1, searchStart =>
      if byteLen text < searchStart then
        some []
      else do
        let rest ← slice? text searchStart (byteLen text)
        match find? rest value with
        | none => some []
        | some offset => do
            let start := searchStart + offset
            let later ← collectMatchPositionsFrom text value fuel (start + 1)
            some (start :: later)

def collectMatchPositions (text value : Text) : Option (List Nat) :=
  if value.isEmpty then
    some []
  else
    collectMatchPositionsFrom text value (byteLen text + 1) 0

/-- The positions of every value that is not empty. -/
def buildMatchPositions (text : Text) (values : List Text) :
    Option (List (Text × List Nat)) :=
  values.foldlM
    (fun positions value =>
      if value.isEmpty || (positions.lookup value).isSome then
        some positions
      else do
        let found ← collectMatchPositions text value
        some ((value, found) :: positions))
    []

/-- The first of the positions left whose range is free, with the number of
positions used up. -/
def nextUnoccupied (length : Nat) (occupied : List (Nat × Nat)) :
    Nat → List Nat → Option Nat × Nat
  | index, [] => (none, index)
  | index, start :: rest =>
      if occupied.all fun used =>
          decide (start + length ≤ used.1) || decide (used.2 ≤ start) then
        (some start, index + 1)
      else
        nextUnoccupied length occupied (index + 1) rest

/-- The variables of the loop over the candidates. -/
structure CandidateProgress where
  consumed : List (Text × Nat) := []
  occupied : List (Nat × Nat) := []
  findings : List Finding := []

def findNextUnoccupiedMatch (value : Text)
    (matchPositions : List (Text × List Nat))
    (progress : CandidateProgress) : Option Nat × CandidateProgress :=
  match matchPositions.lookup value with
  | none => (none, progress)
  | some positions =>
      let index := (progress.consumed.lookup value).getD 0
      let (start, used) :=
        nextUnoccupied (byteLen value) progress.occupied index
          (positions.drop index)
      (start, { progress with consumed := (value, used) :: progress.consumed })

def llmFinding (kind : FindingKind) (candidate : Candidate) (start : Nat) :
    Finding where
  kind := kind
  source := .llm
  matchText := candidate.value
  normalizedKey := normalize kind candidate.value
  confidence := min (candidate.confidence.getD 60) 100
  start := start
  finish := start + byteLen candidate.value

def takeCandidate (rules : RedactionRules)
    (matchPositions : List (Text × List Nat))
    (progress : CandidateProgress) (candidate : Candidate) :
    CandidateProgress :=
  match mapKind candidate.kind rules with
  | none => progress
  | some kind =>
      match
        findNextUnoccupiedMatch candidate.value matchPositions progress
      with
      | (none, progress) => progress
      | (some start, progress) =>
          { progress with
            occupied :=
              progress.occupied ++
                [(start, start + byteLen candidate.value)]
            findings :=
              progress.findings ++ [llmFinding kind candidate start] }

def parseCandidates (text : Text) (candidates : List Candidate)
    (rules : RedactionRules) : Option (List Finding) := do
  let matchPositions ←
    buildMatchPositions text (candidates.map Candidate.value)
  some
    (candidates.foldl (takeCandidate rules matchPositions) {}).findings

def filterFindingsToRanges (findings : List Finding)
    (ranges : List RedactableRange) : List Finding :=
  findings.filter fun finding =>
    ranges.any fun range =>
      decide (range.start ≤ finding.start) &&
        decide (finding.finish ≤ range.finish)

/-- `response` is what the request and the reading of its answer come to. -/
def discoverCandidates (response : Except Text (List Candidate))
    (text : Text) (rules : RedactionRules)
    (ranges : List RedactableRange) : Option (Except Text (List Finding)) :=
  if (allowedLlmKinds rules).isEmpty then
    some (.ok [])
  else
    match response with
    | .error message => some (.error message)
    | .ok candidates => do
        let findings ← parseCandidates text candidates rules
        some (.ok (filterFindingsToRanges findings ranges))

structure DetectionStats where
  droppedFindings : Nat := 0
  llmCandidatesTotal : Nat := 0
  llmRequestFailed : Bool := false
  llmError : Option Text := none

structure DetectionOutcome where
  findings : List Finding
  stats : DetectionStats

def detectInternal (environment : Environment)
    (response : Except Text (List Candidate)) (redactor : RedactorInstance)
    (text : Text) (inputKind : InputKind) (sourcePath : Option Text) :
    Option DetectionOutcome :=
  let ranges := redactableRanges text inputKind sourcePath
  if ranges.isEmpty then
    some { findings := [], stats := {} }
  else
    let compiled := redactor.compiledPolicy
    let result :=
      detectWithPolicy environment text compiled.policy
        compiled.customStrings compiled.customFiles ranges
    let stats : DetectionStats :=
      { droppedFindings := result.droppedFindings }
    if redactor.llm then do
      let discovered ←
        discoverCandidates response text compiled.policy.rules ranges
      let (findings, stats) :=
        match discovered with
        | .ok llmFindings =>
            (result.findings ++ llmFindings,
              { stats with llmCandidatesTotal := llmFindings.length })
        | .error message =>
            (result.findings,
              { stats with
                llmRequestFailed := true
                llmError := some message })
      let (merged, dropped) := selectNonOverlapping findings
      some
        { findings := merged
          stats :=
            { stats with droppedFindings := stats.droppedFindings + dropped } }
    else
      some { findings := result.findings, stats }

end Redactor
