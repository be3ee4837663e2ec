import Mathlib.Data.List.ReduceOption
import Redactor.Detect.MatchPositions

/-!
# Candidates and their occurrences

Each value has a pointer into its positions that only moves forward, while the
ranges in use come from all values.  A position that the pointer has passed
overlaps a range in use, and so it does ever after.  Therefore a candidate gets
the first occurrence of its value that is free, and none exactly when no
occurrence is.
-/

namespace Redactor

open Utf8 Fallible

/-- An occurrence of this length at this position overlaps a range in use. -/
def Blocked (length : Nat) (occupied : List (Nat × Nat)) (start : Nat) :
    Prop :=
  ∃ used ∈ occupied, used.1 < start + length ∧ start < used.2

theorem Blocked.append {length start : Nat} {occupied : List (Nat × Nat)}
    (blocked : Blocked length occupied start) (more : List (Nat × Nat)) :
    Blocked length (occupied ++ more) start := by
  obtain ⟨used, member, overlapping⟩ := blocked
  exact ⟨used, List.mem_append_left more member, overlapping⟩

theorem off_of_not_blocked {length start : Nat} {occupied : List (Nat × Nat)}
    (free : ¬ Blocked length occupied start) {used : Nat × Nat}
    (member : used ∈ occupied) :
    start + length ≤ used.1 ∨ used.2 ≤ start := by
  by_contra neither
  exact free ⟨used, member, by omega⟩

theorem not_blocked_iff {length start : Nat} {occupied : List (Nat × Nat)} :
    ¬ Blocked length occupied start ↔
      (occupied.all fun used =>
        decide (start + length ≤ used.1) || decide (used.2 ≤ start)) =
        true := by
  rw [List.all_eq_true]
  constructor
  · intro free used member
    rw [Bool.or_eq_true, decide_eq_true_eq, decide_eq_true_eq]
    exact off_of_not_blocked free member
  · rintro free ⟨used, member, overlapping⟩
    have apart := free used member
    rw [Bool.or_eq_true, decide_eq_true_eq, decide_eq_true_eq] at apart
    omega

/-- The pointer passes the blocked positions and stops behind the first that is
free. -/
theorem nextUnoccupied_cases (length index : Nat)
    (occupied : List (Nat × Nat)) (positions : List Nat) :
    (∃ passed start rest, positions = passed ++ start :: rest ∧
        (∀ position ∈ passed, Blocked length occupied position) ∧
        ¬ Blocked length occupied start ∧
        nextUnoccupied length occupied index positions =
          (some start, index + (passed.length + 1))) ∨
      (∀ position ∈ positions, Blocked length occupied position) ∧
        nextUnoccupied length occupied index positions =
          (none, index + positions.length) := by
  induction positions generalizing index with
  | nil =>
      right
      refine ⟨?_, rfl⟩
      intro position member
      cases member
  | cons first positions inductionHypothesis =>
      by_cases blocked : Blocked length occupied first
      · have skipped :
            nextUnoccupied length occupied index (first :: positions) =
              nextUnoccupied length occupied (index + 1) positions := by
          rw [nextUnoccupied, if_neg]
          rw [← not_blocked_iff, not_not]
          exact blocked
        rcases inductionHypothesis (index + 1) with
          ⟨passed, start, rest, rfl, allBlocked, free, chosen⟩ |
            ⟨allBlocked, exhausted⟩
        · left
          refine ⟨first :: passed, start, rest, rfl, ?_, free, ?_⟩
          · exact List.forall_mem_cons.mpr ⟨blocked, allBlocked⟩
          · rw [skipped, chosen, List.length_cons]
            congr 1
            omega
        · right
          refine ⟨List.forall_mem_cons.mpr ⟨blocked, allBlocked⟩, ?_⟩
          rw [skipped, exhausted, List.length_cons]
          congr 1
          omega
      · left
        refine ⟨[], first, positions, rfl, ?_, blocked, ?_⟩
        · intro position member
          cases member
        · rw [nextUnoccupied, if_pos (not_blocked_iff.mp blocked)]
          rfl

/-- The range that an answer puts in use. -/
def answerRanges (answer : Option Finding) : List (Nat × Nat) :=
  answer.toList.map fun finding => (finding.start, finding.finish)

section Rounds

variable (text : Text) (rules : RedactionRules)

/-- What a candidate gets: the first occurrence of its value that is free, and
nothing when no occurrence is. -/
def FirstFreeAnswer (occupied : List (Nat × Nat)) (candidate : Candidate) :
    Option Finding → Prop
  | none =>
      (mapKind candidate.kind rules).isSome → candidate.value ≠ [] →
        ∀ start, StartsAt candidate.value text start →
          Blocked (byteLen candidate.value) occupied start
  | some finding =>
      ∃ kind start, mapKind candidate.kind rules = some kind ∧
        finding = llmFinding kind candidate start ∧
        candidate.value ≠ [] ∧
        StartsAt candidate.value text start ∧
        ¬ Blocked (byteLen candidate.value) occupied start ∧
        ∀ earlier, StartsAt candidate.value text earlier → earlier < start →
          Blocked (byteLen candidate.value) occupied earlier

/-- The candidates are answered one after the other. -/
inductive Assigned :
    List (Nat × Nat) → List Candidate → List (Option Finding) → Prop
  | nil {occupied : List (Nat × Nat)} : Assigned occupied [] []
  | cons {occupied : List (Nat × Nat)} {candidate : Candidate}
      {candidates : List Candidate} {answer : Option Finding}
      {answers : List (Option Finding)} :
      FirstFreeAnswer text rules occupied candidate answer →
      Assigned (occupied ++ answerRanges answer) candidates answers →
      Assigned occupied (candidate :: candidates) (answer :: answers)

/-- Every position that a pointer has passed is blocked. -/
def Passed (matchPositions : List (Text × List Nat))
    (progress : CandidateProgress) : Prop :=
  ∀ value positions, matchPositions.lookup value = some positions →
    ∀ position ∈ positions.take ((progress.consumed.lookup value).getD 0),
      Blocked (byteLen value) progress.occupied position

/-- What one round does: the candidate gets its answer, and the pointers stay
behind blocked positions. -/
structure Answers (matchPositions : List (Text × List Nat))
    (progress : CandidateProgress) (candidate : Candidate)
    (next : CandidateProgress) (answer : Option Finding) : Prop where
  given : FirstFreeAnswer text rules progress.occupied candidate answer
  findings : next.findings = progress.findings ++ answer.toList
  occupied : next.occupied = progress.occupied ++ answerRanges answer
  passed : Passed matchPositions next

end Rounds

section Run

variable {text : Text} {rules : RedactionRules} {values : List Text}
  {matchPositions : List (Text × List Nat)}

/-- The pointers stay behind blocked positions when one of them is moved over
positions that are blocked from then on. -/
theorem Passed.moved {progress : CandidateProgress}
    (passed : Passed matchPositions progress) {value : Text}
    {positions : List Nat}
    (known : matchPositions.lookup value = some positions)
    {more : List (Nat × Nat)} {findings : List Finding} {used : Nat}
    (blocked :
      ∀ position ∈ positions.take used,
        Blocked (byteLen value) (progress.occupied ++ more) position) :
    Passed matchPositions
      { consumed := (value, used) :: progress.consumed
        occupied := progress.occupied ++ more
        findings := findings } := by
  intro other places listed position member
  rw [List.lookup_cons] at member
  by_cases same : other = value
  · rw [beq_iff_eq.mpr same] at member
    rw [same, known] at listed
    cases listed
    rw [same]
    exact blocked position member
  · rw [beq_false_of_ne same] at member
    exact (passed other places listed position member).append more

section Known

variable {candidate : Candidate} {kind : FindingKind} {positions : List Nat}
  {progress : CandidateProgress}

/-- The round of a candidate that gets an occurrence. -/
theorem takeCandidate_of_chosen
    (mapped : mapKind candidate.kind rules = some kind)
    (known : matchPositions.lookup candidate.value = some positions)
    {start used : Nat}
    (chosen :
      nextUnoccupied (byteLen candidate.value) progress.occupied
          ((progress.consumed.lookup candidate.value).getD 0)
          (positions.drop
            ((progress.consumed.lookup candidate.value).getD 0)) =
        (some start, used)) :
    takeCandidate rules matchPositions progress candidate =
      { consumed := (candidate.value, used) :: progress.consumed
        occupied :=
          progress.occupied ++ [(start, start + byteLen candidate.value)]
        findings :=
          progress.findings ++ [llmFinding kind candidate start] } := by
  simp only [takeCandidate, mapped, findNextUnoccupiedMatch, known, chosen]

/-- The round of a candidate whose occurrences are used up. -/
theorem takeCandidate_of_exhausted
    (mapped : mapKind candidate.kind rules = some kind)
    (known : matchPositions.lookup candidate.value = some positions)
    {used : Nat}
    (exhausted :
      nextUnoccupied (byteLen candidate.value) progress.occupied
          ((progress.consumed.lookup candidate.value).getD 0)
          (positions.drop
            ((progress.consumed.lookup candidate.value).getD 0)) =
        (none, used)) :
    takeCandidate rules matchPositions progress candidate =
      { progress with
        consumed := (candidate.value, used) :: progress.consumed } := by
  simp only [takeCandidate, mapped, findNextUnoccupiedMatch, known, exhausted]

section Chosen

variable {skipped rest : List Nat} {start : Nat}

/-- The positions before the chosen one have been passed, now or earlier. -/
theorem blocked_before_chosen
    (increasing : positions.Pairwise (· < ·)) {index length : Nat}
    {occupied : List (Nat × Nat)}
    (parts : positions.drop index = skipped ++ start :: rest)
    (behind :
      ∀ position ∈ positions.take index, Blocked length occupied position)
    (blocked : ∀ position ∈ skipped, Blocked length occupied position) :
    ∀ earlier ∈ positions, earlier < start →
      Blocked length occupied earlier := by
  intro earlier listed before
  rw [← List.take_append_drop index positions, parts] at listed increasing
  rw [List.mem_append, List.mem_append, List.mem_cons] at listed
  rcases listed with front | middle | rfl | later
  · exact behind earlier front
  · exact blocked earlier middle
  · exact absurd before (Nat.lt_irrefl _)
  · have ordered :=
      (List.pairwise_append.mp (List.pairwise_append.mp increasing).2.1).2.1
    have after := List.rel_of_pairwise_cons ordered later
    omega

/-- The chosen position is blocked as soon as its range is in use. -/
theorem blocked_to_chosen {index length : Nat}
    {occupied : List (Nat × Nat)} (positive : 0 < length)
    (parts : positions.drop index = skipped ++ start :: rest)
    (behind :
      ∀ position ∈ positions.take index, Blocked length occupied position)
    (blocked : ∀ position ∈ skipped, Blocked length occupied position) :
    ∀ position ∈ positions.take (index + (skipped.length + 1)),
      Blocked length (occupied ++ [(start, start + length)]) position := by
  intro position listed
  have passedOver :
      (skipped ++ start :: rest).take (skipped.length + 1) =
        skipped ++ [start] := by
    rw [List.append_cons]
    exact List.take_left' (List.length_append)
  rw [List.take_add, parts, passedOver, List.mem_append, List.mem_append,
    List.mem_singleton] at listed
  rcases listed with front | middle | rfl
  · exact (behind position front).append _
  · exact (blocked position middle).append _
  · refine ⟨_, List.mem_append_right _ (List.mem_singleton_self _), ?_⟩
    exact ⟨Nat.lt_add_of_pos_right positive,
      Nat.lt_add_of_pos_right positive⟩

end Chosen

/-- The candidate gets the first free one of all its occurrences. -/
theorem answers_of_known
    (mapped : mapKind candidate.kind rules = some kind)
    (known : matchPositions.lookup candidate.value = some positions)
    (nonempty : candidate.value ≠ [])
    (all : AllPositions text candidate.value positions)
    (passed : Passed matchPositions progress) :
    ∃ answer,
      Answers text rules matchPositions progress candidate
        (takeCandidate rules matchPositions progress candidate) answer := by
  let index := (progress.consumed.lookup candidate.value).getD 0
  have behind :
      ∀ position ∈ positions.take index,
        Blocked (byteLen candidate.value) progress.occupied position :=
    passed _ _ known
  rcases nextUnoccupied_cases (byteLen candidate.value) index
      progress.occupied (positions.drop index) with
    ⟨skipped, start, rest, parts, blocked, free, chosen⟩ |
      ⟨blocked, exhausted⟩
  · have member : start ∈ positions := by
      apply List.mem_of_mem_drop
      rw [parts]
      exact List.mem_append_right skipped List.mem_cons_self
    have first := blocked_before_chosen all.increasing parts behind blocked
    have positive : 0 < byteLen candidate.value :=
      Nat.pos_of_ne_zero (mt byteLen_eq_zero.mp nonempty)
    rw [takeCandidate_of_chosen mapped known chosen]
    refine ⟨some (llmFinding kind candidate start), ?_, rfl, rfl, ?_⟩
    · refine ⟨kind, start, mapped, rfl, nonempty, ?_, free, ?_⟩
      · exact (all.complete start).mp member
      · intro earlier starts before
        exact first earlier ((all.complete earlier).mpr starts) before
    · exact passed.moved known
        (blocked_to_chosen positive parts behind blocked)
  · have everywhere :
        ∀ position ∈ positions,
          Blocked (byteLen candidate.value) progress.occupied position := by
      intro position listed
      rw [← List.take_append_drop index positions, List.mem_append] at listed
      exact listed.elim (behind position) (blocked position)
    rw [takeCandidate_of_exhausted mapped known exhausted]
    refine ⟨none, ?_, (List.append_nil _).symm, (List.append_nil _).symm, ?_⟩
    · intro _ _ start starts
      exact everywhere start ((all.complete start).mpr starts)
    · have moved := @Passed.moved matchPositions progress passed
        candidate.value positions known [] progress.findings
        (index + (positions.drop index).length)
      rw [List.append_nil] at moved
      apply moved
      intro position listed
      exact everywhere position (List.mem_of_mem_take listed)

/-- A round without an answer leaves everything as it is. -/
theorem answers_of_unchanged
    (unchanged :
      takeCandidate rules matchPositions progress candidate = progress)
    (given : FirstFreeAnswer text rules progress.occupied candidate none)
    (passed : Passed matchPositions progress) :
    ∃ answer,
      Answers text rules matchPositions progress candidate
        (takeCandidate rules matchPositions progress candidate) answer := by
  rw [unchanged]
  exact ⟨none, given, (List.append_nil _).symm, (List.append_nil _).symm,
    passed⟩

end Known

theorem takeCandidate_answers
    (complete : CompletePositions text values matchPositions)
    {candidate : Candidate} (member : candidate.value ∈ values)
    {progress : CandidateProgress}
    (passed : Passed matchPositions progress) :
    ∃ answer,
      Answers text rules matchPositions progress candidate
        (takeCandidate rules matchPositions progress candidate) answer := by
  cases mapped : mapKind candidate.kind rules with
  | none =>
      apply answers_of_unchanged ?_ ?_ passed
      · simp only [takeCandidate, mapped]
      · intro allowed
        rw [mapped] at allowed
        cases allowed
  | some kind =>
      cases known : matchPositions.lookup candidate.value with
      | none =>
          apply answers_of_unchanged ?_ ?_ passed
          · simp only [takeCandidate, mapped, findNextUnoccupiedMatch, known]
          · intro _ nonempty
            obtain ⟨positions, listed⟩ :=
              complete.known _ member nonempty
            rw [known] at listed
            cases listed
      | some positions =>
          obtain ⟨nonempty, all⟩ := complete.complete _ _ known
          exact answers_of_known mapped known nonempty all passed

/-- The whole loop answers the candidates one after the other. -/
theorem foldl_takeCandidate_assigned
    (complete : CompletePositions text values matchPositions)
    {candidates : List Candidate}
    (named : ∀ candidate ∈ candidates, candidate.value ∈ values)
    {progress : CandidateProgress}
    (passed : Passed matchPositions progress) :
    ∃ answers,
      Assigned text rules progress.occupied candidates answers ∧
      (candidates.foldl (takeCandidate rules matchPositions)
          progress).findings =
        progress.findings ++ answers.reduceOption := by
  induction candidates generalizing progress with
  | nil =>
      exact ⟨[], Assigned.nil, (List.append_nil _).symm⟩
  | cons candidate candidates inductionHypothesis =>
      obtain ⟨member, rest⟩ := List.forall_mem_cons.mp named
      obtain ⟨answer, round⟩ := takeCandidate_answers complete member passed
      obtain ⟨answers, assigned, found⟩ :=
        inductionHypothesis rest round.passed
      rw [round.occupied] at assigned
      refine ⟨answer :: answers, Assigned.cons round.given assigned, ?_⟩
      rw [List.foldl_cons, found, round.findings, List.append_assoc]
      cases answer <;> rfl

end Run

/-! ## What the answers are -/

/-- An answer for each candidate, in their order: a finding, or none when every
occurrence overlaps the finding of an earlier candidate. -/
structure GreedyAnswers (text : Text) (rules : RedactionRules)
    (candidates : List Candidate) (answers : List (Option Finding)) :
    Prop where
  length : answers.length = candidates.length
  apart :
    answers.reduceOption.Pairwise fun left right =>
      left.finish ≤ right.start ∨ right.finish ≤ left.start
  accepted :
    ∀ (index : Nat) (candidate : Candidate) (finding : Finding),
      candidates[index]? = some candidate →
      answers[index]? = some (some finding) →
        mapKind candidate.kind rules = some finding.kind ∧
        finding.matchText = candidate.value ∧
        slice? text finding.start finding.finish = some candidate.value ∧
        finding.confidence ≤ 100
  dropped :
    ∀ (index : Nat) (candidate : Candidate),
      candidates[index]? = some candidate →
      answers[index]? = some none →
      (mapKind candidate.kind rules).isSome → candidate.value ≠ [] →
        ∀ start, StartsAt candidate.value text start →
          ∃ earlier ∈ (answers.take index).reduceOption,
            earlier.start < start + byteLen candidate.value ∧
              start < earlier.finish

section Assigned

variable {text : Text} {rules : RedactionRules}
  {occupied : List (Nat × Nat)} {candidates : List Candidate}
  {answers : List (Option Finding)}

/-- The ranges of the answers in front of an index. -/
def rangesBefore (answers : List (Option Finding)) (index : Nat) :
    List (Nat × Nat) :=
  (answers.take index).flatMap answerRanges

theorem Assigned.length (assigned : Assigned text rules occupied candidates
      answers) :
    answers.length = candidates.length := by
  induction assigned with
  | nil =>
      rfl
  | cons _ _ inductionHypothesis =>
      rw [List.length_cons, List.length_cons, inductionHypothesis]

/-- Each candidate is answered according to the ranges in use before it. -/
theorem Assigned.answered (assigned : Assigned text rules occupied candidates
      answers)
    {index : Nat} {candidate : Candidate} {answer : Option Finding}
    (named : candidates[index]? = some candidate)
    (answeredBy : answers[index]? = some answer) :
    FirstFreeAnswer text rules (occupied ++ rangesBefore answers index)
      candidate answer := by
  induction assigned generalizing index with
  | nil =>
      cases named
  | cons here _ inductionHypothesis =>
      cases index with
      | zero =>
          cases named
          cases answeredBy
          rw [rangesBefore, List.take_zero, List.flatMap_nil, List.append_nil]
          exact here
      | succ index =>
          have later := inductionHypothesis named answeredBy
          rw [List.append_assoc] at later
          exact later

/-- Findings are off the ranges in use and off each other. -/
theorem Assigned.apart (assigned : Assigned text rules occupied candidates
      answers) :
    (∀ finding ∈ answers.reduceOption, ∀ used ∈ occupied,
        finding.finish ≤ used.1 ∨ used.2 ≤ finding.start) ∧
      answers.reduceOption.Pairwise fun left right =>
        left.finish ≤ right.start ∨ right.finish ≤ left.start := by
  induction assigned with
  | nil =>
      refine ⟨?_, List.Pairwise.nil⟩
      intro finding member
      cases member
  | @cons occupied candidate candidates answer answers here _
      inductionHypothesis =>
      obtain ⟨off, pairwise⟩ := inductionHypothesis
      have offOccupied :
          ∀ finding ∈ answers.reduceOption, ∀ used ∈ occupied,
            finding.finish ≤ used.1 ∨ used.2 ≤ finding.start := by
        intro finding member used listed
        exact off finding member used (List.mem_append_left _ listed)
      cases answer with
      | none =>
          rw [List.reduceOption_cons_of_none]
          exact ⟨offOccupied, pairwise⟩
      | some finding =>
          rw [List.reduceOption_cons_of_some]
          obtain ⟨kind, start, _, rfl, _, _, free, _⟩ := here
          constructor
          · rw [List.forall_mem_cons]
            refine ⟨?_, offOccupied⟩
            intro used listed
            exact off_of_not_blocked free listed
          · refine List.Pairwise.cons ?_ pairwise
            intro later member
            have new := off later member
              (start, start + byteLen candidate.value)
              (List.mem_append_right _ (List.mem_singleton_self _))
            exact new.symm

/-- A range in use in front of an index is that of an earlier finding. -/
theorem mem_rangesBefore {index : Nat} {used : Nat × Nat} :
    used ∈ rangesBefore answers index ↔
      ∃ earlier ∈ (answers.take index).reduceOption,
        (earlier.start, earlier.finish) = used := by
  rw [rangesBefore, List.mem_flatMap]
  constructor
  · rintro ⟨answer, member, listed⟩
    obtain ⟨earlier, present, equal⟩ := List.mem_map.mp listed
    rw [Option.mem_toList.mp present] at member
    exact ⟨earlier, List.reduceOption_mem_iff.mpr member, equal⟩
  · rintro ⟨earlier, member, equal⟩
    refine ⟨some earlier, List.reduceOption_mem_iff.mp member, ?_⟩
    exact List.mem_map.mpr ⟨earlier, List.mem_singleton_self _, equal⟩

theorem Blocked.exists_earlier {index length start : Nat}
    (blocked : Blocked length (rangesBefore answers index) start) :
    ∃ earlier ∈ (answers.take index).reduceOption,
      earlier.start < start + length ∧ start < earlier.finish := by
  obtain ⟨used, listed, overlapping⟩ := blocked
  obtain ⟨earlier, member, rfl⟩ := mem_rangesBefore.mp listed
  exact ⟨earlier, member, overlapping⟩

theorem slice?_of_startsAt {value : Text} {start : Nat}
    (starts : StartsAt value text start) :
    slice? text start (start + byteLen value) = some value := by
  obtain ⟨before, after, rfl, rfl⟩ := starts
  exact slice?_middle before value after

theorem greedyAnswers_of_assigned
    (assigned : Assigned text rules [] candidates answers) :
    GreedyAnswers text rules candidates answers where
  length := assigned.length
  apart := assigned.apart.2
  accepted := by
    intro index candidate finding named answeredBy
    obtain ⟨kind, start, mapped, rfl, _, starts, _, _⟩ :=
      assigned.answered named answeredBy
    exact ⟨mapped, rfl, slice?_of_startsAt starts, Nat.min_le_right _ _⟩
  dropped := by
    intro index candidate named answeredBy allowed nonempty start starts
    have blocked :=
      assigned.answered named answeredBy allowed nonempty start starts
    rw [List.nil_append] at blocked
    exact blocked.exists_earlier

end Assigned

/-- With complete positions the candidates are answered one after the
other. -/
theorem assigned_of_complete {text : Text} {rules : RedactionRules}
    {candidates : List Candidate} {matchPositions : List (Text × List Nat)}
    (complete :
      CompletePositions text (candidates.map Candidate.value)
        matchPositions) :
    ∃ answers,
      Assigned text rules [] candidates answers ∧
      answers.reduceOption =
        (candidates.foldl (takeCandidate rules matchPositions)
          {}).findings := by
  have passed : Passed matchPositions {} := by
    intro value positions _ position member
    cases member
  obtain ⟨answers, assigned, found⟩ :=
    foldl_takeCandidate_assigned complete
      (fun _ member => List.mem_map_of_mem member) passed
  exact ⟨answers, assigned, found.symm⟩

theorem assigned_of_parsed {text : Text} {rules : RedactionRules}
    {candidates : List Candidate} {findings : List Finding}
    (parsed : parseCandidates text candidates rules = some findings) :
    ∃ answers,
      Assigned text rules [] candidates answers ∧
      answers.reduceOption = findings := by
  obtain ⟨matchPositions, built, last⟩ := Option.bind_eq_some_iff.mp parsed
  cases last
  exact assigned_of_complete (CompletePositions.of_built built)

/-- The assignment is exact and greedy with any complete positions, and these
are what the search has found when the candidates are parsed. -/
theorem parseCandidates_greedy (text : Text) (rules : RedactionRules)
    (candidates : List Candidate) :
    (∀ matchPositions,
        CompletePositions text (candidates.map Candidate.value)
          matchPositions →
        ∃ answers,
          GreedyAnswers text rules candidates answers ∧
          answers.reduceOption =
            (candidates.foldl (takeCandidate rules matchPositions)
              {}).findings) ∧
      ∀ findings, parseCandidates text candidates rules = some findings →
        ∃ answers,
          GreedyAnswers text rules candidates answers ∧
          answers.reduceOption = findings := by
  constructor
  · intro matchPositions complete
    obtain ⟨answers, assigned, found⟩ := assigned_of_complete complete
    exact ⟨answers, greedyAnswers_of_assigned assigned, found⟩
  · intro findings parsed
    obtain ⟨answers, assigned, found⟩ := assigned_of_parsed parsed
    exact ⟨answers, greedyAnswers_of_assigned assigned, found⟩

/-- The name that is the beginning of another one. -/
def sampleNames : List Candidate :=
  [⟨lit "person", lit "Ann Lee", some 90⟩, ⟨lit "person", lit "Ann", none⟩,
    ⟨lit "person", lit "Ann", none⟩]

/-- The first occurrence of the short name is in use, the second one is free,
and nothing is left for the last candidate. -/
theorem parseCandidates_greedy_ann :
    ∃ answers,
      GreedyAnswers (lit "Ann Lee and Ann") { person := true } sampleNames
        answers ∧
      answers.reduceOption.map
          (fun finding => (finding.start, finding.finish)) =
        [(0, 7), (12, 15)] := by
  have spans :
      (parseCandidates (lit "Ann Lee and Ann") sampleNames
          { person := true }).map
        (fun findings => findings.map fun finding =>
          (finding.start, finding.finish)) =
        some [(0, 7), (12, 15)] := by
    decide +kernel
  obtain ⟨findings, parsed, places⟩ := Option.map_eq_some_iff.mp spans
  obtain ⟨answers, greedy, found⟩ :=
    (parseCandidates_greedy (lit "Ann Lee and Ann") { person := true }
      sampleNames).2 findings parsed
  rw [← found] at places
  exact ⟨answers, greedy, places⟩

end Redactor
