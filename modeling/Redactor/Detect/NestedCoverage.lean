import Mathlib.Data.Set.Finite.Lemmas
import Mathlib.Data.Set.Finite.List
import Redactor.Detect.Tiling

/-!
# What nested findings of one kind leave covered

The last place is free at the begin of every outermost finding, and free again
where a tile ends.  So the bytes of an outermost finding stay covered exactly
when tiles lead through it.
-/

namespace Redactor

open Utf8

/-- The last place is free where an outermost finding begins. -/
theorem freeAt_outermost {findings : List Finding} {outer : Finding}
    (outermost : Outermost findings outer) :
    FreeAt findings outer.start := by
  intro before after cut held isHolder
  have read := LastPlace.mem_of_holder isHolder
  have listed : held ∈ findings := mem_of_mem_before cut.shape read
  have below := cut.below held read
  have proper := outermost.proper
  left
  by_contra reaches
  have clashes : overlaps outer held = true :=
    overlaps_iff.mpr ⟨by omega, by omega⟩
  have contained := outermost.contains held listed clashes
  omega

section Coverage

variable {findings : List Finding} (nested : NestedFindings findings)

include nested

/-- A finding that opens and lasts survives, or one that ties with it. -/
theorem exists_survivor {place : Nat} (free : FreeAt findings place)
    {finding : Finding} (listed : finding ∈ findings)
    (begins : finding.start = place)
    (proper : finding.start < finding.finish)
    (opens : Opens findings finding) (lasts : Lasts findings finding) :
    ∃ kept, Survives findings kept ∧ Tied kept finding := by
  obtain ⟨before, first, after, shape, tied, untied⟩ :=
    exists_first_tied listed
  have firstBegins : first.start = place := tied.start.trans begins
  have firstProper : first.start < first.finish := by
    rw [tied.start, tied.finish]
    exact proper
  have taken :=
    takes_of_opens nested free shape firstBegins
      ((opens_tied tied).mpr opens)
      fun other member ties =>
        untied other member
          ⟨ties.start.trans tied.start, ties.finish.trans tied.finish,
            ties.score.trans tied.score⟩
  have kept :=
    (keeps_iff_lasts nested shape firstProper).mpr
      ((lasts_tied tied).mpr lasts)
  exact ⟨first, ⟨before, after, shape, taken, kept⟩, tied⟩

/-- The last place is free again where a tile ends. -/
theorem freeAt_finish {finding : Finding} (tile : Tile findings finding)
    (free : FreeAt findings finding.start) :
    FreeAt findings finding.finish := by
  intro before after cut held isHolder
  have proper := tile.proper
  have behind : ∀ other ∈ after, finding.start ≤ other.start := by
    intro other member
    have above := cut.above other member
    omega
  have read : finding ∈ before := by
    have member := mem_sortCandidates.mpr tile.listed
    rw [cut.shape] at member
    rcases List.mem_append.mp member with below | outer
    · exact below
    · have above := cut.above finding outer
      omega
  have heldBegins :=
    le_start_of_holder nested free cut.shape behind read rfl isHolder
  obtain ⟨front, rest, place, taken, stays⟩ :=
    LastPlace.exists_split_of_holder isHolder
  have heldEarly := cut.below held (LastPlace.mem_of_holder isHolder)
  have heldShape :
      sortCandidates findings = front ++ held :: (rest ++ after) := by
    rw [cut.shape, place]
    simp
  have heldListed := mem_of_split heldShape
  by_cases together : held.start = finding.start
  · by_cases long : held.finish ≤ finding.finish
    · exact Or.inl long
    · right
      have opens :=
        opens_of_takes nested free heldShape together (by omega) taken
      obtain ⟨inner, innerListed, innerBehind, innerWithin, more⟩ :=
        tile.released held heldListed together (by omega) opens
      refine ⟨inner, innerListed, ?_, more⟩
      by_contra notAtEnd
      -- an inner finding that comes up earlier would have replaced it
      have innerLater : held.start < inner.start := by omega
      have innerAfter :=
        mem_after_of_outranks heldShape innerListed
          (outranks_of_start innerLater)
      rcases List.mem_append.mp innerAfter with read | unread
      · obtain ⟨clashes, resists⟩ := stays inner read
        have preferred :=
          (inside_of_overlaps nested heldListed innerListed innerLater
            clashes).2.mpr more
        rw [resists] at preferred
        cases preferred
      · have above := cut.above inner unread
        omega
  · left
    have later : finding.start < held.start := by omega
    have forward := nested.forward held heldListed
    have clashes : overlaps finding held = true :=
      overlaps_iff.mpr ⟨by omega, by omega⟩
    exact
      (inside_of_overlaps nested tile.listed heldListed later clashes).1

theorem heldAt_of_tiled {stop place : Nat}
    (tiled : Tiled findings stop place) (free : FreeAt findings place)
    {byte : Nat} (reached : place ≤ byte) (within : byte < stop) :
    HeldAt findings byte := by
  induction tiled with
  | done =>
      omega
  | tile finding tile rest inductionHypothesis =>
      by_cases inTile : byte < finding.finish
      · obtain ⟨kept, survives, tied⟩ :=
          exists_survivor nested free tile.listed rfl tile.proper tile.opens
            tile.lasts
        refine ⟨kept, survives, ?_⟩
        unfold Finding.Covers
        rw [tied.start, tied.finish]
        exact ⟨reached, inTile⟩
      · exact
          inductionHypothesis (freeAt_finish nested tile free) (by omega)

end Coverage

/-! ## What is covered is tiled -/

/-- Every survivor that begins before the byte ends there or before. -/
def EndedAt (findings : List Finding) (place : Nat) : Prop :=
  ∀ other, Survives findings other → other.start < place →
    other.finish ≤ place

theorem mem_of_survives {findings : List Finding} {finding : Finding}
    (survives : Survives findings finding) : finding ∈ findings := by
  obtain ⟨_, _, shape, _, _⟩ := survives
  exact mem_of_split shape

/-- A survivor that has the byte begins there. -/
theorem begins_of_ended {findings : List Finding} {place : Nat}
    (ended : EndedAt findings place) {finding : Finding}
    (survives : Survives findings finding)
    (covers : finding.Covers place) : finding.start = place := by
  unfold Finding.Covers at covers
  by_contra different
  have before := ended finding survives (by omega)
  omega

theorem endedAt_outermost {findings : List Finding} {outer : Finding}
    (outermost : Outermost findings outer) :
    EndedAt findings outer.start := by
  intro other survives before
  have proper := outermost.proper
  by_contra reaches
  have clashes : overlaps outer other = true :=
    overlaps_iff.mpr ⟨by omega, by omega⟩
  have contained :=
    outermost.contains other (mem_of_survives survives) clashes
  omega

/-- Of the survivors that begin at the byte one is the longest. -/
structure Longest (findings : List Finding) (finding : Finding) : Prop where
  survives : Survives findings finding
  longest :
    ∀ other, Survives findings other → other.start = finding.start →
      other.finish ≤ finding.finish

theorem exists_longest {findings : List Finding} {finding : Finding}
    (survives : Survives findings finding) :
    ∃ longest, Longest findings longest ∧ longest.start = finding.start ∧
      finding.finish ≤ longest.finish := by
  let survivors : Set Finding :=
    {other | Survives findings other ∧ other.start = finding.start}
  have bounded : survivors.Finite := by
    apply (List.finite_toSet findings).subset
    intro other survivor
    exact mem_of_survives survivor.1
  obtain ⟨longest, survivor, best⟩ :=
    Set.exists_max_image survivors Finding.finish bounded
      ⟨finding, survives, rfl⟩
  refine ⟨longest, ⟨survivor.1, ?_⟩, survivor.2,
    best finding ⟨survives, rfl⟩⟩
  intro other otherSurvives together
  exact best other ⟨otherSurvives, together.trans survivor.2⟩

/-- What is read between an item and a later one. -/
theorem exists_middle {α : Type} {before after read rest : List α}
    {first next : α}
    (both : before ++ first :: after = read ++ next :: rest)
    (present : first ∈ read) (isFirst : first ∉ before) :
    ∃ middle, read = before ++ first :: middle ∧
      after = middle ++ next :: rest := by
  rcases List.append_eq_append_iff.mp both with
    ⟨part, readShape, restShape⟩ | ⟨part, beforeShape, _⟩
  · cases part with
    | nil =>
        rw [List.append_nil] at readShape
        rw [readShape] at present
        exact absurd present isFirst
    | cons head middle =>
        obtain ⟨same, others⟩ := List.cons.inj restShape
        exact ⟨middle, by rw [readShape, same], others⟩
  · exfalso
    apply isFirst
    rw [beforeShape]
    exact List.mem_append_left _ present

section Tiling

variable {findings : List Finding} (nested : NestedFindings findings)

include nested

/-- No survivor that begins before the end of the longest one reaches beyond
it. -/
theorem Longest.ended {finding : Finding} (longest : Longest findings finding)
    (ended : EndedAt findings finding.start) :
    EndedAt findings finding.finish := by
  intro other survives before
  have listed := mem_of_survives survives
  have forward := nested.forward other listed
  have ownListed := mem_of_survives longest.survives
  have ownForward := nested.forward finding ownListed
  rcases Nat.lt_trichotomy other.start finding.start with
    earlier | together | later
  · exact (ended other survives earlier).trans ownForward
  · exact longest.longest other survives together
  · have clashes : overlaps finding other = true :=
      overlaps_iff.mpr ⟨by omega, by omega⟩
    exact (inside_of_overlaps nested ownListed listed later clashes).1

/-- A finding keeps the last place up to one that begins before its end, when
no empty finding comes up at its begin and nothing in between scores
higher. -/
theorem stays_until {before middle rest : List Finding}
    {first next : Finding}
    (shape :
      sortCandidates findings = before ++ first :: (middle ++ next :: rest))
    (reaches : next.start < first.finish)
    (noEmpty :
      ∀ other ∈ findings, other.start = first.start →
        other.finish = first.start → ¬ Outranks first other)
    (none :
      ∀ inner ∈ findings, first.start < inner.start →
        inner.start ≤ next.start → inner.score ≤ first.score) :
    LastPlace.Stays overlaps preferRight first middle := by
  intro other member
  have otherAfter : other ∈ middle ++ next :: rest :=
    List.mem_append_left _ member
  have firstListed := mem_of_split shape
  have otherListed : other ∈ findings := mem_of_mem_after shape otherAfter
  have forward := nested.forward other otherListed
  have fromFirst :=
    precedes_iff.mp (precedes_of_mem_after shape otherAfter)
  have toNext :=
    precedes_iff.mp
      (precedes_of_mem_before (shape_of_split_after shape rfl)
        (List.mem_append_right before
          (List.mem_cons_of_mem first member)))
  by_cases atStart : other.start = first.start
  · have visible : other.start < other.finish := by
      by_contra empty
      exact noEmpty other otherListed atStart (by omega)
        ((outranks_iff (by omega)).mpr (by omega))
    refine ⟨overlaps_iff.mpr ⟨by omega, by omega⟩, ?_⟩
    by_contra preferred
    rw [Bool.not_eq_false, preferRight_of_same_kind
      (nested.sameKind first firstListed other otherListed)] at preferred
    omega
  · have later : first.start < other.start := by omega
    have clashes : overlaps first other = true :=
      overlaps_iff.mpr ⟨by omega, by omega⟩
    refine ⟨clashes, ?_⟩
    by_contra preferred
    rw [Bool.not_eq_false,
      (inside_of_overlaps nested firstListed otherListed later
        clashes).2] at preferred
    have bounded := none other otherListed later (by omega)
    omega

/-- The last place goes from a longer finding to one that survives where the
longest survivor ends. -/
theorem Longest.released {finding : Finding}
    (longest : Longest findings finding)
    (free : FreeAt findings finding.start) {next : Finding}
    (survives : Survives findings next)
    (follows : next.start = finding.finish)
    (proper : finding.start < finding.finish)
    (nextProper : next.start < next.finish) {longer : Finding}
    (listed : longer ∈ findings) (together : longer.start = finding.start)
    (further : finding.finish < longer.finish)
    (opens : Opens findings longer) :
    ∃ inner ∈ findings,
      finding.start < inner.start ∧ inner.start ≤ finding.finish ∧
        longer.score < inner.score := by
  by_contra none
  simp only [not_exists, not_and, not_lt] at none
  obtain ⟨before, first, after, shape, tied, untied⟩ :=
    exists_first_tied listed
  have begins := tied.start
  have ends := tied.finish
  have firstListed := mem_of_split shape
  have lower :
      ∀ inner ∈ findings, first.start < inner.start →
        inner.start ≤ next.start → inner.score ≤ first.score := by
    intro inner innerListed behind upTo
    rw [tied.score]
    exact none inner innerListed (by omega) (by omega)
  have taken :=
    takes_of_opens nested free shape (begins.trans together)
      ((opens_tied tied).mpr opens)
      fun other member ties =>
        untied other member
          ⟨ties.start.trans tied.start, ties.finish.trans tied.finish,
            ties.score.trans tied.score⟩
  have lost : ¬ Lasts findings first := by
    intro lasts
    have kept :=
      (keeps_iff_lasts nested shape (by omega)).mpr lasts
    have bounded :=
      longest.longest first ⟨before, after, shape, taken, kept⟩
        (begins.trans together)
    omega
  obtain ⟨read, rest, nextShape, nextTaken, _⟩ := survives
  have nextListed := mem_of_split nextShape
  have firstRead : first ∈ read :=
    mem_before_of_outranks nextShape firstListed
      (outranks_of_start (by omega))
  obtain ⟨middle, readShape, afterShape⟩ :=
    exists_middle (shape.symm.trans nextShape) firstRead
      fun member => untied first member tied
  rw [afterShape] at shape
  have stays : LastPlace.Stays overlaps preferRight first middle := by
    apply stays_until nested shape (by omega) _ lower
    intro other otherListed atStart empty outranks
    exact lost (Or.inl ⟨other, otherListed, atStart, empty, outranks⟩)
  have isHolder :
      LastPlace.holder overlaps preferRight read = some first := by
    rw [readShape, LastPlace.holder_append_cons taken,
      LastPlace.holderFrom_of_stays stays]
  have clashes : overlaps first next = true :=
    overlaps_iff.mpr ⟨by omega, by omega⟩
  have preferred :=
    LastPlace.takes_iff_holder.mp nextTaken first isHolder clashes
  rw [(inside_of_overlaps nested firstListed nextListed (by omega)
    clashes).2] at preferred
  have bounded := lower next nextListed (by omega) (Nat.le_refl _)
  omega

/-- The longest survivor is a tile. -/
theorem Longest.tile {finding : Finding} (longest : Longest findings finding)
    (free : FreeAt findings finding.start)
    (proper : finding.start < finding.finish)
    (continued :
      ∀ longer ∈ findings, longer.start = finding.start →
        finding.finish < longer.finish →
        ∃ next, Survives findings next ∧ next.start = finding.finish ∧
          next.start < next.finish) :
    Tile findings finding := by
  obtain ⟨before, after, shape, taken, kept⟩ := longest.survives
  exact {
    listed := mem_of_split shape
    proper := proper
    opens := opens_of_takes nested free shape rfl proper taken
    lasts := (keeps_iff_lasts nested shape proper).mp kept
    released := by
      intro longer listed together further opens
      obtain ⟨next, survives, follows, nextProper⟩ :=
        continued longer listed together further
      exact
        longest.released nested free survives follows proper nextProper
          listed together further opens }

/-- Tiles lead from every byte at which the last place is free to the end of
the outermost finding, when all of its bytes are covered. -/
theorem tiled_of_heldAt {outer : Finding}
    (outermost : Outermost findings outer)
    (held : ∀ byte, outer.Covers byte → HeldAt findings byte) {place : Nat}
    (begun : outer.start ≤ place) (within : place ≤ outer.finish)
    (free : FreeAt findings place) (ended : EndedAt findings place) :
    Tiled findings outer.finish place := by
  induction gap : outer.finish - place using Nat.strong_induction_on
    generalizing place with
  | _ gap' inductionHypothesis =>
      by_cases stopped : place = outer.finish
      · rw [stopped]
        exact .done
      · obtain ⟨finding, survives, covers⟩ :=
          held place ⟨begun, by omega⟩
        have begins := begins_of_ended ended survives covers
        obtain ⟨longest, isLongest, together, longer⟩ :=
          exists_longest survives
        have atPlace : longest.start = place := together.trans begins
        unfold Finding.Covers at covers
        rw [← atPlace] at free ended
        have endedAfter := isLongest.ended nested ended
        have bound {other : Finding} (listed : other ∈ findings)
            (begins : other.start = place)
            (proper : other.start < other.finish) :
            other.finish ≤ outer.finish := by
          have clashes : overlaps outer other = true :=
            overlaps_iff.mpr ⟨by omega, by omega⟩
          exact (outermost.contains other listed clashes).2
        have tile : Tile findings longest := by
          apply isLongest.tile nested free (by omega)
          intro other listed otherBegins further
          have inside := bound listed (by omega) (by omega)
          obtain ⟨next, nextSurvives, nextCovers⟩ :=
            held longest.finish ⟨by omega, by omega⟩
          have follows := begins_of_ended endedAfter nextSurvives nextCovers
          unfold Finding.Covers at nextCovers
          exact ⟨next, nextSurvives, follows, by omega⟩
        have inside :=
          bound (mem_of_survives isLongest.survives) atPlace (by omega)
        rw [← atPlace]
        apply Tiled.tile longest tile
        exact
          inductionHypothesis (outer.finish - longest.finish) (by omega)
            (by omega) inside (freeAt_finish nested tile free) endedAfter rfl

end Tiling

/-- Every finding lies in an outermost one. -/
theorem exists_outermost {findings : List Finding}
    (nested : NestedFindings findings) {finding : Finding}
    (listed : finding ∈ findings) (proper : finding.start < finding.finish) :
    ∃ outer ∈ findings, Outermost findings outer ∧
      outer.start ≤ finding.start ∧ finding.finish ≤ outer.finish := by
  let around : Set Finding :=
    {other | other ∈ findings ∧ other.start ≤ finding.start ∧
      finding.finish ≤ other.finish}
  have bounded : around.Finite :=
    (List.finite_toSet findings).subset fun other containing => containing.1
  obtain ⟨outer, ⟨outerListed, begins, ends⟩, longest⟩ :=
    Set.exists_max_image around (fun other => other.finish - other.start)
      bounded ⟨finding, listed, Nat.le_refl _, Nat.le_refl _⟩
  refine ⟨outer, outerListed, ⟨by omega, ?_⟩, begins, ends⟩
  intro other otherListed clashes
  have contained := nested.nested outer outerListed other otherListed clashes
  simp only [Redactor.nested, Bool.or_eq_true, Bool.and_eq_true,
    decide_eq_true_eq] at contained
  rcases contained with inside | outside
  · exact inside
  · have shorter :=
      longest other ⟨otherListed, by omega, by omega⟩
    omega

/-- Every byte of the findings is covered exactly when tiles lead through each
outermost one. -/
theorem nested_findings_covered_iff (findings : List Finding)
    (nested : NestedFindings findings) :
    (∀ finding ∈ findings, ∀ byte, finding.Covers byte →
      CoveredBy (selectNonOverlapping findings).1 byte) ↔
      ∀ outer ∈ findings, Outermost findings outer →
        Tiled findings outer.finish outer.start := by
  constructor
  · intro covered outer listed outermost
    exact
      tiled_of_heldAt nested outermost
        (fun byte covers =>
          covered_selected_iff.mp (covered outer listed byte covers))
        (Nat.le_refl _) (Nat.le_of_lt outermost.proper)
        (freeAt_outermost outermost) (endedAt_outermost outermost)
  · intro tiled finding listed byte covers
    unfold Finding.Covers at covers
    obtain ⟨outer, outerListed, outermost, begins, ends⟩ :=
      exists_outermost nested listed (by omega)
    apply covered_selected_iff.mpr
    exact
      heldAt_of_tiled nested (tiled outer outerListed outermost)
        (freeAt_outermost outermost) (by omega) (by omega)

/-- A long value, assigned to a key, and the repetition of a secret in it. -/
def sampleAssigned : List Finding :=
  [sampleCandidate .secret (lit "s3cr3t") 95 6,
    sampleCandidate .secret (lit "aaaaa-s3cr3t-bbbb123") 99 0]

/-- The long value has the higher score, and stays covered. -/
theorem nested_findings_covered_iff_assigned :
    NestedFindings sampleAssigned ∧
      ∀ finding ∈ sampleAssigned, ∀ byte, finding.Covers byte →
        CoveredBy (selectNonOverlapping sampleAssigned).1 byte := by
  have nested : NestedFindings sampleAssigned :=
    ⟨by decide +kernel, by decide +kernel, by decide +kernel⟩
  refine ⟨nested, ?_⟩
  apply (nested_findings_covered_iff sampleAssigned nested).mpr
  intro outer listed outermost
  rcases List.mem_cons.mp listed with inner | rest
  · have contained :=
      outermost.contains
        (sampleCandidate .secret (lit "aaaaa-s3cr3t-bbbb123") 99 0)
        (by decide +kernel) (by rw [inner]; decide +kernel)
    rw [inner] at contained
    exact absurd contained.1 (by decide +kernel)
  · rw [List.mem_singleton.mp rest]
    apply Tiled.tile
    · exact {
        listed := by decide +kernel
        proper := by decide +kernel
        opens := by decide +kernel
        lasts := by decide +kernel
        released := by decide +kernel }
    · exact .done

/-- The secret of an assignment, its repetition in the value on the next line,
and this value, which looks like a secret itself. -/
def samplePropagated : List Finding :=
  propagateRepeatedSecrets (lit "token=s3cr3t\naaaaa-s3cr3t-bbbb123")
      [sampleCandidate .secret (lit "s3cr3t") 99 6] ++
    [sampleCandidate .secret (lit "aaaaa-s3cr3t-bbbb123") 92 13]

/-- The repetition takes the place of the value around it, of which the rest
stays readable. -/
theorem repeated_secret_uncovers_longer_one :
    ¬ ∀ findings : List Finding, NestedFindings findings →
      ∀ finding ∈ findings, ∀ byte, finding.Covers byte →
        CoveredBy (selectNonOverlapping findings).1 byte := by
  intro covers
  have covered :=
    covers samplePropagated
      ⟨by decide +kernel, by decide +kernel, by decide +kernel⟩
      (sampleCandidate .secret (lit "aaaaa-s3cr3t-bbbb123") 92 13)
      (by decide +kernel) 13 (by decide +kernel)
  revert covered
  decide +kernel

end Redactor
