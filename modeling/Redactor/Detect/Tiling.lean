import Redactor.Detect.Coverage
import Redactor.Detect.Reordering
import Redactor.Library.LastPlaceTurns

/-!
# Nested findings of one kind

Among findings of one kind the score decides, and an inner finding with a
higher score takes the place of the one around it.  What is left covered is
read off the findings by following tiles, each of which begins where the one
before it ends.
-/

namespace Redactor

open Utf8

/-- Findings of one kind, of which any two that overlap are nested. -/
structure NestedFindings (findings : List Finding) : Prop where
  forward : ∀ finding ∈ findings, finding.start ≤ finding.finish
  sameKind : ∀ left ∈ findings, ∀ right ∈ findings, left.kind = right.kind
  nested :
    ∀ left ∈ findings, ∀ right ∈ findings,
      overlaps left right = true → nested left right = true

/-- The left finding comes before the right one, in whatever order they were
found. -/
def Outranks (left right : Finding) : Prop :=
  Precedes left right ∧ ¬ Precedes right left

instance : DecidableRel Outranks :=
  fun left right =>
    inferInstanceAs
      (Decidable (Precedes left right ∧ ¬ Precedes right left))

/-- An empty finding stands between this one and every other one that begins
at the same byte and comes before it. -/
def Opens (findings : List Finding) (finding : Finding) : Prop :=
  ∀ other ∈ findings, other.start = finding.start →
    other.start < other.finish → Outranks other finding →
    ∃ gap ∈ findings,
      gap.start = finding.start ∧ gap.finish = finding.start ∧
        Outranks other gap ∧ Outranks gap finding

instance (findings : List Finding) (finding : Finding) :
    Decidable (Opens findings finding) :=
  inferInstanceAs
    (Decidable
      (∀ other ∈ findings, other.start = finding.start →
        other.start < other.finish → Outranks other finding →
        ∃ gap ∈ findings,
          gap.start = finding.start ∧ gap.finish = finding.start ∧
            Outranks other gap ∧ Outranks gap finding))

/-- No finding that begins inside this one has a higher score, or an empty
finding stands between it and those. -/
def Lasts (findings : List Finding) (finding : Finding) : Prop :=
  (∃ gap ∈ findings,
    gap.start = finding.start ∧ gap.finish = finding.start ∧
      Outranks finding gap) ∨
  ∀ inner ∈ findings,
    finding.start < inner.start → inner.start < finding.finish →
      inner.score ≤ finding.score

instance (findings : List Finding) (finding : Finding) :
    Decidable (Lasts findings finding) :=
  inferInstanceAs
    (Decidable
      ((∃ gap ∈ findings,
        gap.start = finding.start ∧ gap.finish = finding.start ∧
          Outranks finding gap) ∨
      ∀ inner ∈ findings,
        finding.start < inner.start → inner.start < finding.finish →
          inner.score ≤ finding.score))

/-- A finding that is left with its bytes.  One that begins with it and is
longer has a finding with a higher score in it, at the end of the tile or
before. -/
structure Tile (findings : List Finding) (finding : Finding) : Prop where
  listed : finding ∈ findings
  proper : finding.start < finding.finish
  opens : Opens findings finding
  lasts : Lasts findings finding
  released :
    ∀ longer ∈ findings, longer.start = finding.start →
      finding.finish < longer.finish → Opens findings longer →
      ∃ inner ∈ findings,
        finding.start < inner.start ∧ inner.start ≤ finding.finish ∧
          longer.score < inner.score

/-- Tiles lead from the byte to the end. -/
inductive Tiled (findings : List Finding) (stop : Nat) : Nat → Prop
  | done : Tiled findings stop stop
  | tile (finding : Finding) :
      Tile findings finding →
      Tiled findings stop finding.finish →
      Tiled findings stop finding.start

/-- The finding contains all that it overlaps. -/
structure Outermost (findings : List Finding) (outer : Finding) : Prop where
  proper : outer.start < outer.finish
  contains :
    ∀ other ∈ findings, overlaps outer other = true →
      outer.start ≤ other.start ∧ other.finish ≤ outer.finish

theorem overlaps_iff {left right : Finding} :
    overlaps left right = true ↔
      left.start < right.finish ∧ right.start < left.finish := by
  simp only [overlaps, Bool.and_eq_true, decide_eq_true_eq]

theorem preferRight_of_same_kind {left right : Finding}
    (same : left.kind = right.kind) :
    preferRight left right = true ↔
      left.score < right.score ∨
        right.score = left.score ∧
          left.finish - left.start < right.finish - right.start := by
  rw [preferRight_eq, same]
  simp

theorem outranks_iff {left right : Finding}
    (together : left.start = right.start) :
    Outranks left right ↔
      right.score < left.score ∨
        right.score = left.score ∧
          right.finish - right.start < left.finish - left.start := by
  unfold Outranks
  rw [precedes_iff, precedes_iff]
  omega

theorem outranks_of_start {left right : Finding}
    (later : left.start < right.start) : Outranks left right := by
  unfold Outranks
  rw [precedes_iff, precedes_iff]
  omega

theorem mem_of_mem_before {findings before after : List Finding}
    {other : Finding} (shape : sortCandidates findings = before ++ after)
    (member : other ∈ before) : other ∈ findings := by
  apply mem_sortCandidates.mp
  rw [shape]
  exact List.mem_append_left _ member

section Split

variable {findings before after : List Finding} {item other : Finding}
  (shape : sortCandidates findings = before ++ item :: after)

include shape

theorem precedes_of_mem_before (member : other ∈ before) :
    Precedes other item := by
  have sorted := sorted_sortCandidates findings
  rw [shape, List.pairwise_append] at sorted
  exact sorted.2.2 other member item List.mem_cons_self

theorem precedes_of_mem_after (member : other ∈ after) :
    Precedes item other := by
  have sorted := sorted_sortCandidates findings
  rw [shape, List.pairwise_append, List.pairwise_cons] at sorted
  exact sorted.2.1.1 other member

theorem mem_of_split : item ∈ findings := by
  apply mem_sortCandidates.mp
  rw [shape]
  simp

theorem start_le_of_mem_rest (member : other ∈ item :: after) :
    item.start ≤ other.start := by
  rcases List.mem_cons.mp member with same | later
  · rw [same]
  · have ordered := precedes_iff.mp (precedes_of_mem_after shape later)
    omega

theorem mem_of_mem_after (member : other ∈ after) : other ∈ findings := by
  apply mem_sortCandidates.mp
  rw [shape]
  exact List.mem_append_right _ (List.mem_cons_of_mem item member)

/-- The split at an earlier candidate. -/
theorem shape_of_split_before {front rest : List Finding}
    (split : before = front ++ other :: rest) :
    sortCandidates findings = front ++ other :: (rest ++ item :: after) := by
  rw [shape, split, List.append_assoc, List.cons_append]

/-- The split at a later candidate. -/
theorem shape_of_split_after {passed rest : List Finding}
    (split : after = passed ++ other :: rest) :
    sortCandidates findings =
      (before ++ item :: passed) ++ other :: rest := by
  rw [shape, split, List.append_assoc, List.cons_append]

theorem mem_before_of_outranks (listed : other ∈ findings)
    (outranks : Outranks other item) : other ∈ before := by
  have member := mem_sortCandidates.mpr listed
  rw [shape] at member
  rcases List.mem_append.mp member with earlier | rest
  · exact earlier
  · exfalso
    rcases List.mem_cons.mp rest with same | later
    · rw [same] at outranks
      exact outranks.2 outranks.1
    · exact outranks.2 (precedes_of_mem_after shape later)

theorem mem_after_of_outranks (listed : other ∈ findings)
    (outranks : Outranks item other) : other ∈ after := by
  have member := mem_sortCandidates.mpr listed
  rw [shape] at member
  rcases List.mem_append.mp member with earlier | rest
  · exact absurd (precedes_of_mem_before shape earlier) outranks.2
  · rcases List.mem_cons.mp rest with same | later
    · rw [same] at outranks
      exact absurd outranks.1 outranks.2
    · exact later

end Split

/-- The candidates that begin before the byte, and the others. -/
structure CutAt (findings : List Finding) (place : Nat)
    (before after : List Finding) : Prop where
  shape : sortCandidates findings = before ++ after
  below : ∀ finding ∈ before, finding.start < place
  above : ∀ finding ∈ after, place ≤ finding.start

/-- Candidates that are read up to an item can be cut before it. -/
theorem exists_cut_of_split {findings read rest : List Finding}
    (shape : sortCandidates findings = read ++ rest) {place : Nat}
    (behind : ∀ finding ∈ rest, place ≤ finding.start) :
    ∃ before middle, read = before ++ middle ∧
      CutAt findings place before (middle ++ rest) := by
  let early : Finding → Bool := fun finding => finding.start < place
  refine ⟨read.takeWhile early, read.dropWhile early,
    List.takeWhile_append_dropWhile.symm, ?_⟩
  have whole :
      sortCandidates findings =
        read.takeWhile early ++ (read.dropWhile early ++ rest) := by
    rw [shape, ← List.append_assoc, List.takeWhile_append_dropWhile]
  refine ⟨whole, ?_, ?_⟩
  · intro finding member
    have passes := List.mem_takeWhile_imp member
    simpa [early] using passes
  · intro finding member
    rcases List.mem_append.mp member with inner | outer
    · have started := started_sortCandidates findings
      rw [whole, List.pairwise_append, List.pairwise_append] at started
      cases shape' : read.dropWhile early with
      | nil =>
          rw [shape'] at inner
          cases inner
      | cons first others =>
          have stopped : ¬ early first = true := by
            have failing :=
              @List.head_dropWhile_not _ early read (by rw [shape']; simp)
            simp only [shape', List.head_cons] at failing
            simp [failing]
          simp only [early, decide_eq_true_eq, not_lt] at stopped
          rw [shape'] at inner started
          rcases List.mem_cons.mp inner with same | later
          · rw [same]
            exact stopped
          · have ordered :=
              (List.pairwise_cons.mp started.2.1.1).1 finding later
            omega
    · exact behind finding outer

/-- When the findings that begin at the byte come up, the last place has ended
or is given up to the first of them. -/
def FreeAt (findings : List Finding) (place : Nat) : Prop :=
  ∀ before after, CutAt findings place before after →
    ∀ held, LastPlace.holder overlaps preferRight before = some held →
      held.finish ≤ place ∨
        ∃ next ∈ findings, next.start = place ∧ held.score < next.score

section Free

variable {findings : List Finding} (nested : NestedFindings findings)
  {place : Nat} (free : FreeAt findings place)

include nested free

theorem takes_first {before after : List Finding} {first : Finding}
    (cut : CutAt findings place before (first :: after))
    (begins : first.start = place) :
    LastPlace.takes overlaps preferRight before first = true := by
  apply LastPlace.takes_iff_holder.mpr
  intro held isHolder clashes
  have first' := mem_of_split cut.shape
  have listed : held ∈ findings :=
    mem_of_mem_before cut.shape (LastPlace.mem_of_holder isHolder)
  rw [preferRight_of_same_kind
    (nested.sameKind held listed first first')]
  left
  rcases free before _ cut held isHolder with ended | ⟨next, known, at', more⟩
  · have meets := overlaps_iff.mp clashes
    omega
  · -- the first one scores at least as high as any at this byte
    have best : Precedes first next := by
      by_contra worse
      have outranks : Outranks next first := by
        refine ⟨?_, worse⟩
        exact (Std.Total.total first next).resolve_left worse
      have early := mem_before_of_outranks cut.shape known outranks
      have below := cut.below next early
      omega
    have ranked := precedes_iff.mp best
    omega

/-- From the first finding at the byte on, the last place is held by one that
begins there or behind. -/
theorem holder_mem_middle {before after : List Finding} {first : Finding}
    {middle : List Finding}
    (cut : CutAt findings place before (first :: middle ++ after))
    (begins : first.start = place) {held : Finding}
    (isHolder :
      LastPlace.holder overlaps preferRight (before ++ first :: middle) =
        some held) :
    held ∈ first :: middle := by
  have taken := takes_first nested free cut begins
  rw [LastPlace.holder_append_cons taken] at isHolder
  cases isHolder
  exact LastPlace.holderFrom_mem first middle

/-- Once a finding that begins at the byte has been read, the last place is
held by one that begins there or behind. -/
theorem le_start_of_holder {read rest : List Finding} {held other : Finding}
    (shape : sortCandidates findings = read ++ rest)
    (behind : ∀ finding ∈ rest, place ≤ finding.start)
    (present : other ∈ read) (together : other.start = place)
    (isHolder : LastPlace.holder overlaps preferRight read = some held) :
    place ≤ held.start := by
  obtain ⟨early, middle, split, cut⟩ := exists_cut_of_split shape behind
  have inMiddle : other ∈ middle := by
    rw [split] at present
    rcases List.mem_append.mp present with below | above
    · have earlier := cut.below other below
      omega
    · exact above
  cases middle with
  | nil =>
      cases inMiddle
  | cons first middle =>
      have firstBegins : first.start = place := by
        have above := cut.above first List.mem_cons_self
        have firstShape :
            sortCandidates findings = early ++ first :: (middle ++ rest) :=
          cut.shape
        have ordered :=
          start_le_of_mem_rest firstShape
            (List.mem_append_left rest inMiddle)
        omega
      rw [split] at isHolder
      have heldInMiddle :=
        holder_mem_middle nested free cut firstBegins isHolder
      exact cut.above held (List.mem_append_left rest heldInMiddle)

/-- Who has the last place when a finding comes up that is not the first one
at its byte begins there too. -/
theorem holder_begins {before after : List Finding} {item held other : Finding}
    (shape : sortCandidates findings = before ++ item :: after)
    (begins : item.start = place) (present : other ∈ before)
    (together : other.start = place)
    (isHolder :
      LastPlace.holder overlaps preferRight before = some held) :
    held.start = place := by
  have behind : ∀ finding ∈ item :: after, place ≤ finding.start := by
    intro finding member
    rw [← begins]
    exact start_le_of_mem_rest shape member
  have notBefore :=
    le_start_of_holder nested free shape behind present together isHolder
  have read := LastPlace.mem_of_holder isHolder
  have ordered := precedes_iff.mp (precedes_of_mem_before shape read)
  omega

/-- A finding that gets the last place is not hidden by another one. -/
theorem opens_of_takes {before after : List Finding} {item : Finding}
    (shape : sortCandidates findings = before ++ item :: after)
    (begins : item.start = place) (proper : item.start < item.finish)
    (taken : LastPlace.takes overlaps preferRight before item = true) :
    Opens findings item := by
  intro other listed together otherProper outranks
  have present := mem_before_of_outranks shape listed outranks
  have someone : LastPlace.holder overlaps preferRight before ≠ none := by
    cases before with
    | nil => cases present
    | cons first rest => simp [LastPlace.holder]
  obtain ⟨held, isHolder⟩ := Option.ne_none_iff_exists'.mp someone
  have heldBegins :=
    holder_begins nested free shape begins present (together.trans begins)
      isHolder
  obtain ⟨front, rest, split, _, stays⟩ :=
    LastPlace.exists_split_of_holder isHolder
  have heldPresent := LastPlace.mem_of_holder isHolder
  have heldListed : held ∈ findings := mem_of_mem_before shape heldPresent
  have item' := mem_of_split shape
  have ordered := precedes_iff.mp (precedes_of_mem_before shape heldPresent)
  -- the one in the last place is empty, or `item` would not have got it
  have empty : held.finish ≤ place := by
    by_contra reaches
    have clashes : overlaps held item = true :=
      overlaps_iff.mpr ⟨by omega, by omega⟩
    have preferred :=
      LastPlace.takes_iff_holder.mp taken held isHolder clashes
    rw [preferRight_of_same_kind
      (nested.sameKind held heldListed item item')] at preferred
    omega
  have heldForward := nested.forward held heldListed
  refine ⟨held, heldListed, by omega, by omega, ?_,
    (outranks_iff (by omega)).mpr (by omega)⟩
  apply (outranks_iff (by omega)).mpr
  have read := present
  rw [split] at read
  rcases List.mem_append.mp read with earlier | behind
  · have ranked :=
      precedes_iff.mp
        (precedes_of_mem_before (shape_of_split_before shape split) earlier)
    omega
  · exfalso
    rcases List.mem_cons.mp behind with same | later
    · rw [same] at otherProper
      omega
    · have meets := overlaps_iff.mp (stays other later).1
      omega

/-- A finding that nothing hides gets the last place. -/
theorem takes_of_opens {before after : List Finding} {item : Finding}
    (shape : sortCandidates findings = before ++ item :: after)
    (begins : item.start = place) (opens : Opens findings item)
    (untied : ∀ other ∈ before, ¬ Tied other item) :
    LastPlace.takes overlaps preferRight before item = true := by
  have behind : ∀ finding ∈ item :: after, place ≤ finding.start := by
    intro finding member
    rw [← begins]
    exact start_le_of_mem_rest shape member
  by_cases alone : ∀ other ∈ before, other.start < place
  · exact takes_first nested free ⟨shape, alone, behind⟩ begins
  · simp only [not_forall, not_lt] at alone
    obtain ⟨other, present, notEarlier⟩ := alone
    have otherOrdered := precedes_iff.mp (precedes_of_mem_before shape present)
    apply LastPlace.takes_iff_holder.mpr
    intro held isHolder clashes
    exfalso
    have heldBegins :=
      holder_begins nested free shape begins present (by omega) isHolder
    obtain ⟨front, rest, split, _, stays⟩ :=
      LastPlace.exists_split_of_holder isHolder
    have heldPresent := LastPlace.mem_of_holder isHolder
    have heldListed : held ∈ findings := mem_of_mem_before shape heldPresent
    have heldForward := nested.forward held heldListed
    have itemForward := nested.forward item (mem_of_split shape)
    have meets := overlaps_iff.mp clashes
    have heldOutranks : Outranks held item := by
      apply (outranks_iff (by omega)).mpr
      have ordered :=
        precedes_iff.mp (precedes_of_mem_before shape heldPresent)
      by_contra notRanked
      exact untied held heldPresent ⟨by omega, by omega, by omega⟩
    obtain ⟨gap, gapListed, gapBegins, gapEnds, afterHeld, beforeItem⟩ :=
      opens held heldListed (by omega) (by omega) heldOutranks
    have gapPresent := mem_before_of_outranks shape gapListed beforeItem
    have frontShape := shape_of_split_before shape split
    rw [split] at gapPresent
    rcases List.mem_append.mp gapPresent with earlier | fromHeld
    · exact afterHeld.2 (precedes_of_mem_before frontShape earlier)
    · rcases List.mem_cons.mp fromHeld with same | later
      · rw [same] at gapEnds
        omega
      · have gapMeets := overlaps_iff.mp (stays gap later).1
        omega

end Free

/-! ## What stays in the last place -/

section Kept

variable {findings : List Finding} (nested : NestedFindings findings)

include nested

/-- Of what begins inside a finding only a higher score is preferred to it. -/
theorem inside_of_overlaps {outer inner : Finding} (first : outer ∈ findings)
    (second : inner ∈ findings) (later : outer.start < inner.start)
    (clashes : overlaps outer inner = true) :
    inner.finish ≤ outer.finish ∧
      (preferRight outer inner = true ↔ outer.score < inner.score) := by
  have contained := nested.nested outer first inner second clashes
  simp only [Redactor.nested, Bool.or_eq_true, Bool.and_eq_true,
    decide_eq_true_eq] at contained
  have forward := nested.forward inner second
  rw [preferRight_of_same_kind (nested.sameKind outer first inner second)]
  constructor
  · omega
  · omega

/-- A finding that keeps the last place is not outrun by one that reaches
further, unless an empty finding comes in between. -/
theorem lasts_of_keeps {before after : List Finding} {item : Finding}
    (shape : sortCandidates findings = before ++ item :: after)
    (proper : item.start < item.finish)
    (keeps : LastPlace.keeps overlaps preferRight item after = true) :
    Lasts findings item := by
  have listed := mem_of_split shape
  have kept := LastPlace.keeps_iff.mp keeps
  by_cases separated :
      ∃ gap ∈ findings,
        gap.start = item.start ∧ gap.finish = item.start ∧
          Outranks item gap
  · exact Or.inl separated
  · right
    intro inner innerListed behind within
    by_contra more
    have present :=
      mem_after_of_outranks shape innerListed (outranks_of_start behind)
    obtain ⟨passed, rest, split⟩ := List.append_of_mem present
    have clashes : overlaps item inner = true := by
      have forward := nested.forward inner innerListed
      exact overlaps_iff.mpr ⟨by omega, within⟩
    have resists := kept passed inner rest split ?_ clashes
    · have preferred :=
        (inside_of_overlaps nested listed innerListed behind clashes).2.mpr
          (by omega)
      rw [resists] at preferred
      cases preferred
    · -- nothing before the inner finding ends the run of clashes
      intro other member
      have otherAfter : other ∈ after := by
        rw [split]
        exact List.mem_append_left _ member
      have otherListed := mem_of_mem_after shape otherAfter
      have forward := nested.forward other otherListed
      have fromItem :=
        precedes_iff.mp (precedes_of_mem_after shape otherAfter)
      have toInner :=
        precedes_iff.mp
          (precedes_of_mem_before (shape_of_split_after shape split)
            (List.mem_append_right _ (List.mem_cons_of_mem item member)))
      by_cases empty : other.start = item.start ∧ other.finish = item.start
      · exfalso
        exact separated
          ⟨other, otherListed, empty.1, empty.2,
            (outranks_iff (by omega)).mpr (by omega)⟩
      · exact overlaps_iff.mpr ⟨by omega, by omega⟩

theorem keeps_of_lasts {before after : List Finding} {item : Finding}
    (shape : sortCandidates findings = before ++ item :: after)
    (proper : item.start < item.finish) (lasts : Lasts findings item) :
    LastPlace.keeps overlaps preferRight item after = true := by
  have listed := mem_of_split shape
  rw [LastPlace.keeps_iff]
  intro passed later rest split reached clashes
  have laterAfter : later ∈ after := by
    rw [split]
    simp
  have laterListed := mem_of_mem_after shape laterAfter
  have ordered := precedes_iff.mp (precedes_of_mem_after shape laterAfter)
  have meets := overlaps_iff.mp clashes
  by_contra preferred
  rw [Bool.not_eq_false] at preferred
  by_cases together : later.start = item.start
  · rw [preferRight_of_same_kind
      (nested.sameKind item listed later laterListed)] at preferred
    omega
  · have behind : item.start < later.start := by omega
    have more :=
      (inside_of_overlaps nested listed laterListed behind clashes).2.mp
        preferred
    rcases lasts with ⟨gap, gapListed, begins, ends, outranks⟩ | best
    · -- the empty finding comes up first, and does not clash
      have gapAfter := mem_after_of_outranks shape gapListed outranks
      rw [split] at gapAfter
      rcases List.mem_append.mp gapAfter with earlier | fromLater
      · have gapMeets := overlaps_iff.mp (reached gap earlier)
        omega
      · have laterShape := shape_of_split_after shape split
        rcases List.mem_cons.mp fromLater with same | further
        · rw [same] at begins
          exact together begins
        · have gapOrdered :=
            precedes_iff.mp (precedes_of_mem_after laterShape further)
          omega
    · have bounded := best later laterListed behind meets.2
      omega

/-- A finding keeps the last place exactly when it lasts. -/
theorem keeps_iff_lasts {before after : List Finding} {item : Finding}
    (shape : sortCandidates findings = before ++ item :: after)
    (proper : item.start < item.finish) :
    LastPlace.keeps overlaps preferRight item after = true ↔
      Lasts findings item :=
  ⟨lasts_of_keeps nested shape proper, keeps_of_lasts nested shape proper⟩

end Kept

/-- The first of the candidates that tie with a finding. -/
theorem exists_first_tied {findings : List Finding} {finding : Finding}
    (listed : finding ∈ findings) :
    ∃ before first after,
      sortCandidates findings = before ++ first :: after ∧
      Tied first finding ∧ ∀ other ∈ before, ¬ Tied other finding := by
  let ties : Finding → Bool := fun other =>
    decide (other.start = finding.start) &&
      (decide (other.finish = finding.finish) &&
        decide (other.score = finding.score))
  have tied {other : Finding} : ties other = true ↔ Tied other finding := by
    simp only [ties, Bool.and_eq_true, decide_eq_true_eq]
    exact ⟨fun ⟨start, finish, score⟩ => ⟨start, finish, score⟩,
      fun same => ⟨same.start, same.finish, same.score⟩⟩
  have present : (sortCandidates findings).find? ties ≠ none := by
    intro none
    have refused :=
      List.find?_eq_none.mp none finding (mem_sortCandidates.mpr listed)
    exact refused (tied.mpr ⟨rfl, rfl, rfl⟩)
  obtain ⟨first, found⟩ := Option.ne_none_iff_exists'.mp present
  obtain ⟨passes, before, after, shape, refused⟩ :=
    List.find?_eq_some_iff_append.mp found
  refine ⟨before, first, after, shape, tied.mp passes, ?_⟩
  intro other member ties'
  have passed := refused other member
  rw [tied.mpr ties'] at passed
  cases passed

theorem outranks_tied_left {left left' right : Finding}
    (tied : Tied left left') : Outranks left right ↔ Outranks left' right := by
  simp only [Outranks, precedes_iff, tied.start, tied.finish, tied.score]

theorem outranks_tied_right {left right right' : Finding}
    (tied : Tied right right') :
    Outranks left right ↔ Outranks left right' := by
  simp only [Outranks, precedes_iff, tied.start, tied.finish, tied.score]

theorem opens_tied {findings : List Finding} {left right : Finding}
    (tied : Tied left right) :
    Opens findings left ↔ Opens findings right := by
  simp only [Opens, tied.start, outranks_tied_right tied]

theorem lasts_tied {findings : List Finding} {left right : Finding}
    (tied : Tied left right) :
    Lasts findings left ↔ Lasts findings right := by
  simp only [Lasts, tied.start, tied.finish, tied.score,
    outranks_tied_left tied]

end Redactor
