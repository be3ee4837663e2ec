import Redactor.Redact.MarkerFree
import Redactor.Replace.Bijection
import Redactor.Replace.ScanIsolation
import Redactor.Session.Cleartext

/-!
# What redacted fragments tell

All that is sent away in a history of rounds are its redacted fragments.  They
tell the text between the findings, the kinds of the findings and which of them
repeat one another, through all rounds, and nothing else.
-/

namespace Redactor

open Utf8 Patterns Relator

section Forward

variable {runtime : Runtime}
  {renames : FindingKind × Text → FindingKind × Text → Prop}

theorem Round.exists_of_redact {prior : Option RedactionSession}
    {round : Round} {outcome : RoundOutcome}
    (redacted : round.redact runtime prior = some outcome) :
    ∃ before after,
      ReplacementProcessor.withPriorSession runtime prior round.externalId
          round.scopeId = .ok before ∧
        before.redactFragments runtime round.fragments =
          some (after, outcome.outputs) ∧
        outcome.session =
          after.buildSession runtime round.originalText round.redactedText
            round.policy round.sessionId := by
  obtain ⟨before, accepted, rest⟩ := Option.bind_eq_some_iff.mp redacted
  obtain ⟨⟨after, outputs⟩, replaced, last⟩ :=
    Option.bind_eq_some_iff.mp rest
  cases last
  refine ⟨before, after, ?_, replaced, rfl⟩
  cases result :
      ReplacementProcessor.withPriorSession runtime prior round.externalId
        round.scopeId with
  | error message =>
      rw [result] at accepted
      cases accepted
  | ok processor =>
      rw [result] at accepted
      exact congrArg Except.ok (Option.some.inj accepted)

/-- The scope is drawn, or that of the prior session. -/
theorem scopeId_eq_of_renamed {prior prior' : Option RedactionSession}
    (priors :
      Option.Rel (RedactionSession.Renamed runtime renames) prior prior')
    {externalId externalId' : Option Text} {scopeId scopeId' : Text}
    {left right : ReplacementProcessor} (drawn : scopeId = scopeId')
    (leftStart :
      ReplacementProcessor.withPriorSession runtime prior externalId
        scopeId = .ok left)
    (rightStart :
      ReplacementProcessor.withPriorSession runtime prior' externalId'
        scopeId' = .ok right) :
    left.state.scopeId = right.state.scopeId := by
  cases priors with
  | none =>
      cases leftStart
      cases rightStart
      exact drawn
  | some renamed =>
      rw [(of_withPriorSession_eq_ok leftStart).2.2.1,
        (of_withPriorSession_eq_ok rightStart).2.2.1]
      exact renamed.scopeId

/-- Both sides get the same token. -/
theorem AllocationStep.token_eq_of_renamed {left right left' right' :
      SessionState} {finding other : Finding} {token token' : Text}
    {hint hint' : Option Text}
    (renamed : left'.Renamed runtime renames right')
    (paired : renames finding.key other.key)
    (leftStep : AllocationStep runtime left finding left' token hint)
    (rightStep : AllocationStep runtime right other right' token' hint') :
    token = token' := by
  obtain ⟨allocation, found, isToken⟩ := leftStep.allocated
  obtain ⟨allocation', found', isToken'⟩ := rightStep.allocated
  have matched := renamed.matched _ _ paired
  have here : left'.allocation? finding.key = some allocation := found
  have there : right'.allocation? other.key = some allocation' := found'
  rw [here, there] at matched
  cases matched with
  | some pair =>
      rw [← isToken, ← isToken', pair.token]

namespace ReplacementProcessor

/-- Findings that stand for each other between the same gaps are replaced by
the same tokens, by induction on the findings. -/
theorem redactFrom_renamed (isRenaming : IsRenaming renames)
    {findings others : List Finding}
    (paired :
      List.Forall₂ (fun finding other => renames finding.key other.key)
        findings others)
    {text text' output output' : Text} {cursor cursor' : Nat}
    {left right after after' : ReplacementProcessor}
    (renamed : left.state.Renamed runtime renames right.state)
    (sameGaps : gapsFrom text cursor findings = gapsFrom text' cursor' others)
    (done :
      redactFrom runtime text left cursor findings = some (after, output))
    (done' :
      redactFrom runtime text' right cursor' others =
        some (after', output')) :
    output = output' ∧
      after.state.Renamed runtime renames after'.state := by
  induction paired generalizing cursor cursor' left right output output' with
  | nil =>
      obtain ⟨rfl, sliced⟩ := redactFrom_nil_eq_some.mp done
      obtain ⟨rfl, sliced'⟩ := redactFrom_nil_eq_some.mp done'
      have here := gapsFrom_nil_eq_some.mpr ⟨output, sliced, rfl⟩
      have there := gapsFrom_nil_eq_some.mpr ⟨output', sliced', rfl⟩
      rw [here, there, Option.some.injEq, List.cons.injEq] at sameGaps
      exact ⟨sameGaps.1, renamed⟩
  | cons pair _ inductionHypothesis =>
      obtain ⟨gap, next, token, hint, rest, sliced, step, later, isOutput⟩ :=
        redactFrom_cons_eq_some.mp done
      obtain ⟨gap', next', token', hint', rest', sliced', step', later',
        isOutput'⟩ := redactFrom_cons_eq_some.mp done'
      obtain ⟨gaps, cut⟩ := exists_gaps_of_redactFrom later
      obtain ⟨gaps', cut'⟩ := exists_gaps_of_redactFrom later'
      have here := gapsFrom_cons_eq_some.mpr ⟨gap, gaps, sliced, cut, rfl⟩
      have there :=
        gapsFrom_cons_eq_some.mpr ⟨gap', gaps', sliced', cut', rfl⟩
      rw [here, there, Option.some.injEq, List.cons.injEq] at sameGaps
      have renamedNext : next.Renamed runtime renames next' :=
        step.renamed isRenaming renamed pair step'
      have sameToken : token = token' :=
        step.token_eq_of_renamed renamedNext pair step'
      have sameCut : gapsFrom text _ _ = gapsFrom text' _ _ :=
        cut.trans ((congrArg some sameGaps.2).trans cut'.symm)
      obtain ⟨sameRest, renamedAfter⟩ :=
        inductionHypothesis renamedNext sameCut later later'
      refine ⟨?_, renamedAfter⟩
      rw [isOutput, isOutput', sameGaps.1, sameToken, sameRest]

/-- The fragments of a round on either side. -/
theorem redactFragments_renamed (isRenaming : IsRenaming renames)
    {fragments others : List Fragment}
    (paired :
      List.Forall₂
        (fun fragment other =>
          fragment.gaps = other.gaps ∧
            List.Forall₂
              (fun finding partner => renames finding.key partner.key)
              fragment.findings other.findings)
        fragments others)
    {outputs outputs' : List Text}
    {left right after after' : ReplacementProcessor}
    (renamed : left.state.Renamed runtime renames right.state)
    (done : left.redactFragments runtime fragments = some (after, outputs))
    (done' :
      right.redactFragments runtime others = some (after', outputs')) :
    outputs = outputs' ∧
      after.state.Renamed runtime renames after'.state := by
  induction paired generalizing left right outputs outputs' with
  | nil =>
      cases done
      cases done'
      exact ⟨rfl, renamed⟩
  | cons pair _ inductionHypothesis =>
      obtain ⟨middle, output, rest, first, later, isOutputs⟩ :=
        redactFragments_cons_eq_some.mp done
      obtain ⟨middle', output', rest', first', later', isOutputs'⟩ :=
        redactFragments_cons_eq_some.mp done'
      obtain ⟨sameOutput, renamedMiddle⟩ :=
        redactFrom_renamed isRenaming pair.2 renamed pair.1 first first'
      obtain ⟨sameRest, renamedAfter⟩ :=
        inductionHypothesis renamedMiddle later later'
      refine ⟨?_, renamedAfter⟩
      rw [isOutputs, isOutputs', sameOutput, sameRest]

end ReplacementProcessor

/-- Whole histories on either side, by induction on the rounds. -/
theorem redactRounds_renamed (isRenaming : IsRenaming renames)
    {rounds rounds' : List Round}
    (paired :
      List.Forall₂
        (fun round round' =>
          List.Forall₂
            (fun fragment other =>
              fragment.gaps = other.gaps ∧
                List.Forall₂
                  (fun finding partner => renames finding.key partner.key)
                  fragment.findings other.findings)
            round.fragments round'.fragments)
        rounds rounds')
    (scopes : rounds.map Round.scopeId = rounds'.map Round.scopeId)
    {prior prior' : Option RedactionSession}
    (priors :
      Option.Rel (RedactionSession.Renamed runtime renames) prior prior')
    {outcomes outcomes' : List RoundOutcome}
    (done : redactRounds runtime prior rounds = some outcomes)
    (done' : redactRounds runtime prior' rounds' = some outcomes') :
    outcomes.map RoundOutcome.outputs =
      outcomes'.map RoundOutcome.outputs := by
  induction paired generalizing prior prior' outcomes outcomes' with
  | nil =>
      cases done
      cases done'
      rfl
  | cons pair _ inductionHypothesis =>
      obtain ⟨outcome, first, rest⟩ := Option.bind_eq_some_iff.mp done
      obtain ⟨later, restDone, last⟩ := Option.bind_eq_some_iff.mp rest
      obtain ⟨outcome', first', rest'⟩ := Option.bind_eq_some_iff.mp done'
      obtain ⟨later', restDone', last'⟩ := Option.bind_eq_some_iff.mp rest'
      cases last
      cases last'
      rw [List.map_cons, List.map_cons, List.cons.injEq] at scopes
      obtain ⟨before, after, continued, replaced, isSession⟩ :=
        Round.exists_of_redact first
      obtain ⟨before', after', continued', replaced', isSession'⟩ :=
        Round.exists_of_redact first'
      have started :=
        start_renamed isRenaming priors continued continued'
          (scopeId_eq_of_renamed priors scopes.1 continued continued')
      obtain ⟨sameOutputs, finished⟩ :=
        ReplacementProcessor.redactFragments_renamed isRenaming pair started
          replaced replaced'
      obtain ⟨redacted⟩ := Round.redact_eq_some first
      obtain ⟨redacted'⟩ := Round.redact_eq_some first'
      have sameScope :
          outcome.session.scopeId = outcome'.session.scopeId := by
        rw [isSession, isSession']
        exact finished.scopeId
      have renamed :=
        redacted.renamed isRenaming priors
          (List.rel_flatMap pair fun _ _ fragments => fragments.2) redacted'
          sameScope
      rw [List.map_cons, List.map_cons, sameOutputs,
        inductionHypothesis scopes.2 (.some renamed) restDone restDone']

end Forward

/-! ## What an output tells -/

section Pieces

variable {runtime : Runtime}

/-- A text has at most one way to be put together from tokens and gaps without
a marker, by induction on the pieces. -/
theorem joinPieces_inj {pieces others : List (Text × Text)}
    {last otherLast : Text}
    (gaps : ∀ piece ∈ pieces, MarkerFree piece.1)
    (tokens : ∀ piece ∈ pieces, IsToken runtime piece.2)
    (lastGap : MarkerFree last)
    (otherGaps : ∀ piece ∈ others, MarkerFree piece.1)
    (otherTokens : ∀ piece ∈ others, IsToken runtime piece.2)
    (otherLastGap : MarkerFree otherLast)
    (same : joinPieces pieces last = joinPieces others otherLast) :
    pieces = others ∧ last = otherLast := by
  induction pieces generalizing others with
  | nil =>
      cases others with
      | nil =>
          exact ⟨rfl, same⟩
      | cons other others =>
          have scanned := congrArg (scanFrom 0) same
          rw [scanFrom_joinPieces gaps tokens lastGap,
            scanFrom_joinPieces otherGaps otherTokens otherLastGap]
            at scanned
          cases scanned
  | cons piece pieces inductionHypothesis =>
      cases others with
      | nil =>
          have scanned := congrArg (scanFrom 0) same
          rw [scanFrom_joinPieces gaps tokens lastGap,
            scanFrom_joinPieces otherGaps otherTokens otherLastGap]
            at scanned
          cases scanned
      | cons other others =>
          obtain ⟨gap, laterGaps⟩ := List.forall_mem_cons.mp gaps
          obtain ⟨token, laterTokens⟩ := List.forall_mem_cons.mp tokens
          obtain ⟨otherGap, otherLaterGaps⟩ :=
            List.forall_mem_cons.mp otherGaps
          obtain ⟨otherToken, otherLaterTokens⟩ :=
            List.forall_mem_cons.mp otherTokens
          simp only [joinPieces, List.foldr_cons] at same
          have scanned := congrArg (scanFrom 0) same
          rw [scanFrom_token gap token, scanFrom_token otherGap otherToken,
            List.cons.injEq, Prod.mk.injEq] at scanned
          obtain ⟨⟨gapSize, finishes⟩, _⟩ := scanned
          have tokenSize : byteLen piece.2 = byteLen other.2 := by
            omega
          have gapEnds : byteLen piece.1 = byteLen other.1 := by
            omega
          obtain ⟨sameGap, behindGap⟩ := append_inj_of_byteLen gapEnds same
          obtain ⟨sameToken, behind⟩ :=
            append_inj_of_byteLen tokenSize behindGap
          obtain ⟨sameRest, sameLast⟩ :=
            inductionHypothesis laterGaps laterTokens otherLaterGaps
              otherLaterTokens behind
          exact ⟨List.cons_eq_cons.mpr
            ⟨Prod.ext sameGap sameToken, sameRest⟩, sameLast⟩

/-- The gaps of a placed fragment have no marker. -/
theorem Placed.markerFree {text : Text} {cursor : Nat}
    {findings : List Finding} {gaps : List Text}
    (placed : Placed text cursor findings)
    (cut : gapsFrom text cursor findings = some gaps) :
    ∀ gap ∈ gaps, MarkerFree gap := by
  induction findings generalizing cursor gaps with
  | nil =>
      obtain ⟨tail, sliced, markerFree⟩ := placed
      obtain ⟨tail', sliced', rfl⟩ := gapsFrom_nil_eq_some.mp cut
      rw [sliced, Option.some.injEq] at sliced'
      rw [← sliced']
      exact List.forall_mem_singleton.mpr markerFree
  | cons finding findings inductionHypothesis =>
      obtain ⟨⟨gap, sliced, markerFree⟩, _, later⟩ := placed
      obtain ⟨gap', rest, sliced', cutRest, rfl⟩ :=
        gapsFrom_cons_eq_some.mp cut
      rw [sliced, Option.some.injEq] at sliced'
      rw [← sliced']
      exact List.forall_mem_cons.mpr
        ⟨markerFree, inductionHypothesis later cutRest⟩

end Pieces

/-- An entry of the session gives the token to the pair. -/
def Names (session : Option RedactionSession) (key : FindingKind × Text)
    (token : Text) : Prop :=
  ∃ entry ∈ importedEntries session, entry.key = key ∧ entry.token = token

/-- The output is put together from the gaps of the fragment and from the tokens
of its findings. -/
def Tells (names : FindingKind × Text → Text → Prop) (fragment : Fragment)
    (output : Text) : Prop :=
  ∃ pieces last,
    fragment.gaps = some (pieces.map Prod.fst ++ [last]) ∧
      output = joinPieces pieces last ∧
      List.Forall₂ (fun finding piece => names finding.key piece.2)
        fragment.findings pieces

theorem Tells.mono {names names' : FindingKind × Text → Text → Prop}
    (implied : ∀ key token, names key token → names' key token)
    {fragment : Fragment} {output : Text}
    (tells : Tells names fragment output) :
    Tells names' fragment output := by
  obtain ⟨pieces, last, cut, isOutput, named⟩ := tells
  exact ⟨pieces, last, cut, isOutput,
    named.imp fun _ _ => implied _ _⟩

/-- The two pairs have one token. -/
def SameToken (session other : Option RedactionSession)
    (key partner : FindingKind × Text) : Prop :=
  ∃ token, Names session key token ∧ Names other partner token

section Tell

variable {runtime : Runtime} {session other : Option RedactionSession}

/-- In a valid session pairs and tokens are one to one. -/
theorem names_biUnique
    (formatted : ∀ last, session = some last →
      FormattedSession runtime last) :
    BiUnique (Names session) := by
  cases session with
  | none =>
      constructor
      · rintro key partner token ⟨entry, member, _⟩
        exact absurd member List.not_mem_nil
      · rintro key token token' ⟨entry, member, _⟩
        exact absurd member List.not_mem_nil
  | some last =>
      have valid := (formatted last rfl).valid
      constructor
      · rintro key partner token ⟨entry, member, rfl, rfl⟩
          ⟨entry', member', rfl, same⟩
        rw [List.inj_on_of_nodup_map valid.tokens member' member same]
      · rintro key token token' ⟨entry, member, rfl, rfl⟩
          ⟨entry', member', same, rfl⟩
        rw [List.inj_on_of_nodup_map valid.mappings member' member same]

/-- A token that a session gives is written with its kind. -/
theorem Names.formatted {key : FindingKind × Text} {token : Text}
    (names : Names session key token)
    (formatted : ∀ last, session = some last →
      FormattedSession runtime last) :
    ∃ scopeId counter, IsHexId scopeId ∧ counter ≤ unsignedMax ∧
      token = formatToken runtime scopeId key.1 counter := by
  obtain ⟨entry, member, rfl, rfl⟩ := names
  cases session with
  | none =>
      exact absurd member List.not_mem_nil
  | some last =>
      obtain ⟨_, hex, tokens⟩ := formatted last rfl
      obtain ⟨counter, fits, written⟩ := tokens entry member
      exact ⟨last.scopeId, counter, hex, fits, written⟩

theorem sameToken_biUnique
    (formatted : ∀ last, session = some last → FormattedSession runtime last)
    (otherFormatted : ∀ last, other = some last →
      FormattedSession runtime last) :
    BiUnique (SameToken session other) := by
  have unique := names_biUnique formatted
  have otherUnique := names_biUnique otherFormatted
  constructor
  · rintro key partner found ⟨token, names, otherNames⟩
      ⟨token', names', otherNames'⟩
    have same : token = token' := otherUnique.2 otherNames otherNames'
    rw [← same] at names'
    exact unique.1 names names'
  · rintro key found partner ⟨token, names, otherNames⟩
      ⟨token', names', otherNames'⟩
    have same : token = token' := unique.2 names names'
    rw [← same] at otherNames'
    exact otherUnique.1 otherNames otherNames'

theorem SameToken.kind {key partner : FindingKind × Text}
    (formatted : ∀ last, session = some last → FormattedSession runtime last)
    (otherFormatted : ∀ last, other = some last →
      FormattedSession runtime last)
    (same : SameToken session other key partner) : key.1 = partner.1 := by
  obtain ⟨token, names, otherNames⟩ := same
  obtain ⟨scopeId, counter, hex, fits, written⟩ := names.formatted formatted
  obtain ⟨scopeId', counter', hex', fits', written'⟩ :=
    otherNames.formatted otherFormatted
  exact
    (formatToken_injective hex.isScope fits hex'.isScope fits'
      (written.symm.trans written')).2.1

/-- An output tells the gaps, and which findings have one token. -/
theorem Tells.unique {fragment partner : Fragment} {output : Text}
    (formatted : ∀ last, session = some last → FormattedSession runtime last)
    (otherFormatted : ∀ last, other = some last →
      FormattedSession runtime last)
    (placed : fragment.Placed) (otherPlaced : partner.Placed)
    (tells : Tells (Names session) fragment output)
    (otherTells : Tells (Names other) partner output) :
    fragment.gaps = partner.gaps ∧
      List.Forall₂
        (fun finding found => SameToken session other finding.key found.key)
        fragment.findings partner.findings := by
  obtain ⟨pieces, last, cut, isOutput, named⟩ := tells
  obtain ⟨pieces', last', cut', isOutput', named'⟩ := otherTells
  have gaps := placed.markerFree cut
  have gaps' := otherPlaced.markerFree cut'
  rw [List.forall_mem_append, List.forall_mem_map,
    List.forall_mem_singleton] at gaps gaps'
  have tokens : ∀ piece ∈ pieces, IsToken runtime piece.2 := by
    intro piece member
    obtain ⟨finding, _, names⟩ := exists_left_of_forall₂ named member
    obtain ⟨scopeId, counter, hex, fits, written⟩ := names.formatted formatted
    exact ⟨scopeId, _, counter, hex, fits, written⟩
  have tokens' : ∀ piece ∈ pieces', IsToken runtime piece.2 := by
    intro piece member
    obtain ⟨finding, _, names⟩ := exists_left_of_forall₂ named' member
    obtain ⟨scopeId, counter, hex, fits, written⟩ :=
      names.formatted otherFormatted
    exact ⟨scopeId, _, counter, hex, fits, written⟩
  obtain ⟨rfl, rfl⟩ :=
    joinPieces_inj gaps.1 tokens gaps.2 gaps'.1 tokens' gaps'.2
      (isOutput.symm.trans isOutput')
  refine ⟨cut.trans cut'.symm, (forall₂_of_common named named').imp ?_⟩
  rintro finding found ⟨piece, names, otherNames⟩
  exact ⟨piece.2, names, otherNames⟩

end Tell

/-! ## What a history tells -/

section Histories

variable {runtime : Runtime} {prior : Option RedactionSession}

namespace ReplacementProcessor

variable {processor after : ReplacementProcessor}

/-- The findings have their tokens in the state at the end. -/
theorem redactFrom_tells {text output : Text} {cursor : Nat}
    {findings : List Finding} (recorded : processor.Recorded)
    (done : redactFrom runtime text processor cursor findings =
      some (after, output)) :
    ∃ pieces last,
      gapsFrom text cursor findings =
          some (pieces.map Prod.fst ++ [last]) ∧
        output = joinPieces pieces last ∧
        List.Forall₂
          (fun finding piece => after.state.HasToken finding.key piece.2)
          findings pieces := by
  induction findings generalizing processor cursor output with
  | nil =>
      obtain ⟨_, sliced⟩ := redactFrom_nil_eq_some.mp done
      exact ⟨[], output, gapsFrom_nil_eq_some.mpr ⟨output, sliced, rfl⟩, rfl,
        .nil⟩
  | cons finding findings inductionHypothesis =>
      obtain ⟨gap, next, token, hint, rest, sliced, step, later, isOutput⟩ :=
        redactFrom_cons_eq_some.mp done
      have recordedNext := recorded.record step
      obtain ⟨pieces, last, cut, isRest, named⟩ :=
        inductionHypothesis recordedNext later
      obtain ⟨allocated, _⟩ := redactFrom_spec later recordedNext
      have known : after.state.HasToken finding.key token :=
        (allocateAll_extends allocated).hasToken step.allocated
      refine ⟨(gap, token) :: pieces, last, ?_, ?_, .cons known named⟩
      · exact gapsFrom_cons_eq_some.mpr ⟨gap, _, sliced, cut, rfl⟩
      · rw [isOutput, isRest]
        rfl

theorem redactFragments_tells {fragments : List Fragment}
    {outputs : List Text} (recorded : processor.Recorded)
    (done : redactFragments runtime processor fragments =
      some (after, outputs)) :
    List.Forall₂ (Tells after.state.HasToken) fragments outputs := by
  induction fragments generalizing processor outputs with
  | nil =>
      cases done
      exact .nil
  | cons fragment fragments inductionHypothesis =>
      obtain ⟨middle, output, rest, first, later, rfl⟩ :=
        redactFragments_cons_eq_some.mp done
      obtain ⟨_, recordedMiddle⟩ := redactFrom_spec first recorded
      obtain ⟨allocated, _⟩ := redactFragments_spec later recordedMiddle
      have here : Tells middle.state.HasToken fragment output :=
        redactFrom_tells recorded first
      refine .cons (here.mono ?_) (inductionHypothesis recordedMiddle later)
      intro key token
      exact (allocateAll_extends allocated).hasToken

end ReplacementProcessor

/-- A round tells what its session says of its fragments, and the session keeps
what the prior one has said. -/
theorem Round.tells {round : Round} {outcome : RoundOutcome}
    (fits : RoundFits runtime prior round)
    (formatted : ∀ session, prior = some session →
      FormattedSession runtime session)
    (redacted : round.redact runtime prior = some outcome) :
    FormattedSession runtime outcome.session ∧
      (∀ key token, Names prior key token →
        Names (some outcome.session) key token) ∧
      List.Forall₂ (Tells (Names (some outcome.session))) round.fragments
        outcome.outputs := by
  obtain ⟨same, isSame, isFormatted, continues, _⟩ :=
    round_redacts fits.allowed formatted
  rw [redacted, Option.some.injEq] at isSame
  rw [← isSame] at isFormatted continues
  refine ⟨isFormatted, ?_, ?_⟩
  · rintro key token ⟨entry, member, rfl, rfl⟩
    cases prior with
    | none =>
        exact absurd member List.not_mem_nil
    | some session =>
        obtain ⟨new, found, kept⟩ :=
          (continues session rfl).entries entry member
        obtain ⟨inside, isToken⟩ := of_entryOf?_eq_some found
        exact ⟨new, inside, Prod.ext kept.kind.symm kept.original.symm,
          isToken⟩
  · obtain ⟨before, after, continued, replaced, isSession⟩ :=
      round.exists_of_redact redacted
    obtain ⟨sound, unused⟩ := sound_of_withPriorSession continued
    have recorded : before.Recorded := by
      rw [ReplacementProcessor.Recorded, unused]
      simp
    obtain ⟨allocated, _⟩ :=
      ReplacementProcessor.redactFragments_spec replaced recorded
    have keyed := keyed_allocateAll sound.keyed allocated
    refine
      (ReplacementProcessor.redactFragments_tells recorded replaced).imp
        fun fragment output tells => tells.mono ?_
    rintro key token ⟨allocation, found, isToken⟩
    rw [isSession]
    exact ⟨allocation.toEntry,
      ReplacementProcessor.mem_entries_iff.mpr ⟨key, allocation, found, rfl⟩,
      keyed key allocation found, isToken⟩

/-- Behind a history the latest session says which tokens its fragments tell, by
induction on the rounds. -/
theorem redactRounds_tells {rounds : List Round}
    {outcomes : List RoundOutcome}
    (fits : HistoryFits runtime prior rounds)
    (formatted : ∀ session, prior = some session →
      FormattedSession runtime session)
    (done : redactRounds runtime prior rounds = some outcomes) :
    ∃ latest,
      (∀ session, latest = some session →
        FormattedSession runtime session) ∧
        (∀ key token, Names prior key token → Names latest key token) ∧
        List.Forall₂
          (fun round outcome =>
            List.Forall₂ (Tells (Names latest)) round.fragments
              outcome.outputs)
          rounds outcomes := by
  induction rounds generalizing prior outcomes with
  | nil =>
      cases done
      exact ⟨prior, formatted, fun _ _ names => names, .nil⟩
  | cons round rounds inductionHypothesis =>
      obtain ⟨roundFits, laterFit⟩ := fits
      obtain ⟨outcome, first, rest⟩ := Option.bind_eq_some_iff.mp done
      obtain ⟨later, restDone, last⟩ := Option.bind_eq_some_iff.mp rest
      cases last
      obtain ⟨isFormatted, kept, tells⟩ :=
        round.tells roundFits formatted first
      have formattedNext :
          ∀ session, some outcome.session = some session →
            FormattedSession runtime session := by
        intro session same
        cases same
        exact isFormatted
      obtain ⟨latest, latestFormatted, keptRest, tellsRest⟩ :=
        inductionHypothesis (laterFit outcome first) formattedNext restDone
      refine ⟨latest, latestFormatted,
        fun key token names => keptRest key token (kept key token names),
        .cons (tells.imp fun fragment output here => here.mono keptRest)
          tellsRest⟩

/-- Histories that tell the same have findings abreast with one token. -/
theorem sameToken_of_outputs {rounds rounds' : List Round}
    {outcomes outcomes' : List RoundOutcome}
    {latest latest' : Option RedactionSession}
    (formatted : ∀ session, latest = some session →
      FormattedSession runtime session)
    (formatted' : ∀ session, latest' = some session →
      FormattedSession runtime session)
    (placed : ∀ round ∈ rounds, ∀ fragment ∈ round.fragments,
      fragment.Placed)
    (placed' : ∀ round ∈ rounds', ∀ fragment ∈ round.fragments,
      fragment.Placed)
    (tells :
      List.Forall₂
        (fun round outcome =>
          List.Forall₂ (Tells (Names latest)) round.fragments
            outcome.outputs)
        rounds outcomes)
    (tells' :
      List.Forall₂
        (fun round outcome =>
          List.Forall₂ (Tells (Names latest')) round.fragments
            outcome.outputs)
        rounds' outcomes')
    (same : outcomes.map RoundOutcome.outputs =
      outcomes'.map RoundOutcome.outputs) :
    List.Forall₂
      (fun round round' =>
        List.Forall₂
          (fun fragment partner =>
            fragment.gaps = partner.gaps ∧
              List.Forall₂
                (fun finding found =>
                  SameToken latest latest' finding.key found.key)
                fragment.findings partner.findings)
          round.fragments round'.fragments)
      rounds rounds' := by
  have told :
      List.Forall₂
        (fun round outputs =>
          List.Forall₂ (Tells (Names latest)) round.fragments outputs)
        rounds (outcomes.map RoundOutcome.outputs) :=
    List.forall₂_map_right_iff.mpr tells
  have told' :
      List.Forall₂
        (fun round outputs =>
          List.Forall₂ (Tells (Names latest')) round.fragments outputs)
        rounds' (outcomes.map RoundOutcome.outputs) := by
    rw [same]
    exact List.forall₂_map_right_iff.mpr tells'
  have together := forall₂_of_common told told'
  refine forall₂_iff_abreast.mpr ⟨together.length_eq, ?_⟩
  intro round round' abreast
  obtain ⟨inRounds, inRounds'⟩ := List.of_mem_zip abreast
  obtain ⟨outputs, here, there⟩ :=
    (forall₂_iff_abreast.mp together).2 round round' abreast
  have fragments := forall₂_of_common here there
  refine forall₂_iff_abreast.mpr ⟨fragments.length_eq, ?_⟩
  intro fragment partner abreastFragments
  obtain ⟨inFragments, inFragments'⟩ := List.of_mem_zip abreastFragments
  obtain ⟨output, tellsHere, tellsThere⟩ :=
    (forall₂_iff_abreast.mp fragments).2 fragment partner abreastFragments
  exact tellsHere.unique formatted formatted'
    (placed round inRounds fragment inFragments)
    (placed' round' inRounds' partner inFragments') tellsThere

theorem placed_of_historyFits {rounds : List Round}
    {outcomes : List RoundOutcome}
    (fits : HistoryFits runtime prior rounds)
    (done : redactRounds runtime prior rounds = some outcomes) :
    ∀ round ∈ rounds, ∀ fragment ∈ round.fragments, fragment.Placed := by
  induction rounds generalizing prior outcomes with
  | nil =>
      simp
  | cons round rounds inductionHypothesis =>
      obtain ⟨roundFits, laterFit⟩ := fits
      obtain ⟨outcome, first, rest⟩ := Option.bind_eq_some_iff.mp done
      obtain ⟨later, restDone, _⟩ := Option.bind_eq_some_iff.mp rest
      exact List.forall_mem_cons.mpr
        ⟨roundFits.placed,
          inductionHypothesis (laterFit outcome first) restDone⟩

end Histories

/-- The stretches between the findings of each fragment. -/
def Round.gaps (round : Round) : List (Option (List Text)) :=
  round.fragments.map Fragment.gaps

theorem gapsFrom_length {text : Text} {cursor : Nat}
    {findings : List Finding} {gaps : List Text}
    (cut : gapsFrom text cursor findings = some gaps) :
    gaps.length = findings.length + 1 := by
  induction findings generalizing cursor gaps with
  | nil =>
      obtain ⟨tail, _, rfl⟩ := gapsFrom_nil_eq_some.mp cut
      rfl
  | cons finding findings inductionHypothesis =>
      obtain ⟨gap, rest, _, cutRest, rfl⟩ := gapsFrom_cons_eq_some.mp cut
      rw [List.length_cons, List.length_cons, inductionHypothesis cutRest]

theorem gaps_eq_some_of_placed {fragment : Fragment}
    (placed : fragment.Placed) : ∃ gaps, fragment.gaps = some gaps :=
  placed.inOrder.exists_gaps ⟨[], fragment.text, rfl, rfl⟩

/-- Fragments with the same gaps and findings of one pattern stand for each
other. -/
theorem paired_of_sameFindings {rounds rounds' : List Round}
    (placed : ∀ round ∈ rounds, ∀ fragment ∈ round.fragments,
      fragment.Placed)
    (sameGaps : rounds.map Round.gaps = rounds'.map Round.gaps) :
    List.Forall₂
      (fun round round' =>
        List.Forall₂
          (fun fragment other =>
            fragment.gaps = other.gaps ∧
              List.Forall₂
                (fun finding partner =>
                  SameFindings.renames none (rounds.flatMap Round.findings)
                    (rounds'.flatMap Round.findings) finding.key
                    partner.key)
                fragment.findings other.findings)
          round.fragments round'.fragments)
      rounds rounds' := by
  have aligned :
      List.Forall₂
        (fun round round' =>
          List.Forall₂ (fun fragment other => fragment.gaps = other.gaps)
            round.fragments round'.fragments)
        rounds rounds' :=
    (map_eq_map_iff_forall₂.mp sameGaps).imp fun _ _ sameRow =>
      map_eq_map_iff_forall₂.mp sameRow
  have fragments :
      List.Forall₂ (fun fragment other => fragment.gaps = other.gaps)
        (rounds.flatMap Round.fragments) (rounds'.flatMap Round.fragments) :=
    List.rel_flatMap aligned fun _ _ related => related
  have lengths :
      List.Forall₂
        (fun fragment other =>
          fragment.findings.length = other.findings.length)
        (rounds.flatMap Round.fragments)
        (rounds'.flatMap Round.fragments) := by
    refine forall₂_iff_abreast.mpr ⟨fragments.length_eq, ?_⟩
    intro fragment other abreast
    obtain ⟨round, inRounds, inFragments⟩ :=
      List.mem_flatMap.mp (List.of_mem_zip abreast).1
    obtain ⟨gaps, cut⟩ :=
      gaps_eq_some_of_placed (placed round inRounds fragment inFragments)
    have cut' : other.gaps = some gaps := by
      rw [← (forall₂_iff_abreast.mp fragments).2 fragment other abreast]
      exact cut
    have size := gapsFrom_length cut
    rw [gapsFrom_length cut'] at size
    omega
  have named :
      List.Forall₂
        (fun fragment other =>
          List.Forall₂
            (fun finding partner =>
              SameFindings.renames none (rounds.flatMap Round.findings)
                (rounds'.flatMap Round.findings) finding.key partner.key)
            fragment.findings other.findings)
        (rounds.flatMap Round.fragments)
        (rounds'.flatMap Round.fragments) := by
    refine forall₂_of_chunks lengths ?_
    intro finding partner abreast
    refine SameFindings.renames_of_abreast ?_
    rw [List.flatMap_assoc, List.flatMap_assoc] at abreast
    exact abreast
  refine forall₂_of_chunks (aligned.imp fun _ _ rows => rows.length_eq) ?_
  intro fragment other abreast
  exact ⟨(forall₂_iff_abreast.mp fragments).2 fragment other abreast,
    (forall₂_iff_abreast.mp named).2 fragment other abreast⟩

/-- Two histories that draw the same scopes have equal outputs exactly when
their fragments agree between the findings and their findings have the same
kinds and repeat one another at the same places, over all rounds. -/
theorem outputs_tell_pattern_only (runtime : Runtime)
    (rounds rounds' : List Round) (outcomes outcomes' : List RoundOutcome)
    (scopes : rounds.map Round.scopeId = rounds'.map Round.scopeId)
    (fits : HistoryFits runtime none rounds)
    (fits' : HistoryFits runtime none rounds')
    (done : redactRounds runtime none rounds = some outcomes)
    (done' : redactRounds runtime none rounds' = some outcomes') :
    outcomes.map RoundOutcome.outputs =
        outcomes'.map RoundOutcome.outputs ↔
      rounds.map Round.gaps = rounds'.map Round.gaps ∧
        SameFindings none (rounds.flatMap Round.findings)
          (rounds'.flatMap Round.findings) := by
  have placed := placed_of_historyFits fits done
  have placed' := placed_of_historyFits fits' done'
  have fresh :
      ∀ session, none = some session → FormattedSession runtime session := by
    intro session isPrior
    cases isPrior
  constructor
  · intro same
    obtain ⟨latest, formatted, _, tells⟩ :=
      redactRounds_tells fits fresh done
    obtain ⟨latest', formatted', _, tells'⟩ :=
      redactRounds_tells fits' fresh done'
    have paired :=
      sameToken_of_outputs formatted formatted' placed placed' tells tells'
        same
    have keys :
        List.Forall₂ (SameToken latest latest')
          ((rounds.flatMap Round.findings).map Finding.key)
          ((rounds'.flatMap Round.findings).map Finding.key) := by
      rw [List.forall₂_map_left_iff, List.forall₂_map_right_iff]
      refine List.rel_flatMap paired fun round round' fragments => ?_
      exact List.rel_flatMap fragments fun _ _ pair => pair.2
    refine ⟨?_, ?_, ?_⟩
    · refine map_eq_map_iff_forall₂.mpr (paired.imp fun _ _ fragments => ?_)
      exact map_eq_map_iff_forall₂.mpr
        (fragments.imp fun _ _ pair => pair.1)
    · have kinds :=
        keys.imp fun key partner pair => pair.kind formatted formatted'
      rw [List.forall₂_map_left_iff, List.forall₂_map_right_iff] at kinds
      exact map_eq_map_iff_forall₂.mpr kinds
    · exact
        samePattern_of_forall₂ (sameToken_biUnique formatted formatted') keys
  · rintro ⟨sameGaps, same⟩
    exact redactRounds_renamed same.isRenaming
      (paired_of_sameFindings placed sameGaps) scopes .none done done'

/-- Two addresses with a blank between them. -/
def sampleTwoAddresses (first second : Text) : Round where
  externalId := none
  scopeId := lit "ab"
  fragments :=
    [{ text := first ++ ' ' :: second
       findings :=
         [{ sampleFinding with
            matchText := first, finish := byteLen first },
          { sampleFinding with
            matchText := second, start := byteLen first + 1
            finish := byteLen first + 1 + byteLen second }] }]
  originalText := first ++ ' ' :: second
  redactedText := []
  policy := {}
  sessionId := lit "s1"
  permitId := lit "p1"

theorem sampleTwoAddresses_fit (first second : Text) :
    HistoryFits sampleRuntime none [sampleTwoAddresses first second] := by
  refine ⟨?_, fun _ _ => trivial⟩
  refine
    { scopeId := by
        change IsHexId (lit "ab")
        decide
      sessionId := by
        change lit "s1" ≠ []
        decide
      permitId := by
        change lit "p1" ≠ []
        decide
      externalId := by simp
      placed := ?_
      limits := ?_ }
  · have blank : byteLen (first ++ [' ']) = byteLen first + 1 := by
      rw [byteLen_append]
      rfl
    have whole :
        byteLen (first ++ ' ' :: second) =
          byteLen first + 1 + byteLen second := by
      rw [List.append_cons, byteLen_append, blank]
    refine List.forall_mem_singleton.mpr ?_
    refine ⟨⟨[], ?_, by decide⟩, ?_, ⟨[' '], ?_, by decide⟩, ?_, [], ?_,
      by decide⟩
    · exact slice?_eq_some.mpr
        ⟨[], first ++ ' ' :: second, by simp, rfl, rfl⟩
    · exact slice?_eq_some.mpr ⟨[], ' ' :: second, by simp, rfl, by simp⟩
    · exact slice?_eq_some.mpr ⟨first, second, by simp, rfl, rfl⟩
    · refine slice?_eq_some.mpr ⟨first ++ [' '], [], by simp, blank, ?_⟩
      rw [blank]
    · exact slice?_eq_some.mpr
        ⟨first ++ ' ' :: second, [], by simp, whole, rfl⟩
  · intro processor accepted
    obtain rfl := Except.ok.inj accepted
    refine staysBelowLimit_fresh ?_ _ _
    change 2 ≤ unsignedMax
    decide

/-- Which two different addresses they are is not told, but that they are
different is. -/
theorem outputs_tell_pattern_only_two_addresses :
    ∃ different others equal,
      redactRounds sampleRuntime none
          [sampleTwoAddresses (lit "a@b.co") (lit "c@b.co")] =
        some different ∧
        redactRounds sampleRuntime none
            [sampleTwoAddresses (lit "d@e.org") (lit "a@b.co")] =
          some others ∧
        redactRounds sampleRuntime none
            [sampleTwoAddresses (lit "a@b.co") (lit "a@b.co")] =
          some equal ∧
        different.map RoundOutcome.outputs =
          others.map RoundOutcome.outputs ∧
        different.map RoundOutcome.outputs ≠
          equal.map RoundOutcome.outputs := by
  refine ⟨_, _, _, rfl, rfl, rfl, ?_, ?_⟩
  · refine
      (outputs_tell_pattern_only sampleRuntime
        [sampleTwoAddresses (lit "a@b.co") (lit "c@b.co")]
        [sampleTwoAddresses (lit "d@e.org") (lit "a@b.co")] _ _ rfl
        (sampleTwoAddresses_fit _ _) (sampleTwoAddresses_fit _ _) rfl
        rfl).mpr ⟨by decide, by decide, rfl, ?_⟩
    intro a b c d here there
    rcases List.mem_pair.mp here with first | second
    · cases first
      rcases List.mem_pair.mp there with first' | second'
      · cases first'
        exact iff_of_true rfl rfl
      · cases second'
        decide
    · cases second
      rcases List.mem_pair.mp there with first' | second'
      · cases first'
        decide
      · cases second'
        exact iff_of_true rfl rfl
  · intro same
    obtain ⟨_, pattern⟩ :=
      (outputs_tell_pattern_only sampleRuntime
        [sampleTwoAddresses (lit "a@b.co") (lit "c@b.co")]
        [sampleTwoAddresses (lit "a@b.co") (lit "a@b.co")] _ _ rfl
        (sampleTwoAddresses_fit _ _) (sampleTwoAddresses_fit _ _) rfl
        rfl).mp same
    have repeats :=
      pattern.repetitions.repeats _ _ _ _ (List.mem_cons_self)
        (List.mem_cons_of_mem _ List.mem_cons_self)
    exact absurd (repeats.mpr rfl) (by decide)

end Redactor
