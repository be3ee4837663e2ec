import Redactor.Redact.CopiedTokens
import Redactor.Replace.Bijection

/-!
# The order of the fragments

The order in which fragments are redacted decides which token stands for which
original, and nothing else: a fragment is restored in any order if it is
restored in one.  A fragment with a copy of a token that the run allocates is
the exception: what the copy is restored to is what the token has been allocated
to.
-/

namespace Redactor

open Utf8 Fallible RestoreResult

/-- The session restores the output to the text of the fragment, and finds
nothing wrong. -/
def Fragment.Restores (runtime : Runtime) (session : RedactionSession)
    (fragment : Fragment) (output : Text) : Prop :=
  (restoreTextWithSession runtime output session).isValid = true ∧
    (restoreTextWithSession runtime output session).restoredText =
      fragment.text

instance decidableRestores (runtime : Runtime) (session : RedactionSession)
    (fragment : Fragment) (output : Text) :
    Decidable (fragment.Restores runtime session output) :=
  inferInstanceAs (Decidable (_ ∧ _))

/-- Unless something that the scanner visits around the findings of the fragment
is no token at all, nothing there is a token that replacing all the findings
allocates. -/
def Fragment.CopiesNoNewToken (runtime : Runtime) (state : SessionState)
    (findings : List Finding) (fragment : Fragment) : Prop :=
  ∀ gaps, fragment.gaps = some gaps →
    (∀ gap ∈ gaps, ∀ range ∈ scanTokenLikeRanges gap,
      IsValidToken runtime (slice gap range.1 range.2)) →
    ∀ gap ∈ gaps, ∀ range ∈ scanTokenLikeRanges gap,
      ¬ state.Numbers runtime findings (slice gap range.1 range.2)

section Fragment

variable {runtime : Runtime} {context left right : RestoreContext}

/-- Whatever is visited in a text with a valid result is a token. -/
theorem isValidToken_of_visited {text : Text}
    (valid : (context.restoreText runtime text).isValid = true) :
    ∀ range ∈ scanTokenLikeRanges text,
      IsValidToken runtime (slice text range.1 range.2) := by
  have visits (ranges : List (Nat × Nat)) (result : RestoreResult)
      (cursor : Nat)
      (visited :
        (ranges.foldl (context.visit runtime text)
          (result, cursor)).1.isValid = true) :
      result.isValid = true ∧
        ∀ range ∈ ranges,
          IsValidToken runtime (slice text range.1 range.2) := by
    induction ranges generalizing result cursor with
    | nil =>
        exact ⟨visited, by simp⟩
    | cons range ranges inductionHypothesis =>
        rw [List.foldl_cons, RestoreContext.visit] at visited
        obtain ⟨here, later⟩ := inductionHypothesis _ _ visited
        rw [isValid_append, isValid_append, Bool.and_eq_true,
          Bool.and_eq_true] at here
        refine ⟨here.1.1, ?_⟩
        intro other member
        rcases List.mem_cons.mp member with itself | further
        · rw [itself]
          cases read :
              parseToken runtime (slice text range.1 range.2) with
          | ok parsed =>
              exact ⟨parsed, read⟩
          | error message =>
              rw [isValid_restoreCandidate_error read] at here
              cases here.2
        · exact later other further
  rw [RestoreContext.restoreText, isValid_append, Bool.and_eq_true] at valid
  exact (visits _ _ _ valid.1).2

/-- A valid result has visited nothing but tokens around the findings. -/
theorem isValidToken_of_gaps {text output : Text} {cursor : Nat}
    {findings : List Finding} {gaps : List Text}
    {before after : ReplacementProcessor}
    (cut : gapsFrom text cursor findings = some gaps)
    (done :
      before.redactFrom runtime text cursor findings = some (after, output))
    (reverts : ∀ token original, after.Replaced token original →
      context.Reverts runtime token original)
    (valid : (context.restoreText runtime output).isValid = true) :
    ∀ gap ∈ gaps, ∀ range ∈ scanTokenLikeRanges gap,
      IsValidToken runtime (slice gap range.1 range.2) := by
  induction findings generalizing cursor gaps before output with
  | nil =>
      obtain ⟨tail, sliced, rfl⟩ := gapsFrom_nil_eq_some.mp cut
      obtain ⟨_, here⟩ :=
        ReplacementProcessor.redactFrom_nil_eq_some.mp done
      rw [here] at sliced
      cases sliced
      intro gap member
      rw [List.mem_singleton.mp member]
      exact isValidToken_of_visited valid
  | cons finding findings inductionHypothesis =>
      obtain ⟨gap, rest, sliced, cutRest, rfl⟩ :=
        gapsFrom_cons_eq_some.mp cut
      obtain ⟨_, next, token, hint, output, here, step, later, rfl⟩ :=
        ReplacementProcessor.redactFrom_cons_eq_some.mp done
      rw [sliced] at here
      cases here
      have replaced : after.Replaced token finding.matchText :=
        ReplacementProcessor.redactFrom_replaced later _ _
          ⟨_, List.mem_append_right _ (List.mem_singleton.mpr rfl), rfl, rfl⟩
      have settled : Settled gap :=
        settled_gap (reverts _ _ replaced) valid
      rw [restoreText_gap settled (reverts _ _ replaced), isValid_append,
        isValid_append, Bool.and_eq_true, Bool.and_eq_true] at valid
      have ofRest := inductionHypothesis cutRest later valid.2
      intro other member
      rcases List.mem_cons.mp member with itself | further
      · rw [itself]
        exact isValidToken_of_visited valid.1.1
      · exact ofRest other further

/-- Where two contexts decide what is visited around the findings alike, and
each reverts the replacements of its own run, they restore alike. -/
theorem restoreText_eq_of_gaps {text output output' : Text} {cursor : Nat}
    {findings : List Finding} {gaps : List Text}
    {before before' after after' : ReplacementProcessor}
    (cut : gapsFrom text cursor findings = some gaps)
    (same :
      ∀ gap ∈ gaps, ∀ range ∈ scanTokenLikeRanges gap,
        left.restoreCandidate runtime (slice gap range.1 range.2) =
          right.restoreCandidate runtime (slice gap range.1 range.2))
    (done :
      before.redactFrom runtime text cursor findings = some (after, output))
    (done' :
      before'.redactFrom runtime text cursor findings =
        some (after', output'))
    (reverts : ∀ token original, after.Replaced token original →
      left.Reverts runtime token original)
    (reverts' : ∀ token original, after'.Replaced token original →
      right.Reverts runtime token original)
    (valid : (left.restoreText runtime output).isValid = true) :
    left.restoreText runtime output = right.restoreText runtime output' := by
  induction findings generalizing cursor gaps before before' output output'
    with
  | nil =>
      obtain ⟨tail, sliced, rfl⟩ := gapsFrom_nil_eq_some.mp cut
      obtain ⟨_, here⟩ :=
        ReplacementProcessor.redactFrom_nil_eq_some.mp done
      obtain ⟨_, here'⟩ :=
        ReplacementProcessor.redactFrom_nil_eq_some.mp done'
      rw [here] at sliced here'
      cases sliced
      cases here'
      exact restoreText_eq_of_visited (same output List.mem_cons_self)
  | cons finding findings inductionHypothesis =>
      obtain ⟨gap, rest, sliced, cutRest, rfl⟩ :=
        gapsFrom_cons_eq_some.mp cut
      obtain ⟨_, next, token, hint, output, here, step, later, rfl⟩ :=
        ReplacementProcessor.redactFrom_cons_eq_some.mp done
      obtain ⟨_, next', token', hint', output', here', step', later', rfl⟩ :=
        ReplacementProcessor.redactFrom_cons_eq_some.mp done'
      rw [sliced] at here here'
      cases here
      cases here'
      have replaced : after.Replaced token finding.matchText :=
        ReplacementProcessor.redactFrom_replaced later _ _
          ⟨_, List.mem_append_right _ (List.mem_singleton.mpr rfl), rfl, rfl⟩
      have replaced' : after'.Replaced token' finding.matchText :=
        ReplacementProcessor.redactFrom_replaced later' _ _
          ⟨_, List.mem_append_right _ (List.mem_singleton.mpr rfl), rfl, rfl⟩
      have settled : Settled gap :=
        settled_gap (reverts _ _ replaced) valid
      have sameGap :=
        restoreText_eq_of_visited (same gap List.mem_cons_self)
      rw [restoreText_gap settled (reverts _ _ replaced)] at valid
      rw [restoreText_gap settled (reverts _ _ replaced),
        restoreText_gap settled (reverts' _ _ replaced'), sameGap]
      rw [isValid_append, Bool.and_eq_true] at valid
      have sameRest :=
        inductionHypothesis cutRest
          (fun other member => same other (List.mem_cons_of_mem _ member))
          later later' valid.2
      rw [sameRest]

end Fragment

/-! ## All fragments of a run -/

section Run

variable {runtime : Runtime} {prior : Option RedactionSession}
  {processor after after' : ReplacementProcessor}
  {findings reordered : List Finding}

/-- What the session that the processor builds restores with. -/
def ReplacementProcessor.ownContext (processor : ReplacementProcessor) :
    RestoreContext where
  authorizedTokens := processor.issuedTokens
  tokenMap :=
    processor.entries.map fun entry => (entry.token, entry.original)

theorem restoreTextWithSession_buildSession
    {originalText redactedText sessionId : Text} {policy : RedactionPolicy}
    (input : Text) :
    restoreTextWithSession runtime input
        (after.buildSession runtime originalText redactedText policy
          sessionId) =
      after.ownContext.restoreText runtime input :=
  rfl

/-- The session of a run reverts all of its replacements. -/
theorem RoundEnd.reverts (ended : RoundEnd runtime after)
    {token original : Text} (replaced : after.Replaced token original) :
    after.ownContext.Reverts runtime token original := by
  obtain ⟨applied, made, rfl, rfl⟩ := replaced
  obtain ⟨issued, isToken, known⟩ :=
    @RoundEnd.resolves runtime after [] [] [] {} ended applied made
  obtain ⟨scopeId, kind, counter, hex, fits, shape⟩ := isToken
  refine ⟨⟨⟨scopeId, kind, counter⟩, ?_, ?_⟩, issued, known⟩
  · rw [shape]
    exact parseToken_formatToken hex.isScope fits
  · exact hex.isPlainScope.2

/-- A candidate that is not allocated by the run is decided alike in any order
of the findings. -/
theorem Started.restoreCandidate_eq_reordered
    (started : Started runtime prior processor)
    (perm : reordered.Perm findings)
    (ran : Ran runtime processor after findings)
    (ran' : Ran runtime processor after' reordered) {candidate : Text}
    (notNew : ¬ processor.state.Numbers runtime findings candidate) :
    after.ownContext.restoreCandidate runtime candidate =
      after'.ownContext.restoreCandidate runtime candidate := by
  have authorized :
      candidate ∈ after.ownContext.authorizedTokens ↔
        processor.state.Issues runtime findings candidate :=
    started.mem_issuedTokens_iff ran
  have authorized' :
      candidate ∈ after'.ownContext.authorizedTokens ↔
        processor.state.Issues runtime findings candidate :=
    (started.mem_issuedTokens_iff ran').trans
      (SessionState.issues_perm perm)
  unfold RestoreContext.restoreCandidate
  by_cases issued : processor.state.Issues runtime findings candidate
  · -- an issued token that is not new was imported, with its original
    obtain ⟨finding, _, known⟩ := issued.resolve_right notNew
    have original :
        after.ownContext.original? candidate = some finding.key.2 :=
      @RoundEnd.original?_new runtime after [] [] [] {} (started.ended ran)
        _ _ ((allocateAll_extends ran.allocated).hasToken known)
    have original' :
        after'.ownContext.original? candidate = some finding.key.2 :=
      @RoundEnd.original?_new runtime after' [] [] [] {} (started.ended ran')
        _ _ ((allocateAll_extends ran'.allocated).hasToken known)
    simp only [authorized, authorized', issued, original, original']
  · simp only [authorized, authorized', issued, not_false_iff, if_true]

/-- A fragment without copies of new tokens has one valid result in any
order. -/
theorem Started.restoreText_eq_reordered
    (started : Started runtime prior processor)
    (perm : reordered.Perm findings)
    (ran : Ran runtime processor after findings)
    (ran' : Ran runtime processor after' reordered)
    {fragments others : List Fragment} {outputs outputs' : List Text}
    (done : processor.redactFragments runtime fragments =
      some (after, outputs))
    (done' : processor.redactFragments runtime others =
      some (after', outputs'))
    {fragment : Fragment} {output output' : Text}
    (member : (fragment, output) ∈ fragments.zip outputs)
    (member' : (fragment, output') ∈ others.zip outputs')
    (copiesNone :
      fragment.CopiesNoNewToken runtime processor.state findings)
    (valid : (after.ownContext.restoreText runtime output).isValid = true) :
    after.ownContext.restoreText runtime output =
      after'.ownContext.restoreText runtime output' := by
  obtain ⟨before, middle, redacted, kept⟩ :=
    ReplacementProcessor.exists_redactFrom_of_mem_zip done member
  obtain ⟨before', middle', redacted', kept'⟩ :=
    ReplacementProcessor.exists_redactFrom_of_mem_zip done' member'
  obtain ⟨gaps, cut⟩ :=
    ReplacementProcessor.exists_gaps_of_redactFrom redacted
  have reverts :
      ∀ token original, middle.Replaced token original →
        after.ownContext.Reverts runtime token original :=
    fun _ _ replaced => (started.ended ran).reverts (kept _ _ replaced)
  have tokens := isValidToken_of_gaps cut redacted reverts valid
  have same :
      ∀ gap ∈ gaps, ∀ range ∈ scanTokenLikeRanges gap,
        after.ownContext.restoreCandidate runtime
            (slice gap range.1 range.2) =
          after'.ownContext.restoreCandidate runtime
            (slice gap range.1 range.2) := by
    intro gap inGaps range visited
    exact
      started.restoreCandidate_eq_reordered perm ran ran'
        (copiesNone gaps cut tokens gap inGaps range visited)
  exact restoreText_eq_of_gaps cut same redacted redacted' reverts
    (fun _ _ replaced => (started.ended ran').reverts (kept' _ _ replaced))
    valid

end Run

/-- A run below the limit gives findings one token exactly when they have one
key, keeps the tokens apart from each other and from those it has imported, and
accounts for every replacement; and in any other order of the fragments the
run gives the same account of every original, and restores a fragment that has
no copy of a new token exactly when this run does. -/
theorem allocation_accounted_in_any_order (runtime : Runtime)
    (prior : Option RedactionSession) (externalId : Option Text)
    (scopeId : Text) (processor : ReplacementProcessor)
    (reached : Reached runtime prior) (drawn : IsHexId scopeId)
    (accepted :
      ReplacementProcessor.withPriorSession runtime prior externalId
        scopeId = .ok processor)
    (fragments : List Fragment) (after : ReplacementProcessor)
    (outputs : List Text)
    (done : processor.redactFragments runtime fragments =
      some (after, outputs))
    (below :
      StaysBelowLimit runtime processor.state
        (fragments.flatMap Fragment.findings))
    (originalText redactedText : Text) (policy : RedactionPolicy)
    (sessionId : Text) :
    let findings := fragments.flatMap Fragment.findings
    let session :=
      after.buildSession runtime originalText redactedText policy sessionId
    Accounted prior findings after.received session ∧
      ∀ others : List Fragment, others.Perm fragments →
        ∃ after' outputs',
          processor.redactFragments runtime others =
              some (after', outputs') ∧
            ∀ originalText' redactedText' policy' sessionId',
              let session' :=
                after'.buildSession runtime originalText' redactedText'
                  policy' sessionId'
              (∀ row,
                  row ∈ session'.entries.map RestorationEntry.account ↔
                    row ∈ session.entries.map RestorationEntry.account) ∧
                ∀ fragment ∈ fragments,
                  fragment.CopiesNoNewToken runtime processor.state
                      findings →
                    ∀ output output',
                      (fragment, output) ∈ fragments.zip outputs →
                      (fragment, output') ∈ others.zip outputs' →
                      (fragment.Restores runtime session output ↔
                        fragment.Restores runtime session' output') := by
  intro findings session
  have started := reached.started drawn accepted
  have ran := started.ran done below
  refine ⟨started.accounted ran _ _ _ _, ?_⟩
  intro others perm
  obtain ⟨after', outputs', done', ran'⟩ :=
    started.redacts_reordered perm done below
  have permFindings :
      (others.flatMap Fragment.findings).Perm findings :=
    perm.flatMap_right Fragment.findings
  refine ⟨after', outputs', done', ?_⟩
  intro originalText' redactedText' policy' sessionId' session'
  refine ⟨started.mem_accounts_iff_reordered permFindings ran ran', ?_⟩
  intro fragment _ copiesNone output output' member member'
  have copiesNone' :
      fragment.CopiesNoNewToken runtime processor.state
        (others.flatMap Fragment.findings) := by
    intro gaps cut tokens gap inGaps range visited isNew
    apply copiesNone gaps cut tokens gap inGaps range visited
    unfold SessionState.Numbers at isNew ⊢
    simpa only [SessionState.newKeys_perm permFindings] using isNew
  unfold Fragment.Restores
  rw [restoreTextWithSession_buildSession,
    restoreTextWithSession_buildSession]
  constructor
  · rintro ⟨valid, restored⟩
    have same :=
      started.restoreText_eq_reordered permFindings ran ran' done done'
        member member' copiesNone valid
    rw [← same]
    exact ⟨valid, restored⟩
  · rintro ⟨valid, restored⟩
    have same :=
      started.restoreText_eq_reordered permFindings.symm ran' ran done' done
        member' member copiesNone' valid
    rw [← same]
    exact ⟨valid, restored⟩

/-- A fresh processor and two fragments with one address. -/
theorem allocation_accounted_in_any_order_one_address :
    ∃ after outputs,
      ReplacementProcessor.redactFragments sampleRuntime
          { state := { scopeId := lit "ab" } }
          [sampleFragment, sampleFragment] = some (after, outputs) ∧
        Accounted none [sampleFinding, sampleFinding] after.received
          (after.buildSession sampleRuntime (lit "x@y.z") [] {}
            (lit "s1")) := by
  obtain ⟨⟨after, outputs⟩, done⟩ :=
    Option.isSome_iff_exists.mp (show
      (ReplacementProcessor.redactFragments sampleRuntime
        { state := { scopeId := lit "ab" } }
        [sampleFragment, sampleFragment]).isSome = true by decide +kernel)
  exact ⟨after, outputs, done,
    (allocation_accounted_in_any_order sampleRuntime none none (lit "ab") _
      .fresh (by decide) rfl [sampleFragment, sampleFragment] after outputs
      done (by decide +kernel) (lit "x@y.z") [] {} (lit "s1")).1⟩

/-- The first token of a custom string in the scope `ab`. -/
def sampleStringToken : Text := lit "[[RDX:v2:ab:CSTR:001:86cb3f6d]]"

/-- A runtime with the digests of the first two custom strings. -/
def sampleStringRuntime : Runtime :=
  (sampleRuntime.withDigest (lit "v2:ab:CSTR:1")
    (lit "86cb3f6d0f990d82d1aaa45fb2e145ee" ++
      lit "b672b0fd5ad33bfbe1bd2d4866424ca6")
    (by decide +kernel) (by decide +kernel)).withDigest
    (lit "v2:ab:CSTR:2")
    (lit "b7a5fbdffbc4dbb98b2e1fd7b53b427c" ++
      lit "526d109c1fb7c94e5533ee7760e23159")
    (by decide +kernel) (by decide +kernel)

/-- The text that is one custom string. -/
def sampleStringFragment (text : Text) : Fragment where
  text := text
  findings :=
    [{ sampleFinding with
       kind := .customString
       matchText := text
       normalizedKey := text
       finish := byteLen text }]

/-- The text that is the token, where no custom string is looked for. -/
def sampleUnsearched : Fragment where
  text := sampleStringToken
  findings := []

/-- A round that opens the scope `ab` with an address. -/
def sampleOpening : Round where
  externalId := none
  scopeId := lit "ab"
  fragments := [sampleFragment]
  originalText := lit "x@y.z"
  redactedText := []
  policy := {}
  sessionId := lit "s1"
  permitId := lit "p1"

/-- The round behind it, with the fragments in the order given. -/
def sampleClosing (fragments : List Fragment) : Round where
  externalId := none
  scopeId := lit "cd"
  fragments := fragments
  originalText := []
  redactedText := []
  policy := {}
  sessionId := lit "s2"
  permitId := lit "p2"

/-- The copy of a token comes back when the token is allocated to the copied
text itself, and becomes another text when that one was first. -/
theorem order_decides_what_copy_restores :
    let named := sampleStringFragment sampleStringToken
    let other := sampleStringFragment (lit "bob")
    ∃ opened first second output output',
      sampleOpening.redact sampleStringRuntime none = some opened ∧
        (sampleClosing [named, sampleUnsearched, other]).redact
            sampleStringRuntime (some opened.session) = some first ∧
        (sampleClosing [other, named, sampleUnsearched]).redact
            sampleStringRuntime (some opened.session) = some second ∧
        (∀ processor,
          ReplacementProcessor.withPriorSession sampleStringRuntime
              (some opened.session) none (lit "cd") = .ok processor →
            StaysBelowLimit sampleStringRuntime processor.state
              ([named, sampleUnsearched, other].flatMap Fragment.findings)) ∧
        first.outputs[1]? = some output ∧
        second.outputs[2]? = some output' ∧
        sampleUnsearched.Restores sampleStringRuntime first.session output ∧
        ¬ sampleUnsearched.Restores sampleStringRuntime second.session
          output' := by
  intro named other
  let opened :=
    (sampleOpening.redact sampleStringRuntime none).get (by decide +kernel)
  let first :=
    ((sampleClosing [named, sampleUnsearched, other]).redact sampleStringRuntime
      (some opened.session)).get (by decide +kernel)
  let second :=
    ((sampleClosing [other, named, sampleUnsearched]).redact sampleStringRuntime
      (some opened.session)).get (by decide +kernel)
  refine ⟨opened, first, second, sampleStringToken, sampleStringToken,
    (Option.some_get _).symm, (Option.some_get _).symm,
    (Option.some_get _).symm, ?_, by decide +kernel, by decide +kernel,
    by decide +kernel, by decide +kernel⟩
  intro processor accepted
  have below :
      ((ReplacementProcessor.withPriorSession sampleStringRuntime
          (some opened.session) none (lit "cd")).toOption.all
        fun processor =>
          StaysBelowLimit sampleStringRuntime processor.state
            ([named, sampleUnsearched, other].flatMap Fragment.findings)) =
        true := by
    decide +kernel
  rw [accepted] at below
  simpa [Except.toOption] using below

end Redactor
