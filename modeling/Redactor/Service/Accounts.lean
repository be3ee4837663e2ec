import Redactor.Redact.MarkerFree
import Redactor.Replace.Bijection
import Redactor.Service.Concurrency

/-!
# What the latest session accounts for

The latest session of an identifier accounts for the findings of all requests
that have saved for the identifier, and for no others: a value has an entry when
one of them has found it, and is counted as often as they have found it.
-/

namespace Redactor

open Utf8 Fallible VersionedStore

/-- The session has an entry for every key with a positive tally, and counts
it as often as the tally says. -/
def Tallies (session : Option RedactionSession)
    (tally : FindingKind × Text → Nat) : Prop :=
  ∀ row : FindingKind × Text × Nat,
    row ∈ (importedEntries session).map RestorationEntry.account ↔
      0 < tally (row.1, row.2.1) ∧ row.2.2 = tally (row.1, row.2.1)

theorem tallies_none : Tallies none fun _ => 0 := by
  simp [Tallies, importedEntries]

section Redaction

variable {runtime : Runtime} {prior : Option RedactionSession}
  {processor after : ReplacementProcessor} {findings : List Finding}
  {tally : FindingKind × Text → Nat}

/-- A processor starts with the occurrences of its prior session. -/
theorem Started.occurrences_of_tallies
    (started : Started runtime prior processor)
    (tallies : Tallies prior tally) (key : FindingKind × Text) :
    processor.state.occurrences key = tally key ∧
      ((∃ token, processor.state.HasToken key token) ↔ 0 < tally key) := by
  cases found : processor.state.allocation? key with
  | none =>
      have absent : tally key = 0 := by
        by_contra positive
        have listed :=
          (tallies (key.1, key.2, tally key)).mpr
            ⟨Nat.pos_of_ne_zero positive, rfl⟩
        obtain ⟨entry, member, account⟩ := List.mem_map.mp listed
        rw [RestorationEntry.account, Prod.mk.injEq, Prod.mk.injEq]
          at account
        have isAllocated :=
          (started.loaded key (.ofEntry entry)).mpr
            ⟨entry, member, Prod.ext account.1 account.2.1, rfl⟩
        rw [found] at isAllocated
        cases isAllocated
      simp [SessionState.occurrences, SessionState.HasToken, found, absent]
  | some allocation =>
      obtain ⟨entry, member, isKey, rfl⟩ :=
        (started.loaded key allocation).mp found
      have counted :=
        (tallies entry.account).mp (List.mem_map_of_mem member)
      change 0 < tally entry.key ∧ entry.occurrences = tally entry.key
        at counted
      rw [isKey] at counted
      refine ⟨?_, iff_of_true ⟨_, _, found, rfl⟩ counted.1⟩
      rw [SessionState.occurrences, found, ← counted.2]
      rfl

/-- A run adds its findings to the tally. -/
theorem Started.tallies (started : Started runtime prior processor)
    (ran : Ran runtime processor after findings)
    (before : Tallies prior tally) (originalText redactedText : Text)
    (policy : RedactionPolicy) (sessionId : Text) :
    Tallies
      (some
        (after.buildSession runtime originalText redactedText policy
          sessionId))
      fun key => tally key + countKey key findings := by
  intro row
  obtain ⟨counts, known⟩ :=
    started.occurrences_of_tallies before (row.1, row.2.1)
  have found :
      (row.1, row.2.1) ∈ findings.map Finding.key ↔
        0 < countKey (row.1, row.2.1) findings := by
    simp [countKey, List.countP_pos_iff]
  change row ∈ after.entries.map RestorationEntry.account ↔ _
  rw [ReplacementProcessor.mem_accounts_iff (started.ended ran).keyed,
    exists_hasToken_iff _ ran.allocated, known, found,
    occurrences_of_staysBelowLimit _ ran.below ran.allocated, counts]
  simp only [Nat.add_pos_iff_pos_or_pos]

end Redaction

/-! ## Requests in turn -/

/-- The findings of a request that has saved. -/
def RequestProgress.savedFindings : RequestProgress → List Finding
  | .saved _ artifact | .answered _ artifact _ | .lost _ artifact _ =>
      artifact.result.findings
  | _ => []

theorem savedFindings_of_hasSaved {progress : RequestProgress}
    {stored : Option StoredSession}
    {artifact : RedactorInstance.RedactionArtifact}
    (hasSaved : progress.HasSaved stored artifact) :
    progress.savedFindings = artifact.result.findings := by
  rcases hasSaved with rfl | ⟨response, rfl⟩ | ⟨error, rfl⟩ <;> rfl

section Turns

variable {ι : Type} [DecidableEq ι] {state : HttpState}
  {store : ValkeySessionStore} {requests : ι → RedactTextRequest}
  {draws : ι → Draws} {service : Service ι} {externalId : Text}

omit [DecidableEq ι] in
/-- A redaction adds its findings, which it has found in its text. -/
theorem RedactsTo.tallies {request : ι} {prior : Option RedactionSession}
    {artifact : RedactorInstance.RedactionArtifact}
    {tally : FindingKind × Text → Nat}
    (named : (requests request).externalId = some externalId)
    (redacts : RedactsTo state requests draws request prior artifact)
    (good : ∀ before, prior = some before →
      StoredWell state.environment.runtime externalId before)
    (before : Tallies prior tally) :
    Tallies (some artifact.session)
        (fun key => tally key + countKey key artifact.result.findings) ∧
      ∀ finding ∈ artifact.result.findings,
        finding.matchText <:+: (requests request).text := by
  obtain ⟨found, redactor, isFound, _, countersFit, done⟩ := redacts
  rw [named] at isFound
  cases isFound
  obtain ⟨redacted⟩ := redactArtifact_eq_ok (redactStateful_eq_ok.mp done)
  have started :
      Started state.environment.runtime prior redacted.before :=
    started_of_formatted
      (fun session isSession _ => (good session isSession).formatted)
      (draws request).scopeDrawn redacted.continued
  have ran :
      Ran state.environment.runtime redacted.before redacted.after
        artifact.result.findings := by
    have replaced := redacted.replaced
    rw [← redacted.findings] at replaced
    have fragments :
        redacted.before.redactFragments state.environment.runtime
            [{ text := (requests request).text
               findings := artifact.result.findings }] =
          some (redacted.after, [artifact.result.redactedText]) :=
      ReplacementProcessor.redactFragments_cons_eq_some.mpr
        ⟨_, _, [], replaced, rfl, rfl⟩
    have below := countersFit redacted.before redacted.continued
    have ran := started.ran fragments (by simpa using below)
    simpa using ran
  constructor
  · rw [redacted.session]
    exact started.tallies ran before _ _ _ _
  · intro finding member
    rw [redacted.findings] at member
    exact infix_of_slice?
      (confined_detected redacted.detected finding member).inText

/-- What a row of requests has found in all. -/
def tallyOf (service : Service ι) (order : List ι)
    (key : FindingKind × Text) : Nat :=
  (order.map fun request =>
    countKey key (service.progress request).savedFindings).sum

omit [DecidableEq ι] in
theorem tallies_of_inTurn {order : List ι}
    (named : ∀ request ∈ order,
      (requests request).externalId = some externalId)
    {version : Nat} {prior latest : Option StoredSession}
    (inTurn : InTurn state requests draws service version prior order latest)
    (good : ∀ before, prior.map StoredSession.session = some before →
      StoredWell state.environment.runtime externalId before)
    {tally : FindingKind × Text → Nat}
    (before : Tallies (prior.map StoredSession.session) tally) :
    Tallies (latest.map StoredSession.session)
        (fun key => tally key + tallyOf service order key) ∧
      ∀ request ∈ order, ∀ finding ∈ (service.progress request).savedFindings,
        finding.matchText <:+: (requests request).text := by
  induction order generalizing version prior tally with
  | nil =>
      rw [inTurn]
      exact ⟨by simpa [tallyOf] using before, by simp⟩
  | cons request rest inductionHypothesis =>
      obtain ⟨artifact, hasSaved, redacts, later⟩ := inTurn
      have here := named request List.mem_cons_self
      have findings := savedFindings_of_hasSaved hasSaved
      obtain ⟨tallies, inText⟩ := redacts.tallies here good before
      have well := (redactsTo_spec here redacts good).1
      obtain ⟨last, texts⟩ :=
        inductionHypothesis
          (fun other member =>
            named other (List.mem_cons_of_mem request member))
          later
          (by
            intro session same
            cases same
            exact well)
          tallies
      constructor
      · have total :
            (fun key =>
              tally key + countKey key artifact.result.findings +
                tallyOf service rest key) =
              fun key => tally key + tallyOf service (request :: rest) key := by
          funext key
          rw [tallyOf, tallyOf, List.map_cons, List.sum_cons, findings,
            Nat.add_assoc]
        rw [← total]
        exact last
      · intro other member
        rcases List.mem_cons.mp member with same | isLater
        · rw [same, findings]
          exact inText
        · exact texts other isLater

/-- In every interleaving of requests for any identifiers, the latest session of
an identifier, where records do not expire, has an entry for exactly the values
that requests of this identifier have found and saved, and its number of
occurrences is the number of these findings over all of them; every original
stands in the text of one of them. -/
theorem latest_session_accounts (configured : state.sessionStore = some store)
    (lasting : store.ttlSeconds = none)
    (apart : DigestsApart state.environment.runtime requests)
    (reachable : ServiceReachable state requests draws service)
    {used : ι} (isUsed : (requests used).externalId = some externalId) :
    ∃ order latest,
      order.Nodup ∧
        (∀ request, request ∈ order ↔
          (requests request).externalId = some externalId ∧
            ∃ stored artifact,
              (service.progress request).HasSaved stored artifact) ∧
        store.loadLatest state.environment.runtime (some service.records)
          externalId = .ok latest ∧
        (∀ kind original occurrences,
          (∃ entry ∈ importedEntries (latest.map StoredSession.session),
              entry.kind = kind ∧ entry.original = original ∧
                entry.occurrences = occurrences) ↔
            0 < tallyOf service order (kind, original) ∧
              occurrences = tallyOf service order (kind, original)) ∧
        ∀ entry ∈ importedEntries (latest.map StoredSession.session),
          ∃ request ∈ order, entry.original <:+: (requests request).text := by
  obtain ⟨system, reached, mirrors⟩ :=
    mirrors_of_reachable configured lasting apart reachable
  obtain ⟨order, inRow⟩ :=
    inRow_of_reachable (reached.through (some externalId))
  have members := mem_row_iff mirrors inRow
  have inTurn := inTurn_of_row mirrors inRow.saved inRow.row
  obtain ⟨tallies, texts⟩ :=
    tallies_of_inTurn (fun request member => ((members request).mp member).1)
      inTurn (by simp) tallies_none
  simp only [Nat.zero_add] at tallies
  have accounts (kind : FindingKind) (original : Text) (occurrences : Nat) :=
    tallies (kind, original, occurrences)
  simp only [List.mem_map, RestorationEntry.account, Prod.mk.injEq]
    at accounts
  refine ⟨order, (system.stored (some externalId)).map toStored, inRow.nodup,
    members, loadLatest_of_holds (mirrors.records used externalId isUsed),
    accounts, ?_⟩
  intro entry member
  obtain ⟨positive, _⟩ :=
    (accounts entry.kind entry.original entry.occurrences).mp
      ⟨entry, member, rfl, rfl, rfl⟩
  obtain ⟨count, isCount, counted⟩ :=
    List.exists_mem_ne_zero_of_sum_ne_zero (Nat.pos_iff_ne_zero.mp positive)
  obtain ⟨request, listed, rfl⟩ := List.mem_map.mp isCount
  obtain ⟨finding, found, isKey⟩ :=
    List.countP_pos_iff.mp (Nat.pos_of_ne_zero counted)
  have key := of_decide_eq_true isKey
  have original : finding.matchText = entry.original :=
    congrArg Prod.snd key
  refine ⟨request, listed, ?_⟩
  rw [← original]
  exact texts request listed finding found

end Turns

/-- Requests 0 and 1 have both found the address of request 0. -/
theorem latest_session_accounts_two_requests :
    ∃ (service : Service (Fin 3)) (order : List (Fin 3))
      (latest : Option StoredSession),
      0 ∈ order ∧ 1 ∈ order ∧ 2 ∉ order ∧
        sampleStore.loadLatest sampleServiceRuntime (some service.records)
          (lit "u1") = .ok latest ∧
        ∀ entry ∈ importedEntries (latest.map StoredSession.session),
          entry.occurrences =
            tallyOf service order (entry.kind, entry.original) := by
  obtain ⟨early, late, stored, first, second, _, answers, reachable, _, run,
    isFirst, isSecond, _⟩ := sample_in_turn
  obtain ⟨order, latest, _, members, loaded, accounts, _⟩ :=
    @latest_session_accounts (Fin 3) _ sampleState sampleStore sampleAsked
      sampleDraws late (lit "u1") rfl rfl sample_apart (reachable.after run)
      0 rfl
  refine ⟨late, order, latest, ?_, ?_, ?_, loaded, ?_⟩
  · exact (members 0).mpr ⟨rfl, none, first, .inr (.inl ⟨_, isFirst⟩)⟩
  · exact (members 1).mpr
      ⟨rfl, some stored, second, .inr (.inl ⟨_, isSecond⟩)⟩
  · intro inside
    have named := ((members 2).mp inside).1
    cases named
  · intro entry member
    exact ((accounts _ _ _).mp ⟨entry, member, rfl, rfl, rfl⟩).2

end Redactor
