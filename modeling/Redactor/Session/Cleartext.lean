import Redactor.Redact.Artifact
import Redactor.Replace.Renaming
import Redactor.Session.Separation

/-!
# What a session file shows

A session file repeats the entries of its session in the clear, without the
originals.  Two runs with the same pattern of findings leave files that differ
in the fingerprints and in the display hints only.
-/

namespace Redactor

open Utf8 Fallible Patterns

def priorKeys (prior : Option RedactionSession) : List (FindingKind × Text) :=
  (prior.map fun session => session.entries.map RestorationEntry.key).getD []

/-- Findings of the same kinds, that repeat an original, or one of the prior
session, at the same places. -/
structure SameFindings (prior : Option RedactionSession)
    (left right : List Finding) : Prop where
  kinds : left.map Finding.kind = right.map Finding.kind
  repetitions :
    SamePattern (priorKeys prior ++ left.map Finding.key)
      (priorKeys prior ++ right.map Finding.key)

/-- The originals of one run in place of those of the other. -/
def SameFindings.renames (prior : Option RedactionSession)
    (left right : List Finding) :
    FindingKind × Text → FindingKind × Text → Prop :=
  Abreast (priorKeys prior ++ left.map Finding.key)
    (priorKeys prior ++ right.map Finding.key)

section Pattern

variable {prior : Option RedactionSession} {left right : List Finding}

theorem SameFindings.renames_iff {key other : FindingKind × Text} :
    SameFindings.renames prior left right key other ↔
      (key ∈ priorKeys prior ∧ key = other) ∨
        ∃ finding partner, Abreast left right finding partner ∧
          finding.key = key ∧ partner.key = other := by
  rw [SameFindings.renames, abreast_append rfl, abreast_self, abreast_map]

theorem SameFindings.renames_of_abreast {finding partner : Finding}
    (abreast : Abreast left right finding partner) :
    SameFindings.renames prior left right finding.key partner.key :=
  SameFindings.renames_iff.mpr
    (Or.inr ⟨finding, partner, abreast, rfl, rfl⟩)

theorem SameFindings.lengths (same : SameFindings prior left right) :
    left.length = right.length := by
  have sizes := congrArg List.length same.kinds
  simpa only [List.length_map] using sizes

theorem SameFindings.isRenaming (same : SameFindings prior left right) :
    IsRenaming (SameFindings.renames prior left right) where
  biUnique := same.repetitions.biUnique
  kinds := by
    intro key other renames
    rcases SameFindings.renames_iff.mp renames with kept | found
    · rw [kept.2]
    · obtain ⟨finding, partner, abreast, isKey, isOther⟩ := found
      have kinds :
          List.Forall₂ (fun finding partner => finding.kind = partner.kind)
            left right := by
        have equal := same.kinds
        rw [← List.forall₂_eq_eq_eq, List.forall₂_map_left_iff,
          List.forall₂_map_right_iff] at equal
        exact equal
      rw [← isKey, ← isOther]
      exact (forall₂_iff_abreast.mp kinds).2 finding partner abreast

end Pattern

/-- Findings at the same places have the same display hint. -/
def SameHints (runtime : Runtime) (left right : List Finding) : Prop :=
  List.Forall₂
    (fun finding partner =>
      displayHint runtime finding = displayHint runtime partner)
    left right

/-- The kinds whose hint is the name of the kind. -/
def FindingKind.Named : FindingKind → Prop
  | .secret | .person | .organization | .customString | .customFile => True
  | _ => False

theorem displayHint_eq_of_named {runtime : Runtime}
    {finding partner : Finding} (named : finding.kind.Named)
    (sameKind : finding.kind = partner.kind) :
    displayHint runtime finding = displayHint runtime partner := by
  unfold displayHint
  rw [← sameKind]
  clear sameKind
  revert named
  cases finding.kind <;> intro named <;> first | rfl | exact named.elim

theorem SameFindings.sameHints_of_named {runtime : Runtime}
    {prior : Option RedactionSession} {left right : List Finding}
    (same : SameFindings prior left right)
    (named : ∀ finding ∈ left, finding.kind.Named) :
    SameHints runtime left right := by
  refine forall₂_iff_abreast.mpr ⟨same.lengths, ?_⟩
  intro finding partner abreast
  exact displayHint_eq_of_named
    (named finding (List.of_mem_zip abreast).1)
    (same.isRenaming.kinds _ _ (SameFindings.renames_of_abreast abreast))

/-- The fields in the clear but for the fingerprints and the entries. -/
structure EncryptedSessionFile.SameContext
    (left right : EncryptedSessionFile) : Prop where
  version : left.version = right.version
  sessionId : left.sessionId = right.sessionId
  scopeId : left.scopeId = right.scopeId
  externalId : left.externalId = right.externalId
  entryCount : left.entryCount = right.entryCount
  saltB64 : left.saltB64 = right.saltB64
  nonceB64 : left.nonceB64 = right.nonceB64

def SessionEntrySummary.withoutHint (summary : SessionEntrySummary) :
    SessionEntrySummary :=
  { summary with replacementHint := none }

theorem SessionEntrySummary.eq_of_withoutHint
    {left right : SessionEntrySummary}
    (same : left.withoutHint = right.withoutHint)
    (hint : left.replacementHint = right.replacementHint) :
    left = right := by
  cases left
  cases right
  simp_all [withoutHint]

theorem encryptSessionToString_eq_ok {backend : CryptoBackend}
    {session : RedactionSession} {passphrase data : Text}
    {salt : ByteVector 16} {nonce : ByteVector 12}
    (sealed :
      encryptSessionToString backend session passphrase salt nonce =
        .ok data) :
    ∃ ciphertext,
      data =
        backend.writeFile (.of backend session salt nonce ciphertext) := by
  obtain ⟨ciphertext, _, last⟩ := bind_eq_ok.mp sealed
  cases last
  exact ⟨ciphertext, rfl⟩

section Summaries

variable {runtime : Runtime} {prior : Option RedactionSession}
  {findings findings' : List Finding} {left right : RedactionSession}

/-- Entries that stand for each other have the same summary but for the
hint. -/
theorem withoutHint_of_renamed {entry entry' : RestorationEntry}
    {renames : FindingKind × Text → FindingKind × Text → Prop}
    (pair : RestorationEntry.Renamed runtime renames entry entry') :
    (SessionEntrySummary.ofEntry entry).withoutHint =
      (SessionEntrySummary.ofEntry entry').withoutHint := by
  have token : entry.token = entry'.token := pair.allocation.token
  have kind : entry.kind = entry'.kind := pair.allocation.kind
  have occurrences : entry.occurrences = entry'.occurrences :=
    pair.allocation.occurrences
  simp only [SessionEntrySummary.ofEntry, SessionEntrySummary.withoutHint,
    token, kind, occurrences]

theorem summaries_perm_withoutHint
    {renames : FindingKind × Text → FindingKind × Text → Prop}
    (renamed : left.Renamed runtime renames right) :
    ((left.entries.map SessionEntrySummary.ofEntry).map
        SessionEntrySummary.withoutHint).Perm
      ((right.entries.map SessionEntrySummary.ofEntry).map
        SessionEntrySummary.withoutHint) := by
  rw [List.map_map, List.map_map]
  exact perm_map_of_rel renamed.entries fun _ _ => withoutHint_of_renamed

/-- With equal hints the summaries are the same. -/
theorem summaries_perm
    (renamed :
      left.Renamed runtime (SameFindings.renames prior findings findings')
        right)
    (hints : SameHints runtime findings findings') :
    (left.entries.map SessionEntrySummary.ofEntry).Perm
      (right.entries.map SessionEntrySummary.ofEntry) := by
  refine perm_map_of_rel renamed.entries ?_
  intro entry entry' pair
  have sameHint : keyHint runtime entry.key = keyHint runtime entry'.key := by
    rcases SameFindings.renames_iff.mp pair.key with kept | found
    · rw [kept.2]
    · obtain ⟨finding, partner, abreast, isKey, isOther⟩ := found
      rw [← isKey, ← isOther, keyHint_key, keyHint_key]
      exact (forall₂_iff_abreast.mp hints).2 finding partner abreast
  have hint : entry.replacementHint = entry'.replacementHint :=
    pair.allocation.hint_iff.mpr sameHint
  exact
    SessionEntrySummary.eq_of_withoutHint (withoutHint_of_renamed pair) hint

/-- The summaries of distinct tokens show whether the hints are equal. -/
theorem hints_of_summaries_perm
    (same : SameFindings prior findings findings')
    (renamed :
      left.Renamed runtime (SameFindings.renames prior findings findings')
        right)
    (recorded :
      ∀ finding ∈ findings, ∃ entry ∈ left.entries, entry.key = finding.key)
    (distinct : (left.entries.map RestorationEntry.token).Nodup)
    (permuted :
      (left.entries.map SessionEntrySummary.ofEntry).Perm
        (right.entries.map SessionEntrySummary.ofEntry)) :
    SameHints runtime findings findings' := by
  have tokens :
      (right.entries.map
        (SessionEntrySummary.token ∘ SessionEntrySummary.ofEntry)).Nodup := by
    have permutedTokens := permuted.map SessionEntrySummary.token
    rw [List.map_map, List.map_map] at permutedTokens
    exact permutedTokens.nodup_iff.mp distinct
  refine forall₂_iff_abreast.mpr ⟨same.lengths, ?_⟩
  intro finding partner abreast
  obtain ⟨entry, member, isKey⟩ :=
    recorded finding (List.of_mem_zip abreast).1
  obtain ⟨entry', member', pair⟩ := renamed.right_of_left member
  have isOther : entry'.key = partner.key := by
    have key := pair.key
    rw [isKey] at key
    exact same.isRenaming.biUnique.2 key
      (SameFindings.renames_of_abreast abreast)
  have token : entry.token = entry'.token := pair.allocation.token
  have summaries :=
    eq_of_perm_map SessionEntrySummary.token tokens permuted member member'
      token
  have hint : entry.replacementHint = entry'.replacementHint :=
    congrArg SessionEntrySummary.replacementHint summaries
  have keyHints := pair.allocation.hint_iff.mp hint
  rw [isKey, isOther, keyHint_key, keyHint_key] at keyHints
  exact keyHints

end Summaries

/-! ## Runs -/

/-- The round that a completed redaction is: one fragment, with the findings
that were detected. -/
def Redacted.round {environment : Environment} {redactor : RedactorInstance}
    {request : RedactionRequest} {text : Text}
    {artifact : RedactorInstance.RedactionArtifact}
    (_ : Redacted environment redactor request text artifact) : Round where
  externalId := request.externalId
  scopeId := request.scopeId
  fragments := [{ text, findings := artifact.result.findings }]
  originalText := text
  redactedText := artifact.result.redactedText
  policy := redactor.compiledPolicy.policy
  sessionId := request.sessionId
  permitId := []

theorem Redacted.redact_round {environment : Environment}
    {redactor : RedactorInstance} {request : RedactionRequest} {text : Text}
    {artifact : RedactorInstance.RedactionArtifact}
    (redacted : Redacted environment redactor request text artifact) :
    sessionAfter environment.runtime request.priorSession
      [redacted.round] = some artifact.session := by
  simp only [sessionAfter, Round.redact, Redacted.round, redacted.continued,
    Except.toOption, ReplacementProcessor.redactFragments, redacted.findings,
    redacted.replaced, redacted.session, Option.bind_eq_bind,
    Option.bind_some, Option.pure_def]

section Runs

variable {runtime : Runtime} {prior : Option RedactionSession}
  {rounds rounds' : List Round} {left right : RedactionSession}

theorem SameFindings.renamed
    (counts :
      List.Forall₂
        (fun round round' =>
          round.findings.length = round'.findings.length)
        rounds rounds')
    (same :
      SameFindings prior (rounds.flatMap Round.findings)
        (rounds'.flatMap Round.findings))
    (leftRun : sessionAfter runtime prior rounds = some left)
    (rightRun : sessionAfter runtime prior rounds' = some right)
    (sameScope : left.scopeId = right.scopeId) :
    left.Renamed runtime
      (SameFindings.renames prior (rounds.flatMap Round.findings)
        (rounds'.flatMap Round.findings))
      right := by
  refine sessionAfter_renamed same.isRenaming ?_ ?_ leftRun rightRun
    sameScope
  · refine forall₂_of_chunks counts ?_
    intro finding partner abreast
    exact SameFindings.renames_of_abreast abreast
  · -- the prior session is common to both runs
    cases prior with
    | none =>
        exact .none
    | some session =>
        refine .some (RedactionSession.renamed_self ?_)
        intro entry member
        exact SameFindings.renames_iff.mpr
          (Or.inl ⟨List.mem_map_of_mem member, rfl⟩)

end Runs

/-- Two runs with the same pattern of findings leave files whose fields in the
clear, the fingerprints and the hints left out, are equal up to the order of
the entries.  With the hints they are equal when corresponding findings have
equal hints, and only then as long as tokens are distinct. -/
theorem cleartext_depends_on_hints (runtime : Runtime)
    (backend : CryptoBackend) (prior : Option RedactionSession)
    (rounds rounds' : List Round) (left right : RedactionSession)
    (counts :
      List.Forall₂
        (fun round round' =>
          round.findings.length = round'.findings.length)
        rounds rounds')
    (same :
      SameFindings prior (rounds.flatMap Round.findings)
        (rounds'.flatMap Round.findings))
    (leftRun : sessionAfter runtime prior rounds = some left)
    (rightRun : sessionAfter runtime prior rounds' = some right)
    (sameScope : left.scopeId = right.scopeId)
    (sameSession : left.sessionId = right.sessionId)
    (sameExternal : left.externalId = right.externalId)
    (passphrase passphrase' : Text) (salt : ByteVector 16)
    (nonce : ByteVector 12) (data data' : Text)
    (leftSealed :
      encryptSessionToString backend left passphrase salt nonce = .ok data)
    (rightSealed :
      encryptSessionToString backend right passphrase' salt nonce =
        .ok data') :
    ∃ ciphertext ciphertext' file file',
      file = EncryptedSessionFile.of backend left salt nonce ciphertext ∧
        file' = EncryptedSessionFile.of backend right salt nonce ciphertext' ∧
        data = backend.writeFile file ∧ data' = backend.writeFile file' ∧
        file.SameContext file' ∧
        (file.entries.map SessionEntrySummary.withoutHint).Perm
          (file'.entries.map SessionEntrySummary.withoutHint) ∧
        (SameHints runtime (rounds.flatMap Round.findings)
            (rounds'.flatMap Round.findings) →
          file.entries.Perm file'.entries) ∧
        (left.tokens.Nodup → file.entries.Perm file'.entries →
          SameHints runtime (rounds.flatMap Round.findings)
            (rounds'.flatMap Round.findings)) := by
  obtain ⟨ciphertext, written⟩ := encryptSessionToString_eq_ok leftSealed
  obtain ⟨ciphertext', written'⟩ := encryptSessionToString_eq_ok rightSealed
  have renamed := same.renamed counts leftRun rightRun sameScope
  refine ⟨ciphertext, ciphertext', _, _, rfl, rfl, written, written', ?_,
    summaries_perm_withoutHint renamed, summaries_perm renamed, ?_⟩
  · have sizes : left.entries.length = right.entries.length :=
      Multiset.card_eq_card_of_rel renamed.entries
    exact
      { version := rfl
        sessionId := sameSession
        scopeId := sameScope
        externalId := sameExternal
        entryCount := sizes
        saltB64 := rfl
        nonceB64 := rfl }
  · intro distinct permuted
    refine hints_of_summaries_perm same renamed ?_ distinct permuted
    intro finding member
    exact sessionAfter_recorded leftRun (Or.inr ⟨finding, member, rfl⟩)

/-- A round over a text that is one address. -/
def sampleAddressRound (address : Text) : Round where
  externalId := none
  scopeId := lit "ab"
  fragments :=
    [{ text := address
       findings :=
         [{ sampleFinding with
           matchText := address, finish := byteLen address }] }]
  originalText := address
  redactedText := []
  policy := {}
  sessionId := lit "s1"
  permitId := lit "p1"

def sampleAddressFindings (address : Text) : List Finding :=
  [sampleAddressRound address].flatMap Round.findings

theorem sampleAddressFindings_same (address other : Text) :
    SameFindings none (sampleAddressFindings address)
      (sampleAddressFindings other) where
  kinds := rfl
  repetitions :=
    { length := rfl
      repeats := by
        intro a b c d here there
        have first := List.mem_singleton.mp here
        have second := List.mem_singleton.mp there
        cases first
        cases second
        exact iff_of_true rfl rfl }

theorem sampleAddressFindings_hints :
    ¬ SameHints sampleRuntime (sampleAddressFindings (lit "a@b.co"))
      (sampleAddressFindings (lit "c@b.co")) := by
  intro hints
  cases hints with
  | cons sameHint _ =>
      exact absurd sameHint (by decide)

theorem sampleAddressRounds_counts (address other : Text) :
    List.Forall₂
      (fun round round' =>
        round.findings.length = round'.findings.length)
      [sampleAddressRound address] [sampleAddressRound other] :=
  .cons rfl .nil

/-- The two runs have the same context; each session has one token. -/
theorem sampleAddressRounds_run :
    ∃ left right,
      sessionAfter sampleRuntime none [sampleAddressRound (lit "a@b.co")] =
          some left ∧
        sessionAfter sampleRuntime none
            [sampleAddressRound (lit "c@b.co")] = some right ∧
        left.scopeId = right.scopeId ∧ left.sessionId = right.sessionId ∧
        left.externalId = right.externalId ∧ left.tokens.Nodup :=
  ⟨_, _, rfl, rfl, rfl, rfl, rfl, List.nodup_singleton _⟩

/-- The two addresses are told apart by their hints, and by nothing else. -/
theorem cleartext_depends_on_hints_addresses :
    ∃ left right file file',
      sessionAfter sampleRuntime none
          [sampleAddressRound (lit "a@b.co")] = some left ∧
        sessionAfter sampleRuntime none
            [sampleAddressRound (lit "c@b.co")] = some right ∧
        encryptSessionToString (sampleCryptoBackend 1) left
            samplePassphrase (sampleVector 16 0) (sampleVector 12 0) =
          .ok ((sampleCryptoBackend 1).writeFile file) ∧
        encryptSessionToString (sampleCryptoBackend 1) right
            samplePassphrase (sampleVector 16 0) (sampleVector 12 0) =
          .ok ((sampleCryptoBackend 1).writeFile file') ∧
        file.SameContext file' ∧
        (file.entries.map SessionEntrySummary.withoutHint).Perm
          (file'.entries.map SessionEntrySummary.withoutHint) ∧
        ¬ file.entries.Perm file'.entries := by
  obtain ⟨left, right, leftRun, rightRun, scope, session, external,
    distinct⟩ :=
    sampleAddressRounds_run
  obtain ⟨_, _, file, file', _, _, written, written', context, blind, _,
    telling⟩ :=
    cleartext_depends_on_hints sampleRuntime (sampleCryptoBackend 1) none
      [sampleAddressRound (lit "a@b.co")]
      [sampleAddressRound (lit "c@b.co")] left right
      (sampleAddressRounds_counts _ _) (sampleAddressFindings_same _ _)
      leftRun rightRun scope session external
      samplePassphrase samplePassphrase (sampleVector 16 0)
      (sampleVector 12 0) _ _ rfl rfl
  refine ⟨left, right, file, file', leftRun, rightRun,
    congrArg Except.ok written, congrArg Except.ok written', context, blind,
    ?_⟩
  intro permuted
  exact sampleAddressFindings_hints (telling distinct permuted)

/-- The files of two runs over addresses that differ in the local part only
have different entries. -/
theorem addresses_told_apart :
    ¬ ∀ (runtime : Runtime) (backend : CryptoBackend)
        (prior : Option RedactionSession) (rounds rounds' : List Round)
        (left right : RedactionSession),
      List.Forall₂
          (fun round round' =>
            round.findings.length = round'.findings.length)
          rounds rounds' →
      SameFindings prior (rounds.flatMap Round.findings)
          (rounds'.flatMap Round.findings) →
      sessionAfter runtime prior rounds = some left →
      sessionAfter runtime prior rounds' = some right →
      left.scopeId = right.scopeId → left.sessionId = right.sessionId →
      left.externalId = right.externalId →
      ∀ salt nonce ciphertext ciphertext',
        (EncryptedSessionFile.of backend left salt nonce
            ciphertext).entries.Perm
          (EncryptedSessionFile.of backend right salt nonce
            ciphertext').entries := by
  intro always
  obtain ⟨left, right, leftRun, rightRun, scope, session, external,
    distinct⟩ :=
    sampleAddressRounds_run
  have permuted :=
    always sampleRuntime (sampleCryptoBackend 1) none
      [sampleAddressRound (lit "a@b.co")]
      [sampleAddressRound (lit "c@b.co")] left right
      (sampleAddressRounds_counts _ _) (sampleAddressFindings_same _ _)
      leftRun rightRun scope session external
      (sampleVector 16 0) (sampleVector 12 0) .empty .empty
  have renamed :=
    @SameFindings.renamed sampleRuntime none
      [sampleAddressRound (lit "a@b.co")]
      [sampleAddressRound (lit "c@b.co")] _ _
      (sampleAddressRounds_counts _ _) (sampleAddressFindings_same _ _)
      leftRun rightRun scope
  refine sampleAddressFindings_hints
    (hints_of_summaries_perm (sampleAddressFindings_same _ _) renamed ?_
      distinct permuted)
  intro finding member
  exact sessionAfter_recorded leftRun (Or.inr ⟨finding, member, rfl⟩)

end Redactor
