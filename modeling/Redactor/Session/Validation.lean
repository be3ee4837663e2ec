import Redactor.Session.Restore
import Mathlib.Data.List.Nodup

/-!
# Valid sessions and their continuation

The checks that a session passes before it is used, and the checks that make a
session a continuation of an earlier one.  Each check is given twice: as the
loop that stops at the first violation, and as the property that the loop
decides.
-/

namespace Redactor

open Utf8 Fallible

def sessionVersion : Nat := 2

section Validation

variable (runtime : Runtime)

def validateEntry (session : RedactionSession) (entry : RestorationEntry) :
    Except Text Unit :=
  match parseToken runtime entry.token with
  | .error error =>
      .error
        (lit "invalid session entry token " ++ quoted entry.token ++
          lit ": " ++ error)
  | .ok parsed =>
      if parsed.scopeId ≠ session.scopeId then
        .error (lit "session entry token scope does not match session")
      else if parsed.kind ≠ entry.kind then
        .error (lit "session entry token kind does not match entry kind")
      else
        .ok ()

/-- The sets that the loop over the entries fills. -/
structure SeenEntries where
  entries : List Text
  mappings : List (FindingKind × Text)

def SeenEntries.insert (seen : SeenEntries) (entry : RestorationEntry) :
    SeenEntries where
  entries := entry.token :: seen.entries
  mappings := (entry.kind, entry.original) :: seen.mappings

def visitEntry (session : RedactionSession) (seen : SeenEntries)
    (entry : RestorationEntry) : Except Text SeenEntries :=
  if entry.token ∈ seen.entries then
    .error (lit "duplicate session entry token " ++ quoted entry.token)
  else if (entry.kind, entry.original) ∈ seen.mappings then
    .error (lit "duplicate session mapping for " ++ quoted entry.original)
  else do
    validateEntry runtime session entry
    .ok (seen.insert entry)

def visitIssued (entries issued : List Text) (token : Text) :
    Except Text (List Text) :=
  if token ∈ issued then
    .error (lit "duplicate issued token " ++ quoted token)
  else if token ∉ entries then
    .error
      (lit "issued token " ++ quoted token ++
        lit " is missing from session entries")
  else
    .ok (token :: issued)

def validateSession (session : RedactionSession) : Except Text Unit :=
  if session.version ≠ sessionVersion then
    .error
      (lit "unsupported redaction session version " ++
        numeral session.version)
  else if session.sessionId = [] then
    .error (lit "redaction session ID must not be empty")
  else if session.scopeId = [] then
    .error (lit "redaction session scope must not be empty")
  else do
    let seen ← session.entries.foldlM (visitEntry runtime session) ⟨[], []⟩
    let _ ← session.issuedTokens.foldlM (visitIssued seen.entries) []
    .ok ()

def validatePriorSession (session : RedactionSession)
    (externalId : Option Text) : Except Text Unit := do
  validateSession runtime session
  match externalId, session.externalId with
  | some expected, some existing =>
      if existing ≠ expected then
        .error
          (lit "prior session external_id " ++ quoted existing ++
            lit " does not match requested external_id " ++ quoted expected)
      else
        .ok ()
  | _, _ => .ok ()

end Validation

/-- The entry that a map from tokens to entries holds: the last one. -/
def RedactionSession.entryOf? (session : RedactionSession) (token : Text) :
    Option RestorationEntry :=
  session.entries.reverse.find? fun entry => entry.token = token

/-- One earlier entry against the entries of the next session. -/
def continueEntry (next : RedactionSession) (old : RestorationEntry) :
    Except Text Unit :=
  match next.entryOf? old.token with
  | none => .error (lit "new session removed entry " ++ quoted old.token)
  | some new =>
      if old.original ≠ new.original ∨ old.kind ≠ new.kind ∨
          old.replacementHint ≠ new.replacementHint then
        .error (lit "new session changed entry mapping " ++ quoted old.token)
      else if new.occurrences < old.occurrences then
        .error (lit "new session reduced occurrences for " ++ quoted old.token)
      else
        .ok ()

def validateContinuity (previous next : RedactionSession) :
    Except Text Unit :=
  if previous.version ≠ next.version then
    .error (lit "redaction session version changed")
  else if previous.scopeId ≠ next.scopeId then
    .error (lit "redaction session scope changed")
  else if previous.externalId ≠ next.externalId then
    .error (lit "redaction session external ID changed")
  else
    forM previous.entries (continueEntry next)

/-! ## What the checks decide -/

/-- A session as the library accepts it. -/
structure ValidSession (runtime : Runtime) (session : RedactionSession) :
    Prop where
  version : session.version = sessionVersion
  sessionId : session.sessionId ≠ []
  scopeId : session.scopeId ≠ []
  tokens : session.tokens.Nodup
  mappings :
    (session.entries.map fun entry => (entry.kind, entry.original)).Nodup
  parsed :
    ∀ entry ∈ session.entries, ∃ counter,
      parseToken runtime entry.token =
        .ok ⟨session.scopeId, entry.kind, counter⟩
  issued : session.issuedTokens.Nodup
  known : ∀ token ∈ session.issuedTokens, token ∈ session.tokens

/-- The new entry still says what the old one said. -/
structure EntryContinues (old new : RestorationEntry) : Prop where
  original : old.original = new.original
  kind : old.kind = new.kind
  replacementHint : old.replacementHint = new.replacementHint
  occurrences : old.occurrences ≤ new.occurrences

/-- The next session keeps the context and every entry of the previous one. -/
structure Continues (previous next : RedactionSession) : Prop where
  version : previous.version = next.version
  scopeId : previous.scopeId = next.scopeId
  externalId : previous.externalId = next.externalId
  entries :
    ∀ old ∈ previous.entries, ∃ new,
      next.entryOf? old.token = some new ∧ EntryContinues old new

section Decided

variable {runtime : Runtime} {session : RedactionSession}

theorem validateEntry_eq_ok {entry : RestorationEntry} :
    validateEntry runtime session entry = .ok () ↔
      ∃ counter,
        parseToken runtime entry.token =
          .ok ⟨session.scopeId, entry.kind, counter⟩ := by
  unfold validateEntry
  cases parseToken runtime entry.token with
  | error error =>
      simp
  | ok parsed =>
      obtain ⟨scopeId, kind, counter⟩ := parsed
      simp only [ite_error_eq_ok, not_not, and_true, Except.ok.injEq,
        ParsedToken.mk.injEq]
      exact ⟨fun ⟨scope, same⟩ => ⟨counter, scope, same, rfl⟩,
        fun ⟨_, scope, same, _⟩ => ⟨scope, same⟩⟩

private theorem visitEntry_eq_ok {seen result : SeenEntries}
    {entry : RestorationEntry} :
    visitEntry runtime session seen entry = .ok result ↔
      (entry.token ∉ seen.entries ∧
          (entry.kind, entry.original) ∉ seen.mappings ∧
          validateEntry runtime session entry = .ok ()) ∧
        result = seen.insert entry := by
  rw [visitEntry, ite_error_eq_ok, ite_error_eq_ok, check_bind_eq_ok,
    Except.ok.injEq, @eq_comm _ result, and_assoc, and_assoc]

private theorem visitEntries_eq_ok {entries : List RestorationEntry}
    {result : SeenEntries} :
    entries.foldlM (visitEntry runtime session) ⟨[], []⟩ = .ok result ↔
      ((entries.map RestorationEntry.token).Nodup ∧
          (entries.map fun entry => (entry.kind, entry.original)).Nodup ∧
          ∀ entry ∈ entries, validateEntry runtime session entry = .ok ()) ∧
        result = entries.foldl SeenEntries.insert ⟨[], []⟩ := by
  rw [foldlM_eq_ok_iff (fun _ _ _ => visitEntry_eq_ok), admitted_and,
    admitted_and, admitted_const,
    admitted_distinct RestorationEntry.token SeenEntries.entries
      (fun _ _ => rfl),
    admitted_distinct
      (fun entry : RestorationEntry => (entry.kind, entry.original))
      SeenEntries.mappings (fun _ _ => rfl)]
  simp

private theorem visitIssued_eq_ok {entries issued result : List Text}
    {token : Text} :
    visitIssued entries issued token = .ok result ↔
      (token ∉ issued ∧ token ∈ entries) ∧ result = token :: issued := by
  rw [visitIssued, ite_error_eq_ok, ite_error_eq_ok, not_not, and_assoc,
    Except.ok.injEq, @eq_comm _ result]

private theorem visitIssuedTokens_eq_ok {entries tokens result : List Text} :
    tokens.foldlM (visitIssued entries) [] = .ok result ↔
      (tokens.Nodup ∧ ∀ token ∈ tokens, token ∈ entries) ∧
        result = tokens.foldl (fun issued token => token :: issued) [] := by
  rw [foldlM_eq_ok_iff (fun _ _ _ => visitIssued_eq_ok), admitted_and,
    admitted_const,
    admitted_distinct (fun token => token) (fun issued => issued)
      (fun _ _ => rfl)]
  simp

/-- The loops accept exactly the valid sessions. -/
theorem validateSession_eq_ok :
    validateSession runtime session = .ok () ↔
      ValidSession runtime session := by
  have seenTokens (seen : SeenEntries) :
      (session.entries.foldl SeenEntries.insert seen).entries =
        session.tokens.reverse ++ seen.entries :=
    foldl_collects RestorationEntry.token SeenEntries.entries
      (fun _ _ => rfl)
  rw [validateSession]
  simp only [ite_error_eq_ok, bind_eq_ok, visitEntries_eq_ok,
    visitIssuedTokens_eq_ok, validateEntry_eq_ok, not_not]
  constructor
  · rintro ⟨version, sessionId, scopeId, seen, ⟨⟨tokens, mappings, parsed⟩,
      rfl⟩, _, ⟨⟨issued, known⟩, _⟩, _⟩
    refine ⟨version, sessionId, scopeId, tokens, mappings, parsed, issued,
      fun token member => ?_⟩
    have found := known token member
    rw [seenTokens] at found
    simpa using found
  · intro valid
    refine ⟨valid.version, valid.sessionId, valid.scopeId, _,
      ⟨⟨valid.tokens, valid.mappings, valid.parsed⟩, rfl⟩, _,
      ⟨⟨valid.issued, fun token member => ?_⟩, rfl⟩, trivial⟩
    rw [seenTokens]
    simpa using valid.known token member

/-- A prior session is valid, and of two given identifiers agrees. -/
theorem validatePriorSession_eq_ok {externalId : Option Text} :
    validatePriorSession runtime session externalId = .ok () ↔
      ValidSession runtime session ∧
        ∀ expected existing, externalId = some expected →
          session.externalId = some existing → existing = expected := by
  unfold validatePriorSession
  rw [check_bind_eq_ok, validateSession_eq_ok]
  refine and_congr_right fun _ => ?_
  cases externalId with
  | none =>
      simp
  | some expected =>
      cases session.externalId with
      | none =>
          simp
      | some existing =>
          simp

theorem continueEntry_eq_ok {next : RedactionSession}
    {old : RestorationEntry} :
    continueEntry next old = .ok () ↔
      ∃ new, next.entryOf? old.token = some new ∧ EntryContinues old new := by
  unfold continueEntry
  cases next.entryOf? old.token with
  | none =>
      simp
  | some new =>
      simp only [ite_error_eq_ok, not_or, not_not, not_lt, and_true,
        Option.some.injEq, exists_eq_left']
      exact ⟨fun ⟨⟨original, kind, hint⟩, occurrences⟩ =>
          ⟨original, kind, hint, occurrences⟩,
        fun continues => ⟨⟨continues.original, continues.kind,
          continues.replacementHint⟩, continues.occurrences⟩⟩

theorem validateContinuity_eq_ok {previous next : RedactionSession} :
    validateContinuity previous next = .ok () ↔ Continues previous next := by
  rw [validateContinuity]
  simp only [ite_error_eq_ok, not_not, forM_eq_ok, continueEntry_eq_ok]
  exact ⟨fun ⟨version, scopeId, externalId, entries⟩ =>
      ⟨version, scopeId, externalId, entries⟩,
    fun continues => ⟨continues.version, continues.scopeId,
      continues.externalId, continues.entries⟩⟩

end Decided

section EntryLookup

variable {session : RedactionSession} {token : Text}

theorem mem_tokens_iff :
    token ∈ session.tokens ↔ ∃ entry, session.entryOf? token = some entry := by
  rw [← Option.isSome_iff_exists, RedactionSession.entryOf?,
    List.find?_isSome]
  simp [RedactionSession.tokens]

theorem of_entryOf?_eq_some {entry : RestorationEntry}
    (found : session.entryOf? token = some entry) :
    entry ∈ session.entries ∧ entry.token = token := by
  refine ⟨?_, by simpa using List.find?_some found⟩
  exact List.mem_reverse.mp (List.mem_of_find?_eq_some found)

/-- With distinct tokens the map holds every entry. -/
theorem entryOf?_of_mem {entry : RestorationEntry}
    (distinct : session.tokens.Nodup) (member : entry ∈ session.entries) :
    session.entryOf? entry.token = some entry := by
  obtain ⟨other, found⟩ := mem_tokens_iff.mp (List.mem_map_of_mem member)
  obtain ⟨otherMember, sameToken⟩ := of_entryOf?_eq_some found
  rw [found,
    List.inj_on_of_nodup_map distinct otherMember member sameToken]

/-- The map of originals is the map of entries, read at the original. -/
theorem original?_fromAuthorizedTokens (authorized : List Text) :
    (RestoreContext.fromAuthorizedTokens session authorized).original?
        token =
      (session.entryOf? token).map RestorationEntry.original := by
  rw [RestoreContext.original?, RestoreContext.fromAuthorizedTokens,
    RedactionSession.entryOf?]
  simp only [← List.map_reverse]
  induction session.entries.reverse with
  | nil =>
      rfl
  | cons head tail inductionHypothesis =>
      rw [List.map_cons, List.lookup_cons, List.find?_cons,
        inductionHypothesis]
      by_cases here : head.token = token
      · simp [here]
      · rw [beq_false_of_ne (Ne.symm here)]
        simp [here]

end EntryLookup

/-- A continuation knows every token that was known. -/
theorem Continues.tokens {previous next : RedactionSession}
    (continues : Continues previous next) {token : Text}
    (known : token ∈ previous.tokens) :
    token ∈ next.tokens := by
  obtain ⟨old, oldMember, rfl⟩ := List.mem_map.mp known
  obtain ⟨new, found, _⟩ := continues.entries old oldMember
  exact mem_tokens_iff.mpr ⟨new, found⟩

/-- A continuation has the originals of every token that was known. -/
theorem Continues.original? {previous next : RedactionSession}
    (continues : Continues previous next) {token : Text}
    (known : token ∈ previous.tokens) (left right : List Text) :
    ∃ original,
      (RestoreContext.fromAuthorizedTokens previous left).original? token =
          some original ∧
        (RestoreContext.fromAuthorizedTokens next right).original? token =
          some original := by
  obtain ⟨old, found⟩ := mem_tokens_iff.mp known
  obtain ⟨oldMember, rfl⟩ := of_entryOf?_eq_some found
  obtain ⟨new, newFound, same⟩ := continues.entries old oldMember
  refine ⟨old.original, ?_, ?_⟩
  · rw [original?_fromAuthorizedTokens, found, Option.map_some]
  · rw [original?_fromAuthorizedTokens, newFound, Option.map_some,
      same.original]

theorem Continues.refl {runtime : Runtime} {session : RedactionSession}
    (valid : ValidSession runtime session) :
    Continues session session where
  version := rfl
  scopeId := rfl
  externalId := rfl
  entries := fun entry member =>
    ⟨entry, entryOf?_of_mem valid.tokens member, rfl, rfl, rfl,
      Nat.le_refl _⟩

theorem Continues.trans {first second third : RedactionSession}
    (toSecond : Continues first second)
    (toThird : Continues second third) :
    Continues first third where
  version := toSecond.version.trans toThird.version
  scopeId := toSecond.scopeId.trans toThird.scopeId
  externalId := toSecond.externalId.trans toThird.externalId
  entries := by
    intro old member
    obtain ⟨middle, found, kept⟩ := toSecond.entries old member
    obtain ⟨middleMember, sameToken⟩ := of_entryOf?_eq_some found
    obtain ⟨new, foundNew, keptNew⟩ := toThird.entries middle middleMember
    rw [sameToken] at foundNew
    exact ⟨new, foundNew, kept.original.trans keptNew.original,
      kept.kind.trans keptNew.kind,
      kept.replacementHint.trans keptNew.replacementHint,
      Nat.le_trans kept.occurrences keptNew.occurrences⟩

end Redactor
