import Redactor.Session.Validation
import Redactor.Session.Streaming

/-!
# Restore states

A restore state keeps the latest session of a conversation together with the
permits of all its rounds.  Permits are normalized: a token stays with the
first permit that names it, and a permit that names nothing new is dropped.
-/

namespace Redactor

open Utf8 Fallible

structure RestoreState where
  session : RedactionSession
  permits : List RestorePermit
  deriving DecidableEq, Repr

section Normalization

/-- Check a permit and note its identifier. -/
def validatePermit (session : RedactionSession) (permit : RestorePermit)
    (known permitIds : List Text) : Except Text (List Text) :=
  if permit.version ≠ permitVersion then
    .error
      (lit "unsupported restore permit version " ++ numeral permit.version)
  else if permit.permitId = [] then
    .error (lit "restore permit ID must not be empty")
  else if permit.permitId ∈ permitIds then
    .error (lit "duplicate restore permit ID " ++ quoted permit.permitId)
  else if permit.scopeId ≠ session.scopeId ∨
      permit.externalId ≠ session.externalId then
    .error (lit "restore permit does not match session context")
  else
    match permit.issuedTokens.find? fun token => token ∉ known with
    | some token =>
        .error
          (lit "restore permit authorizes unknown token " ++ quoted token)
    | none => .ok (permit.permitId :: permitIds)

/-- Retain the tokens that are not yet in the set, and add them to it. -/
def retainNew (authorized : List Text) : List Text → List Text × List Text
  | [] => (authorized, [])
  | token :: tokens =>
      if token ∈ authorized then
        retainNew authorized tokens
      else
        let rest := retainNew (token :: authorized) tokens
        (rest.1, token :: rest.2)

/-- What the loop over the permits has collected. -/
structure Normalization where
  permitIds : List Text
  authorized : List Text
  normalized : List RestorePermit

/-- Keep what the permit names for the first time. -/
def Normalization.retain (progress : Normalization)
    (permit : RestorePermit) : Normalization :=
  let retained := retainNew progress.authorized permit.issuedTokens
  { progress with
    authorized := retained.1
    normalized :=
      if retained.2 = [] then
        progress.normalized
      else
        progress.normalized ++ [{ permit with issuedTokens := retained.2 }] }

def normalizePermit (session : RedactionSession) (progress : Normalization)
    (permit : RestorePermit) : Except Text Normalization := do
  let permitIds ←
    validatePermit session permit session.tokens progress.permitIds
  .ok ({ progress with permitIds }.retain permit)

def normalizePermits (session : RedactionSession)
    (permits : List RestorePermit) : Except Text (List RestorePermit) := do
  let progress ← permits.foldlM (normalizePermit session) ⟨[], [], []⟩
  .ok progress.normalized

end Normalization

/-- The permit of one round; a round that issued nothing has none. -/
def issuedPermits (session : RedactionSession) (permitId : Text) :
    List RestorePermit :=
  if session.issuedTokens = [] then
    []
  else
    [createRestorePermit session permitId]

namespace RestoreState

section Construction

variable (runtime : Runtime)

def fromParts (session : RedactionSession) (permits : List RestorePermit) :
    Except Text RestoreState := do
  validateSession runtime session
  let permits ← normalizePermits session permits
  .ok { session, permits }

/-- `permitId` is the random identifier that the permit will get. -/
def new (session : RedactionSession) (permitId : Text) :
    Except Text RestoreState := do
  validateSession runtime session
  fromParts runtime session (issuedPermits session permitId)

def advance (state : RestoreState) (session : RedactionSession)
    (permitId : Text) : Except Text RestoreState := do
  validateSession runtime session
  validateContinuity state.session session
  fromParts runtime session
    (state.permits ++ issuedPermits session permitId)

/-- Deserialization of a decoded value. -/
def deserialize (parts : RestoreState) : Except Text RestoreState :=
  fromParts runtime parts.session parts.permits

end Construction

def restoreContext (state : RestoreState) : Except Text RestoreContext :=
  RestoreContext.withPermits state.session state.permits

def streamingRestoreContext (state : RestoreState) :
    Except Text StreamingRestoreContext :=
  StreamingRestoreContext.withPermits state.session state.permits

def restoreText (runtime : Runtime) (state : RestoreState) (text : Text) :
    Except Text RestoreResult := do
  let context ← state.restoreContext
  .ok (context.restoreText runtime text)

def hasAuthorizedTokens (state : RestoreState) : Bool :=
  state.permits.any fun permit => !permit.issuedTokens.isEmpty

end RestoreState

/-! ## Retaining the first authorization -/

section Retain

variable {authorized : List Text}

theorem mem_retainNew_authorized {tokens : List Text} {token : Text} :
    token ∈ (retainNew authorized tokens).1 ↔
      token ∈ authorized ∨ token ∈ tokens := by
  induction tokens generalizing authorized with
  | nil =>
      simp [retainNew]
  | cons head tail inductionHypothesis =>
      rw [retainNew]
      split
      · rename_i repeated
        rw [inductionHypothesis, List.mem_cons]
        constructor
        · tauto
        · rintro (old | rfl | later)
          · exact .inl old
          · exact .inl repeated
          · exact .inr later
      · simp only [inductionHypothesis, List.mem_cons]
        tauto

theorem mem_retainNew {tokens : List Text} {token : Text} :
    token ∈ (retainNew authorized tokens).2 ↔
      token ∈ tokens ∧ token ∉ authorized := by
  induction tokens generalizing authorized with
  | nil =>
      simp [retainNew]
  | cons head tail inductionHypothesis =>
      rw [retainNew]
      split
      · rename_i repeated
        rw [inductionHypothesis, List.mem_cons]
        constructor
        · tauto
        · rintro ⟨rfl | later, new⟩
          · exact (new repeated).elim
          · exact ⟨later, new⟩
      · rename_i fresh
        simp only [inductionHypothesis, List.mem_cons, not_or]
        constructor
        · rintro (rfl | ⟨later, _, new⟩)
          · exact ⟨.inl rfl, fresh⟩
          · exact ⟨.inr later, new⟩
        · rintro ⟨rfl | later, new⟩
          · exact .inl rfl
          · by_cases same : token = head
            · exact .inl same
            · exact .inr ⟨later, same, new⟩

theorem nodup_retainNew (tokens : List Text) :
    (retainNew authorized tokens).2.Nodup := by
  induction tokens generalizing authorized with
  | nil =>
      simp [retainNew]
  | cons head tail inductionHypothesis =>
      rw [retainNew]
      split
      · exact inductionHypothesis
      · refine List.nodup_cons.mpr ⟨?_, inductionHypothesis⟩
        simp [mem_retainNew]

/-- Distinct new tokens are all retained. -/
theorem retainNew_eq_self {tokens : List Text}
    (distinct : tokens.Nodup) (new : ∀ token ∈ tokens, token ∉ authorized) :
    (retainNew authorized tokens).2 = tokens := by
  induction tokens generalizing authorized with
  | nil =>
      rfl
  | cons head tail inductionHypothesis =>
      obtain ⟨unrepeated, distinct⟩ := List.nodup_cons.mp distinct
      rw [retainNew, if_neg (new head (by simp))]
      refine congrArg (head :: ·) (inductionHypothesis distinct ?_)
      intro token member
      refine List.not_mem_cons_of_ne_of_not_mem ?_
        (new token (List.mem_cons_of_mem head member))
      exact fun same => unrepeated (same ▸ member)

end Retain

/-- The normalized form of permits that are all valid. -/
def keepFirst (authorized : List Text) :
    List RestorePermit → List RestorePermit
  | [] => []
  | permit :: permits =>
      let retained := retainNew authorized permit.issuedTokens
      if retained.2 = [] then
        keepFirst retained.1 permits
      else
        { permit with issuedTokens := retained.2 } ::
          keepFirst retained.1 permits

section KeepFirst

variable {authorized : List Text} {permits : List RestorePermit}

/-- A kept permit is one of the given ones, with some of its tokens. -/
theorem of_mem_keepFirst {permit : RestorePermit}
    (kept : permit ∈ keepFirst authorized permits) :
    permit.issuedTokens ≠ [] ∧
      ∃ original ∈ permits,
        permit = { original with issuedTokens := permit.issuedTokens } ∧
          ∀ token ∈ permit.issuedTokens, token ∈ original.issuedTokens := by
  induction permits generalizing authorized with
  | nil =>
      simp [keepFirst] at kept
  | cons head tail inductionHypothesis =>
      rw [keepFirst] at kept
      have fromTail :
          permit ∈ keepFirst (retainNew authorized head.issuedTokens).1 tail →
            permit.issuedTokens ≠ [] ∧
              ∃ original ∈ head :: tail,
                permit =
                    { original with issuedTokens := permit.issuedTokens } ∧
                  ∀ token ∈ permit.issuedTokens,
                    token ∈ original.issuedTokens := by
        intro later
        obtain ⟨nonempty, original, member, shape⟩ :=
          inductionHypothesis later
        exact ⟨nonempty, original, List.mem_cons_of_mem _ member, shape⟩
      split at kept
      · exact fromTail kept
      · rename_i something
        rcases List.mem_cons.mp kept with rfl | later
        · exact ⟨something, head, List.mem_cons_self, rfl,
            fun token member => (mem_retainNew.mp member).1⟩
        · exact fromTail later

/-- Nothing is lost but what was authorized before. -/
theorem authorizes_keepFirst {token : Text} :
    Authorizes (keepFirst authorized permits) token ↔
      Authorizes permits token ∧ token ∉ authorized := by
  induction permits generalizing authorized with
  | nil =>
      simp [keepFirst, Authorizes]
  | cons head tail inductionHypothesis =>
      have headTokens :=
        @mem_retainNew authorized head.issuedTokens token
      rw [keepFirst, authorizes_cons]
      split
      · rename_i nothing
        rw [nothing] at headTokens
        rw [inductionHypothesis, mem_retainNew_authorized]
        simp only [List.not_mem_nil, false_iff] at headTokens
        tauto
      · rw [authorizes_cons, inductionHypothesis, mem_retainNew_authorized]
        simp only [headTokens]
        tauto

/-- No token is kept twice. -/
theorem nodup_keepFirst :
    ((keepFirst authorized permits).flatMap
      RestorePermit.issuedTokens).Nodup := by
  induction permits generalizing authorized with
  | nil =>
      simp [keepFirst]
  | cons head tail inductionHypothesis =>
      rw [keepFirst]
      split
      · exact inductionHypothesis
      · rw [List.flatMap_cons]
        refine List.Nodup.append (nodup_retainNew _) inductionHypothesis ?_
        intro token inHead inTail
        have later : Authorizes _ token := List.mem_flatMap.mp inTail
        refine (authorizes_keepFirst.mp later).2 ?_
        exact mem_retainNew_authorized.mpr
          (.inr (mem_retainNew.mp inHead).1)

theorem permitIds_keepFirst :
    ((keepFirst authorized permits).map RestorePermit.permitId).Sublist
      (permits.map RestorePermit.permitId) := by
  induction permits generalizing authorized with
  | nil =>
      simp [keepFirst]
  | cons head tail inductionHypothesis =>
      rw [keepFirst]
      split
      · exact inductionHypothesis.trans (List.sublist_cons_self _ _)
      · exact inductionHypothesis.cons_cons head.permitId

/-- Normal permits stay as they are. -/
theorem keepFirst_eq_self
    (nonempty : ∀ permit ∈ permits, permit.issuedTokens ≠ [])
    (once : (permits.flatMap RestorePermit.issuedTokens).Nodup)
    (new : ∀ token, Authorizes permits token → token ∉ authorized) :
    keepFirst authorized permits = permits := by
  induction permits generalizing authorized with
  | nil =>
      rfl
  | cons head tail inductionHypothesis =>
      rw [List.flatMap_cons] at once
      have disjoint := List.disjoint_of_nodup_append once
      have headTokens :
          (retainNew authorized head.issuedTokens).2 = head.issuedTokens :=
        retainNew_eq_self once.of_append_left
          fun token member => new token (authorizes_cons.mpr (.inl member))
      rw [keepFirst]
      simp only [headTokens, nonempty head (by simp), if_false]
      refine congrArg (head :: ·)
        (inductionHypothesis
          (fun permit member => nonempty permit (List.mem_cons_of_mem _ member))
          once.of_append_right ?_)
      intro token later
      rw [mem_retainNew_authorized]
      rintro (old | inHead)
      · exact new token (authorizes_cons.mpr (.inr later)) old
      · exact disjoint inHead (List.mem_flatMap.mpr later)

end KeepFirst

end Redactor
