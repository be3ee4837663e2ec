import Redactor.Replace.Rounds

/-!
# Redacted fragments are restored

A redacted fragment is woven from gaps without a marker and from tokens.  The
scanner finds exactly these tokens, because the marker has no border and the
first suffix behind it is the end of the token.  A woven text is restored as
soon as a state resolves its tokens, and a state never stops resolving one.
-/

namespace Redactor

open Utf8 Fallible RestoreResult

def MarkerFree (text : Text) : Prop := ¬ tokenPrefix <:+: text

instance (text : Text) : Decidable (MarkerFree text) :=
  inferInstanceAs (Decidable (¬ _))

/-- Original and redacted text with the number of tokens: gaps are copied, and
each token stands for an original that it resolves to. -/
inductive Woven (resolves : Text → Text → Prop) : Text → Text → Nat → Prop
  | gap {gap : Text} : MarkerFree gap → Woven resolves gap gap 0
  | token {gap original token rest output : Text} {count : Nat} :
      MarkerFree gap → resolves token original →
      Woven resolves rest output count →
      Woven resolves (gap ++ (original ++ rest)) (gap ++ (token ++ output))
        (count + 1)

theorem Woven.mono {left right : Text → Text → Prop}
    (implied : ∀ token original, left token original → right token original)
    {original output : Text} {count : Nat}
    (woven : Woven left original output count) :
    Woven right original output count := by
  induction woven with
  | gap markerFree =>
      exact .gap markerFree
  | token markerFree resolved _ inductionHypothesis =>
      exact .token markerFree (implied _ _ resolved) inductionHypothesis

/-- A token as the processor writes it in a scope of random digits. -/
def IsToken (runtime : Runtime) (token : Text) : Prop :=
  ∃ scopeId kind counter, IsHexId scopeId ∧ counter ≤ unsignedMax ∧
    token = formatToken runtime scopeId kind counter

section Scan

variable {runtime : Runtime} {context : RestoreContext}

theorem borderless_tokenPrefix : Borderless tokenPrefix := by
  intro position positive inside
  have all :
      ∀ position < 9, 0 < position →
        ¬ tokenPrefix.drop position <+: tokenPrefix := by
    decide
  exact all position inside positive

/-- The fields of a token have no closing bracket. -/
private theorem closing_not_mem_fields {scopeId : Text} {kind : FindingKind}
    {counter : Nat} (hex : IsHexId scopeId) :
    ']' ∉ [':'].intercalate (tokenFields runtime scopeId kind counter) := by
  intro inside
  have fieldClean :
      ∀ field ∈ tokenFields runtime scopeId kind counter, ']' ∉ field := by
    intro field member closing
    rcases List.mem_cons.mp member with rfl | later
    · exact absurd (hex.2 ']' closing) (by decide)
    · exact (clean_of_mem_tokenFields later closing).2.2 rfl
  simp only [tokenFields, List.forall_mem_cons] at fieldClean
  obtain ⟨inScope, inLabel, inCounter, inCheck, _⟩ := fieldClean
  simp [tokenFields, List.intercalate, inScope, inLabel, inCounter,
    inCheck] at inside

/-- The first suffix behind the marker of a token is its end. -/
theorem notBefore_suffix_fields {scopeId : Text} {kind : FindingKind}
    {counter : Nat} (hex : IsHexId scopeId) (rest : Text) :
    NotBefore tokenSuffix
      ([':'].intercalate (tokenFields runtime scopeId kind counter) ++
        (tokenSuffix ++ rest))
      ([':'].intercalate
        (tokenFields runtime scopeId kind counter)).length :=
  notBefore_of_not_mem (closing_not_mem_fields hex)

/-- Behind a gap without marker, a token is the leftmost candidate. -/
theorem restoreText_token {gap token rest : Text}
    (markerFree : MarkerFree gap) (isToken : IsToken runtime token) :
    context.restoreText runtime (gap ++ (token ++ rest)) =
      plain gap ++ context.restoreCandidate runtime token ++
        context.restoreText runtime rest := by
  obtain ⟨scopeId, kind, counter, hex, _, rfl⟩ := isToken
  rw [formatToken_shape]
  rw [List.append_assoc, List.append_assoc]
  exact RestoreContext.restoreText_closed
    (borderless_tokenPrefix.notBefore markerFree)
    (notBefore_suffix_fields hex rest)

end Scan

/-- The context authorizes the token and has the original for it. -/
structure RestoreContext.Resolves (runtime : Runtime)
    (context : RestoreContext) (token original : Text) : Prop where
  isToken : IsToken runtime token
  authorized : token ∈ context.authorizedTokens
  original : context.original? token = some original

/-- The state authorizes the token and has the original for it. -/
structure Resolves (runtime : Runtime) (state : RestoreState)
    (token original : Text) : Prop where
  isToken : IsToken runtime token
  authorized : Authorizes state.permits token
  original :
    (RestoreContext.new state.session).original? token = some original

/-- The result of restoring a text in which every token was replaced. -/
def RestoreResult.complete (text : Text) (count : Nat) : RestoreResult :=
  { plain text with restoredCount := count }

section Restore

variable {runtime : Runtime} {context : RestoreContext}
  {state : RestoreState}

/-- An authorized token that has an original is replaced. -/
theorem restoreCandidate_of_authorized {token original : Text}
    {parsed : ParsedToken} (read : parseToken runtime token = .ok parsed)
    (authorized : token ∈ context.authorizedTokens)
    (found : context.original? token = some original) :
    context.restoreCandidate runtime token =
      RestoreResult.complete original 1 := by
  simp only [RestoreContext.restoreCandidate, read, authorized, not_true,
    if_false, found]
  rfl

/-- A token that is not authorized is skipped. -/
theorem restoreCandidate_of_unauthorized {token : Text}
    {parsed : ParsedToken} (read : parseToken runtime token = .ok parsed)
    (unauthorized : token ∉ context.authorizedTokens) :
    context.restoreCandidate runtime token =
      { plain token with skippedTokens := [token] } := by
  simp only [RestoreContext.restoreCandidate, read, unauthorized,
    not_false_iff, if_true]

theorem restoreCandidate_of_resolves {token original : Text}
    (resolved : context.Resolves runtime token original) :
    context.restoreCandidate runtime token =
      RestoreResult.complete original 1 := by
  obtain ⟨scopeId, kind, counter, hex, fits, shape⟩ := resolved.isToken
  have read :
      parseToken runtime token = .ok ⟨scopeId, kind, counter⟩ := by
    rw [shape]
    exact parseToken_formatToken hex.isScope fits
  exact
    restoreCandidate_of_authorized read resolved.authorized
      resolved.original

/-- A context restores a woven text completely. -/
theorem context_restoreText_of_woven {original output : Text} {count : Nat}
    (woven : Woven (context.Resolves runtime) original output count) :
    context.restoreText runtime output =
      RestoreResult.complete original count := by
  induction woven with
  | gap markerFree =>
      exact RestoreContext.restoreText_absent
        (dropInfix?_eq_none_iff.mpr markerFree)
  | token markerFree resolved _ inductionHypothesis =>
      rw [restoreText_token markerFree resolved.isToken,
        restoreCandidate_of_resolves resolved, inductionHypothesis]
      apply RestoreResult.ext <;>
        simp [RestoreResult.complete, plain, RestoreResult.empty,
          Nat.add_comm]

/-- A woven text is restored completely. -/
theorem restoreText_of_woven (invariant : StateInvariant runtime state)
    {original output : Text} {count : Nat}
    (woven : Woven (Resolves runtime state) original output count) :
    state.restoreText runtime output =
      .ok (RestoreResult.complete original count) := by
  obtain ⟨authorized, accepted, members⟩ :=
    withPermits_of_accepted invariant.accepted
  rw [RestoreState.restoreText, RestoreState.restoreContext, accepted,
    ok_bind]
  have wovenHere :
      Woven
        ((RestoreContext.fromAuthorizedTokens state.session
          authorized).Resolves runtime) original output count := by
    apply woven.mono
    intro token original resolved
    have found := resolved.original
    rw [RestoreContext.new, original?_fromAuthorizedTokens] at found
    exact ⟨resolved.isToken, (members token).mpr resolved.authorized,
      (original?_fromAuthorizedTokens authorized).trans found⟩
  exact congrArg Except.ok (context_restoreText_of_woven wovenHere)

end Restore

/-! ## Weaving -/

/-- The findings from byte `cursor` on are in order, do not overlap and carry
the text they cover, and the text around them has no marker. -/
def Placed (text : Text) : Nat → List Finding → Prop
  | cursor, [] =>
      ∃ tail, slice? text cursor (byteLen text) = some tail ∧ MarkerFree tail
  | cursor, finding :: findings =>
      (∃ gap, slice? text cursor finding.start = some gap ∧
          MarkerFree gap) ∧
        slice? text finding.start finding.finish = some finding.matchText ∧
        Placed text finding.finish findings

def Fragment.Placed (fragment : Fragment) : Prop :=
  Redactor.Placed fragment.text 0 fragment.findings

theorem Placed.inOrder {text : Text} {cursor : Nat}
    {findings : List Finding} (placed : Placed text cursor findings) :
    InOrder text cursor findings := by
  induction findings generalizing cursor with
  | nil =>
      trivial
  | cons finding findings inductionHypothesis =>
      obtain ⟨⟨gap, sliced, _⟩, inside, rest⟩ := placed
      exact ⟨by rw [sliced]; rfl, by rw [inside]; rfl,
        inductionHypothesis rest⟩

/-- Every token of the state is written in the scope of the state. -/
def SessionState.Formatted (runtime : Runtime) (state : SessionState) :
    Prop :=
  ∀ key allocation, state.allocation? key = some allocation →
    ∃ counter ≤ unsignedMax,
      allocation.token = formatToken runtime state.scopeId key.1 counter

theorem AllocationStep.formatted {runtime : Runtime}
    {state next : SessionState} {finding : Finding} {token : Text}
    {hint : Option Text}
    (step : AllocationStep runtime state finding next token hint)
    (formatted : state.Formatted runtime) :
    next.Formatted runtime := by
  intro key allocation found
  rw [step.extends.scopeId]
  by_cases same : finding.key = key
  · subst same
    cases step with
    | @reuse before _ foundHere _ =>
        rw [SessionState.allocation?_reuse_self] at found
        cases found
        exact formatted finding.key before foundHere
    | allocate _ incremented =>
        rw [SessionState.allocation?_allocate_self] at found
        cases found
        exact ⟨_, increment_le incremented, rfl⟩
  · rw [step.frame same] at found
    exact formatted key allocation found

/-- The processor has replaced this original by this token. -/
def ReplacementProcessor.Replaced (processor : ReplacementProcessor)
    (token original : Text) : Prop :=
  ∃ applied ∈ processor.appliedReplacements,
    applied.replacement = token ∧ applied.original = original

namespace ReplacementProcessor

section Weave

variable {runtime : Runtime} {processor after : ReplacementProcessor}

theorem redactFrom_replaced {text output : Text} {cursor : Nat}
    {findings : List Finding}
    (done : redactFrom runtime text processor cursor findings =
      some (after, output)) :
    ∀ token original, processor.Replaced token original →
      after.Replaced token original := by
  induction findings generalizing processor cursor output with
  | nil =>
      obtain ⟨rfl, _⟩ := redactFrom_nil_eq_some.mp done
      exact fun _ _ replaced => replaced
  | cons finding findings inductionHypothesis =>
      obtain ⟨gap, next, token, hint, rest, _, _, later, _⟩ :=
        redactFrom_cons_eq_some.mp done
      rintro token' original ⟨applied, member, same⟩
      exact inductionHypothesis later token' original
        ⟨applied, List.mem_append_left _ member, same⟩

/-- Redacting placed findings weaves the text from `cursor` on. -/
theorem redactFrom_woven {text output : Text} {cursor : Nat}
    {findings : List Finding} (placed : Placed text cursor findings)
    (done : redactFrom runtime text processor cursor findings =
      some (after, output)) :
    ∃ tail, slice? text cursor (byteLen text) = some tail ∧
      Woven after.Replaced tail output findings.length := by
  induction findings generalizing processor cursor output with
  | nil =>
      obtain ⟨rfl, sliced⟩ := redactFrom_nil_eq_some.mp done
      obtain ⟨tail, sliced', markerFree⟩ := placed
      rw [sliced] at sliced'
      cases sliced'
      exact ⟨output, sliced, .gap markerFree⟩
  | cons finding findings inductionHypothesis =>
      obtain ⟨⟨gap, sliced, markerFree⟩, inside, placedRest⟩ := placed
      obtain ⟨gap', next, token, hint, rest, sliced', step, later, rfl⟩ :=
        redactFrom_cons_eq_some.mp done
      rw [sliced] at sliced'
      cases sliced'
      obtain ⟨tail, tailSliced, woven⟩ :=
        inductionHypothesis placedRest later
      have replaced : after.Replaced token finding.matchText :=
        redactFrom_replaced later _ _
          ⟨_, List.mem_append_right _ (List.mem_singleton.mpr rfl), rfl, rfl⟩
      refine ⟨gap ++ (finding.matchText ++ tail), ?_,
        .token markerFree replaced woven⟩
      exact slice?_append sliced (slice?_append inside tailSliced)

theorem redactFragments_replaced {fragments : List Fragment}
    {outputs : List Text}
    (done : redactFragments runtime processor fragments =
      some (after, outputs)) :
    ∀ token original, processor.Replaced token original →
      after.Replaced token original := by
  induction fragments generalizing processor outputs with
  | nil =>
      cases done
      exact fun _ _ replaced => replaced
  | cons fragment fragments inductionHypothesis =>
      obtain ⟨middle, output, rest, first, later, _⟩ :=
        redactFragments_cons_eq_some.mp done
      intro token original replaced
      exact inductionHypothesis later _ _
        (redactFrom_replaced first _ _ replaced)

/-- How an output of a round has come about. -/
theorem exists_redactFrom_of_mem_zip {fragments : List Fragment}
    {outputs : List Text} {fragment : Fragment} {output : Text}
    (done : redactFragments runtime processor fragments =
      some (after, outputs))
    (member : (fragment, output) ∈ fragments.zip outputs) :
    ∃ before middle,
      redactFrom runtime fragment.text before 0 fragment.findings =
          some (middle, output) ∧
        ∀ token original, middle.Replaced token original →
          after.Replaced token original := by
  induction fragments generalizing processor outputs with
  | nil =>
      cases member
  | cons head fragments inductionHypothesis =>
      obtain ⟨middle, first, rest, here, later, rfl⟩ :=
        redactFragments_cons_eq_some.mp done
      rw [List.zip_cons_cons] at member
      rcases List.mem_cons.mp member with same | further
      · cases same
        exact ⟨processor, middle, here, redactFragments_replaced later⟩
      · exact inductionHypothesis later further

/-- The outputs of a round are woven from their fragments. -/
theorem redactFragments_woven {fragments : List Fragment}
    {outputs : List Text}
    (placed : ∀ fragment ∈ fragments, fragment.Placed)
    (done : redactFragments runtime processor fragments =
      some (after, outputs)) :
    List.Forall₂
      (fun fragment output =>
        Woven after.Replaced fragment.text output fragment.findings.length)
      fragments outputs := by
  induction fragments generalizing processor outputs with
  | nil =>
      cases done
      exact .nil
  | cons fragment fragments inductionHypothesis =>
      obtain ⟨middle, output, rest, first, later, rfl⟩ :=
        redactFragments_cons_eq_some.mp done
      have wovenRest :=
        inductionHypothesis
          (fun other member => placed other (List.mem_cons_of_mem _ member))
          later
      obtain ⟨whole, sliced, woven⟩ :=
        redactFrom_woven (placed fragment (by simp)) first
      have same : whole = fragment.text := by
        have all :
            slice? fragment.text 0 (byteLen fragment.text) =
              some fragment.text :=
          slice?_eq_some.mpr ⟨[], [], by simp, rfl, by simp⟩
        rw [all] at sliced
        exact (Option.some.inj sliced).symm
      rw [same] at woven
      exact .cons (woven.mono (redactFragments_replaced later)) wovenRest

end Weave

end ReplacementProcessor

end Redactor
