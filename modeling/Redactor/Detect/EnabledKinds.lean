import Redactor.Detect.CustomOrder
import Redactor.Detect.Propagation
import Redactor.Detect.Selection

/-!
# Kinds that the policy enables

The switches of the policy are read in many places.  Wherever a detector names
a kind, it has asked the switch of this kind; only the custom rules ask none.
-/

namespace Redactor

open Utf8

/-- The switch of a kind; the custom rules have none. -/
def RedactionRules.enabled (rules : RedactionRules) : FindingKind → Bool
  | .secret => rules.secret
  | .domain => rules.domain
  | .url => rules.url
  | .email => rules.email
  | .ip => rules.ip
  | .cidr => rules.cidr
  | .phone => rules.phone
  | .person => rules.person
  | .organization => rules.organization
  | .customString => false
  | .customFile => false

section Detectors

variable {engine : Engine} {text : Text} {rules : RedactionRules}

theorem contextualSecretKind_eq {value rawValue : Text} {separator : Char}
    {kind : FindingKind}
    (guessed :
      contextualSecretKind engine value rawValue separator = some kind) :
    kind = .secret := by
  unfold contextualSecretKind at guessed
  split at guessed
  · exact (Option.some.inj guessed).symm
  · split at guessed
    · cases guessed
    · split at guessed
      · exact (Option.some.inj guessed).symm
      · cases guessed

/-- Every branch of the key asks for its switch, the last guess too. -/
theorem enabled_contextualKind {key value rawValue : Text}
    {separator : Char} {kind : FindingKind}
    (guessed :
      contextualKind engine key value rawValue separator rules = some kind) :
    rules.enabled kind = true := by
  unfold contextualKind at guessed
  simp only [Bool.and_eq_true] at guessed
  split at guessed
  · rename_i isSecret
    rw [contextualSecretKind_eq guessed]
    exact isSecret.1
  · split at guessed
    · rename_i isEmail
      cases guessed
      exact isEmail.1.1
    · split at guessed
      · rename_i isDomain
        cases guessed
        exact isDomain.1.1.1
      · split at guessed
        · rename_i isUrl
          cases guessed
          exact isUrl.1.1
        · split at guessed
          · rename_i isPhone
            cases guessed
            exact isPhone.1.1
          · split at guessed
            · rename_i isPerson
              cases guessed
              exact isPerson.1.1
            · split at guessed
              · rename_i looksSecret
                cases guessed
                exact looksSecret.1
              · cases guessed

theorem enabled_assignmentFinding {offset : Nat} {line : Text}
    {captures : Text → Option RegexMatch} {finding : Finding}
    (found :
      assignmentFinding engine rules offset line captures = some finding) :
    rules.enabled finding.kind = true := by
  obtain ⟨keyMatch, _, found⟩ := Option.bind_eq_some_iff.mp found
  obtain ⟨valueMatch, _, found⟩ := Option.bind_eq_some_iff.mp found
  obtain ⟨separatorMatch, _, found⟩ := Option.bind_eq_some_iff.mp found
  simp only at found
  split at found
  · cases found
  · obtain ⟨kind, guessed, last⟩ := Option.bind_eq_some_iff.mp found
    cases last
    exact enabled_contextualKind guessed

theorem enabled_contextualAssignments {offset : Nat} {lines : List Text} :
    ∀ finding ∈ contextualAssignmentsFrom engine rules offset lines,
      rules.enabled finding.kind = true := by
  induction lines generalizing offset with
  | nil =>
      intro finding member
      cases member
  | cons line lines inductionHypothesis =>
      intro finding member
      rcases List.mem_append.mp member with here | later
      · obtain ⟨captures, _, found⟩ := List.mem_filterMap.mp here
        exact enabled_assignmentFinding found
      · exact inductionHypothesis finding later

theorem kind_emailAround {index : Nat} {head : Char} {finding : Finding}
    (found : emailAround engine text index head = some finding) :
    finding.kind = .email := by
  unfold emailAround at found
  simp only at found
  split at found
  · cases found
  · obtain ⟨_, given⟩ := Option.ite_none_right_eq_some.mp found
    cases given
    rfl

theorem kind_phoneIn {startByte endByte : Nat} {finding : Finding}
    (found : phoneIn text startByte endByte = some finding) :
    finding.kind = .phone := by
  unfold phoneIn at found
  simp only at found
  obtain ⟨_, rest⟩ := Option.ite_none_right_eq_some.mp found
  obtain ⟨_, given⟩ := Option.ite_none_left_eq_some.mp rest
  cases given
  rfl

theorem kind_detectPhonesFrom {fuel : Nat} {characters : List (Nat × Char)} :
    ∀ finding ∈ detectPhonesFrom text fuel characters,
      finding.kind = .phone := by
  induction fuel generalizing characters with
  | zero =>
      intro finding member
      cases member
  | succ fuel inductionHypothesis =>
      intro finding member
      cases characters with
      | nil =>
          cases member
      | cons first rest =>
          unfold detectPhonesFrom at member
          split at member
          · exact inductionHypothesis finding member
          · rcases List.mem_append.mp member with here | later
            · have found := Option.mem_toList.mp here
              exact kind_phoneIn (Option.ite_none_right_eq_some.mp found).2
            · exact inductionHypothesis finding later

theorem kind_detectDomains {finding : Finding}
    (member : finding ∈ detectDomains engine text) :
    finding.kind = .domain := by
  obtain ⟨found, _, given⟩ := List.mem_filterMap.mp member
  obtain ⟨_, shape⟩ := Option.ite_none_right_eq_some.mp given
  cases shape
  rfl

theorem kind_detectPattern {pattern : Text} {kind : FindingKind}
    {confidence : Nat} {validator : Text → Bool} {finding : Finding}
    (member :
      finding ∈ detectPattern engine text pattern kind confidence
        validator) :
    finding.kind = kind := by
  obtain ⟨found, _, _, shape⟩ := mem_detectPattern member
  rw [shape]
  rfl

/-- Repetitions are asked for with the switch of the secrets. -/
theorem enabled_propagate {findings : List Finding}
    (secrets : rules.secret = true)
    (enabled : ∀ finding ∈ findings, rules.enabled finding.kind = true) :
    ∀ finding ∈ propagateRepeatedSecrets text findings,
      rules.enabled finding.kind = true := by
  intro finding member
  rw [propagateRepeatedSecrets_eq] at member
  rcases List.mem_append.mp member with given | added
  · exact enabled finding given
  · rw [(mem_propagated added).1]
    exact secrets

theorem enabled_detectBuiltins {environment : Environment} :
    ∀ finding ∈ detectBuiltins environment text rules,
      rules.enabled finding.kind = true := by
  intro finding member
  simp only [detectBuiltins, List.mem_append, List.mem_ite_nil_right] at member
  rcases member with
    (((((assigned | email) | url) | cidr) | ip) | phone) | domain
  · split at assigned
    · rename_i secrets
      rcases List.mem_append.mp assigned with propagated | matching
      · exact enabled_propagate secrets enabled_contextualAssignments finding
          propagated
      · rw [kind_detectPattern matching]
        exact secrets
    · exact enabled_contextualAssignments finding assigned
  · obtain ⟨before, after, _, found⟩ := mem_detectEmails.mp email.2
    rw [kind_emailAround found]
    exact email.1
  · rw [kind_detectPattern url.2]
    exact url.1
  · rw [kind_detectPattern cidr.2]
    exact cidr.1
  · rw [kind_detectPattern ip.2]
    exact ip.1
  · rw [kind_detectPhonesFrom finding phone.2]
    exact phone.1
  · rw [kind_detectDomains domain.2]
    exact domain.1

theorem enabled_mapKind {named : Text} {kind : FindingKind}
    (mapped : mapKind named rules = some kind) :
    rules.enabled kind = true := by
  unfold mapKind at mapped
  split at mapped
  · rename_i person
    cases mapped
    exact person.2
  · split at mapped
    · rename_i organization
      cases mapped
      exact organization.2
    · cases mapped

end Detectors

/-! ## The custom rules -/

/-- What may be reported: a finding of an enabled kind, the range of a match of
a custom string, or a whole range of a custom file. -/
inductive Reportable (engine : Engine) (policy : RedactionPolicy)
    (text : Text) (ranges : List RedactableRange) (finding : Finding) : Prop
  | enabled :
      policy.rules.enabled finding.kind = true →
      Reportable engine policy text ranges finding
  | customString (range : RedactableRange) (rule : CustomStringRule)
      (found : RegexMatch) :
      finding.kind = .customString →
      range ∈ ranges →
      rule ∈ policy.customStrings →
      found ∈
        engine.findIter (rule.compiledPattern engine)
          (slice text range.start range.finish) →
      finding.start =
        range.start +
          (customSpan (slice text range.start range.finish) rule.scope
            found).1 →
      finding.finish =
        range.start +
          (customSpan (slice text range.start range.finish) rule.scope
            found).2 →
      Reportable engine policy text ranges finding
  | customFile (range : RedactableRange) (rule : CustomFileRule) :
      finding.kind = .customFile →
      range ∈ ranges →
      rule ∈ policy.customFiles →
      range.filePath = some rule.path →
      finding.start = range.start →
      finding.finish = range.finish →
      Reportable engine policy text ranges finding

section Candidates

variable {environment : Environment} {policy : RedactionPolicy}
  {redactor : RedactorInstance} {text : Text} {inputKind : InputKind}
  {sourcePath : Option Text}

/-- The rules that are searched for are rules of the policy. -/
theorem rule_of_mem_candidateRules {engine : Engine}
    {rules : List CustomStringRule} {compiled : CompiledCustomStrings}
    (accepted : CompiledCustomStrings.new engine rules = .ok compiled)
    {candidate : CompiledRule}
    (searched : candidate ∈ candidateRules engine text compiled) :
    candidate.rule ∈ rules ∧
      candidate.pattern = candidate.rule.compiledPattern engine := by
  rw [candidateRules_eq accepted] at searched
  obtain ⟨numbered, listed, rfl⟩ :=
    List.mem_map.mp (List.mem_of_mem_filter searched)
  exact ⟨List.fst_mem_of_mem_zipIdx listed, rfl⟩

/-- Every candidate of the policy may be reported. -/
theorem reportable_policyCandidates {customStrings : CompiledCustomStrings}
    (accepted :
      CompiledCustomStrings.new environment.engine policy.customStrings =
        .ok customStrings)
    {ranges : List RedactableRange} :
    ∀ finding ∈
        policyCandidates environment text policy customStrings
          (policy.customFiles.map CustomFileRule.path) ranges,
      Reportable environment.engine policy text ranges finding := by
  intro finding member
  rcases mem_policyCandidates.mp member with ofFile | ⟨range, listed, inRange⟩
  · obtain ⟨range, listed, filePath, named, present, isFinding⟩ :=
      mem_detectCustomFiles.mp ofFile
    obtain ⟨rule, ofPolicy, rfl⟩ := List.mem_map.mp present
    rw [isFinding]
    exact .customFile range rule rfl listed ofPolicy named rfl rfl
  · obtain ⟨_, inner, detected, shifted⟩ := mem_rangeCandidates.mp inRange
    rw [shifted]
    rcases detected with builtin | custom
    · exact .enabled (enabled_detectBuiltins inner builtin)
    · obtain ⟨candidate, searched, found, occurs, _, shape⟩ :=
        origin_detectCustomStrings inner custom
      obtain ⟨ofPolicy, pattern⟩ :=
        rule_of_mem_candidateRules accepted searched
      rw [pattern] at occurs
      rw [shape]
      exact .customString range candidate.rule found rfl listed ofPolicy
        occurs (Nat.add_comm _ _) (Nat.add_comm _ _)

/-- What the model finds is a person or an organization, with the switch of
this kind. -/
theorem enabled_consideredLlm {response : Except Text (List Candidate)} :
    ∀ finding ∈
        redactor.consideredLlm response text inputKind sourcePath,
      redactor.compiledPolicy.policy.rules.enabled finding.kind = true := by
  intro finding member
  unfold RedactorInstance.consideredLlm at member
  split at member
  · split at member
    · rename_i discovered
      obtain ⟨candidates, parsed, parsing, listed, _⟩ :=
        exists_parsed_of_discovered discovered member
      obtain ⟨matchPositions, _, origins⟩ := origin_parseCandidates parsing
      cases origins finding listed with
      | named candidate kind places start mapped known occurs =>
          exact enabled_mapKind mapped
    · cases member
  · cases member

end Candidates

/-- No kind is reported whose switch is off, except by the custom rules of the
policy. -/
theorem detectInternal_reportable (environment : Environment) (llm : Bool)
    (policy : RedactionPolicy) (redactor : RedactorInstance)
    (accepted : tryBuild environment.engine llm policy = .ok redactor)
    (response : Except Text (List Candidate)) (text : Text)
    (inputKind : InputKind) (sourcePath : Option Text)
    (outcome : DetectionOutcome)
    (detected :
      detectInternal environment response redactor text inputKind
        sourcePath = some outcome) :
    ∀ finding ∈ outcome.findings,
      Reportable environment.engine policy text
        (redactableRanges text inputKind sourcePath) finding := by
  obtain ⟨customStrings, compiled, rfl⟩ := tryBuild_eq_ok accepted
  have ofRules :
      ∀ finding ∈
          RedactorInstance.ruleFindings environment
            { llm
              compiledPolicy :=
                { policy
                  customStrings
                  customFiles :=
                    policy.customFiles.map CustomFileRule.path } }
            text inputKind sourcePath,
        Reportable environment.engine policy text
          (redactableRanges text inputKind sourcePath) finding := by
    intro finding member
    exact reportable_policyCandidates compiled finding
      (mem_of_mem_selected member)
  intro finding member
  rcases detectInternal_selections detected with
    ⟨_, findings, _⟩ | ⟨_, findings, _⟩
  · rw [findings] at member
    exact ofRules finding member
  · rw [findings] at member
    rcases List.mem_append.mp (mem_of_mem_selected member) with
      rule | considered
    · exact ofRules finding rule
    · exact .enabled (enabled_consideredLlm finding considered)

/-- With the switches as they are by default, and a name in the answer of the
model. -/
theorem detectInternal_reportable_default :
    ∃ outcome,
      detectInternal sampleLineEnvironment (.ok [sampleName])
          (sampleLineRedactor true {} .text) sampleLine .text none =
        some outcome ∧
      ∀ finding ∈ outcome.findings,
        Reportable sampleLineEnvironment.engine (sampleLinePolicy {} .text)
          sampleLine (redactableRanges sampleLine .text none) finding := by
  have present :
      (detectInternal sampleLineEnvironment (.ok [sampleName])
        (sampleLineRedactor true {} .text) sampleLine .text none).isSome =
        true := by
    decide +kernel
  obtain ⟨outcome, detected⟩ := Option.isSome_iff_exists.mp present
  exact ⟨outcome, detected,
    detectInternal_reportable sampleLineEnvironment true
      (sampleLinePolicy {} .text) (sampleLineRedactor true {} .text)
      (tryBuild_sampleLine true {} .text) (.ok [sampleName]) sampleLine .text
      none outcome detected⟩

end Redactor
