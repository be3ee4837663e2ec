import Redactor.Library.Collecting
import Redactor.Detect.Origins

/-!
# Repetitions of secrets

The occurrences of the values of all secrets are collected, in so far as their
ranges are new.  The values of the secrets stay the same, so that nothing is
left for a second time.
-/

namespace Redactor

open Utf8 Collecting

def Finding.range (finding : Finding) : Nat × Nat :=
  (finding.start, finding.finish)

/-- The finding of an occurrence of a secret. -/
def repetition (secret : Text × Text) (start : Nat) : Finding :=
  ruleFinding .secret secret.1 secret.2 95 start (start + byteLen secret.1)

/-- The findings of all occurrences of the secrets. -/
def repetitions (text : Text) (secrets : List (Text × Text)) : List Finding :=
  secrets.flatMap fun secret =>
    (matchIndices text secret.1).map (repetition secret)

/-- The loop adds the repetitions whose ranges are new. -/
theorem foldl_add (progress : Propagation)
    (places : List ((Text × Text) × Nat)) :
    (places.foldl
        (fun progress place =>
          progress.add place.1.1 place.1.2 place.2)
        progress).findings =
      progress.findings ++
        collectNew Finding.range progress.known
          (places.map fun place => repetition place.1 place.2) := by
  induction places generalizing progress with
  | nil =>
      exact (List.append_nil _).symm
  | cons place places inductionHypothesis =>
      have sameRange :
          (repetition place.1 place.2).range =
            (place.2, place.2 + byteLen place.1.1) := rfl
      rw [List.foldl_cons, inductionHypothesis, List.map_cons, collectNew,
        Propagation.add, sameRange]
      by_cases known :
          (place.2, place.2 + byteLen place.1.1) ∈ progress.known
      · rw [if_pos known, if_pos known]
      · rw [if_neg known, if_neg known]
        exact List.append_assoc _ _ _

variable {text : Text} {findings : List Finding}

/-- The findings that are added. -/
def propagated (text : Text) (findings : List Finding) : List Finding :=
  collectNew Finding.range (findings.map Finding.range)
    (repetitions text (repeatedSecrets [] findings))

theorem propagateRepeatedSecrets_eq (text : Text) (findings : List Finding) :
    propagateRepeatedSecrets text findings =
      findings ++ propagated text findings := by
  let start : Propagation :=
    { known := findings.map Finding.range
      findings }
  let places : List ((Text × Text) × Nat) :=
    (repeatedSecrets [] findings).flatMap fun secret =>
      (matchIndices text secret.1).map fun start => (secret, start)
  have loops :
      (repeatedSecrets [] findings).foldl
          (fun progress secret =>
            (matchIndices text secret.1).foldl
              (fun progress start => progress.add secret.1 secret.2 start)
              progress)
          start =
        places.foldl
          (fun progress place =>
            progress.add place.1.1 place.1.2 place.2)
          start := by
    rw [List.foldl_flatMap]
    simp only [List.foldl_map]
  have listed :
      (places.map fun place => repetition place.1 place.2) =
        repetitions text (repeatedSecrets [] findings) := by
    simp only [places, List.map_flatMap, List.map_map]
    rfl
  have added := foldl_add start places
  rw [listed] at added
  exact (congrArg Propagation.findings loops).trans added

/-- The value belongs to a secret of the list. -/
def SecretValue (findings : List Finding) (value : Text) : Prop :=
  ∃ finding ∈ findings, finding.kind = .secret ∧ finding.matchText = value

theorem repeatedSecrets_eq (seen : List Text) (findings : List Finding) :
    repeatedSecrets seen findings =
      (collectNew Finding.matchText seen
        (findings.filter fun finding => finding.kind = .secret)).map
          fun finding => (finding.matchText, finding.normalizedKey) := by
  induction findings generalizing seen with
  | nil =>
      rfl
  | cons finding findings inductionHypothesis =>
      rw [repeatedSecrets, List.filter_cons]
      by_cases isSecret : finding.kind = .secret
      · by_cases known : finding.matchText ∈ seen
        · rw [if_neg (fun new => new.2 known), inductionHypothesis]
          simp [isSecret, collectNew, known]
        · rw [if_pos ⟨isSecret, known⟩, inductionHypothesis]
          simp [isSecret, collectNew, known]
      · rw [if_neg (fun new => isSecret new.1), inductionHypothesis]
        simp [isSecret]

/-- The repeated secrets have the values of all secrets. -/
theorem exists_repeatedSecret_iff {value : Text} :
    (∃ secret ∈ repeatedSecrets [] findings, secret.1 = value) ↔
      SecretValue findings value := by
  rw [repeatedSecrets_eq]
  constructor
  · rintro ⟨secret, listed, rfl⟩
    obtain ⟨finding, collected, rfl⟩ := List.mem_map.mp listed
    obtain ⟨member, isSecret⟩ :=
      List.mem_filter.mp (mem_of_mem_collectNew collected)
    exact ⟨finding, member, of_decide_eq_true isSecret, rfl⟩
  · rintro ⟨finding, member, isSecret, rfl⟩
    have kept :
        finding ∈ findings.filter fun finding => finding.kind = .secret :=
      List.mem_filter.mpr ⟨member, decide_eq_true isSecret⟩
    rcases @key_mem_of_mem _ _ _ Finding.matchText [] _ _ kept with
      known | ⟨first, collected, same⟩
    · cases known
    · exact ⟨_, List.mem_map_of_mem collected, same⟩

theorem mem_repetitions {secrets : List (Text × Text)} {finding : Finding} :
    finding ∈ repetitions text secrets ↔
      ∃ secret ∈ secrets, ∃ start ∈ matchIndices text secret.1,
        repetition secret start = finding := by
  simp only [repetitions, List.mem_flatMap, List.mem_map]

/-- An added finding is an occurrence of the value of a secret. -/
theorem mem_propagated {finding : Finding}
    (added : finding ∈ propagated text findings) :
    finding.kind = .secret ∧
      SecretValue findings finding.matchText ∧
      finding.start ∈ matchIndices text finding.matchText ∧
      finding.finish = finding.start + byteLen finding.matchText := by
  obtain ⟨secret, listed, start, occurs, rfl⟩ :=
    mem_repetitions.mp (mem_of_mem_collectNew added)
  exact ⟨rfl, exists_repeatedSecret_iff.mp ⟨secret, listed, rfl⟩, occurs, rfl⟩

/-- No value is added to those of the secrets. -/
theorem secretValue_append_propagated {value : Text} :
    SecretValue (findings ++ propagated text findings) value ↔
      SecretValue findings value := by
  constructor
  · rintro ⟨finding, member, isSecret, rfl⟩
    rcases List.mem_append.mp member with given | added
    · exact ⟨finding, given, isSecret, rfl⟩
    · exact (mem_propagated added).2.1
  · rintro ⟨finding, member, isSecret, same⟩
    exact ⟨finding, List.mem_append_left _ member, isSecret, same⟩

/-- Every occurrence of a secret has its range among the findings. -/
theorem range_of_occurrence {value : Text}
    (ofSecret : SecretValue findings value) {start : Nat}
    (occurs : start ∈ matchIndices text value) :
    (start, start + byteLen value) ∈
      (findings ++ propagated text findings).map Finding.range := by
  obtain ⟨secret, listed, rfl⟩ := exists_repeatedSecret_iff.mpr ofSecret
  have item :=
    mem_repetitions.mpr ⟨secret, listed, start, occurs, rfl⟩
  rw [List.map_append, List.mem_append]
  rcases @key_mem_of_mem _ _ _ Finding.range (findings.map Finding.range) _ _
      item with known | ⟨finding, added, same⟩
  · exact Or.inl known
  · exact Or.inr (List.mem_map.mpr ⟨finding, added, same⟩)

theorem propagated_append_propagated :
    propagated text (findings ++ propagated text findings) = [] := by
  apply collectNew_eq_nil
  intro item member
  obtain ⟨secret, listed, start, occurs, rfl⟩ := mem_repetitions.mp member
  have ofSecret := exists_repeatedSecret_iff.mp ⟨secret, listed, rfl⟩
  exact range_of_occurrence (secretValue_append_propagated.mp ofSecret) occurs

/-- Every occurrence of a secret has a finding, and all findings that were added
are occurrences of secrets, with ranges of their own. -/
structure CompleteRepetitions (text : Text) (findings added : List Finding) :
    Prop where
  complete :
    ∀ secret ∈ findings ++ added, secret.kind = .secret →
      ∀ start ∈ matchIndices text secret.matchText,
        ∃ finding ∈ findings ++ added,
          finding.start = start ∧
            finding.finish = start + byteLen secret.matchText
  secrets : ∀ finding ∈ added, finding.kind = .secret
  ranges :
    ∀ finding ∈ added,
      slice? text finding.start finding.finish = some finding.matchText
  fresh :
    ∀ finding ∈ added, ∀ given ∈ findings, finding.range ≠ given.range
  distinct : (added.map Finding.range).Nodup

theorem completeRepetitions_propagated (text : Text)
    (findings : List Finding) :
    CompleteRepetitions text findings (propagated text findings) where
  complete := by
    intro secret member isSecret start occurs
    have ofSecret :=
      secretValue_append_propagated.mp ⟨secret, member, isSecret, rfl⟩
    obtain ⟨finding, listed, range⟩ :=
      List.mem_map.mp (range_of_occurrence ofSecret occurs)
    obtain ⟨start, finish⟩ := Prod.mk.inj range
    exact ⟨finding, listed, start, finish⟩
  secrets := fun _ added => (mem_propagated added).1
  ranges := by
    intro finding added
    obtain ⟨_, _, occurs, finish⟩ := mem_propagated added
    rw [finish]
    exact slice?_matchIndices occurs
  fresh := by
    intro finding added given member same
    apply key_not_mem_of_mem_collectNew added
    rw [same]
    exact List.mem_map_of_mem member
  distinct := nodup_keys_collectNew

/-- The findings stay in front of all missing repetitions, and the second time
nothing is added. -/
theorem propagateRepeatedSecrets_complete (text : Text)
    (findings : List Finding) :
    ∃ added,
      propagateRepeatedSecrets text findings = findings ++ added ∧
      CompleteRepetitions text findings added ∧
      propagateRepeatedSecrets text (findings ++ added) =
        findings ++ added := by
  refine ⟨propagated text findings, propagateRepeatedSecrets_eq text findings,
    completeRepetitions_propagated text findings, ?_⟩
  rw [propagateRepeatedSecrets_eq, propagated_append_propagated,
    List.append_nil]

end Redactor
