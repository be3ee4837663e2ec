import Redactor.Detect.Placement

/-!
# Addresses in running text

The scanner goes from a separator as far to both sides as the characters of an
address reach, and takes the whole stretch or nothing.  An address is found
wherever it ends before a character that no domain has; a full stop behind it
is taken for a part of it and makes the stretch invalid.
-/

namespace Redactor

open Utf8

section Expansion

variable {predicate : Char → Bool}

theorem takeWhile_eq_nil {text : Text}
    (stops : ∀ head ∈ text.head?, predicate head = false) :
    text.takeWhile predicate = [] := by
  cases text with
  | nil =>
      rfl
  | cons head tail =>
      rw [List.takeWhile_cons_of_neg]
      simp [stops head rfl]

/-- The stretch of accepted characters at the begin of a text. -/
theorem takeWhile_stretch {stretch rest : Text}
    (accepted : stretch.all predicate = true)
    (stops : ∀ head ∈ rest.head?, predicate head = false) :
    (stretch ++ rest).takeWhile predicate = stretch := by
  rw [List.takeWhile_append_of_pos (List.all_eq_true.mp accepted),
    takeWhile_eq_nil stops, List.append_nil]

theorem expandLeftOver_eq (index : Nat) (before : Text) :
    expandLeftOver predicate index before =
      index - byteLen (before.takeWhile predicate) := by
  induction before generalizing index with
  | nil =>
      rfl
  | cons head tail inductionHypothesis =>
      rw [expandLeftOver]
      by_cases accepted : predicate head = true
      · rw [if_pos accepted, inductionHypothesis,
          List.takeWhile_cons_of_pos accepted, byteLen_cons, Nat.sub_sub]
      · rw [if_neg accepted, List.takeWhile_cons_of_neg accepted]
        rfl

theorem byteLen_reverse (text : Text) :
    byteLen text.reverse = byteLen text := by
  induction text with
  | nil =>
      rfl
  | cons head tail inductionHypothesis =>
      rw [List.reverse_cons, byteLen_append, inductionHypothesis,
        byteLen_cons, byteLen_cons, byteLen_nil]
      omega

/-- Going to the left ends in front of the stretch of accepted characters. -/
theorem expandLeft_stretch {front stretch after : Text}
    (accepted : stretch.all predicate = true)
    (stops : ∀ head ∈ front.getLast?, predicate head = false) :
    expandLeft ((front ++ stretch) ++ after) (byteLen (front ++ stretch))
        predicate =
      byteLen front := by
  have reversed : (stretch.reverse ++ front.reverse).takeWhile predicate =
      stretch.reverse := by
    apply takeWhile_stretch
    · rw [List.all_reverse]
      exact accepted
    · rw [List.head?_reverse]
      exact stops
  rw [expandLeft, slice_left, expandLeftOver_eq, List.reverse_append,
    reversed, byteLen_reverse, byteLen_append, Nat.add_sub_cancel]

end Expansion

section Around

variable {engine : Engine} {front localPart after value : Text}

/-- What the scanner decides about the separator behind a local part. -/
theorem emailAround_stretch
    (accepted : localPart.all isEmailLocal = true)
    (stops : ∀ head ∈ front.getLast?, isEmailLocal head = false)
    (isValue : value = localPart ++ '@' :: after.takeWhile isEmailDomain) :
    emailAround engine ((front ++ localPart) ++ '@' :: after)
        (byteLen (front ++ localPart)) '@' =
      if 5 ≤ byteLen value ∧ isValidEmail engine value = true then
        some (ruleFinding .email value (normalize .email value) 98
          (byteLen front) (byteLen front + byteLen value))
      else
        none := by
  have atStart :
      expandLeft ((front ++ localPart) ++ '@' :: after)
          (byteLen (front ++ localPart)) isEmailLocal =
        byteLen front :=
    expandLeft_stretch accepted stops
  have atFinish :
      expandRight ((front ++ localPart) ++ '@' :: after)
          (byteLen (front ++ localPart) + Char.utf8Size '@')
          isEmailDomain =
        byteLen front + byteLen value := by
    have next :=
      expandRight_append isEmailDomain ((front ++ localPart) ++ ['@']) after
    rw [List.append_assoc, List.singleton_append] at next
    rw [byteLen_append, byteLen_cons, byteLen_nil, Nat.add_zero] at next
    rw [next]
    simp only [isValue, byteLen_append, byteLen_cons]
    omega
  have cut :
      slice ((front ++ localPart) ++ '@' :: after) (byteLen front)
          (byteLen front + byteLen value) = value := by
    have whole :
        (front ++ localPart) ++ '@' :: after =
          front ++ (value ++ after.dropWhile isEmailDomain) := by
      simp [isValue, List.takeWhile_append_dropWhile]
    rw [whole]
    exact slice_middle _ _ _
  unfold emailAround
  simp only [atStart, atFinish, cut]
  by_cases long : 5 ≤ byteLen value
  · rw [if_neg (by omega)]
    by_cases valid : isValidEmail engine value = true
    · rw [if_pos valid, if_pos ⟨long, valid⟩]
    · rw [if_neg valid, if_neg fun both => valid both.2]
  · rw [if_pos (by omega), if_neg fun both => long both.1]

/-- The characters of a domain end in front of a separator. -/
theorem byteLen_takeWhile_le (middle rest : Text) :
    byteLen ((middle ++ '@' :: rest).takeWhile isEmailDomain) ≤
      byteLen middle := by
  induction middle with
  | nil =>
      exact Nat.le_refl 0
  | cons head tail inductionHypothesis =>
      rw [List.cons_append]
      by_cases accepted : isEmailDomain head = true
      · rw [List.takeWhile_cons_of_pos accepted, byteLen_cons, byteLen_cons]
        omega
      · rw [List.takeWhile_cons_of_neg accepted]
        exact Nat.zero_le _

/-- A finding that reaches from the front to behind the separator has been
found around this separator. -/
theorem emailAround_of_covers {finding : Finding}
    (member :
      finding ∈ detectEmails engine ((front ++ localPart) ++ '@' :: after))
    (begins : finding.start ≤ byteLen front)
    (reaches : byteLen (front ++ localPart) < finding.finish) :
    emailAround engine ((front ++ localPart) ++ '@' :: after)
        (byteLen (front ++ localPart)) '@' = some finding := by
  obtain ⟨before, rest, shape, around⟩ := mem_detectEmails.mp member
  have found := around
  rw [shape] at found
  obtain ⟨kept, otherLocal, _, cutLeft, accepted, _, isFinding⟩ :=
    emailAround_eq_some found
  have atStart : finding.start = byteLen kept := by
    rw [isFinding]
    rfl
  have atFinish :
      finding.finish =
        byteLen before +
          byteLen ('@' :: rest.takeWhile isEmailDomain) := by
    rw [isFinding, cutLeft, byteLen_append]
    simp only [ruleFinding, byteLen_append]
    omega
  rcases List.append_eq_append_iff.mp shape with
    ⟨middle, isBefore, isRest⟩ | ⟨middle, isFront, isRest⟩
  · cases middle with
    | nil =>
        rw [List.append_nil] at isBefore
        rw [isBefore] at around
        exact around
    | cons head middle =>
        -- the local part of the finding would reach over the separator
        have isSeparator : '@' = head := (List.cons.inj isRest).1
        have same :
            kept ++ otherLocal =
              front ++ (localPart ++ head :: middle) := by
          rw [← cutLeft, isBefore, List.append_assoc]
        obtain ⟨between, _, isLocal⟩ :=
          append_of_byteLen_le same (by omega)
        have inside : '@' ∈ otherLocal := by
          rw [isLocal, isSeparator]
          simp
        exact absurd (List.all_eq_true.mp accepted '@' inside) (by decide)
  · cases middle with
    | nil =>
        rw [List.append_nil] at isFront
        rw [← isFront] at around
        exact around
    | cons head middle =>
        -- the domain of the finding would reach over the separator
        have isSeparator : '@' = head := (List.cons.inj isRest).1
        have isMiddle : rest = middle ++ '@' :: after :=
          (List.cons.inj isRest).2
        have short := byteLen_takeWhile_le middle after
        rw [← isMiddle] at short
        rw [isFront, byteLen_append, byteLen_cons, ← isSeparator] at reaches
        rw [atFinish, byteLen_cons] at reaches
        omega

end Around

/-! ## Valid addresses -/

section Valid

variable {engine : Engine} {domain : Text}

/-- Two labels that are not empty, with a separator between them. -/
theorem three_le_length_of_labels {text : Text} {separator : Char}
    (several : 2 ≤ (text.splitOn separator).length)
    (visible : ∀ label ∈ text.splitOn separator, label ≠ []) :
    3 ≤ text.length := by
  have joined : [separator].intercalate (text.splitOn separator) = text :=
    List.intercalate_splitOn separator
  obtain ⟨first, second, rest, shape⟩ :
      ∃ first second rest,
        text.splitOn separator = first :: second :: rest := by
    match fields : text.splitOn separator with
    | [] =>
        rw [fields] at several
        simp at several
    | [only] =>
        rw [fields] at several
        simp at several
    | first :: second :: rest =>
        exact ⟨first, second, rest, rfl⟩
  have firstVisible : first ≠ [] := visible first (by simp [shape])
  have secondVisible : second ≠ [] := visible second (by simp [shape])
  have firstSize := List.length_pos_iff.mpr firstVisible
  have secondSize := List.length_pos_iff.mpr secondVisible
  have size := congrArg List.length joined
  rw [shape] at size
  cases rest with
  | nil =>
      simp [List.intercalate] at size
      omega
  | cons third others =>
      simp [List.intercalate] at size
      omega

/-- A domain that is valid has two labels, and so at least three
characters. -/
theorem three_le_length_of_isValidDomain
    (valid : isValidDomain engine domain = true) : 3 ≤ domain.length := by
  rw [isValidDomain_eq] at valid
  simp only [Bool.if_false_left, Bool.and_eq_true] at valid
  have labelled := valid.2
  simp only [hasHostLabels, Bool.if_false_left, Bool.and_eq_true,
    Bool.not_eq_true', decide_eq_false_iff_not, Nat.not_lt,
    List.all_eq_true] at labelled
  obtain ⟨several, hosts, _⟩ := labelled
  have long :
      3 ≤ (trimEndMatches (· == '.') (trim domain)).length := by
    apply three_le_length_of_labels several
    intro label member empty
    have host := hosts label member
    rw [empty] at host
    exact absurd host (by decide)
  have within :
      trimEndMatches (· == '.') (trim domain) <:+: domain :=
    (List.rdropWhile_prefix _ _).isInfix.trans (trim_isInfix domain)
  exact Nat.le_trans long within.length_le

end Valid

/-- An address between characters that belong to none, with some full stops
behind it, is in the range of a finding if and only if there is no full
stop. -/
theorem address_found_iff (engine : Engine)
    (front localPart domain after : Text) (fullStops : Nat)
    (localAccepted : localPart.all isEmailLocal = true)
    (domainAccepted : domain.all isEmailDomain = true)
    (valid : isValidEmail engine (localPart ++ '@' :: domain) = true)
    (begins : ∀ head ∈ front.getLast?, isEmailLocal head = false)
    (ends : ∀ head ∈ after.head?, isEmailDomain head = false) :
    (∃ finding ∈
        detectEmails engine
          (front ++
            ((localPart ++ '@' :: domain) ++
              (List.replicate fullStops '.' ++ after))),
        finding.start ≤ byteLen front ∧
          byteLen front + byteLen (localPart ++ '@' :: domain) ≤
            finding.finish) ↔
      fullStops = 0 := by
  have regroup :
      front ++
          ((localPart ++ '@' :: domain) ++
            (List.replicate fullStops '.' ++ after)) =
        (front ++ localPart) ++
          '@' :: ((domain ++ List.replicate fullStops '.') ++ after) := by
    simp
  have stretch :
      ((domain ++ List.replicate fullStops '.') ++ after).takeWhile
          isEmailDomain =
        domain ++ List.replicate fullStops '.' := by
    apply takeWhile_stretch _ ends
    rw [List.all_append, domainAccepted, Bool.true_and, List.all_replicate]
    cases fullStops <;> rfl
  have decided :=
    @emailAround_stretch engine front localPart
      ((domain ++ List.replicate fullStops '.') ++ after) _ localAccepted
      begins rfl
  rw [stretch] at decided
  rw [regroup]
  constructor
  · rintro ⟨finding, member, starts, reaches⟩
    have around :=
      emailAround_of_covers member starts (by
        simp only [byteLen_append, byteLen_cons] at reaches ⊢
        have positive := Char.utf8Size_pos '@'
        omega)
    rw [decided, Option.ite_none_right_eq_some] at around
    obtain ⟨_, _, noStop, _⟩ :=
      (isValidEmailWith_append localAccepted).mp around.1.2
    by_contra some
    obtain ⟨fewer, rfl⟩ := Nat.exists_eq_succ_of_ne_zero some
    have stopped :
        endsWith (domain ++ List.replicate (fewer + 1) '.') ['.'] =
          true := by
      rw [endsWith, List.isSuffixOf_iff_suffix, List.replicate_succ']
      exact (List.suffix_append _ _).trans (List.suffix_append _ _)
    rw [stopped] at noStop
    cases noStop
  · rintro rfl
    rw [List.replicate_zero, List.append_nil] at decided ⊢
    obtain ⟨someLocal, _, _, validDomain⟩ :=
      (isValidEmailWith_append localAccepted).mp valid
    have localSize := List.length_pos_iff.mpr someLocal
    have domainSize := three_le_length_of_isValidDomain validDomain
    have size := length_le_byteLen (localPart ++ '@' :: domain)
    rw [List.length_append, List.length_cons] at size
    have long : 5 ≤ byteLen (localPart ++ '@' :: domain) := by omega
    rw [if_pos ⟨long, valid⟩] at decided
    refine ⟨_, mem_detectEmails.mpr ⟨front ++ localPart, _, rfl, decided⟩,
      ?_, ?_⟩
    · exact Nat.le_refl _
    · exact Nat.le_refl _

/-- An address in front of a comma. -/
theorem address_found_before_comma :
    ∃ finding ∈
        detectEmails sampleLineEnvironment.engine
          (lit "to " ++ (lit "alice@example.com" ++ lit ", please.")),
      finding.start ≤ 3 ∧ 20 ≤ finding.finish := by
  have begins :
      ∀ head ∈ (lit "to ").getLast?, isEmailLocal head = false := by
    intro head member
    have isSpace : head = ' ' := by
      simpa [lit, eq_comm] using member
    rw [isSpace]
    rfl
  have ends :
      ∀ head ∈ (lit ", please.").head?, isEmailDomain head = false := by
    intro head member
    have isComma : head = ',' := by
      simpa [lit, eq_comm] using member
    rw [isComma]
    rfl
  have found :=
    address_found_iff sampleLineEnvironment.engine (lit "to ")
      (lit "alice") (lit "example.com") (lit ", please.") 0 (by decide)
      (by decide) (by decide +kernel) begins ends
  exact found.mpr rfl

/-- An address at the end of a sentence is not found. -/
theorem address_before_full_stop_is_missed :
    isValidEmail sampleLineEnvironment.engine (lit "alice@example.com") =
        true ∧
      detectEmails sampleLineEnvironment.engine
        (lit "to alice@example.com.") = [] := by
  decide +kernel

end Redactor
