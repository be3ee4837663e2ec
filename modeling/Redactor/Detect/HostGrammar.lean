import Redactor.Library.Phrases
import Redactor.Library.Slices
import Redactor.Detect.Validators

/-!
# The grammar of host names and addresses

The validators of domains and addresses call each other, and each `@` turns
acceptance into refusal.  No host name has an `@`, so the refusals are never
met: what is accepted is described without recursion.
-/

namespace Redactor

open Utf8

def isHostCharacter (head : Char) : Bool :=
  isAsciiAlphanumeric head || head == '-'

/-- A label of a host name. -/
structure IsLabel (label : Text) : Prop where
  visible : label ≠ []
  short : label.length ≤ 63
  plain : ∀ head ∈ label, isHostCharacter head = true
  first : label.head? ≠ some '-'
  last : label.getLast? ≠ some '-'

/-- A text without the white space around it and without the full stops that
are then at its end. -/
def hostText (value : Text) : Text :=
  trimEndMatches (· == '.') (trim value)

/-- The labels between the full stops of a host. -/
structure IsLabelled (host : Text) (labels : List Text) : Prop where
  joined : host = ['.'].intercalate labels
  several : 2 ≤ labels.length
  labelled : ∀ label ∈ labels, IsLabel label

/-- A public suffix is known, or the last label is a private suffix. -/
def HasKnownSuffix (engine : Engine) (labels : List Text) : Prop :=
  engine.hasKnownSuffix (asciiLowercase (['.'].intercalate labels)) = true ∨
    ∃ last, labels.getLast? = some last ∧
      asciiLowercase last ∈ privateHostSuffixes

structure IsHostName (engine : Engine) (isIpLiteral : Text → Bool)
    (value : Text) : Prop where
  notIp : isIpLiteral value = false
  host :
    ∃ labels, IsLabelled (hostText value) labels ∧
      HasKnownSuffix engine labels

structure IsMailAddress (engine : Engine) (isIpLiteral : Text → Bool)
    (value : Text) : Prop where
  once : value.count '@' = 1
  parts :
    ∃ localPart domain, value = localPart ++ '@' :: domain ∧
      localPart ≠ [] ∧ (∀ head ∈ localPart, isEmailLocal head = true) ∧
      domain.getLast? ≠ some '.' ∧ IsHostName engine isIpLiteral domain

theorem code_of_plain {head : Char} (plain : isHostCharacter head = true) :
    (97 ≤ head.toNat ∧ head.toNat ≤ 122) ∨
      (65 ≤ head.toNat ∧ head.toNat ≤ 90) ∨
      (48 ≤ head.toNat ∧ head.toNat ≤ 57) ∨ head.toNat = 45 := by
  rcases Bool.or_eq_true_iff.mp plain with word | hyphen
  · simp only [isAsciiAlphanumeric, isAsciiLetter, isAsciiDigit,
      Bool.or_eq_true, Bool.and_eq_true, decide_eq_true_eq, Char.le_def,
      UInt32.le_iff_toNat_le] at word
    rcases word with (small | capital) | digit
    · exact Or.inl small
    · exact Or.inr (Or.inl capital)
    · exact Or.inr (Or.inr (Or.inl digit))
  · rw [eq_of_beq hyphen]
    exact Or.inr (Or.inr (Or.inr rfl))

theorem utf8Size_of_plain {head : Char} (plain : isHostCharacter head = true) :
    head.utf8Size = 1 := by
  have code := code_of_plain plain
  have low : head.val ≤ 0x7f := by
    rw [UInt32.le_iff_toNat_le]
    change head.toNat ≤ 127
    omega
  simp [Char.utf8Size, low]

theorem isWhitespace_of_plain {head : Char}
    (plain : isHostCharacter head = true) : isWhitespace head = false := by
  have code := code_of_plain plain
  simp only [isWhitespace, Bool.or_eq_false_iff, Bool.and_eq_false_iff,
    decide_eq_false_iff_not, beq_eq_false_iff_ne]
  omega

theorem toAsciiLower_ne_stop {head : Char}
    (plain : isHostCharacter head = true) : toAsciiLower head ≠ '.' := by
  have code := code_of_plain plain
  unfold toAsciiLower
  split
  · have valid : (head.toNat + 32).isValidChar := Or.inl (by omega)
    intro same
    have sameCode : head.toNat + 32 = 46 := by
      have moved := congrArg Char.toNat same
      rw [Char.ofNat, dif_pos valid] at moved
      exact moved
    omega
  · rintro rfl
    exact absurd plain (by decide)

theorem byteLen_of_plain {text : Text}
    (plain : ∀ head ∈ text, isHostCharacter head = true) :
    byteLen text = text.length := by
  induction text with
  | nil =>
      rfl
  | cons head tail inductionHypothesis =>
      rw [byteLen_cons, List.length_cons,
        utf8Size_of_plain (plain head List.mem_cons_self),
        inductionHypothesis fun other later =>
          plain other (List.mem_cons_of_mem _ later)]
      exact Nat.add_comm _ _

theorem isHostLabel_iff {label : Text} :
    isHostLabel label = true ↔ IsLabel label := by
  simp only [isHostLabel, Bool.and_eq_true, Bool.not_eq_true',
    Bool.eq_false_iff, ne_eq, startsWith_singleton, endsWith_singleton,
    List.isEmpty_iff, decide_eq_true_eq, List.all_eq_true]
  constructor
  · rintro ⟨⟨⟨⟨visible, short⟩, plain⟩, first⟩, last⟩
    rw [byteLen_of_plain plain] at short
    exact ⟨visible, short, plain, first, last⟩
  · intro shape
    have short := shape.short
    rw [← byteLen_of_plain shape.plain] at short
    exact ⟨⟨⟨⟨shape.visible, short⟩, shape.plain⟩, shape.first⟩,
      shape.last⟩

/-! ## Labelled hosts -/

section Labelled

variable {host : Text} {labels : List Text}

theorem IsLabelled.nonempty (shape : IsLabelled host labels) :
    labels ≠ [] := by
  rintro rfl
  exact absurd shape.several (by decide)

theorem IsLabelled.plain (shape : IsLabelled host labels) {head : Char}
    (member : head ∈ host) : head = '.' ∨ isHostCharacter head = true := by
  rw [shape.joined] at member
  rcases mem_intercalate member with stop | ⟨label, among, inside⟩
  · exact Or.inl (List.mem_singleton.mp stop)
  · exact Or.inr ((shape.labelled label among).plain head inside)

theorem IsLabelled.trim_eq (shape : IsLabelled host labels) :
    trim host = host := by
  apply Trimmed.trim_eq
  apply Trimmed.of_visible
  intro head member
  rcases shape.plain member with rfl | plain
  · decide
  · exact isWhitespace_of_plain plain

theorem IsLabelled.splitOn_eq (shape : IsLabelled host labels) :
    host.splitOn '.' = labels := by
  rw [shape.joined]
  apply List.splitOn_intercalate _ _ shape.nonempty
  intro label among inside
  exact absurd ((shape.labelled label among).plain '.' inside) (by decide)

theorem IsLabelled.splitOn_lowercase (shape : IsLabelled host labels) :
    (asciiLowercase host).splitOn '.' = labels.map asciiLowercase := by
  rw [shape.joined, asciiLowercase, map_intercalate]
  apply List.splitOn_intercalate
  · intro lowered among inside
    obtain ⟨label, isLabel, rfl⟩ := List.mem_map.mp among
    obtain ⟨head, inLabel, same⟩ := List.mem_map.mp inside
    have plain := (shape.labelled label isLabel).plain head inLabel
    exact toAsciiLower_ne_stop plain same
  · intro empty
    exact shape.nonempty (List.map_eq_nil_iff.mp empty)

theorem IsLabelled.hasKnownHostSuffix_iff (engine : Engine)
    (shape : IsLabelled host labels)
    (trimmed : trimEndMatches (· == '.') host = host) :
    hasKnownHostSuffix engine host = true ↔
      HasKnownSuffix engine labels := by
  have visible : asciiLowercase host ≠ [] := by
    intro empty
    have size := congrArg List.length shape.splitOn_lowercase
    rw [empty, List.length_map] at size
    have several := shape.several
    rw [← size] at several
    exact absurd several (by decide)
  have isLast :
      labels.getLast? = some (labels.getLast shape.nonempty) :=
    List.getLast?_eq_some_getLast shape.nonempty
  unfold hasKnownHostSuffix HasKnownSuffix
  simp only [shape.trim_eq, trimmed, shape.splitOn_lowercase,
    List.isEmpty_iff, if_neg visible, List.getLast?_map, isLast,
    Option.map_some, ← shape.joined]
  by_cases known : engine.hasKnownSuffix (asciiLowercase host) = true
  · simp [known]
  · simp [known]

/-- What is left of a value by the guards of `is_valid_domain`. -/
theorem hasHostLabels_iff {engine : Engine} {value : Text} :
    hasHostLabels engine value = true ↔
      ∃ labels, IsLabelled (hostText value) labels ∧
        HasKnownSuffix engine labels := by
  have trimmed :
      trimEndMatches (· == '.') (hostText value) = hostText value :=
    List.rdropWhile_idempotent _ _
  simp only [hasHostLabels, Bool.if_false_left, Bool.and_eq_true,
    Bool.not_eq_true', decide_eq_false_iff_not, Nat.not_lt,
    List.all_eq_true, isHostLabel_iff]
  change (2 ≤ ((hostText value).splitOn '.').length ∧
    (∀ label ∈ (hostText value).splitOn '.', IsLabel label) ∧
      hasKnownHostSuffix engine (hostText value) = true) ↔ _
  constructor
  · rintro ⟨several, labelled, known⟩
    have shape :
        IsLabelled (hostText value) ((hostText value).splitOn '.') :=
      ⟨(List.intercalate_splitOn '.').symm, several, labelled⟩
    exact ⟨_, shape, (shape.hasKnownHostSuffix_iff engine trimmed).mp known⟩
  · rintro ⟨labels, shape, known⟩
    rw [shape.splitOn_eq]
    exact ⟨shape.several, shape.labelled,
      (shape.hasKnownHostSuffix_iff engine trimmed).mpr known⟩

/-- Only white space and full stops are trimmed away, so a character that is
neither has to be in a label. -/
theorem IsLabelled.not_mem {value : Text}
    (shape : IsLabelled (hostText value) labels) {head : Char}
    (visible : isWhitespace head = false) (notStop : (head == '.') = false)
    (foreign : isHostCharacter head = false) : head ∉ value := by
  intro member
  have inHost : head ∈ hostText value :=
    mem_trimEndMatches (mem_trim member visible) notStop
  rcases shape.plain inHost with rfl | plain
  · cases notStop
  · rw [foreign] at plain
    cases plain

end Labelled

/-- Two functions that call each other as `is_valid_domain` and
`is_valid_email` do, whatever is taken for an IP literal. -/
structure CallEachOther (engine : Engine) (isIpLiteral : Text → Bool)
    (validDomain validEmail : Text → Bool) : Prop where
  domain :
    ∀ value, validDomain value =
      if validEmail value || contains value (lit "://") ||
          isIpLiteral value then
        false
      else
        hasHostLabels engine value
  email : ∀ value, validEmail value = isValidEmailWith validDomain value

section Recursion

variable {engine : Engine} {isIpLiteral validDomain validEmail : Text → Bool}

theorem IsHostName.separator_not_mem {value : Text}
    (host : IsHostName engine isIpLiteral value) : '@' ∉ value := by
  obtain ⟨_, shape, _⟩ := host.host
  exact shape.not_mem (by decide) (by decide) (by decide)

theorem IsHostName.nonempty {value : Text}
    (host : IsHostName engine isIpLiteral value) : value ≠ [] := by
  rintro rfl
  obtain ⟨labels, shape, _⟩ := host.host
  have several := shape.several
  rw [← shape.splitOn_eq] at several
  exact absurd several (by decide)

theorem CallEachOther.email_without_separator
    (calls : CallEachOther engine isIpLiteral validDomain validEmail)
    {value : Text} (absent : '@' ∉ value) : validEmail value = false := by
  rw [calls.email, Bool.eq_false_iff]
  intro valid
  obtain ⟨localPart, domain, rfl, _⟩ := isValidEmailWith_iff.mp valid
  exact absent (by simp)

/-- The guards refuse no host name: it has neither `@` nor a colon. -/
theorem CallEachOther.domain_iff
    (calls : CallEachOther engine isIpLiteral validDomain validEmail)
    (value : Text) :
    validDomain value = true ↔ IsHostName engine isIpLiteral value := by
  rw [calls.domain]
  constructor
  · intro valid
    split at valid
    · cases valid
    · rename_i unguarded
      simp only [Bool.or_eq_true, not_or, Bool.not_eq_true] at unguarded
      exact ⟨unguarded.2, hasHostLabels_iff.mp valid⟩
  · intro host
    obtain ⟨labels, shape, known⟩ := host.host
    have noColon : ':' ∉ value :=
      shape.not_mem (by decide) (by decide) (by decide)
    have noScheme : contains value (lit "://") = false := by
      rw [Bool.eq_false_iff, Ne, contains_iff]
      intro scheme
      exact noColon (scheme.subset (by decide))
    rw [calls.email_without_separator host.separator_not_mem, noScheme,
      host.notIp]
    exact hasHostLabels_iff.mpr host.host

theorem CallEachOther.email_iff
    (calls : CallEachOther engine isIpLiteral validDomain validEmail)
    (value : Text) :
    validEmail value = true ↔ IsMailAddress engine isIpLiteral value := by
  rw [calls.email, isValidEmailWith_iff]
  constructor
  · rintro ⟨localPart, domain, rfl, accepted, visible, _, ending, valid⟩
    have host := (calls.domain_iff domain).mp valid
    have notBefore : localPart.count '@' = 0 :=
      List.count_eq_zero.mpr (separator_not_mem accepted)
    have notBehind : domain.count '@' = 0 :=
      List.count_eq_zero.mpr host.separator_not_mem
    have once : (localPart ++ '@' :: domain).count '@' = 1 := by
      rw [List.count_append, List.count_cons_self, notBefore, notBehind]
    have noStop : domain.getLast? ≠ some '.' := by
      rwa [Bool.eq_false_iff, Ne, endsWith_singleton] at ending
    exact ⟨once, localPart, domain, rfl, visible,
      List.all_eq_true.mp accepted, noStop, host⟩
  · intro address
    obtain ⟨localPart, domain, shape, visible, accepted, noStop, host⟩ :=
      address.parts
    have ending : endsWith domain ['.'] = false := by
      rwa [Bool.eq_false_iff, Ne, endsWith_singleton]
    exact ⟨localPart, domain, shape, List.all_eq_true.mpr accepted, visible,
      host.nonempty, ending, (calls.domain_iff domain).mpr host⟩

end Recursion

theorem callEachOther_validators (engine : Engine) :
    CallEachOther engine (fun value => (parseIpAddress value).isSome)
      (isValidDomain engine) (isValidEmail engine) where
  domain := isValidDomain_eq engine
  email := fun _ => rfl

/-- The calls of the validators end, and what they return is membership in
the grammar; a text with several `@` is neither a domain nor an address. -/
theorem validators_eq_grammar (engine : Engine) (value : Text) :
    (∀ fuel, value.length < fuel →
      isValidDomainWithin engine fuel value = isValidDomain engine value) ∧
    (isValidEmail engine value = true ↔
      IsMailAddress engine (fun value => (parseIpAddress value).isSome)
        value) ∧
    (isValidDomain engine value = true ↔
      IsHostName engine (fun value => (parseIpAddress value).isSome)
        value) ∧
    (2 ≤ value.count '@' →
      isValidEmail engine value = false ∧
        isValidDomain engine value = false) := by
  have calls := callEachOther_validators engine
  refine ⟨?_, calls.email_iff value, calls.domain_iff value, ?_⟩
  · intro fuel enough
    exact isValidDomainWithin_eq engine enough (Nat.lt_succ_self _)
  · intro several
    constructor
    · rw [Bool.eq_false_iff, Ne, calls.email_iff]
      intro address
      have once := address.once
      omega
    · rw [Bool.eq_false_iff, Ne, calls.domain_iff]
      intro host
      have none := List.count_eq_zero.mpr host.separator_not_mem
      omega

end Redactor
