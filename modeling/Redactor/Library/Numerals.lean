import Redactor.Library.Utf8

/-!
# Decimal numerals in texts

Reading and writing unsigned machine integers: a numeral may carry one leading
plus sign, must have a digit, and must not exceed the largest value of its
type.  Writing a number and reading it back is the identity, with or without
padding by zeros.
-/

namespace Utf8

/-- Largest value of a 64-bit unsigned integer. -/
def unsignedMax : Nat := 0xffffffffffffffff

/-- Digits of a number, most significant first. -/
def numeral (value : Nat) : Text :=
  Nat.toDigits 10 value

/-- Digits of a number, padded on the left with zeros. -/
def paddedNumeral (width value : Nat) : Text :=
  (numeral value).leftpad width '0'

/-- Drop one leading plus sign. -/
def dropPlus : Text → Text
  | '+' :: tail => tail
  | text => text

/-- Read an unsigned integer of at most `limit`. -/
def parseUnsigned (limit : Nat) (text : Text) : Option Nat :=
  let digits := dropPlus text
  if digits = [] ∨ digits.any (fun head => !head.isDigit) then
    none
  else
    let value := Nat.ofDigitChars 10 digits 0
    if value ≤ limit then some value else none

theorem isDigit_of_mem_numeral {value : Nat} {head : Char}
    (member : head ∈ numeral value) :
    head.isDigit = true :=
  Nat.isDigit_of_mem_toDigits (by decide) (by decide) member

theorem isDigit_of_mem_paddedNumeral {width value : Nat} {head : Char}
    (member : head ∈ paddedNumeral width value) :
    head.isDigit = true := by
  rw [paddedNumeral, List.leftpad, List.mem_append] at member
  rcases member with padding | digit
  · rw [List.eq_of_mem_replicate padding]
    decide
  · exact isDigit_of_mem_numeral digit

theorem paddedNumeral_ne_nil (width value : Nat) :
    paddedNumeral width value ≠ [] := by
  simp [paddedNumeral, List.leftpad, numeral, Nat.toDigits_ne_nil]

theorem ofDigitChars_paddedNumeral (width value : Nat) :
    Nat.ofDigitChars 10 (paddedNumeral width value) 0 = value := by
  rw [paddedNumeral, List.leftpad, Nat.ofDigitChars_append,
    Nat.ofDigitChars_replicate_zero, Nat.mul_zero, numeral,
    Nat.ofDigitChars_ten_toDigits]

theorem dropPlus_of_digits {text : Text}
    (digits : ∀ head ∈ text, head.isDigit = true) :
    dropPlus text = text := by
  unfold dropPlus
  split
  · have impossible := digits '+' (by simp)
    exact absurd impossible (by decide)
  · rfl

theorem parseUnsigned_of_digits {limit : Nat} {text : Text}
    (nonempty : text ≠ [])
    (digits : ∀ head ∈ text, head.isDigit = true)
    (fits : Nat.ofDigitChars 10 text 0 ≤ limit) :
    parseUnsigned limit text = some (Nat.ofDigitChars 10 text 0) := by
  have noOther : text.any (fun head => !head.isDigit) = false := by
    rw [List.any_eq_false]
    intro head member
    simp [digits head member]
  simp [parseUnsigned, dropPlus_of_digits digits, nonempty, noOther, fits]

/-- Reading back a padded numeral. -/
theorem parseUnsigned_paddedNumeral {limit width value : Nat}
    (fits : value ≤ limit) :
    parseUnsigned limit (paddedNumeral width value) = some value := by
  rw [parseUnsigned_of_digits (paddedNumeral_ne_nil width value)
    (fun _ member => isDigit_of_mem_paddedNumeral member),
    ofDigitChars_paddedNumeral]
  rwa [ofDigitChars_paddedNumeral]

/-- Reading back an unpadded numeral. -/
theorem parseUnsigned_numeral {limit value : Nat}
    (fits : value ≤ limit) :
    parseUnsigned limit (numeral value) = some value := by
  have read : parseUnsigned limit (paddedNumeral 0 value) = some value :=
    parseUnsigned_paddedNumeral fits
  simpa [paddedNumeral, List.leftpad] using read

/-- What is read has digits and at most a plus sign. -/
theorem isDigit_of_parseUnsigned {limit value : Nat} {text : Text}
    (read : parseUnsigned limit text = some value) {head : Char}
    (member : head ∈ text) :
    head = '+' ∨ head.isDigit = true := by
  unfold parseUnsigned at read
  simp only at read
  split at read
  · cases read
  · rename_i digits
    simp only [not_or, Bool.not_eq_true, List.any_eq_false,
      Bool.not_eq_true', Bool.not_eq_false] at digits
    unfold dropPlus at digits
    split at digits
    · rcases List.mem_cons.mp member with plus | rest
      · exact Or.inl plus
      · exact Or.inr (digits.2 head rest)
    · exact Or.inr (digits.2 head member)

theorem le_of_parseUnsigned {limit value : Nat} {text : Text}
    (read : parseUnsigned limit text = some value) :
    value ≤ limit := by
  unfold parseUnsigned at read
  simp only at read
  split at read
  · cases read
  · split at read
    · cases read
      assumption
    · cases read

/-! ## The one spelling that is written -/

theorem digitChar_of_isDigit {head : Char} (digit : head.isDigit = true) :
    ∃ value < 10, head = Nat.digitChar value ∧
      head.toNat - '0'.toNat = value := by
  have bounds : 48 ≤ head.toNat ∧ head.toNat ≤ 57 := by
    simpa [Char.isDigit, UInt32.le_iff_toNat_le] using digit
  refine ⟨head.toNat - 48, by omega, ?_, rfl⟩
  have small : head.toNat - 48 < 10 := by omega
  have code : head = Char.ofNat (head.toNat - 48 + 48) := by
    rw [Nat.sub_add_cancel bounds.1, Char.ofNat_toNat]
  have table :
      ∀ value < 10, Char.ofNat (value + 48) = Nat.digitChar value := by
    decide
  rw [← table _ small]
  exact code

/-- Digits behind a positive number are appended to its digits. -/
theorem numeral_ofDigitChars {digits : Text} {init : Nat}
    (all : ∀ head ∈ digits, head.isDigit = true) (positive : 0 < init) :
    numeral (Nat.ofDigitChars 10 digits init) = numeral init ++ digits := by
  induction digits generalizing init with
  | nil =>
      simp
  | cons head tail inductionHypothesis =>
      obtain ⟨value, small, shape, code⟩ :=
        digitChar_of_isDigit (all head (by simp))
      have step : numeral (10 * init + value) = numeral init ++ [head] := by
        rw [numeral, ← Nat.toDigits_append_toDigits (by decide) positive small,
          Nat.toDigits_of_lt_base small, ← shape, numeral]
      rw [Nat.ofDigitChars_cons, code,
        inductionHypothesis (fun next member => all next (by simp [member]))
          (by omega),
        step, List.append_assoc, List.singleton_append]

theorem numeral_ofDigitChars_cons {head : Char} {tail : Text}
    (all : ∀ next ∈ head :: tail, next.isDigit = true)
    (leading : head ≠ '0') :
    numeral (Nat.ofDigitChars 10 (head :: tail) 0) = head :: tail := by
  obtain ⟨value, small, shape, code⟩ :=
    digitChar_of_isDigit (all head (by simp))
  have positive : 0 < value := by
    apply Nat.pos_of_ne_zero
    rintro rfl
    exact leading shape
  rw [Nat.ofDigitChars_cons, Nat.mul_zero, Nat.zero_add, code,
    numeral_ofDigitChars (fun next member => all next (by simp [member]))
      positive,
    numeral, Nat.toDigits_of_lt_base small, ← shape,
    List.singleton_append]

/-- Digits alone, padded to the width and no further. -/
def IsPadded (width : Nat) (text : Text) : Prop :=
  (∀ head ∈ text, head.isDigit = true) ∧ width ≤ text.length ∧
    (text.length = width ∨ text.head? ≠ some '0')

instance (width : Nat) (text : Text) : Decidable (IsPadded width text) :=
  inferInstanceAs (Decidable (_ ∧ _))

/-- Padding to the length of a text of digits gives the text. -/
theorem paddedNumeral_length {text : Text} (nonempty : text ≠ [])
    (all : ∀ head ∈ text, head.isDigit = true) :
    paddedNumeral text.length (Nat.ofDigitChars 10 text 0) = text := by
  induction text with
  | nil =>
      exact absurd rfl nonempty
  | cons head tail inductionHypothesis =>
      by_cases leading : head = '0'
      · have value :
            Nat.ofDigitChars 10 (head :: tail) 0 =
              Nat.ofDigitChars 10 tail 0 := by
          rw [Nat.ofDigitChars_cons, leading]
          rfl
        by_cases single : tail = []
        · rw [leading, single]
          decide
        · have rest :
              paddedNumeral tail.length (Nat.ofDigitChars 10 tail 0) =
                tail :=
            inductionHypothesis single
              fun next member => all next (by simp [member])
          rw [paddedNumeral, List.leftpad] at rest
          have size := congrArg List.length rest
          rw [List.length_append, List.length_replicate] at size
          rw [value, paddedNumeral, List.leftpad, List.length_cons,
            Nat.succ_sub (by omega), List.replicate_succ, List.cons_append,
            rest, leading]
      · rw [paddedNumeral, numeral_ofDigitChars_cons all leading,
          List.leftpad, Nat.sub_self, List.replicate_zero, List.nil_append]

/-- A positive number is written without a leading zero. -/
theorem head?_numeral_ne_zero {value : Nat} (positive : 0 < value) :
    (numeral value).head? ≠ some '0' := by
  induction value using Nat.strongRecOn with
  | ind value inductionHypothesis =>
      by_cases small : value < 10
      · have table :
            ∀ value < 10, 0 < value → Nat.digitChar value ≠ '0' := by
          decide
        rw [numeral, Nat.toDigits_of_lt_base small, List.head?_singleton,
          ne_eq, Option.some.injEq]
        exact table value small positive
      · rw [numeral, Nat.toDigits_of_base_le (by decide) (by omega),
          List.head?_append_of_ne_nil _ Nat.toDigits_ne_nil]
        exact inductionHypothesis (value / 10) (by omega) (by omega)

theorem isPadded_paddedNumeral {width value : Nat} (positive : 0 < width) :
    IsPadded width (paddedNumeral width value) := by
  refine ⟨fun _ member => isDigit_of_mem_paddedNumeral member, ?_, ?_⟩
  · rw [paddedNumeral, List.length_leftpad]
    exact Nat.le_max_left _ _
  · by_cases long : width < (numeral value).length
    · right
      have unpadded : paddedNumeral width value = numeral value := by
        rw [paddedNumeral, List.leftpad, Nat.sub_eq_zero_of_le (by omega),
          List.replicate_zero, List.nil_append]
      rw [unpadded]
      apply head?_numeral_ne_zero
      apply Nat.pos_of_ne_zero
      rintro rfl
      have size : (numeral 0).length = 1 := by decide
      omega
    · left
      rw [paddedNumeral, List.length_leftpad]
      exact Nat.max_eq_left (by omega)

/-- Among the texts that are read as a number, the one that is written for it
is the padded one. -/
theorem eq_paddedNumeral_iff {limit width value : Nat} {text : Text}
    (positive : 0 < width)
    (read : parseUnsigned limit text = some value) :
    text = paddedNumeral width value ↔ IsPadded width text := by
  constructor
  · rintro rfl
    exact isPadded_paddedNumeral positive
  · rintro ⟨digits, wide, padding⟩
    have nonempty : text ≠ [] := by
      rintro rfl
      simp only [List.length_nil] at wide
      omega
    have value_eq : Nat.ofDigitChars 10 text 0 = value := by
      unfold parseUnsigned at read
      simp only [dropPlus_of_digits digits] at read
      split at read
      · cases read
      · split at read
        · exact Option.some.inj read
        · cases read
    rw [← value_eq]
    rcases padding with exact_width | leading
    · rw [← exact_width, paddedNumeral_length nonempty digits]
    · obtain ⟨head, tail, rfl⟩ := List.exists_cons_of_ne_nil nonempty
      have noZero : head ≠ '0' := by
        rintro rfl
        exact leading rfl
      rw [paddedNumeral, numeral_ofDigitChars_cons digits noZero,
        List.leftpad, Nat.sub_eq_zero_of_le wide, List.replicate_zero,
        List.nil_append]

end Utf8

