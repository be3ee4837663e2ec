import Redactor.Detect.RunningText

/-!
# Phone numbers in running text

The scanner cuts the text into runs: a sign or a digit, and then digits and
fillers as far as they reach.  A run is taken whole or not at all, so the phone
numbers that are found are the runs without their trailing blanks that are valid
and stand between characters of no word.
-/

namespace Redactor

open Utf8

/-- What may stand between the digits. -/
def isPhoneFiller (head : Char) : Bool :=
  head == ' ' || head == '\t' || head == '(' || head == ')' || head == '.' ||
    head == '-'

/-- What a run goes on with. -/
def isPhoneBody (head : Char) : Bool :=
  isAsciiDigit head || isPhoneFiller head

/-- What a run begins with. -/
def isPhoneOpener (head : Char) : Bool :=
  isAsciiDigit head || head == '+'

/-- No run that has begun before goes on here. -/
def StartsFresh (before : Text) : Prop :=
  ∀ front opener fillers, before = front ++ opener :: fillers →
    isPhoneOpener opener = true → fillers.all isPhoneFiller = true → False

/-- The segment is a run of the scanner between the texts around it. -/
structure PhoneRun (before segment after : Text) : Prop where
  opens :
    ∃ head body, segment = head :: body ∧ body.all isPhoneBody = true ∧
      (head = '+' ∨ isAsciiDigit head = true ∧ StartsFresh before)
  ends : ∀ head ∈ after.head?, isPhoneBody head = false

section Runs

variable {before after segment : Text} {head : Char}

theorem isPhoneBody_cases (body : isPhoneBody head = true) :
    isPhoneOpener head = true ∨ isPhoneFiller head = true := by
  simp only [isPhoneBody, isPhoneOpener, Bool.or_eq_true] at body ⊢
  tauto

theorem not_sign_of_isPhoneBody (body : isPhoneBody head = true) :
    head ≠ '+' := by
  rintro rfl
  exact absurd body (by decide)

/-- Behind an opener and characters of a run no digit is fresh. -/
theorem not_fresh_of_body {body : Text} (opens : isPhoneOpener head = true)
    (inside : body.all isPhoneBody = true) :
    ¬ StartsFresh (before ++ head :: body) := by
  induction body using List.reverseRecOn with
  | nil =>
      intro fresh
      exact fresh before head [] rfl opens rfl
  | append_singleton body last inductionHypothesis =>
      rw [List.all_append, Bool.and_eq_true] at inside
      have lastInside : isPhoneBody last = true := by
        simpa using inside.2
      intro fresh
      rcases isPhoneBody_cases lastInside with opener | filler
      · exact fresh (before ++ head :: body) last [] (by simp) opener rfl
      · refine inductionHypothesis inside.1 ?_
        intro front opener fillers shape isOpener isFillers
        refine fresh front opener (fillers ++ [last]) ?_ isOpener ?_
        · rw [← List.cons_append, ← List.append_assoc, shape]
          simp
        · rw [List.all_append, isFillers]
          simpa using filler

/-- A character that opens no run is no part of one either, or is a filler that
goes on with none. -/
theorem fresh_snoc (closed : isPhoneOpener head = false)
    (bounded : isPhoneFiller head = true → StartsFresh before) :
    StartsFresh (before ++ [head]) := by
  intro front opener fillers shape isOpener isFillers
  induction fillers using List.reverseRecOn with
  | nil =>
      obtain ⟨_, last⟩ := List.append_inj' shape rfl
      rw [List.singleton_inj.mp last, isOpener] at closed
      cases closed
  | append_singleton fillers last _ =>
      rw [List.all_append, Bool.and_eq_true] at isFillers
      rw [← List.cons_append, ← List.append_assoc] at shape
      obtain ⟨same, isLast⟩ := List.append_inj' shape rfl
      have filler : isPhoneFiller head = true := by
        rw [List.singleton_inj.mp isLast]
        simpa using isFillers.2
      exact bounded filler front opener fillers same isOpener isFillers.1

end Runs

def countDigits (text : Text) : Nat := (text.filter isAsciiDigit).length

theorem phoneSegment_false (offset : Nat) (text : Text) :
    phoneSegment false (charIndicesFrom offset text) =
      (countDigits (text.takeWhile isPhoneBody),
        charIndicesFrom (offset + byteLen (text.takeWhile isPhoneBody))
          (text.dropWhile isPhoneBody)) := by
  induction text generalizing offset with
  | nil =>
      rfl
  | cons head tail inductionHypothesis =>
      simp only [charIndicesFrom, phoneSegment, Bool.and_false,
        Bool.false_eq_true, if_false]
      rw [inductionHypothesis]
      by_cases digit : isAsciiDigit head = true
      · have body : isPhoneBody head = true := by
          simp [isPhoneBody, digit]
        rw [if_pos digit, List.takeWhile_cons_of_pos body,
          List.dropWhile_cons_of_pos body]
        simp [countDigits, digit, Nat.add_assoc]
      · rw [if_neg digit]
        change (if isPhoneFiller head = true then _ else _) = _
        by_cases filler : isPhoneFiller head = true
        · have body : isPhoneBody head = true := by
            simp [isPhoneBody, filler]
          rw [if_pos filler, List.takeWhile_cons_of_pos body,
            List.dropWhile_cons_of_pos body]
          simp [countDigits, digit, Nat.add_assoc]
        · have stops : ¬ isPhoneBody head = true := by
            simp [isPhoneBody, digit, filler]
          rw [if_neg filler, List.takeWhile_cons_of_neg stops,
            List.dropWhile_cons_of_neg stops]
          rfl

theorem phoneSegment_true {head : Char} (opens : isPhoneOpener head = true)
    (offset : Nat) (tail : Text) :
    phoneSegment true (charIndicesFrom offset (head :: tail)) =
      (countDigits (head :: tail.takeWhile isPhoneBody),
        charIndicesFrom
          (offset + byteLen (head :: tail.takeWhile isPhoneBody))
          (tail.dropWhile isPhoneBody)) := by
  simp only [charIndicesFrom, phoneSegment, Bool.and_true]
  rw [phoneSegment_false]
  by_cases sign : head = '+'
  · subst sign
    have noDigit : isAsciiDigit '+' = false := rfl
    simp [countDigits, noDigit, Nat.add_assoc]
  · have digit : isAsciiDigit head = true := by
      simpa [isPhoneOpener, sign] using opens
    rw [if_neg (by simpa using sign), if_pos digit]
    simp [countDigits, digit, Nat.add_assoc]

section Position

variable {before tail : Text} {head : Char}

theorem PhoneRun.first {segment after : Text}
    (run : PhoneRun before segment after) :
    ∃ head body, segment = head :: body ∧ isPhoneOpener head = true := by
  obtain ⟨head, body, shape, _, opens⟩ := run.opens
  refine ⟨head, body, shape, ?_⟩
  rcases opens with rfl | ⟨digit, _⟩
  · rfl
  · simp [isPhoneOpener, digit]

/-- The run of the scanner at an opener. -/
theorem phoneRun_at (opens : isPhoneOpener head = true)
    (bounded : StartsFresh before ∨ isPhoneBody head = false) :
    PhoneRun before (head :: tail.takeWhile isPhoneBody)
      (tail.dropWhile isPhoneBody) where
  opens := by
    refine ⟨head, _, rfl, List.all_takeWhile, ?_⟩
    by_cases sign : head = '+'
    · exact .inl sign
    · have digit : isAsciiDigit head = true := by
        simpa [isPhoneOpener, sign] using opens
      refine .inr ⟨digit, bounded.resolve_right ?_⟩
      simp [isPhoneBody, digit]
  ends := by
    intro next isNext
    have stopped := List.head?_dropWhile_not isPhoneBody tail
    rw [Option.mem_def.mp isNext] at stopped
    simpa using stopped

/-- At an opener the run is the one of the scanner, or lies behind it. -/
theorem PhoneRun.at_or_behind {front segment after : Text}
    (opens : isPhoneOpener head = true)
    (shape : head :: tail = front ++ (segment ++ after))
    (run : PhoneRun (before ++ front) segment after) :
    (front = [] ∧ segment = head :: tail.takeWhile isPhoneBody) ∨
      ∃ later,
        front = (head :: tail.takeWhile isPhoneBody) ++ later ∧
          tail.dropWhile isPhoneBody = later ++ (segment ++ after) := by
  obtain ⟨first, body, isSegment, inside, begins⟩ := run.opens
  cases front with
  | nil =>
      rw [isSegment, List.nil_append, List.cons_append,
        List.cons.injEq] at shape
      obtain ⟨rfl, isTail⟩ := shape
      rw [isTail, takeWhile_stretch inside run.ends]
      exact .inl ⟨rfl, isSegment⟩
  | cons other front =>
      rw [List.cons_append, List.cons.injEq] at shape
      obtain ⟨rfl, isTail⟩ := shape
      have parts :
          tail.takeWhile isPhoneBody ++ tail.dropWhile isPhoneBody =
            front ++ (segment ++ after) := by
        rw [List.takeWhile_append_dropWhile, isTail]
      rcases List.append_eq_append_iff.mp parts with
        ⟨middle, isFront, rest⟩ | ⟨middle, isRun, rest⟩
      · exact .inr ⟨middle, by rw [isFront]; rfl, rest⟩
      · cases middle with
        | nil =>
            rw [List.append_nil] at isRun
            exact .inr ⟨[], by rw [isRun, List.append_nil],
              rest.symm⟩
        | cons next middle =>
            -- the run would begin among the characters of the first one
            rw [isSegment, List.cons_append, List.cons_append,
              List.cons.injEq] at rest
            obtain ⟨rfl, _⟩ := rest
            have within :
                (front ++ first :: middle).all isPhoneBody = true := by
              rw [← isRun]
              exact List.all_takeWhile
            rw [List.all_append, List.all_cons, Bool.and_eq_true,
              Bool.and_eq_true] at within
            obtain ⟨frontInside, firstInside, _⟩ := within
            rcases begins with sign | ⟨_, fresh⟩
            · exact absurd sign (not_sign_of_isPhoneBody firstInside)
            · exact absurd fresh (not_fresh_of_body opens frontInside)

/-- At another character no run begins. -/
theorem PhoneRun.behind_closed {front segment after : Text}
    (closed : isPhoneOpener head = false)
    (shape : head :: tail = front ++ (segment ++ after))
    (run : PhoneRun (before ++ front) segment after) :
    ∃ later, front = head :: later ∧ tail = later ++ (segment ++ after) := by
  cases front with
  | nil =>
      obtain ⟨first, body, isSegment, opens⟩ := run.first
      rw [isSegment, List.nil_append, List.cons_append,
        List.cons.injEq] at shape
      rw [shape.1, opens] at closed
      cases closed
  | cons other front =>
      rw [List.cons_append, List.cons.injEq] at shape
      exact ⟨front, by rw [shape.1], shape.2⟩

end Position

/-! ## All runs -/

/-- The finding is made in a run that begins in the rest of the text. -/
def InRun (text before rest : Text) (finding : Finding) : Prop :=
  ∃ front segment after,
    rest = front ++ (segment ++ after) ∧
      PhoneRun (before ++ front) segment after ∧ 7 ≤ countDigits segment ∧
      phoneIn text (byteLen (before ++ front))
          (byteLen (before ++ front) + byteLen segment) =
        some finding

section Loop

variable {text before tail : Text} {head : Char} {finding : Finding}

theorem inRun_nil : ¬ InRun text before [] finding := by
  rintro ⟨front, segment, after, shape, run, _⟩
  obtain ⟨first, body, rfl, _⟩ := run.first
  simp at shape

theorem inRun_closed (closed : isPhoneOpener head = false) :
    InRun text before (head :: tail) finding ↔
      InRun text (before ++ [head]) tail finding := by
  constructor
  · rintro ⟨front, segment, after, shape, run, digits, found⟩
    obtain ⟨later, rfl, rest⟩ := run.behind_closed closed shape
    refine ⟨later, segment, after, rest, ?_⟩
    rw [List.append_assoc]
    exact ⟨run, digits, found⟩
  · rintro ⟨front, segment, after, shape, run, digits, found⟩
    refine ⟨head :: front, segment, after, by rw [shape]; rfl, ?_⟩
    rw [List.append_assoc] at run found
    exact ⟨run, digits, found⟩

/-- The run at an opener, and the runs behind it. -/
theorem inRun_opener (opens : isPhoneOpener head = true)
    (bounded : StartsFresh before ∨ isPhoneBody head = false) :
    InRun text before (head :: tail) finding ↔
      (7 ≤ countDigits (head :: tail.takeWhile isPhoneBody) ∧
          phoneIn text (byteLen before)
              (byteLen before +
                byteLen (head :: tail.takeWhile isPhoneBody)) =
            some finding) ∨
        InRun text (before ++ head :: tail.takeWhile isPhoneBody)
          (tail.dropWhile isPhoneBody) finding := by
  constructor
  · rintro ⟨front, segment, after, shape, run, digits, found⟩
    rcases run.at_or_behind opens shape with ⟨rfl, rfl⟩ | ⟨later, rfl, rest⟩
    · rw [List.append_nil] at found
      exact .inl ⟨digits, found⟩
    · refine .inr ⟨later, segment, after, rest, ?_⟩
      rw [List.append_assoc]
      exact ⟨run, digits, found⟩
  · rintro (⟨digits, found⟩ | ⟨front, segment, after, rest, run, digits,
      found⟩)
    · refine ⟨[], _, tail.dropWhile isPhoneBody, ?_, ?_, digits, ?_⟩
      · rw [List.nil_append, List.cons_append,
          List.takeWhile_append_dropWhile]
      · rw [List.append_nil]
        exact phoneRun_at opens bounded
      · rw [List.append_nil]
        exact found
    · refine ⟨(head :: tail.takeWhile isPhoneBody) ++ front, segment, after,
        ?_, ?_⟩
      · rw [List.append_assoc, ← rest, List.cons_append,
          List.takeWhile_append_dropWhile]
      · rw [← List.append_assoc]
        exact ⟨run, digits, found⟩

end Loop

/-- The loop at an opener. -/
theorem detectPhonesFrom_opener {text before tail : Text} {head : Char}
    (opens : isPhoneOpener head = true) (shape : text = before ++ head :: tail)
    (fuel : Nat) :
    detectPhonesFrom text (fuel + 1)
        (charIndicesFrom (byteLen before) (head :: tail)) =
      (if 7 ≤ countDigits (head :: tail.takeWhile isPhoneBody) then
          phoneIn text (byteLen before)
            (byteLen before + byteLen (head :: tail.takeWhile isPhoneBody))
        else none).toList ++
        detectPhonesFrom text fuel
          (charIndicesFrom
            (byteLen (before ++ head :: tail.takeWhile isPhoneBody))
            (tail.dropWhile isPhoneBody)) := by
  have starts : (!isAsciiDigit head && head != '+') = false := by
    rw [isPhoneOpener] at opens
    rw [bne, ← Bool.not_or, opens]
    rfl
  have cut := phoneSegment_true opens (byteLen before) tail
  have whole :
      text =
        (before ++ head :: tail.takeWhile isPhoneBody) ++
          tail.dropWhile isPhoneBody := by
    rw [shape, List.append_assoc, List.cons_append,
      List.takeWhile_append_dropWhile]
  have endByte :
      ((charIndicesFrom
            (byteLen (before ++ head :: tail.takeWhile isPhoneBody))
            (tail.dropWhile isPhoneBody)).head?.map
          Prod.fst).getD (byteLen text) =
        byteLen (before ++ head :: tail.takeWhile isPhoneBody) := by
    rw [whole]
    exact endByte_eq _ _
  rw [charIndicesFrom] at cut ⊢
  rw [detectPhonesFrom, if_neg (Bool.eq_false_iff.mp starts), cut,
    ← byteLen_append]
  simp only [endByte]

/-- The loop at another character. -/
theorem detectPhonesFrom_closed {text tail : Text} {head : Char}
    (closed : isPhoneOpener head = false) (before : Text) (fuel : Nat) :
    detectPhonesFrom text (fuel + 1)
        (charIndicesFrom (byteLen before) (head :: tail)) =
      detectPhonesFrom text fuel
        (charIndicesFrom (byteLen (before ++ [head])) tail) := by
  have skips : (!isAsciiDigit head && head != '+') = true := by
    rw [isPhoneOpener] at closed
    rw [bne, ← Bool.not_or, closed]
    rfl
  have next : byteLen before + head.utf8Size = byteLen (before ++ [head]) := by
    simp
  rw [charIndicesFrom, detectPhonesFrom, if_pos skips, next]

/-- The loop finds what the runs behind its position give, by induction on the
steps; the position is never within a run. -/
theorem mem_detectPhonesFrom {text before rest : Text} {fuel : Nat}
    {finding : Finding} (enough : rest.length ≤ fuel)
    (shape : text = before ++ rest)
    (bounded :
      StartsFresh before ∨ ∀ head ∈ rest.head?, isPhoneBody head = false) :
    finding ∈
        detectPhonesFrom text fuel (charIndicesFrom (byteLen before) rest) ↔
      InRun text before rest finding := by
  induction fuel generalizing before rest with
  | zero =>
      obtain rfl := List.length_eq_zero_iff.mp (Nat.le_zero.mp enough)
      simp [detectPhonesFrom, inRun_nil]
  | succ fuel inductionHypothesis =>
      cases rest with
      | nil =>
          simp [charIndicesFrom, detectPhonesFrom, inRun_nil]
      | cons head tail =>
          rw [List.length_cons, Nat.succ_le_succ_iff] at enough
          have here : StartsFresh before ∨ isPhoneBody head = false :=
            bounded.imp_right fun stops => stops head rfl
          by_cases opens : isPhoneOpener head = true
          · have shorter : (tail.dropWhile isPhoneBody).length ≤ fuel :=
              (List.length_dropWhile_le _ tail).trans enough
            have whole :
                text =
                  (before ++ head :: tail.takeWhile isPhoneBody) ++
                    tail.dropWhile isPhoneBody := by
              rw [shape, List.append_assoc, List.cons_append,
                List.takeWhile_append_dropWhile]
            rw [detectPhonesFrom_opener opens shape, inRun_opener opens here,
              List.mem_append,
              inductionHypothesis shorter whole
                (.inr (phoneRun_at opens here).ends)]
            refine or_congr_left ?_
            rw [Option.mem_toList, Option.ite_none_right_eq_some]
          · rw [Bool.not_eq_true] at opens
            rw [detectPhonesFrom_closed opens, inRun_closed opens]
            refine inductionHypothesis enough (by rw [shape]; simp) (.inl ?_)
            refine fresh_snoc opens fun filler => here.resolve_right ?_
            simp [isPhoneBody, filler]

/-- A valid number with its trailing blanks, between characters of no word. -/
structure PhoneAt (before value blanks after : Text) : Prop where
  run : PhoneRun before (value ++ blanks) after
  visible : ∀ last ∈ value.getLast?, isWhitespace last = false
  isBlank : blanks.all isWhitespace = true
  valid : isValidPhone value = true
  previous : ∀ head ∈ before.getLast?, isAsciiAlphanumeric head = false
  next : ∀ head ∈ (blanks ++ after).head?, isAsciiAlphanumeric head = false

def phoneFinding (before value : Text) : Finding :=
  ruleFinding .phone value (normalize .phone value) 80 (byteLen before)
    (byteLen before + byteLen value)

section Number

variable {before value blanks after segment : Text} {finding : Finding}

theorem isWhitespace_of_isPhoneOpener {head : Char}
    (opens : isPhoneOpener head = true) : isWhitespace head = false := by
  simp only [isPhoneOpener, isAsciiDigit, Bool.or_eq_true, Bool.and_eq_true,
    decide_eq_true_eq, beq_iff_eq] at opens
  rcases opens with ⟨low, high⟩ | rfl
  · have fromZero : 0x30 ≤ head.toNat := low
    have toNine : head.toNat ≤ 0x39 := high
    simp only [isWhitespace, Bool.or_eq_false_iff, Bool.and_eq_false_iff,
      decide_eq_false_iff_not, beq_eq_false_iff_ne, ne_eq]
    omega
  · rfl

/-- What the scanner does with the number in a run. -/
theorem phoneIn_trimmed (trimmed : Trimmed value) (nonempty : value ≠ [])
    (isBlank : blanks.all isWhitespace = true) :
    phoneIn (before ++ ((value ++ blanks) ++ after)) (byteLen before)
          (byteLen before + byteLen (value ++ blanks)) =
        some finding ↔
      isValidPhone value = true ∧
        (∀ head ∈ before.getLast?, isAsciiAlphanumeric head = false) ∧
        (∀ head ∈ (blanks ++ after).head?,
          isAsciiAlphanumeric head = false) ∧
        finding = phoneFinding before value := by
  have whole :
      before ++ ((value ++ blanks) ++ after) =
        (before ++ value) ++ (blanks ++ after) := by
    simp
  have isNext :
      slice (before ++ ((value ++ blanks) ++ after))
          (byteLen before + byteLen value)
          (byteLen (before ++ ((value ++ blanks) ++ after))) =
        blanks ++ after := by
    rw [whole, ← byteLen_append]
    exact slice_right _ _
  simp only [phoneIn, slice_middle, trimmed.trim_append nonempty isBlank,
    find?_self_append, Option.getD_some, Nat.add_zero, slice_left, isNext]
  rw [Option.ite_none_right_eq_some, Option.ite_none_left_eq_some,
    Bool.not_eq_true, Bool.or_eq_false_iff, Option.any_eq_false,
    Option.any_eq_false, Option.some.injEq, and_assoc,
    @eq_comm _ finding]
  rfl

theorem trimmed_of_run {head : Char} {body : Text}
    (shape : value ++ blanks = head :: body) (nonempty : value ≠ [])
    (first : isWhitespace head = false)
    (last : ∀ last ∈ value.getLast?, isWhitespace last = false) :
    Trimmed value where
  first := by
    cases value with
    | nil =>
        exact absurd rfl nonempty
    | cons other value =>
        rw [List.cons_append, List.cons.injEq] at shape
        rw [List.head?_cons, Option.any_some, shape.1]
        exact first
  last := by
    rw [Option.any_eq_false]
    intro other ends
    simp [last other ends]

/-- A run has one number, which is valid or not. -/
theorem phoneIn_run (run : PhoneRun before segment after) :
    phoneIn (before ++ (segment ++ after)) (byteLen before)
          (byteLen before + byteLen segment) =
        some finding ↔
      ∃ value blanks, segment = value ++ blanks ∧
        PhoneAt before value blanks after ∧
        finding = phoneFinding before value := by
  obtain ⟨head, body, isSegment, opens⟩ := run.first
  have first := isWhitespace_of_isPhoneOpener opens
  constructor
  · intro found
    have parts :
        segment.rdropWhile isWhitespace ++ segment.rtakeWhile isWhitespace =
          segment :=
      List.rdropWhile_append_rtakeWhile
    have nonempty : segment.rdropWhile isWhitespace ≠ [] := by
      intro empty
      have blank := List.rdropWhile_eq_nil_iff.mp empty head
      rw [isSegment, first] at blank
      exact Bool.false_ne_true (blank List.mem_cons_self)
    have isBlank :
        (segment.rtakeWhile isWhitespace).all isWhitespace = true :=
      List.all_eq_true.mpr fun _ => List.mem_rtakeWhile_imp
    have last :
        ∀ last ∈ (segment.rdropWhile isWhitespace).getLast?,
          isWhitespace last = false := by
      intro last ends
      have stopped :=
        List.rdropWhile_last_not isWhitespace segment nonempty
      rw [Option.mem_def, List.getLast?_eq_some_getLast nonempty,
        Option.some.injEq] at ends
      rw [ends, Bool.not_eq_true] at stopped
      exact stopped
    have trimmed :=
      trimmed_of_run (parts.trans isSegment) nonempty first last
    rw [← parts] at found
    obtain ⟨valid, previous, next, isFinding⟩ :=
      (phoneIn_trimmed trimmed nonempty isBlank).mp found
    rw [← parts] at run
    exact ⟨_, _, parts.symm,
      ⟨run, last, isBlank, valid, previous, next⟩, isFinding⟩
  · rintro ⟨value, blanks, rfl, here, rfl⟩
    have nonempty : value ≠ [] := by
      rintro rfl
      exact absurd here.valid (by decide)
    have trimmed := trimmed_of_run isSegment nonempty first here.visible
    exact (phoneIn_trimmed trimmed nonempty here.isBlank).mpr
      ⟨here.valid, here.previous, here.next, rfl⟩

/-- A valid number has enough digits. -/
theorem PhoneAt.countDigits (here : PhoneAt before value blanks after) :
    7 ≤ countDigits (value ++ blanks) := by
  have valid := here.valid
  have trimmed :
      ((trim value).filter isAsciiDigit).length ≤
        Redactor.countDigits (value ++ blanks) :=
    (((trim_isInfix value).sublist.trans
      (List.sublist_append_left value blanks)).filter
        isAsciiDigit).length_le
  simp only [isValidPhone] at valid
  split at valid
  · cases valid
  · split at valid
    · cases valid
    · rename_i counted
      simp only [Bool.or_eq_true, decide_eq_true_eq, not_or, not_lt]
        at counted
      exact counted.1.trans trimmed

theorem InRun.exists_phoneAt {text rest : Text}
    (shape : text = before ++ rest) (inRun : InRun text before rest finding) :
    ∃ front value blanks after,
      rest = front ++ (value ++ (blanks ++ after)) ∧
        PhoneAt (before ++ front) value blanks after ∧
        finding = phoneFinding (before ++ front) value := by
  obtain ⟨front, segment, after, rfl, run, _, found⟩ := inRun
  rw [shape, ← List.append_assoc] at found
  obtain ⟨value, blanks, rfl, here, isFinding⟩ := (phoneIn_run run).mp found
  exact ⟨front, value, blanks, after, by simp, here, isFinding⟩

end Number

theorem fresh_nil : StartsFresh [] := by
  intro front opener fillers shape
  simp at shape

/-- The numbers are found from the left to the right. -/
theorem pairwise_detectPhonesFrom {text before rest : Text} {fuel : Nat}
    (enough : rest.length ≤ fuel) (shape : text = before ++ rest)
    (bounded :
      StartsFresh before ∨ ∀ head ∈ rest.head?, isPhoneBody head = false) :
    (detectPhonesFrom text fuel
        (charIndicesFrom (byteLen before) rest)).Pairwise fun first second =>
      first.finish ≤ second.start := by
  induction fuel generalizing before rest with
  | zero =>
      exact .nil
  | succ fuel inductionHypothesis =>
      cases rest with
      | nil =>
          exact .nil
      | cons head tail =>
          rw [List.length_cons, Nat.succ_le_succ_iff] at enough
          have here : StartsFresh before ∨ isPhoneBody head = false :=
            bounded.imp_right fun stops => stops head rfl
          by_cases opens : isPhoneOpener head = true
          · have shorter : (tail.dropWhile isPhoneBody).length ≤ fuel :=
              (List.length_dropWhile_le _ tail).trans enough
            have whole :
                text =
                  (before ++ head :: tail.takeWhile isPhoneBody) ++
                    tail.dropWhile isPhoneBody := by
              rw [shape, List.append_assoc, List.cons_append,
                List.takeWhile_append_dropWhile]
            have run :=
              @phoneRun_at before tail head opens here
            rw [detectPhonesFrom_opener opens shape, List.pairwise_append]
            refine ⟨?_, inductionHypothesis shorter whole (.inr run.ends), ?_⟩
            · exact Option.pairwise_toList
            · intro first isFirst second isSecond
              rw [Option.mem_toList, Option.ite_none_right_eq_some]
                at isFirst
              obtain ⟨_, found⟩ := isFirst
              rw [whole, List.append_assoc] at found
              obtain ⟨value, blanks, isRun, _, rfl⟩ :=
                (phoneIn_run run).mp found
              obtain ⟨front, other, _, _, _, _, rfl⟩ :=
                ((mem_detectPhonesFrom shorter whole
                  (.inr run.ends)).mp isSecond).exists_phoneAt whole
              rw [isRun]
              simp only [phoneFinding, ruleFinding, byteLen_append]
              omega
          · rw [Bool.not_eq_true] at opens
            rw [detectPhonesFrom_closed opens]
            refine inductionHypothesis enough (by rw [shape]; simp) (.inl ?_)
            refine fresh_snoc opens fun filler => here.resolve_right ?_
            simp [isPhoneBody, filler]

/-- The phone numbers that are found are the valid ones among the runs of the
text, each at its place, from the left to the right. -/
theorem phones_are_runs (text : Text) :
    (∀ finding,
      finding ∈ detectPhones text ↔
        ∃ before value blanks after,
          text = before ++ (value ++ (blanks ++ after)) ∧
            PhoneAt before value blanks after ∧
            finding = phoneFinding before value) ∧
      (detectPhones text).Pairwise fun first second =>
        first.finish ≤ second.start := by
  refine ⟨?_, @pairwise_detectPhonesFrom text [] text text.length le_rfl rfl
    (.inl fresh_nil)⟩
  intro finding
  have scanned : finding ∈ detectPhones text ↔ InRun text [] text finding :=
    @mem_detectPhonesFrom text [] text text.length finding le_rfl rfl
      (.inl fresh_nil)
  rw [scanned]
  constructor
  · intro inRun
    obtain ⟨front, value, blanks, after, shape, here, isFinding⟩ :=
      inRun.exists_phoneAt rfl
    exact ⟨front, value, blanks, after, shape, here, isFinding⟩
  · rintro ⟨before, value, blanks, after, rfl, here, isFinding⟩
    refine ⟨before, value ++ blanks, after, by simp, here.run,
      here.countDigits, ?_⟩
    rw [← List.append_assoc value, List.nil_append]
    exact (phoneIn_run here.run).mpr ⟨value, blanks, rfl, here, isFinding⟩

/-- A number is found behind a comma, and none behind a letter or a digit. -/
example :
    (detectPhones (lit "415-555-0123+15550100123, 555 0100 x5550100")).map
        Finding.matchText =
      [lit "415-555-0123", lit "555 0100"] := by
  decide +kernel

end Redactor
