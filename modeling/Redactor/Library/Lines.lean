import Redactor.Library.Characters

/-!
# Texts that are read line by line

A text is cut after every separator, so that a line keeps its ending and the
last line may be without one.
-/

namespace Utf8

variable {separator : Char}

/-- Cut a text after every separator. -/
def splitInclusive (separator : Char) : Text → List Text
  | [] => []
  | head :: tail =>
      if head = separator then
        [head] :: splitInclusive separator tail
      else
        match splitInclusive separator tail with
        | [] => [[head]]
        | line :: rest => (head :: line) :: rest

theorem splitInclusive_ended {line : Text} (inner : separator ∉ line)
    (rest : Text) :
    splitInclusive separator (line ++ separator :: rest) =
      (line ++ [separator]) :: splitInclusive separator rest := by
  induction line with
  | nil =>
      simp [splitInclusive]
  | cons head tail inductionHypothesis =>
      have different : head ≠ separator := by
        intro same
        exact inner (by simp [same])
      have later : separator ∉ tail :=
        fun member => inner (List.mem_cons_of_mem head member)
      simp only [List.cons_append]
      rw [splitInclusive, if_neg different, inductionHypothesis later]

theorem splitInclusive_last {line : Text} (inner : separator ∉ line)
    (nonempty : line ≠ []) :
    splitInclusive separator line = [line] := by
  induction line with
  | nil =>
      exact absurd rfl nonempty
  | cons head tail inductionHypothesis =>
      have different : head ≠ separator := by
        intro same
        exact inner (by simp [same])
      have later : separator ∉ tail :=
        fun member => inner (List.mem_cons_of_mem head member)
      rw [splitInclusive, if_neg different]
      cases tail with
      | nil =>
          rfl
      | cons next others =>
          rw [inductionHypothesis later (by simp)]

/-- Every line gets an ending, the last one only when the text is
`terminated`. -/
def endLines (separator : Char) (terminated : Bool) : List Text → List Text
  | [] => []
  | [line] => [if terminated then line ++ [separator] else line]
  | line :: next :: rest =>
      (line ++ [separator]) :: endLines separator terminated (next :: rest)

@[simp]
theorem length_endLines (separator : Char) (terminated : Bool)
    (lines : List Text) :
    (endLines separator terminated lines).length = lines.length := by
  induction lines with
  | nil =>
      rfl
  | cons line rest inductionHypothesis =>
      cases rest with
      | nil =>
          rfl
      | cons next others =>
          simp only [endLines, List.length_cons] at inductionHypothesis ⊢
          rw [inductionHypothesis]

/-- The lines a text was made of are the lines it is cut into. -/
theorem splitInclusive_endLines (terminated : Bool) {lines : List Text}
    (inner : ∀ line ∈ lines, separator ∉ line)
    (nonempty : ∀ line ∈ lines, line ≠ []) :
    splitInclusive separator
        (endLines separator terminated lines).flatten =
      endLines separator terminated lines := by
  induction lines with
  | nil =>
      rfl
  | cons line rest inductionHypothesis =>
      have innerLine := inner line List.mem_cons_self
      cases rest with
      | nil =>
          cases terminated with
          | false =>
              have alone :=
                splitInclusive_last innerLine (nonempty line List.mem_cons_self)
              simpa [endLines] using alone
          | true =>
              have alone := splitInclusive_ended innerLine []
              simpa [endLines, splitInclusive] using alone
      | cons next others =>
          have continued :=
            inductionHypothesis
              (fun later member =>
                inner later (List.mem_cons_of_mem line member))
              (fun later member =>
                nonempty later (List.mem_cons_of_mem line member))
          simp only [endLines, List.flatten_cons, List.append_assoc,
            List.singleton_append]
          rw [splitInclusive_ended innerLine, continued]

def splitWhitespace (text : Text) : List Text :=
  (text.splitOnP isWhitespace).filter fun word => !word.isEmpty

/-- A text that has white space at neither end. -/
structure Trimmed (text : Text) : Prop where
  first : text.head?.any isWhitespace = false
  last : text.getLast?.any isWhitespace = false

theorem Trimmed.trimStart_append {text : Text} (trimmed : Trimmed text)
    (nonempty : text ≠ []) (rest : Text) :
    trimStartMatches isWhitespace (text ++ rest) = text ++ rest := by
  cases text with
  | nil =>
      exact absurd rfl nonempty
  | cons head tail =>
      have visible : isWhitespace head = false := trimmed.first
      simp [trimStartMatches, visible]

theorem Trimmed.trimEnd_eq {text : Text} (trimmed : Trimmed text) :
    trimEndMatches isWhitespace text = text := by
  apply List.rdropWhile_eq_self_iff.mpr
  intro nonempty
  have visible := trimmed.last
  rw [List.getLast?_eq_some_getLast nonempty, Option.any_some] at visible
  simp [visible]

theorem Trimmed.trim_eq {text : Text} (trimmed : Trimmed text) :
    trim text = text := by
  by_cases empty : text = []
  · rw [empty]
    rfl
  · have front := trimmed.trimStart_append empty []
    rw [List.append_nil] at front
    rw [trim, trimMatches, front, trimmed.trimEnd_eq]

theorem Trimmed.of_visible {text : Text}
    (visible : ∀ head ∈ text, isWhitespace head = false) : Trimmed text where
  first := by
    rw [Option.any_eq_false]
    intro head begins
    simp [visible head (List.mem_of_mem_head? begins)]
  last := by
    rw [Option.any_eq_false]
    intro head ends
    simp [visible head (List.mem_of_mem_getLast? ends)]

/-- A line ending after a trimmed text is trimmed away. -/
theorem Trimmed.trim_ended {text : Text} (trimmed : Trimmed text)
    (nonempty : text ≠ []) {head : Char} (blank : isWhitespace head = true) :
    trim (text ++ [head]) = text := by
  rw [trim, trimMatches, trimmed.trimStart_append nonempty, trimEndMatches,
    List.rdropWhile_concat_pos _ _ _ blank]
  exact trimmed.trimEnd_eq

/-- White space after a trimmed text is trimmed away. -/
theorem Trimmed.trim_append {text blanks : Text} (trimmed : Trimmed text)
    (nonempty : text ≠ []) (isBlank : blanks.all isWhitespace = true) :
    trim (text ++ blanks) = text := by
  rw [trim, trimMatches, trimmed.trimStart_append nonempty]
  induction blanks using List.reverseRecOn with
  | nil =>
      rw [List.append_nil]
      exact trimmed.trimEnd_eq
  | append_singleton blanks last inductionHypothesis =>
      rw [List.all_append, Bool.and_eq_true] at isBlank
      have blank : isWhitespace last = true := by
        simpa using isBlank.2
      rw [← List.append_assoc, trimEndMatches,
        List.rdropWhile_concat_pos _ _ _ blank]
      exact inductionHypothesis isBlank.1

def startsWith (text beginning : Text) : Bool :=
  beginning.isPrefixOf text

theorem startsWith_iff {text beginning : Text} :
    startsWith text beginning = true ↔ beginning <+: text :=
  List.isPrefixOf_iff_prefix

theorem startsWith_singleton {text : Text} {head : Char} :
    startsWith text [head] = true ↔ text.head? = some head := by
  cases text with
  | nil =>
      simp [startsWith]
  | cons first rest =>
      rw [startsWith_iff, List.cons_prefix_cons, List.head?_cons,
        Option.some_inj, and_iff_left List.nil_prefix]
      exact eq_comm

@[simp]
theorem startsWith_append (beginning rest : Text) :
    startsWith (beginning ++ rest) beginning = true :=
  startsWith_iff.mpr (List.prefix_append beginning rest)

theorem dropPrefix?_append (beginning rest : Text) :
    (beginning ++ rest).dropPrefix? beginning = some rest :=
  List.dropPrefix?_eq_some_iff.mpr ⟨beginning, rfl, beq_self_eq_true _⟩

/-- A line ending has no part in a beginning without one. -/
theorem startsWith_ended {text beginning : Text}
    (inner : separator ∉ beginning) :
    startsWith (text ++ [separator]) beginning =
      startsWith text beginning := by
  apply Bool.eq_iff_iff.mpr
  rw [startsWith_iff, startsWith_iff]
  constructor
  · intro begins
    rcases List.prefix_concat_iff.mp begins with whole | early
    · rw [whole] at inner
      exact absurd (by simp) inner
    · exact early
  · intro begins
    exact begins.trans (List.prefix_append text [separator])

end Utf8
