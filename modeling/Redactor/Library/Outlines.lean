import Redactor.Library.Utf8

/-!
# The lines of a text in outline

The outline keeps the line endings of a text and the first character of every
line.  Replacing a part that has no line ending and does not open a line by
another such part leaves the outline as it is.
-/

namespace Utf8

variable (separator : Char)

/-- The endings and the first characters of the lines; `opening` says whether
the text begins a line. -/
def outline : Bool → Text → Text
  | _, [] => []
  | opening, head :: tail =>
      if head = separator then
        head :: outline true tail
      else if opening then
        head :: outline false tail
      else
        outline false tail

/-- Whether a line begins after the text. -/
def opens (opening : Bool) (text : Text) : Bool :=
  (text.getLast?.map (· == separator)).getD opening

/-- The first character of every line. -/
def lineHeads (text : Text) : List (Option Char) :=
  (text.splitOn separator).map List.head?

variable {separator}

@[simp]
theorem opens_nil (opening : Bool) :
    opens separator opening [] = opening := rfl

theorem opens_append (opening : Bool) (left right : Text) :
    opens separator opening (left ++ right) =
      opens separator (opens separator opening left) right := by
  cases right using List.reverseRecOn with
  | nil =>
      simp
  | append_singleton right last =>
      unfold opens
      rw [← List.append_assoc, List.getLast?_concat, List.getLast?_concat]
      rfl

theorem opens_cons (opening : Bool) (head : Char) (tail : Text) :
    opens separator opening (head :: tail) =
      opens separator (head == separator) tail := by
  have joined := @opens_append separator opening [head] tail
  simpa [opens] using joined

theorem outline_append (opening : Bool) (left right : Text) :
    outline separator opening (left ++ right) =
      outline separator opening left ++
        outline separator (opens separator opening left) right := by
  induction left generalizing opening with
  | nil =>
      simp [outline]
  | cons head tail inductionHypothesis =>
      rw [opens_cons]
      simp only [List.cons_append, outline]
      by_cases ending : head = separator
      · simp [ending, inductionHypothesis]
      · have other : (head == separator) = false := by simp [ending]
        cases opening
        · simp [ending, inductionHypothesis, other]
        · simp [ending, inductionHypothesis, other]

/-- Inside a line a part without an ending leaves no trace. -/
theorem outline_of_not_mem {text : Text} (unbroken : separator ∉ text) :
    outline separator false text = [] := by
  induction text with
  | nil =>
      rfl
  | cons head tail inductionHypothesis =>
      simp only [List.mem_cons, not_or] at unbroken
      simp [outline, Ne.symm unbroken.1, inductionHypothesis unbroken.2]

theorem opens_of_not_mem {text : Text} (unbroken : separator ∉ text) :
    opens separator false text = false := by
  unfold opens
  cases last : text.getLast? with
  | none =>
      rfl
  | some head =>
      have member := List.mem_of_getLast? last
      have other : head ≠ separator := by
        intro same
        rw [same] at member
        exact unbroken member
      simp [other]

theorem count_outline (opening : Bool) (text : Text) :
    (outline separator opening text).count separator =
      text.count separator := by
  induction text generalizing opening with
  | nil =>
      rfl
  | cons head tail inductionHypothesis =>
      unfold outline
      by_cases ending : head = separator
      · simp [ending, inductionHypothesis]
      · cases opening
        · simp [ending, inductionHypothesis]
        · simp [ending, inductionHypothesis]

/-- The lines of the outline: the first has no character when the text does not
begin a line. -/
theorem splitOn_outline (opening : Bool) (text : Text) :
    ∃ first rest, text.splitOn separator = first :: rest ∧
      (outline separator opening text).splitOn separator =
        (if opening then first.take 1 else []) ::
          rest.map (List.take 1) := by
  induction text generalizing opening with
  | nil =>
      exact ⟨[], [], by simp, by simp [outline]⟩
  | cons head tail inductionHypothesis =>
      unfold outline
      by_cases ending : head = separator
      · obtain ⟨first, rest, whole, cut⟩ := inductionHypothesis true
        refine ⟨[], tail.splitOn separator, ?_, ?_⟩
        · rw [List.splitOn_cons_eq_if_modifyHead]
          simp [ending]
        · rw [if_pos ending, List.splitOn_cons_eq_if_modifyHead, cut, whole]
          simp [ending]
      · obtain ⟨first, rest, whole, cut⟩ := inductionHypothesis false
        refine ⟨head :: first, rest, ?_, ?_⟩
        · rw [List.splitOn_cons_eq_if_modifyHead, whole]
          simp [ending]
        · rw [if_neg ending]
          cases opening
          · simpa using cut
          · rw [if_pos rfl, List.splitOn_cons_eq_if_modifyHead, cut]
            simp [ending]

theorem head?_take_one (line : Text) :
    (line.take 1).head? = line.head? := by
  cases line <;> rfl

theorem lineHeads_outline (text : Text) :
    lineHeads separator (outline separator true text) =
      lineHeads separator text := by
  obtain ⟨first, rest, whole, cut⟩ :=
    @splitOn_outline separator true text
  unfold lineHeads
  rw [cut, whole]
  simp [Function.comp_def, head?_take_one]

/-- Texts with the same outline have the same number of endings and the same
first characters of their lines. -/
theorem lines_eq_of_outline_eq {left right : Text}
    (same : outline separator true left = outline separator true right) :
    left.count separator = right.count separator ∧
      lineHeads separator left = lineHeads separator right := by
  constructor
  · rw [← count_outline true left, same, count_outline]
  · rw [← lineHeads_outline left, same, lineHeads_outline]

end Utf8
