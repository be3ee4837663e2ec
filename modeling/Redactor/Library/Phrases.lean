import Redactor.Library.Utf8

/-!
# Phrases in composed texts

A phrase does not run across a character that it does not have.  So it occurs
in a text that has been put together around such characters only when it
occurs in one of the parts.
-/

namespace Utf8

variable {phrase : Text}

theorem prefix_append_foreign {before after : Text} {head : Char}
    (foreign : head ∉ phrase) :
    phrase <+: before ++ head :: after → phrase <+: before := by
  induction before generalizing phrase with
  | nil =>
      intro starts
      cases phrase with
      | nil =>
          exact List.prefix_refl []
      | cons first rest =>
          rw [List.nil_append, List.cons_prefix_cons] at starts
          rw [starts.1] at foreign
          exact absurd List.mem_cons_self foreign
  | cons first before inductionHypothesis =>
      intro starts
      cases phrase with
      | nil =>
          exact List.nil_prefix
      | cons letter rest =>
          rw [List.cons_append, List.cons_prefix_cons] at starts
          rw [List.cons_prefix_cons]
          refine ⟨starts.1, inductionHypothesis ?_ starts.2⟩
          exact fun member => foreign (List.mem_cons_of_mem letter member)

/-- A phrase occurs on one side of a character that it does not have. -/
theorem infix_append_foreign {before after : Text} {head : Char}
    (foreign : head ∉ phrase) :
    phrase <:+: before ++ head :: after ↔
      phrase <:+: before ∨ phrase <:+: after := by
  constructor
  · induction before with
    | nil =>
        intro occurs
        rcases List.infix_cons_iff.mp occurs with starts | later
        · exact Or.inl
            (@prefix_append_foreign phrase [] after head foreign
              starts).isInfix
        · exact Or.inr later
    | cons first before inductionHypothesis =>
        intro occurs
        rcases List.infix_cons_iff.mp occurs with starts | later
        · exact Or.inl
            (@prefix_append_foreign phrase (first :: before) after head
              foreign starts).isInfix
        · exact (inductionHypothesis later).imp_left
            fun inside => List.infix_cons inside
  · rintro (front | back)
    · exact front.trans (List.prefix_append before _).isInfix
    · exact (List.infix_cons back).trans
        (List.suffix_append before _).isInfix

/-- A phrase does not begin with a character that is not its first. -/
theorem infix_cons_other {text : Text} {head : Char} (nonempty : phrase ≠ [])
    (other : phrase.head? ≠ some head) :
    phrase <:+: head :: text ↔ phrase <:+: text := by
  rw [List.infix_cons_iff]
  apply or_iff_right
  intro starts
  cases phrase with
  | nil =>
      exact nonempty rfl
  | cons first rest =>
      rw [List.cons_prefix_cons] at starts
      exact other (congrArg some starts.1)

/-- A phrase in a list of parts with a mark and a blank between them. -/
theorem infix_intercalate {mark blank : Char} (nonempty : phrase ≠ [])
    (foreign : mark ∉ phrase) (other : phrase.head? ≠ some blank)
    {parts : List Text} :
    phrase <:+: [mark, blank].intercalate parts ↔
      ∃ part ∈ parts, phrase <:+: part := by
  induction parts with
  | nil =>
      rw [List.intercalate_nil, List.infix_nil]
      simp [nonempty]
  | cons part parts inductionHypothesis =>
      cases parts with
      | nil =>
          simp [List.intercalate_singleton]
      | cons next parts =>
          rw [List.intercalate_cons_cons, List.append_assoc,
            List.cons_append, infix_append_foreign foreign,
            List.singleton_append, infix_cons_other nonempty other,
            inductionHypothesis]
          exact (List.exists_mem_cons_iff _ _ _).symm

theorem infix_intercalate_of_mem {separator part : Text} {parts : List Text}
    (member : part ∈ parts) : part <:+: separator.intercalate parts := by
  induction parts with
  | nil =>
      cases member
  | cons first parts inductionHypothesis =>
      cases parts with
      | nil =>
          rw [List.mem_singleton.mp member, List.intercalate_singleton]
      | cons next parts =>
          rw [List.intercalate_cons_cons]
          rcases List.mem_cons.mp member with rfl | later
          · rw [List.append_assoc]
            exact (List.prefix_append _ _).isInfix
          · exact (inductionHypothesis later).trans
              (List.suffix_append _ _).isInfix

/-- A character of a joined list stands in a part or in a separator. -/
theorem mem_intercalate {separator : Text} {head : Char} {parts : List Text}
    (member : head ∈ separator.intercalate parts) :
    head ∈ separator ∨ ∃ part ∈ parts, head ∈ part := by
  induction parts with
  | nil =>
      cases member
  | cons part parts inductionHypothesis =>
      cases parts with
      | nil =>
          rw [List.intercalate_singleton] at member
          exact Or.inr ⟨part, List.mem_cons_self, member⟩
      | cons next parts =>
          rw [List.intercalate_cons_cons, List.append_assoc,
            List.mem_append, List.mem_append] at member
          rcases member with inPart | inSeparator | later
          · exact Or.inr ⟨part, List.mem_cons_self, inPart⟩
          · exact Or.inl inSeparator
          · rcases inductionHypothesis later with
              inSeparator | ⟨other, among, inOther⟩
            · exact Or.inl inSeparator
            · exact Or.inr ⟨other, List.mem_cons_of_mem _ among, inOther⟩

theorem map_intercalate (change : Char → Char) (separator : Text)
    (parts : List Text) :
    (separator.intercalate parts).map change =
      (separator.map change).intercalate
        (parts.map fun part => part.map change) := by
  induction parts with
  | nil =>
      rfl
  | cons part parts inductionHypothesis =>
      cases parts with
      | nil =>
          simp [List.intercalate_singleton]
      | cons next parts =>
          rw [List.intercalate_cons_cons, List.map_append,
            List.map_append, inductionHypothesis]
          exact List.intercalate_cons_cons.symm

/-- The fields of a text are parts of it. -/
theorem infix_of_mem_splitOn {separator : Char} {text field : Text}
    (member : field ∈ text.splitOn separator) : field <:+: text := by
  have part := @infix_intercalate_of_mem [separator] _ _ member
  rwa [List.intercalate_splitOn] at part

end Utf8
