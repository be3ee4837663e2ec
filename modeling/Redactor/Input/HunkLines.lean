import Redactor.Input.GitDiff

/-!
# Ranges of the body lines of a git diff

The loop gives every body line of a diff its range, under the path of its file,
exactly when no body line looks like the header of a file.
-/

namespace Redactor

open Utf8

/-- What the lines read so far say about the next one. -/
structure Position where
  inHunk : Bool
  path : Option FilePath

def Position.after (position : Position) : DiffLine → Position
  | .diffGit _ => { inHunk := false, path := none }
  | .oldPath path => { position with path := some path }
  | .newPath path => { position with path := some path }
  | .hunkHeader _ => { position with inHunk := true }
  | _ => position

/-- Every body line stands in a hunk of its own file. -/
def InPlace : Position → List DiffLine → Prop
  | _, [] => True
  | position, line :: rest =>
      (∀ path body, line = .body path body →
        position.inHunk = true ∧ position.path = some path) ∧
      InPlace (position.after line) rest

theorem inPlace_body (path : FilePath) (body : List BodyLine)
    {rest : List DiffLine}
    (continued : InPlace { inHunk := true, path := some path } rest) :
    InPlace { inHunk := true, path := some path }
      (body.flatMap (BodyLine.lines path) ++ rest) := by
  induction body with
  | nil =>
      exact continued
  | cons line others inductionHypothesis =>
      simp only [List.flatMap_cons, BodyLine.lines, List.cons_append,
        List.append_assoc]
      constructor
      · intro other body same
        cases same
        exact ⟨rfl, rfl⟩
      · cases line.noNewline with
        | false =>
            exact inductionHypothesis
        | true =>
            exact ⟨by simp, inductionHypothesis⟩

theorem inPlace_hunks (path : FilePath) (hunks : List Hunk)
    {rest : List DiffLine}
    (continued :
      ∀ inHunk, InPlace { inHunk := inHunk, path := some path } rest)
    (inHunk : Bool) :
    InPlace { inHunk := inHunk, path := some path }
      (hunks.flatMap (Hunk.lines path) ++ rest) := by
  induction hunks generalizing inHunk with
  | nil =>
      exact continued inHunk
  | cons hunk others inductionHypothesis =>
      simp only [List.flatMap_cons, Hunk.lines, List.cons_append,
        List.append_assoc]
      exact ⟨by simp, inPlace_body path hunk.body (inductionHypothesis true)⟩

theorem inPlace_headers (position : Position) (headers : List HeaderLine)
    {rest : List DiffLine} (continued : InPlace position rest) :
    InPlace position (headers.map .extended ++ rest) := by
  induction headers with
  | nil =>
      exact continued
  | cons header others inductionHypothesis =>
      exact ⟨by simp, inductionHypothesis⟩

theorem inPlace_sections (sections : List FileSection)
    (position : Position) :
    InPlace position (sections.flatMap FileSection.lines) := by
  induction sections generalizing position with
  | nil =>
      trivial
  | cons part others inductionHypothesis =>
      simp only [List.flatMap_cons, FileSection.lines, List.cons_append,
        List.append_assoc]
      refine ⟨by simp, inPlace_headers _ part.headers ⟨by simp, by simp, ?_⟩⟩
      exact inPlace_hunks part.path part.hunks
        (fun inHunk => inductionHypothesis _) false

def DiffLine.isBody : DiffLine → Bool
  | .body _ _ => true
  | _ => false

/-- The loop is where the lines say. -/
structure DiffState.Follows (state : DiffState) (position : Position) :
    Prop where
  noBinary : state.inBinaryPatch = false
  hunk : state.inHunk = position.inHunk

/-- The loop has the path of the file. -/
def DiffState.Knows (state : DiffState) (position : Position) : Prop :=
  ∀ path, position.path = some path → state.currentFilePath = some path.text

namespace DiffState

variable {state : DiffState} {position : Position} {line : DiffLine}
  {ending : Text}

theorem follows_step (follows : state.Follows position)
    (isEnding : Ending ending)
    (placed : ∀ path body, line = .body path body → position.inHunk = true) :
    (state.step (line.text ++ ending)).Follows (position.after line) ∧
      (state.step (line.text ++ ending)).offset =
        state.offset + byteLen (line.text ++ ending) ∧
      (state.step (line.text ++ ending)).ranges =
        state.ranges ++
          if line.isBody && noticed (line, line.text ++ ending) then
            [{ start := state.offset + 1
               finish := state.offset + byteLen (line.text ++ ending)
               filePath := state.currentFilePath }]
          else
            [] := by
  have noBinary := follows.noBinary
  have hunk := follows.hunk
  cases line with
  | diffGit path =>
      obtain ⟨current, next⟩ := state.step_diffGit path ending
      rw [next]
      exact ⟨⟨rfl, rfl⟩, rfl, by simp [DiffLine.isBody]⟩
  | extended header =>
      rw [state.step_extended header ending noBinary]
      exact ⟨⟨noBinary, hunk⟩, rfl, by simp [DiffLine.isBody]⟩
  | oldPath path =>
      rw [state.step_path path isEnding (.inl rfl)]
      exact ⟨⟨noBinary, hunk⟩, rfl, by simp [DiffLine.isBody]⟩
  | newPath path =>
      rw [state.step_path path isEnding (.inr rfl)]
      exact ⟨⟨noBinary, hunk⟩, rfl, by simp [DiffLine.isBody]⟩
  | hunkHeader header =>
      rw [state.step_hunkHeader header ending noBinary]
      exact ⟨⟨noBinary, rfl⟩, rfl, by simp [DiffLine.isBody]⟩
  | noNewline =>
      rw [state.step_noNewline ending noBinary]
      exact ⟨⟨noBinary, hunk⟩, rfl, by simp [DiffLine.isBody]⟩
  | body path line =>
      have inHunk := hunk.trans (placed path line rfl)
      obtain ⟨current, _, next⟩ :=
        state.step_body path line isEnding noBinary inHunk
      rw [next]
      refine ⟨⟨noBinary, hunk⟩, rfl, ?_⟩
      simp only [DiffLine.isBody, Bool.true_and]
      split <;> simp

/-- The path stays known as long as every line is noticed. -/
theorem knows_step (follows : state.Follows position)
    (knows : state.Knows position) (isEnding : Ending ending)
    (placed : ∀ path body, line = .body path body → position.inHunk = true)
    (seen : noticed (line, line.text ++ ending) = true) :
    (state.step (line.text ++ ending)).Knows (position.after line) := by
  have noBinary := follows.noBinary
  intro path known
  cases line with
  | diffGit _ =>
      cases known
  | extended header =>
      rw [state.step_extended header ending noBinary]
      exact knows path known
  | oldPath other =>
      rw [state.step_path other isEnding (.inl rfl)]
      cases known
      rfl
  | newPath other =>
      rw [state.step_path other isEnding (.inr rfl)]
      cases known
      rfl
  | hunkHeader header =>
      rw [state.step_hunkHeader header ending noBinary]
      exact knows path known
  | noNewline =>
      rw [state.step_noNewline ending noBinary]
      exact knows path known
  | body other line =>
      have inHunk := follows.hunk.trans (placed other line rfl)
      obtain ⟨current, unchanged, next⟩ :=
        state.step_body other line isEnding noBinary inHunk
      have plain : line.disguised = false := by
        simp only [noticed, Bool.and_eq_true, Bool.not_eq_true'] at seen
        exact seen.1
      rw [next]
      exact (unchanged plain).trans (knows path known)

end DiffState

/-- Every entry is a line with what may follow it. -/
def Ended (entries : List (DiffLine × Text)) : Prop :=
  ∀ entry ∈ entries,
    ∃ ending, Ending ending ∧ entry.2 = entry.1.text ++ ending

/-- When every line is noticed, every body line gets its range. -/
theorem ranges_of_noticed {entries : List (DiffLine × Text)}
    {state : DiffState} {position : Position}
    (ended : Ended entries)
    (placed : InPlace position (entries.map Prod.fst))
    (follows : state.Follows position) (knows : state.Knows position)
    (seen : ∀ entry ∈ entries, noticed entry = true) :
    ((entries.map Prod.snd).foldl DiffState.step state).ranges =
      state.ranges ++ bodyRanges state.offset entries := by
  induction entries generalizing state position with
  | nil =>
      simp [bodyRanges]
  | cons entry rest inductionHypothesis =>
      obtain ⟨line, text⟩ := entry
      obtain ⟨ending, isEnding, shape⟩ := ended (line, text) List.mem_cons_self
      simp only at shape
      obtain ⟨here, later⟩ := placed
      have inHunk :
          ∀ path body, line = .body path body → position.inHunk = true :=
        fun path body same => (here path body same).1
      have seenHere := seen (line, text) List.mem_cons_self
      rw [shape] at seenHere
      obtain ⟨followsNext, offsetNext, rangesNext⟩ :=
        DiffState.follows_step follows isEnding inHunk
      have knowsNext :=
        DiffState.knows_step follows knows isEnding inHunk seenHere
      have continued :=
        inductionHypothesis
          (fun other member => ended other (List.mem_cons_of_mem _ member))
          later followsNext knowsNext
          (fun other member => seen other (List.mem_cons_of_mem _ member))
      simp only [List.map_cons, List.foldl_cons]
      rw [shape, continued, rangesNext, offsetNext, seenHere]
      cases line with
      | body path body =>
          have known := knows path (here path body rfl).2
          simp [DiffLine.isBody, bodyRanges, known]
      | _ =>
          simp [DiffLine.isBody, bodyRanges]

/-- The loop gives one range to every body line it notices. -/
theorem length_ranges {entries : List (DiffLine × Text)}
    {state : DiffState} {position : Position}
    (ended : Ended entries)
    (placed : InPlace position (entries.map Prod.fst))
    (follows : state.Follows position) :
    ((entries.map Prod.snd).foldl DiffState.step state).ranges.length =
      state.ranges.length +
        entries.countP fun entry => entry.1.isBody && noticed entry := by
  induction entries generalizing state position with
  | nil =>
      simp
  | cons entry rest inductionHypothesis =>
      obtain ⟨line, text⟩ := entry
      obtain ⟨ending, isEnding, shape⟩ := ended (line, text) List.mem_cons_self
      simp only at shape
      obtain ⟨here, later⟩ := placed
      obtain ⟨followsNext, _, rangesNext⟩ :=
        DiffState.follows_step follows isEnding
          (fun path body same => (here path body same).1)
      have continued :=
        inductionHypothesis
          (fun other member => ended other (List.mem_cons_of_mem _ member))
          later followsNext
      simp only [List.map_cons, List.foldl_cons, List.countP_cons]
      rw [shape, continued, rangesNext]
      split
      · simp
        omega
      · simp

theorem length_bodyRanges (offset : Nat) (entries : List (DiffLine × Text)) :
    (bodyRanges offset entries).length =
      entries.countP fun entry => entry.1.isBody := by
  induction entries generalizing offset with
  | nil =>
      rfl
  | cons entry rest inductionHypothesis =>
      obtain ⟨line, text⟩ := entry
      cases line <;>
        simp [bodyRanges, DiffLine.isBody, inductionHypothesis]

/-! ## The lines of a diff -/

theorem DiffLine.newline_not_mem_text (line : DiffLine) :
    '\n' ∉ line.text := by
  cases line with
  | diffGit path =>
      simp [DiffLine.text, lit, path.inner]
  | extended header =>
      have inner := header.inner
      obtain ⟨kind, value, _⟩ := header
      cases kind <;> simp [DiffLine.text, ExtendedHeader.text, lit, inner]
  | oldPath path =>
      simp [DiffLine.text, lit, path.inner]
  | newPath path =>
      simp [DiffLine.text, lit, path.inner]
  | hunkHeader hunk =>
      simp [DiffLine.text, lit, hunk.inner]
  | body path line =>
      have inner := line.inner
      obtain ⟨marker, content, _, _⟩ := line
      cases marker <;> simp [DiffLine.text, Marker.char, inner]
  | noNewline =>
      decide

theorem DiffLine.text_ne_nil (line : DiffLine) : line.text ≠ [] := by
  cases line with
  | extended header =>
      obtain ⟨kind, value, _⟩ := header
      cases kind <;> simp [DiffLine.text, ExtendedHeader.text, lit]
  | _ =>
      simp [DiffLine.text, lit]

theorem ended_zip (terminated : Bool) (lines : List DiffLine) :
    Ended (lines.zip (endLines '\n' terminated (lines.map DiffLine.text))) := by
  induction lines with
  | nil =>
      intro entry member
      cases member
  | cons line rest inductionHypothesis =>
      intro entry member
      cases rest with
      | nil =>
          simp only [List.map_cons, List.map_nil, endLines, List.zip_cons_cons,
            List.zip_nil_right, List.mem_singleton] at member
          rw [member]
          cases terminated with
          | false =>
              exact ⟨[], .inl rfl, by simp⟩
          | true =>
              exact ⟨['\n'], .inr rfl, by simp⟩
      | cons next others =>
          rcases List.mem_cons.mp member with here | later
          · rw [here]
            exact ⟨['\n'], .inr rfl, rfl⟩
          · exact inductionHypothesis entry later

namespace GitDiff

variable (diff : GitDiff)

theorem splitInclusive_text :
    splitInclusive '\n' diff.text = diff.endedTexts := by
  apply splitInclusive_endLines
  · intro text member
    obtain ⟨line, _, same⟩ := List.mem_map.mp member
    rw [← same]
    exact line.newline_not_mem_text
  · intro text member
    obtain ⟨line, _, same⟩ := List.mem_map.mp member
    rw [← same]
    exact line.text_ne_nil

theorem map_fst_entries : diff.entries.map Prod.fst = diff.lines := by
  apply List.map_fst_zip
  simp [endedTexts]

theorem map_snd_entries : diff.entries.map Prod.snd = diff.endedTexts := by
  apply List.map_snd_zip
  simp [endedTexts]

end GitDiff

theorem noticed_of_countP_eq {entries : List (DiffLine × Text)}
    (counted :
      (entries.countP fun entry => entry.1.isBody && noticed entry) =
        entries.countP fun entry => entry.1.isBody) :
    ∀ entry ∈ entries, entry.1.isBody = true → noticed entry = true := by
  intro entry member body
  by_contra overlooked
  have fewer :
      ∀ part : List (DiffLine × Text),
        (part.countP fun entry => entry.1.isBody && noticed entry) ≤
          part.countP fun entry => entry.1.isBody := by
    intro part
    apply List.countP_mono_left
    intro other _ both
    exact (Bool.and_eq_true_iff.mp both).1
  have unnoticed := Bool.eq_false_iff.mpr overlooked
  obtain ⟨before, after, shape⟩ := List.append_of_mem member
  have fewerBefore := fewer before
  have fewerAfter := fewer after
  rw [shape] at counted
  simp only [List.countP_append, List.countP_cons, body, unnoticed,
    Bool.and_false, Bool.false_eq_true, if_false, if_true] at counted
  omega

/-- A diff is redacted as it should be exactly when the loop notices each of
its body lines. -/
theorem gitDiff_ranges_eq_iff (diff : GitDiff) (sourcePath : Option Text) :
    redactableRanges diff.text .gitDiff sourcePath =
        bodyRanges 0 diff.entries ↔
      ∀ entry ∈ diff.entries, noticed entry = true := by
  have ended : Ended diff.entries := ended_zip diff.terminated diff.lines
  have start : DiffState.initial.Follows { inHunk := false, path := none } :=
    ⟨rfl, rfl⟩
  have placed :
      InPlace { inHunk := false, path := none }
        (diff.entries.map Prod.fst) := by
    rw [diff.map_fst_entries]
    exact inPlace_sections diff.sections _
  have run :
      redactableRanges diff.text .gitDiff sourcePath =
        ((diff.entries.map Prod.snd).foldl DiffState.step
          DiffState.initial).ranges := by
    rw [diff.map_snd_entries, ← diff.splitInclusive_text]
    rfl
  rw [run]
  constructor
  · intro same
    have counted := length_ranges ended placed start
    rw [same, length_bodyRanges] at counted
    -- both counts agree, so no body line is overlooked
    simp only [DiffState.initial, List.length_nil, Nat.zero_add] at counted
    have all := noticed_of_countP_eq counted.symm
    intro entry member
    by_cases body : entry.1.isBody = true
    · exact all entry member body
    · obtain ⟨line, text⟩ := entry
      cases line <;> first | rfl | exact absurd rfl body
  · intro seen
    have given :=
      ranges_of_noticed ended placed start (fun path known => by cases known)
        seen
    simpa [DiffState.initial] using given

/-- A change to a comment of a database script. -/
def sampleDiff : GitDiff where
  sections :=
    [{ path :=
         { text := lit "schema.sql"
           nonempty := by decide
           inner := by decide
           relative := by decide
           trimmed := ⟨by decide, by decide⟩ }
       headers :=
         [{ header := .index
            value := lit "1111111..2222222 100644"
            inner := by decide }]
       hunks :=
         [{ header := lit " -1,2 +1,1 @@"
            inner := by decide
            body :=
              [{ marker := .removed
                 content := lit "-- password: hunter2"
                 noNewline := false
                 inner := by decide },
               { marker := .context
                 content := lit "select 1;"
                 noNewline := false
                 inner := by decide }] }] }]
  terminated := true

/-- The removed comment is read as a path header: it gets no range, and the
line after it gets the comment for a path. -/
theorem removed_comment_is_overlooked :
    ¬ ∀ (diff : GitDiff) (sourcePath : Option Text),
      redactableRanges diff.text .gitDiff sourcePath =
        bodyRanges 0 diff.entries := by
  intro exact
  have same := exact sampleDiff none
  revert same
  decide +kernel

end Redactor
