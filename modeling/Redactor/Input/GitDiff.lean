import Redactor.Input.Ranges

/-!
# Lines of a git diff

A git diff as its writer sees it: files, hunks and body lines.  For every kind
of line it is shown what the loop over the lines does with it.
-/

namespace Redactor

open Utf8

inductive Marker where
  | context
  | added
  | removed
  deriving DecidableEq, Repr

def Marker.char : Marker → Char
  | .context => ' '
  | .added => '+'
  | .removed => '-'

/-- A line of a hunk; `noNewline` asks for the remark that the file ends here
without a line break. -/
structure BodyLine where
  marker : Marker
  content : Text
  noNewline : Bool
  inner : '\n' ∉ content

structure Hunk where
  header : Text
  body : List BodyLine
  inner : '\n' ∉ header

inductive ExtendedHeader where
  | index
  | oldMode
  | newMode
  | newFileMode
  | deletedFileMode
  deriving DecidableEq, Repr

def ExtendedHeader.text : ExtendedHeader → Text
  | .index => lit "index "
  | .oldMode => lit "old mode "
  | .newMode => lit "new mode "
  | .newFileMode => lit "new file mode "
  | .deletedFileMode => lit "deleted file mode "

structure HeaderLine where
  header : ExtendedHeader
  value : Text
  inner : '\n' ∉ value

/-- A path relative to the root of the repository. -/
structure FilePath where
  text : Text
  nonempty : text ≠ []
  inner : '\n' ∉ text
  relative : text.head? ≠ some '/'
  trimmed : Trimmed text

structure FileSection where
  path : FilePath
  headers : List HeaderLine
  hunks : List Hunk

/-- A diff is `terminated` when its last line has a line break. -/
structure GitDiff where
  sections : List FileSection
  terminated : Bool

inductive DiffLine where
  | diffGit (path : FilePath)
  | extended (header : HeaderLine)
  | oldPath (path : FilePath)
  | newPath (path : FilePath)
  | hunkHeader (hunk : Hunk)
  | body (path : FilePath) (line : BodyLine)
  | noNewline

def DiffLine.text : DiffLine → Text
  | .diffGit path =>
      lit "diff --git " ++ (lit "a/" ++ path.text ++ lit " b/" ++ path.text)
  | .extended header => header.header.text ++ header.value
  | .oldPath path => lit "--- " ++ (lit "a/" ++ path.text)
  | .newPath path => lit "+++ " ++ (lit "b/" ++ path.text)
  | .hunkHeader hunk => lit "@@" ++ hunk.header
  | .body _ line => line.marker.char :: line.content
  | .noNewline => lit "\\ No newline at end of file"

def BodyLine.lines (path : FilePath) (line : BodyLine) : List DiffLine :=
  .body path line :: if line.noNewline then [.noNewline] else []

def Hunk.lines (path : FilePath) (hunk : Hunk) : List DiffLine :=
  .hunkHeader hunk :: hunk.body.flatMap (BodyLine.lines path)

def FileSection.lines (part : FileSection) : List DiffLine :=
  .diffGit part.path ::
    (part.headers.map .extended ++
      (.oldPath part.path :: .newPath part.path ::
        part.hunks.flatMap (Hunk.lines part.path)))

namespace GitDiff

def lines (diff : GitDiff) : List DiffLine :=
  diff.sections.flatMap FileSection.lines

def endedTexts (diff : GitDiff) : List Text :=
  endLines '\n' diff.terminated (diff.lines.map DiffLine.text)

def text (diff : GitDiff) : Text :=
  diff.endedTexts.flatten

/-- The lines, each with its text and its line break. -/
def entries (diff : GitDiff) : List (DiffLine × Text) :=
  diff.lines.zip diff.endedTexts

end GitDiff

/-- One range for every body line, from behind its marker to its end. -/
def bodyRanges (offset : Nat) : List (DiffLine × Text) → List RedactableRange
  | [] => []
  | (.body path _, ended) :: rest =>
      { start := offset + 1
        finish := offset + byteLen ended
        filePath := some path.text } ::
      bodyRanges (offset + byteLen ended) rest
  | (_, ended) :: rest => bodyRanges (offset + byteLen ended) rest

/-- A body line that begins like the header of a file. -/
def BodyLine.disguised (line : BodyLine) : Bool :=
  match line.marker with
  | .context => false
  | .added => startsWith line.content (lit "++ ")
  | .removed => startsWith line.content (lit "-- ")

/-- A line that is not a body line, or a body line that the loop notices: it is
not disguised and something follows the marker. -/
def noticed : DiffLine × Text → Bool
  | (.body _ line, ended) => !line.disguised && decide (1 < byteLen ended)
  | _ => true

/-! ## What the loop does with a line -/

/-- What may follow a line: nothing or its line break. -/
def Ending (ending : Text) : Prop :=
  ending = [] ∨ ending = ['\n']

theorem startsWith_append_ending {text beginning ending : Text}
    (isEnding : Ending ending) (inner : '\n' ∉ beginning) :
    startsWith (text ++ ending) beginning = startsWith text beginning := by
  rcases isEnding with none | newline
  · rw [none, List.append_nil]
  · rw [newline]
    exact startsWith_ended inner

theorem FilePath.trim_ended (path : FilePath) {ending : Text}
    (isEnding : Ending ending) :
    trim (path.text ++ ending) = path.text := by
  rcases isEnding with none | newline
  · rw [none, List.append_nil]
    exact path.trimmed.trim_eq
  · rw [newline]
    exact path.trimmed.trim_ended path.nonempty (by decide)

theorem FilePath.kept (path : FilePath) :
    (path.text.isEmpty || path.text == lit "/dev/null") = false := by
  have visible : path.text.isEmpty = false := by
    simp [path.nonempty]
  have noDevice : path.text ≠ lit "/dev/null" := by
    intro device
    apply path.relative
    rw [device]
    rfl
  simp [visible, noDevice]

namespace DiffState

variable (state : DiffState) {ending : Text}

theorem step_diffGit (path : FilePath) (ending : Text) :
    ∃ current,
      state.step ((DiffLine.diffGit path).text ++ ending) =
        { state with
          offset :=
            state.offset + byteLen ((DiffLine.diffGit path).text ++ ending)
          inHunk := false
          inBinaryPatch := false
          currentFilePath := current } := by
  have begins :
      startsWith ((DiffLine.diffGit path).text ++ ending)
        (lit "diff --git ") = true := by
    rw [DiffLine.text, List.append_assoc]
    exact startsWith_append _ _
  exact ⟨_, by rw [step, if_pos begins]⟩

/-- A line that begins like nothing the loop looks for. -/
theorem step_ignored {line : Text}
    (noBinary : state.inBinaryPatch = false)
    (ignored :
      startsWith line (lit "diff --git ") = false ∧
      startsWith line (lit "+++ ") = false ∧
      startsWith line (lit "--- ") = false ∧
      startsWith line (lit "GIT binary patch") = false ∧
      startsWith line (lit "Binary files ") = false ∧
      startsWith line (lit "@@") = false ∧
      (line.head? == some '+') = false ∧
      (line.head? == some '-') = false ∧
      (line.head? == some ' ') = false) :
    state.step line =
      { state with offset := state.offset + byteLen line } := by
  unfold step
  simp [ignored, noBinary]

theorem step_extended (header : HeaderLine) (ending : Text)
    (noBinary : state.inBinaryPatch = false) :
    state.step ((DiffLine.extended header).text ++ ending) =
      { state with
        offset :=
          state.offset +
            byteLen ((DiffLine.extended header).text ++ ending) } := by
  apply step_ignored state noBinary
  obtain ⟨kind, value, inner⟩ := header
  simp only [DiffLine.text, List.append_assoc]
  cases kind <;>
    exact ⟨rfl, rfl, rfl, rfl, rfl, rfl, rfl, rfl, rfl⟩

theorem step_noNewline (ending : Text)
    (noBinary : state.inBinaryPatch = false) :
    state.step (DiffLine.noNewline.text ++ ending) =
      { state with
        offset :=
          state.offset + byteLen (DiffLine.noNewline.text ++ ending) } := by
  apply step_ignored state noBinary
  exact ⟨rfl, rfl, rfl, rfl, rfl, rfl, rfl, rfl, rfl⟩

theorem step_hunkHeader (hunk : Hunk) (ending : Text)
    (noBinary : state.inBinaryPatch = false) :
    state.step ((DiffLine.hunkHeader hunk).text ++ ending) =
      { state with
        offset :=
          state.offset + byteLen ((DiffLine.hunkHeader hunk).text ++ ending)
        inHunk := true } := by
  simp only [DiffLine.text, List.append_assoc]
  have begins := startsWith_append (lit "@@") (hunk.header ++ ending)
  have other :
      startsWith (lit "@@" ++ (hunk.header ++ ending)) (lit "diff --git ") =
          false ∧
        startsWith (lit "@@" ++ (hunk.header ++ ending)) (lit "+++ ") =
          false ∧
        startsWith (lit "@@" ++ (hunk.header ++ ending)) (lit "--- ") =
          false ∧
        startsWith (lit "@@" ++ (hunk.header ++ ending))
          (lit "GIT binary patch") = false ∧
        startsWith (lit "@@" ++ (hunk.header ++ ending))
          (lit "Binary files ") = false :=
    ⟨rfl, rfl, rfl, rfl, rfl⟩
  unfold step
  simp [begins, other, noBinary]

/-- Both path headers of a file carry its path. -/
theorem parseDiffPathLine_header (path : FilePath)
    (isEnding : Ending ending) :
    parseDiffPathLine ((DiffLine.oldPath path).text ++ ending) =
        some path.text ∧
      parseDiffPathLine ((DiffLine.newPath path).text ++ ending) =
        some path.text := by
  have visible := path.kept
  have trimmed := path.trim_ended isEnding
  constructor
  · have notNew :
        startsWith
          (lit "--- " ++ (lit "a/" ++ (path.text ++ ending)))
          (lit "+++ ") = false := rfl
    have notNewSide :
        (lit "a/" ++ (path.text ++ ending)).dropPrefix? (lit "b/") = none := rfl
    simp only [DiffLine.text, List.append_assoc, parseDiffPathLine, notNew,
      startsWith_append, dropPrefix?_append, notNewSide, Option.or,
      Option.getD, trimmed, visible, Option.bind_eq_bind, Option.bind_some,
      Bool.false_eq_true, if_false, if_true]
  · simp only [DiffLine.text, List.append_assoc, parseDiffPathLine,
      startsWith_append, dropPrefix?_append, Option.or,
      Option.getD, trimmed, visible, Option.bind_eq_bind, Option.bind_some,
      Bool.false_eq_true, if_false, if_true]

theorem step_path (path : FilePath) (isEnding : Ending ending)
    {line : DiffLine} (header : line = .oldPath path ∨ line = .newPath path) :
    state.step (line.text ++ ending) =
      { state with
        offset := state.offset + byteLen (line.text ++ ending)
        currentFilePath := some path.text } := by
  have parsed := parseDiffPathLine_header path isEnding
  rcases header with old | new
  · have notDiff :
        startsWith ((DiffLine.oldPath path).text ++ ending)
          (lit "diff --git ") = false := rfl
    have notNew :
        startsWith ((DiffLine.oldPath path).text ++ ending)
          (lit "+++ ") = false := rfl
    have begins :
        startsWith ((DiffLine.oldPath path).text ++ ending)
          (lit "--- ") = true := by
      rw [DiffLine.text, List.append_assoc]
      exact startsWith_append _ _
    rw [old, step]
    simp [notDiff, notNew, begins, parsed.1]
  · have notDiff :
        startsWith ((DiffLine.newPath path).text ++ ending)
          (lit "diff --git ") = false := rfl
    have begins :
        startsWith ((DiffLine.newPath path).text ++ ending)
          (lit "+++ ") = true := by
      rw [DiffLine.text, List.append_assoc]
      exact startsWith_append _ _
    rw [new, step]
    simp [notDiff, begins, parsed.2]

/-- A line with a marker is given a range, unless it begins like the header of
a file or has nothing behind the marker. -/
theorem step_marked {line : Text} (noBinary : state.inBinaryPatch = false)
    (hunk : state.inHunk = true)
    (other :
      startsWith line (lit "diff --git ") = false ∧
      startsWith line (lit "GIT binary patch") = false ∧
      startsWith line (lit "Binary files ") = false ∧
      startsWith line (lit "@@") = false ∧
      startsWith line (lit "\\ No newline at end of file") = false)
    (marked :
      (line.head? == some '+' || line.head? == some '-' ||
        line.head? == some ' ') = true)
    {disguised : Bool}
    (headerLike :
      (startsWith line (lit "+++ ") || startsWith line (lit "--- ")) =
        disguised) :
    ∃ current,
      (disguised = false → current = state.currentFilePath) ∧
      state.step line =
        { state with
          offset := state.offset + byteLen line
          currentFilePath := current
          ranges :=
            if !disguised && decide (1 < byteLen line) then
              state.ranges ++
                [{ start := state.offset + 1
                   finish := state.offset + byteLen line
                   filePath := state.currentFilePath }]
            else
              state.ranges } := by
  cases disguised with
  | true =>
      have skipped :
          ∃ current,
            state.step line =
              { state with
                offset := state.offset + byteLen line
                currentFilePath := current } := by
        unfold step
        simp only [other, headerLike, Bool.false_eq_true, if_false, if_true]
        exact ⟨_, rfl⟩
      obtain ⟨current, next⟩ := skipped
      exact ⟨current, by simp, by rw [next]; simp⟩
  | false =>
      apply Exists.intro state.currentFilePath
      refine ⟨fun _ => rfl, ?_⟩
      unfold step
      by_cases long : 1 < byteLen line <;>
        simp only [other, headerLike, noBinary, hunk, marked, long,
          Bool.false_eq_true, if_false, if_true, Bool.not_true,
          Bool.not_false, Bool.true_and, Bool.or_self, decide_true,
          decide_false]

/-- A body line is given a range when it is noticed, and skipped otherwise. -/
theorem step_body (path : FilePath) (line : BodyLine)
    (isEnding : Ending ending) (noBinary : state.inBinaryPatch = false)
    (hunk : state.inHunk = true) :
    ∃ current,
      (line.disguised = false → current = state.currentFilePath) ∧
      state.step ((DiffLine.body path line).text ++ ending) =
        { state with
          offset :=
            state.offset + byteLen ((DiffLine.body path line).text ++ ending)
          currentFilePath := current
          ranges :=
            if noticed
                (.body path line, (DiffLine.body path line).text ++ ending) then
              state.ranges ++
                [{ start := state.offset + 1
                   finish :=
                     state.offset +
                       byteLen ((DiffLine.body path line).text ++ ending)
                   filePath := state.currentFilePath }]
            else
              state.ranges } := by
  obtain ⟨marker, content, noNewline, inner⟩ := line
  cases marker with
  | context =>
      exact step_marked state noBinary hunk ⟨rfl, rfl, rfl, rfl, rfl⟩ rfl rfl
  | added =>
      have begins :
          startsWith ('+' :: (content ++ ending)) (lit "+++ ") =
            startsWith content (lit "++ ") :=
        startsWith_append_ending isEnding (by decide)
      have other :
          startsWith ('+' :: (content ++ ending)) (lit "--- ") = false := rfl
      apply step_marked state noBinary hunk ⟨rfl, rfl, rfl, rfl, rfl⟩ rfl
      exact (congrArg₂ _ begins other).trans (Bool.or_false _)
  | removed =>
      have begins :
          startsWith ('-' :: (content ++ ending)) (lit "--- ") =
            startsWith content (lit "-- ") :=
        startsWith_append_ending isEnding (by decide)
      have other :
          startsWith ('-' :: (content ++ ending)) (lit "+++ ") = false := rfl
      apply step_marked state noBinary hunk ⟨rfl, rfl, rfl, rfl, rfl⟩ rfl
      exact (congrArg₂ _ other begins).trans (Bool.false_or _)

end DiffState

end Redactor
