import Redactor.Library.Lines

/-!
# Redactable ranges of an input

A plain text is redactable as a whole.  Of a git diff only the lines of the
hunks are, each after its marker; a loop over the lines tells them from the
headers by how they begin.
-/

namespace Redactor

open Utf8

inductive InputKind where
  | text
  | gitDiff
  deriving DecidableEq, Repr

structure RedactableRange where
  start : Nat
  finish : Nat
  filePath : Option Text
  deriving DecidableEq, Repr

def parseDiffGitPath (line : Text) : Option Text := do
  let rest ← line.dropPrefix? (lit "diff --git ")
  let pathPart ← (splitWhitespace rest).head?
  some ((pathPart.dropPrefix? (lit "a/")).getD pathPart)

def parseDiffPathLine (line : Text) : Option Text := do
  let rest ←
    if startsWith line (lit "+++ ") then
      line.dropPrefix? (lit "+++ ")
    else if startsWith line (lit "--- ") then
      line.dropPrefix? (lit "--- ")
    else
      none
  let path :=
    ((rest.dropPrefix? (lit "b/")).or (rest.dropPrefix? (lit "a/"))).getD rest
  let path := trim path
  if path.isEmpty || path == lit "/dev/null" then none else some path

/-- The variables of the loop over the lines. -/
structure DiffState where
  ranges : List RedactableRange
  offset : Nat
  inHunk : Bool
  inBinaryPatch : Bool
  currentFilePath : Option Text
  deriving DecidableEq, Repr

namespace DiffState

def initial : DiffState where
  ranges := []
  offset := 0
  inHunk := false
  inBinaryPatch := false
  currentFilePath := none

/-- The loop body. -/
def step (state : DiffState) (line : Text) : DiffState :=
  let after := { state with offset := state.offset + byteLen line }
  if startsWith line (lit "diff --git ") then
    { after with
      inHunk := false
      inBinaryPatch := false
      currentFilePath := parseDiffGitPath line }
  else if startsWith line (lit "+++ ") || startsWith line (lit "--- ") then
    -- `take` leaves nothing for the second alternative
    let current := ((parseDiffPathLine line).or state.currentFilePath).or none
    { after with
      currentFilePath :=
        if startsWith line (lit "+++ ") then
          (parseDiffPathLine line).or current
        else
          current }
  else if startsWith line (lit "GIT binary patch") ||
      startsWith line (lit "Binary files ") then
    { after with inHunk := false, inBinaryPatch := true }
  else if state.inBinaryPatch then
    after
  else if startsWith line (lit "@@") then
    { after with inHunk := true }
  else if !state.inHunk then
    after
  else if startsWith line (lit "\\ No newline at end of file") then
    after
  else if (line.head? == some '+' || line.head? == some '-' ||
      line.head? == some ' ') && decide (1 < byteLen line) then
    { after with
      ranges := state.ranges ++
        [{ start := state.offset + 1
           finish := state.offset + byteLen line
           filePath := state.currentFilePath }] }
  else
    after

end DiffState

def gitDiffRedactableRanges (text : Text) : List RedactableRange :=
  ((splitInclusive '\n' text).foldl DiffState.step DiffState.initial).ranges

def redactableRanges (text : Text) (inputKind : InputKind)
    (sourcePath : Option Text) : List RedactableRange :=
  match inputKind with
  | .text => [{ start := 0, finish := byteLen text, filePath := sourcePath }]
  | .gitDiff => gitDiffRedactableRanges text

end Redactor
