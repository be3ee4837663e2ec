import Redactor.Library.Numerals
import Std.Data.TreeMap

/-!
# Findings, policies and sessions

The records that the detectors, the replacement processor and the session
layer exchange.  Field and constructor names are those of the Rust types.
-/

namespace Redactor

open Utf8

inductive FindingKind where
  | secret
  | domain
  | url
  | email
  | ip
  | cidr
  | phone
  | person
  | organization
  | customString
  | customFile
  deriving DecidableEq, Repr

namespace FindingKind

/-- Derived order of the Rust enumeration: declaration order. -/
instance : Ord FindingKind where
  compare := compareOn FindingKind.ctorIdx

/-- The constant table attached to a kind. -/
structure Meta where
  label : Text
  tokenLabel : Text
  priority : Nat
  containmentPriority : Nat

def metadata : FindingKind → Meta
  | .secret => ⟨lit "secret", lit "SECRET", 100, 75⟩
  | .domain => ⟨lit "domain", lit "DOMAIN", 70, 80⟩
  | .url => ⟨lit "url", lit "URL", 90, 100⟩
  | .email => ⟨lit "email", lit "EMAIL", 85, 95⟩
  | .ip => ⟨lit "ip", lit "IP", 75, 85⟩
  | .cidr => ⟨lit "cidr", lit "CIDR", 80, 90⟩
  | .phone => ⟨lit "phone", lit "PHONE", 60, 70⟩
  | .person => ⟨lit "person", lit "PERSON", 50, 50⟩
  | .organization => ⟨lit "organization", lit "ORG", 45, 45⟩
  | .customString => ⟨lit "custom_string", lit "CSTR", 95, 40⟩
  | .customFile => ⟨lit "custom_file", lit "FILE", 99, 99⟩

def label (kind : FindingKind) : Text := kind.metadata.label

def tokenLabel (kind : FindingKind) : Text := kind.metadata.tokenLabel

def priority (kind : FindingKind) : Nat := kind.metadata.priority

def containmentPriority (kind : FindingKind) : Nat :=
  kind.metadata.containmentPriority

def fromTokenLabel (label : Text) : Option FindingKind :=
  if label = lit "SECRET" then some .secret
  else if label = lit "DOMAIN" then some .domain
  else if label = lit "URL" then some .url
  else if label = lit "EMAIL" then some .email
  else if label = lit "IP" then some .ip
  else if label = lit "CIDR" then some .cidr
  else if label = lit "PHONE" then some .phone
  else if label = lit "PERSON" then some .person
  else if label = lit "ORG" then some .organization
  else if label = lit "CSTR" then some .customString
  else if label = lit "FILE" then some .customFile
  else none

/-- Every kind is read back from the label it writes. -/
@[simp]
theorem fromTokenLabel_tokenLabel (kind : FindingKind) :
    fromTokenLabel kind.tokenLabel = some kind := by
  cases kind <;> decide

theorem of_branch {label name : Text} {kind other : FindingKind}
    {rest : Option FindingKind}
    (read : (if label = name then some other else rest) = some kind)
    (writes : other.tokenLabel = name) :
    label = kind.tokenLabel ∨ rest = some kind := by
  by_cases here : label = name
  · rw [if_pos here] at read
    cases read
    exact Or.inl (here.trans writes.symm)
  · rw [if_neg here] at read
    exact Or.inr read

/-- Only the label that a kind writes is read as the kind. -/
theorem eq_tokenLabel_of_fromTokenLabel {label : Text} {kind : FindingKind}
    (read : fromTokenLabel label = some kind) :
    label = kind.tokenLabel := by
  unfold fromTokenLabel at read
  iterate 11
    refine (of_branch read rfl).elim id ?_
    clear read
    intro read
  cases read

/-- A label is made of capital letters, so it contains neither a field
separator nor a bracket. -/
theorem tokenLabel_isUpper (kind : FindingKind) :
    ∀ head ∈ kind.tokenLabel, head.isUpper = true := by
  have upper : kind.tokenLabel.all Char.isUpper = true := by
    cases kind <;> decide
  exact List.all_eq_true.mp upper

theorem tokenLabel_ne_nil (kind : FindingKind) :
    kind.tokenLabel ≠ [] := by
  cases kind <;> decide

theorem compare_eq_iff {left right : FindingKind} :
    compare left right = .eq ↔ left = right := by
  cases left <;> cases right <;> decide

instance : Std.LawfulEqOrd FindingKind where
  compare_self := compare_eq_iff.mpr rfl
  eq_of_compare := compare_eq_iff.mp

instance : Std.TransOrd FindingKind :=
  inferInstanceAs (Std.TransCmp (compareOn FindingKind.ctorIdx))

end FindingKind

structure RedactionRules where
  secret : Bool := false
  domain : Bool := false
  url : Bool := false
  email : Bool := true
  ip : Bool := true
  cidr : Bool := true
  phone : Bool := false
  person : Bool := false
  organization : Bool := false
  deriving DecidableEq, Repr

inductive CustomStringMatch where
  | exact
  | contains
  | regex
  deriving DecidableEq, Repr

inductive CustomStringScope where
  | text
  | line
  deriving DecidableEq, Repr

structure CustomStringRule where
  pattern : Text
  matchType : CustomStringMatch := .exact
  scope : CustomStringScope := .text
  deriving DecidableEq, Repr

structure CustomFileRule where
  path : Text
  deriving DecidableEq, Repr

structure RedactionPolicy where
  rules : RedactionRules := {}
  customStrings : List CustomStringRule := []
  customFiles : List CustomFileRule := []
  deriving DecidableEq, Repr

inductive FindingSource where
  | rule
  | llm
  deriving DecidableEq, Repr

def FindingSource.bonus : FindingSource → Nat
  | .rule => 10
  | .llm => 0

/-- A detected span.  `start` and `finish` are the byte offsets that the
source calls `start` and `end`. -/
structure Finding where
  kind : FindingKind
  source : FindingSource
  matchText : Text
  normalizedKey : Text
  confidence : Nat
  start : Nat
  finish : Nat
  deriving DecidableEq, Repr

def Finding.score (finding : Finding) : Nat :=
  finding.kind.priority + finding.source.bonus + finding.confidence

structure RestorationEntry where
  token : Text
  kind : FindingKind
  original : Text
  replacementHint : Option Text
  occurrences : Nat
  deriving DecidableEq, Repr

structure RedactionSession where
  version : Nat
  sessionId : Text
  scopeId : Text
  externalId : Option Text
  fingerprint : Text
  redactedFingerprint : Text
  redactedText : Text
  policy : RedactionPolicy
  entries : List RestorationEntry
  issuedTokens : List Text
  deriving DecidableEq, Repr

structure RestorePermit where
  version : Nat
  permitId : Text
  scopeId : Text
  externalId : Option Text
  issuedTokens : List Text
  deriving DecidableEq, Repr

@[ext]
structure RestoreResult where
  restoredText : Text
  restoredCount : Nat
  skippedTokens : List Text
  unresolvedTokens : List Text
  validationErrors : List Text
  deriving DecidableEq, Repr

namespace RestoreResult

def isValid (result : RestoreResult) : Bool :=
  result.validationErrors.isEmpty && result.unresolvedTokens.isEmpty

end RestoreResult

structure AppliedReplacement where
  kind : FindingKind
  original : Text
  replacement : Text
  displayValue : Option Text
  deriving DecidableEq, Repr

end Redactor
