import Redactor.Replace.RoundTrip

/-!
# Tokens between gaps

A text of tokens with gaps between them, where no gap has a whole marker.  What
a gap ends in does not matter, a part of a marker or of the closing brackets:
no marker begins before the token, and no suffix before its end.
-/

namespace Redactor

open Utf8

/-- Gaps with the tokens behind them, and the last gap. -/
def joinPieces (pieces : List (Text × Text)) (last : Text) : Text :=
  pieces.foldr (fun piece rest => piece.1 ++ (piece.2 ++ rest)) last

/-- The ranges of the tokens, the first gap being at byte `index`. -/
def tokenRanges : Nat → List (Text × Text) → List (Nat × Nat)
  | _, [] => []
  | index, (gap, token) :: pieces =>
      (index + byteLen gap, index + byteLen gap + byteLen token) ::
        tokenRanges (index + byteLen gap + byteLen token) pieces

section Pieces

variable {runtime : Runtime}

/-- Behind a gap the token is visited by itself. -/
theorem scanFrom_token {gap token : Text} (markerFree : MarkerFree gap)
    (isToken : IsToken runtime token) (index : Nat) (rest : Text) :
    scanFrom index (gap ++ (token ++ rest)) =
      (index + byteLen gap, index + byteLen gap + byteLen token) ::
        scanFrom (index + byteLen gap + byteLen token) rest := by
  obtain ⟨scopeId, kind, counter, hex, _, rfl⟩ := isToken
  rw [formatToken_shape, List.append_assoc, List.append_assoc]
  exact scanFrom_closed (borderless_tokenPrefix.notBefore markerFree)
    (notBefore_suffix_fields hex rest)

/-- The scan visits the tokens and nothing else, by induction on the
pieces. -/
theorem scanFrom_joinPieces {pieces : List (Text × Text)} {last : Text}
    (gaps : ∀ piece ∈ pieces, MarkerFree piece.1)
    (tokens : ∀ piece ∈ pieces, IsToken runtime piece.2)
    (lastGap : MarkerFree last) (index : Nat) :
    scanFrom index (joinPieces pieces last) = tokenRanges index pieces := by
  induction pieces generalizing index with
  | nil =>
      exact scanFrom_absent (dropInfix?_eq_none_iff.mpr lastGap)
  | cons piece pieces inductionHypothesis =>
      obtain ⟨gap, laterGaps⟩ := List.forall_mem_cons.mp gaps
      obtain ⟨token, laterTokens⟩ := List.forall_mem_cons.mp tokens
      have rest := inductionHypothesis laterGaps laterTokens
        (index + byteLen piece.1 + byteLen piece.2)
      rw [joinPieces, List.foldr_cons, scanFrom_token gap token]
      exact congrArg _ rest

end Pieces

/-- A token is read back as it was written, no two parts are written alike, and
a scan visits exactly the tokens between gaps without a marker. -/
theorem token_round_trip_and_isolation (runtime : Runtime) :
    (∀ (scopeId : Text) (kind : FindingKind) (counter : Nat),
      IsScope scopeId → counter ≤ unsignedMax →
        parseToken runtime (formatToken runtime scopeId kind counter) =
          .ok ⟨scopeId, kind, counter⟩) ∧
    (∀ (scopeId otherScope : Text) (kind otherKind : FindingKind)
        (counter otherCounter : Nat),
      IsScope scopeId → IsScope otherScope →
      counter ≤ unsignedMax → otherCounter ≤ unsignedMax →
      formatToken runtime scopeId kind counter =
          formatToken runtime otherScope otherKind otherCounter →
        scopeId = otherScope ∧ kind = otherKind ∧
          counter = otherCounter) ∧
    ∀ (pieces : List (Text × Text)) (last : Text),
      (∀ piece ∈ pieces, MarkerFree piece.1) →
      (∀ piece ∈ pieces, IsToken runtime piece.2) →
      MarkerFree last →
        scanTokenLikeRanges (joinPieces pieces last) =
          tokenRanges 0 pieces := by
  refine ⟨?_, ?_, ?_⟩
  · intro scopeId kind counter scope fits
    exact parseToken_formatToken scope fits
  · intro scopeId otherScope kind otherKind counter otherCounter scope
      otherIsScope fits otherFits same
    exact formatToken_injective scope fits otherIsScope otherFits same
  · intro pieces last gaps tokens lastGap
    exact scanFrom_joinPieces gaps tokens lastGap 0

/-- Gaps that end in the beginning of a marker, or begin with closing
brackets. -/
theorem token_round_trip_and_isolation_partial_markers :
    scanTokenLikeRanges
        (joinPieces
          [(lit "[[RDX:v2",
              formatToken sampleRuntime (lit "ab") .email 1),
            (lit "]] [[", formatToken sampleRuntime (lit "ab") .email 2)]
          (lit "]] [[RDX:v2")) =
      [(8, 40), (45, 77)] := by
  rw [(token_round_trip_and_isolation sampleRuntime).2.2]
  · decide +kernel
  · decide +kernel
  · intro piece member
    rcases List.mem_cons.mp member with rfl | member
    · exact ⟨lit "ab", .email, 1, by decide, by decide, rfl⟩
    · rw [List.mem_singleton.mp member]
      exact ⟨lit "ab", .email, 2, by decide, by decide, rfl⟩
  · decide +kernel

end Redactor
