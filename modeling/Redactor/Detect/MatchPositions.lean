import Mathlib.Data.List.Sort
import Redactor.Library.Occurrences
import Redactor.Detect.LlmOrigins

/-!
# Collecting the positions of a value

The search for a value goes on one byte behind the start of its last
occurrence.  When the first character of the value is a single byte, the
positions collected are all places where it starts; otherwise the next slice
begins inside that character, as soon as the value occurs at all.
-/

namespace Redactor

open Utf8 Fallible

/-- The value does not occur, or begins with a single byte. -/
def Searchable (text value : Text) : Prop :=
  ¬ value <:+: text ∨
    ∃ head tail, value = head :: tail ∧ head.utf8Size = 1

/-- These are the positions of all occurrences, in increasing order. -/
structure AllPositions (text value : Text) (positions : List Nat) :
    Prop where
  increasing : positions.Pairwise (· < ·)
  complete : ∀ position, position ∈ positions ↔ StartsAt value text position

theorem allPositions_placesFrom {value : Text} (nonempty : value ≠ [])
    (text : Text) : AllPositions text value (placesFrom value 0 text) where
  increasing := pairwise_placesFrom nonempty 0 text
  complete := fun _ => mem_places nonempty

section Value

variable {text : Text}

/-- No slice begins behind the first byte of a character of more than one. -/
theorem slice?_inside_character {before after : Text} {head : Char}
    (wide : head.utf8Size ≠ 1) (finish : Nat) :
    slice? (before ++ head :: after) (byteLen before + 1) finish = none := by
  cases sliced :
      slice? (before ++ head :: after) (byteLen before + 1) finish with
  | none =>
      rfl
  | some middle =>
      obtain ⟨left, right, parts, length, _⟩ := slice?_eq_some.mp sliced
      rw [List.append_assoc] at parts
      obtain ⟨between, leftParts, rest⟩ :=
        append_of_byteLen_le parts (by omega)
      have single : byteLen between = 1 := by
        rw [leftParts, byteLen_append] at length
        omega
      have positive := head.utf8Size_pos
      cases between with
      | nil =>
          cases single
      | cons first between =>
          cases rest
          rw [byteLen_cons] at single
          omega

theorem collectMatchPositionsFrom_of_absent {done rest value : Text}
    (absent : ¬ value <:+: rest) (fuel : Nat) :
    collectMatchPositionsFrom (done ++ rest) value fuel (byteLen done) =
      some [] := by
  cases fuel with
  | zero =>
      rfl
  | succ fuel =>
      have inside : ¬ byteLen (done ++ rest) < byteLen done := by
        rw [byteLen_append]
        omega
      have sliced := slice?_middle done rest []
      rw [List.append_nil, ← byteLen_append] at sliced
      have missing : find? rest value = none := by
        rw [find?, dropInfix?_eq_none_iff.mpr absent]
        rfl
      simp only [collectMatchPositionsFrom, if_neg inside, sliced,
        Option.bind_eq_bind, Option.bind_some, missing]

theorem collectMatchPositionsFrom_of_broken {value : Text} {start : Nat}
    (broken : slice? text start (byteLen text) = none)
    (inside : start ≤ byteLen text) (fuel : Nat) :
    collectMatchPositionsFrom text value (fuel + 1) start = none := by
  simp only [collectMatchPositionsFrom, if_neg (Nat.not_lt.mpr inside), broken,
    Option.bind_eq_bind, Option.bind_none]

/-- One round of the search, when the value occurs. -/
theorem collectMatchPositionsFrom_of_first {done before value after : Text}
    (nowhere : NotBefore value (before ++ (value ++ after)) before.length)
    (fuel : Nat) :
    collectMatchPositionsFrom (done ++ (before ++ (value ++ after))) value
        (fuel + 1) (byteLen done) =
      (collectMatchPositionsFrom (done ++ (before ++ (value ++ after))) value
        fuel (byteLen done + byteLen before + 1)).map
          fun later => (byteLen done + byteLen before) :: later := by
  have inside :
      ¬ byteLen (done ++ (before ++ (value ++ after))) < byteLen done := by
    rw [byteLen_append]
    omega
  have sliced := slice?_middle done (before ++ (value ++ after)) []
  rw [List.append_nil, ← byteLen_append] at sliced
  have found :
      find? (before ++ (value ++ after)) value = some (byteLen before) := by
    rw [find?, dropInfix?_eq_some_iff_notBefore.mpr ⟨rfl, nowhere⟩]
    rfl
  simp only [collectMatchPositionsFrom, if_neg inside, sliced,
    Option.bind_eq_bind, Option.bind_some, found]
  cases collectMatchPositionsFrom (done ++ (before ++ (value ++ after))) value
      fuel (byteLen done + byteLen before + 1) <;> rfl

/-- The search behind `done`, by induction on the rounds left; the next slice
begins behind the first character of the occurrence. -/
theorem collectMatchPositionsFrom_eq {head : Char} {tail : Text}
    (single : head.utf8Size = 1) {fuel : Nat} :
    ∀ {done rest : Text}, byteLen rest < fuel →
      collectMatchPositionsFrom (done ++ rest) (head :: tail) fuel
          (byteLen done) =
        some (placesFrom (head :: tail) (byteLen done) rest) := by
  induction fuel with
  | zero =>
      intro done rest enough
      exact absurd enough (Nat.not_lt_zero _)
  | succ fuel inductionHypothesis =>
      intro done rest enough
      by_cases occurs : head :: tail <:+: rest
      · obtain ⟨before, after, first⟩ := exists_dropInfix?_of_infix occurs
        obtain ⟨parts, nowhere⟩ :=
          dropInfix?_eq_some_iff_notBefore.mp first
        have behind :
            done ++ rest = (done ++ before ++ [head]) ++ (tail ++ after) := by
          simp [parts]
        have next :
            byteLen (done ++ before ++ [head]) =
              byteLen done + byteLen before + 1 := by
          rw [byteLen_append, byteLen_append, byteLen_cons, single, byteLen_nil]
        have shorter : byteLen (tail ++ after) < fuel := by
          rw [parts, byteLen_append, List.cons_append, byteLen_cons] at enough
          omega
        have later := @inductionHypothesis (done ++ before ++ [head])
          (tail ++ after) shorter
        rw [← behind, next, parts] at later
        have here : head :: tail <+: head :: (tail ++ after) :=
          List.prefix_append (head :: tail) after
        rw [parts] at nowhere
        rw [parts, collectMatchPositionsFrom_of_first nowhere, later,
          placesFrom_of_notBefore _ nowhere, List.cons_append, placesFrom,
          if_pos here, single]
        rfl
      · rw [collectMatchPositionsFrom_of_absent occurs,
          placesFrom_of_absent _ occurs]

theorem collectMatchPositions_of_nonempty {value : Text}
    (nonempty : value ≠ []) :
    collectMatchPositions text value =
      collectMatchPositionsFrom text value (byteLen text + 1) 0 := by
  rw [collectMatchPositions, if_neg]
  rw [List.isEmpty_iff]
  exact nonempty

theorem collectMatchPositions_of_searchable {value : Text}
    (nonempty : value ≠ []) (searchable : Searchable text value) :
    collectMatchPositions text value = some (placesFrom value 0 text) := by
  rw [collectMatchPositions_of_nonempty nonempty]
  rcases searchable with absent | ⟨head, tail, rfl, single⟩
  · rw [placesFrom_of_absent 0 absent]
    exact @collectMatchPositionsFrom_of_absent [] text value absent _
  · exact @collectMatchPositionsFrom_eq head tail single _ [] text
      (Nat.lt_succ_self _)

/-- The slice of the second round begins inside the first character. -/
theorem collectMatchPositions_of_not_searchable {value : Text}
    (nonempty : value ≠ []) (inside : ¬ Searchable text value) :
    collectMatchPositions text value = none := by
  rw [collectMatchPositions_of_nonempty nonempty]
  obtain ⟨occurs, wide⟩ := not_or.mp inside
  obtain ⟨before, after, first⟩ :=
    exists_dropInfix?_of_infix (not_not.mp occurs)
  obtain ⟨parts, nowhere⟩ := dropInfix?_eq_some_iff_notBefore.mp first
  cases value with
  | nil =>
      exact absurd rfl nonempty
  | cons head tail =>
      have wideHead : head.utf8Size ≠ 1 := by
        intro single
        exact wide ⟨head, tail, rfl, single⟩
      rw [parts] at nowhere
      have round :=
        @collectMatchPositionsFrom_of_first [] before (head :: tail) after
          nowhere (byteLen text)
      rw [List.nil_append, ← parts, byteLen_nil, Nat.zero_add] at round
      have broken :
          slice? text (byteLen before + 1) (byteLen text) = none := by
        rw [parts]
        exact slice?_inside_character wideHead _
      have longer : byteLen before + 1 < byteLen text := by
        have positive := head.utf8Size_pos
        rw [parts, byteLen_append, List.cons_append, byteLen_cons]
        omega
      have later :=
        @collectMatchPositionsFrom_of_broken text (head :: tail) _ broken
          (Nat.le_of_lt longer) (byteLen text - 1)
      rw [Nat.sub_add_cancel (by omega)] at later
      rw [round, later]
      rfl

/-- The collected positions are all there are exactly for a value that can be
searched for. -/
theorem collectMatchPositions_eq_some_iff {value : Text}
    (nonempty : value ≠ []) :
    (∃ positions, collectMatchPositions text value = some positions ∧
        AllPositions text value positions) ↔
      Searchable text value := by
  constructor
  · rintro ⟨positions, collected, _⟩
    by_contra inside
    rw [collectMatchPositions_of_not_searchable nonempty inside] at collected
    cases collected
  · intro searchable
    exact ⟨_, collectMatchPositions_of_searchable nonempty searchable,
      allPositions_placesFrom nonempty text⟩

/-- A search that has a result has found everything. -/
theorem AllPositions.of_collected {value : Text} (nonempty : value ≠ [])
    {positions : List Nat}
    (collected : collectMatchPositions text value = some positions) :
    AllPositions text value positions := by
  by_cases searchable : Searchable text value
  · rw [collectMatchPositions_of_searchable nonempty searchable] at collected
    cases collected
    exact allPositions_placesFrom nonempty text
  · rw [collectMatchPositions_of_not_searchable nonempty searchable]
      at collected
    cases collected

end Value

/-! ## All values of the candidates -/

section Candidates

variable {text : Text} {values : List Text}

/-- One round of `build_match_positions`. -/
def insertPositions (text : Text) (positions : List (Text × List Nat))
    (value : Text) : Option (List (Text × List Nat)) :=
  if value.isEmpty || (positions.lookup value).isSome then
    some positions
  else do
    let found ← collectMatchPositions text value
    some ((value, found) :: positions)

theorem buildMatchPositions_eq (text : Text) (values : List Text) :
    buildMatchPositions text values =
      values.foldlM (insertPositions text) [] := rfl

/-- Every round has a result when its value is empty, or known, or can be
searched for. -/
theorem insertPositions_eq_some_iff {value : Text}
    {positions : List (Text × List Nat)} :
    (insertPositions text positions value).isSome ↔
      value = [] ∨ (positions.lookup value).isSome ∨
        Searchable text value := by
  unfold insertPositions
  by_cases skipped :
      (value.isEmpty || (positions.lookup value).isSome) = true
  · rw [if_pos skipped]
    rw [Bool.or_eq_true, List.isEmpty_iff] at skipped
    exact iff_of_true rfl (skipped.imp_right Or.inl)
  · rw [if_neg skipped]
    rw [Bool.or_eq_true, List.isEmpty_iff] at skipped
    obtain ⟨nonempty, unknown⟩ := not_or.mp skipped
    rw [or_iff_right nonempty, or_iff_right unknown]
    by_cases searchable : Searchable text value
    · rw [collectMatchPositions_of_searchable nonempty searchable]
      exact iff_of_true rfl searchable
    · rw [collectMatchPositions_of_not_searchable nonempty searchable]
      exact iff_of_false (by intro present; cases present) searchable

/-- A round keeps what is known, and its value is known behind it. -/
theorem lookup_insertPositions {value other : Text}
    {positions after : List (Text × List Nat)}
    (inserted : insertPositions text positions value = some after) :
    (after.lookup other).isSome ↔
      (positions.lookup other).isSome ∨ other = value ∧ value ≠ [] := by
  unfold insertPositions at inserted
  split at inserted
  · rename_i skipped
    cases inserted
    constructor
    · exact Or.inl
    · rintro (known | ⟨rfl, nonempty⟩)
      · exact known
      · rw [Bool.or_eq_true, List.isEmpty_iff] at skipped
        exact skipped.resolve_left nonempty
  · rename_i fresh
    obtain ⟨found, _, last⟩ := Option.bind_eq_some_iff.mp inserted
    cases last
    rw [Bool.or_eq_true, List.isEmpty_iff] at fresh
    have nonempty := (not_or.mp fresh).1
    rw [List.lookup_cons]
    by_cases same : other = value
    · rw [beq_iff_eq.mpr same]
      exact iff_of_true rfl (Or.inr ⟨same, nonempty⟩)
    · rw [beq_false_of_ne same]
      constructor
      · exact Or.inl
      · rintro (known | ⟨equal, _⟩)
        · exact known
        · exact absurd equal same

/-- The loop has a result exactly when every value that is not empty can be
searched for; all values known so far can. -/
theorem isSome_foldlM_insertPositions {positions : List (Text × List Nat)}
    (known :
      ∀ value, (positions.lookup value).isSome → Searchable text value) :
    (values.foldlM (insertPositions text) positions).isSome ↔
      ∀ value ∈ values, value = [] ∨ Searchable text value := by
  induction values generalizing positions with
  | nil =>
      refine iff_of_true rfl ?_
      intro value member
      cases member
  | cons value values inductionHypothesis =>
      have here :
          (insertPositions text positions value).isSome ↔
            value = [] ∨ Searchable text value := by
        rw [insertPositions_eq_some_iff]
        constructor
        · rintro (empty | present | searchable)
          · exact Or.inl empty
          · exact Or.inr (known value present)
          · exact Or.inr searchable
        · exact Or.imp_right Or.inr
      rw [List.foldlM_cons, List.forall_mem_cons, ← here]
      cases inserted : insertPositions text positions value with
      | none =>
          refine iff_of_false ?_ ?_
          · intro present
            cases present
          · rintro ⟨present, _⟩
            cases present
      | some after =>
          have later :
              ∀ other, (after.lookup other).isSome →
                Searchable text other := by
            intro other present
            rcases (lookup_insertPositions inserted).mp present with
              earlier | ⟨rfl, nonempty⟩
            · exact known other earlier
            · rw [inserted] at here
              exact (here.mp rfl).resolve_left nonempty
          have rest := inductionHypothesis later
          constructor
          · intro finished
            exact ⟨rfl, rest.mp finished⟩
          · rintro ⟨_, searchable⟩
            exact rest.mpr searchable

theorem isSome_buildMatchPositions :
    (buildMatchPositions text values).isSome ↔
      ∀ value ∈ values, value = [] ∨ Searchable text value := by
  rw [buildMatchPositions_eq]
  apply isSome_foldlM_insertPositions
  intro value present
  cases present

/-- The positions of every value that is not empty are known. -/
theorem lookup_foldlM_insertPositions
    {before positions : List (Text × List Nat)} {value : Text}
    (built :
      values.foldlM (insertPositions text) before = some positions) :
    (positions.lookup value).isSome ↔
      (before.lookup value).isSome ∨ value ∈ values ∧ value ≠ [] := by
  induction values generalizing before with
  | nil =>
      cases built
      simp
  | cons first values inductionHypothesis =>
      rw [List.foldlM_cons] at built
      obtain ⟨middle, inserted, rest⟩ := Option.bind_eq_some_iff.mp built
      rw [inductionHypothesis rest, lookup_insertPositions inserted,
        List.mem_cons]
      constructor
      · rintro ((known | ⟨rfl, nonempty⟩) | ⟨member, nonempty⟩)
        · exact Or.inl known
        · exact Or.inr ⟨Or.inl rfl, nonempty⟩
        · exact Or.inr ⟨Or.inr member, nonempty⟩
      · rintro (known | ⟨rfl | member, nonempty⟩)
        · exact Or.inl (Or.inl known)
        · exact Or.inl (Or.inr ⟨rfl, nonempty⟩)
        · exact Or.inr ⟨member, nonempty⟩

/-- The positions of all values that are not empty, and of no others. -/
structure CompletePositions (text : Text) (values : List Text)
    (matchPositions : List (Text × List Nat)) : Prop where
  known :
    ∀ value ∈ values, value ≠ [] →
      ∃ positions, matchPositions.lookup value = some positions
  complete :
    ∀ value positions, matchPositions.lookup value = some positions →
      value ≠ [] ∧ AllPositions text value positions

theorem CompletePositions.of_built {matchPositions : List (Text × List Nat)}
    (built : buildMatchPositions text values = some matchPositions) :
    CompletePositions text values matchPositions where
  known := by
    intro value member nonempty
    rw [buildMatchPositions_eq] at built
    have present :=
      (lookup_foldlM_insertPositions built).mpr (Or.inr ⟨member, nonempty⟩)
    exact Option.isSome_iff_exists.mp present
  complete := by
    intro value positions listed
    obtain ⟨nonempty, collected⟩ := lookup_build built listed
    exact ⟨nonempty, AllPositions.of_collected nonempty collected⟩

theorem isSome_parseCandidates {candidates : List Candidate}
    {rules : RedactionRules} :
    (parseCandidates text candidates rules).isSome ↔
      ∀ candidate ∈ candidates,
        candidate.value = [] ∨ Searchable text candidate.value := by
  have built :=
    @isSome_buildMatchPositions text (candidates.map Candidate.value)
  rw [List.forall_mem_map] at built
  rw [← built, parseCandidates]
  cases buildMatchPositions text (candidates.map Candidate.value) <;> rfl

end Candidates

/-- A search collects all positions exactly when the value begins with a single
byte or does not occur, and candidates are parsed without a slice inside a
character exactly when this holds for each value. -/
theorem collectMatchPositions_complete_iff (text : Text) :
    (∀ value, value ≠ [] →
        ((∃ positions, collectMatchPositions text value = some positions ∧
            AllPositions text value positions) ↔
          Searchable text value)) ∧
      ∀ (candidates : List Candidate) (rules : RedactionRules),
        (parseCandidates text candidates rules).isSome ↔
          ∀ candidate ∈ candidates,
            candidate.value = [] ∨ Searchable text candidate.value :=
  ⟨fun _ nonempty => collectMatchPositions_eq_some_iff nonempty,
    fun _ _ => isSome_parseCandidates⟩

/-- Every name can be searched for where it does not occur, and one in plain
letters everywhere. -/
theorem collectMatchPositions_complete_iff_alice :
    (∃ positions,
        collectMatchPositions (lit "Alice met Alice") (lit "Alice") =
          some positions ∧
        AllPositions (lit "Alice met Alice") (lit "Alice") positions) :=
  ((collectMatchPositions_complete_iff (lit "Alice met Alice")).1
    (lit "Alice") (by decide)).mpr
    (Or.inr ⟨'A', lit "lice", rfl, rfl⟩)

/-- The second round for a name with a first letter of two bytes begins inside
this letter. -/
theorem collectMatchPositions_accented :
    (¬ ∀ text value : Text, value ≠ [] →
        ∃ positions, collectMatchPositions text value = some positions ∧
          AllPositions text value positions) ∧
      ¬ ∀ (text : Text) (candidates : List Candidate)
          (rules : RedactionRules),
        (parseCandidates text candidates rules).isSome := by
  constructor
  · intro all
    obtain ⟨positions, collected, _⟩ :=
      all (lit "Émile") (lit "Émile") (by decide)
    have broken :
        collectMatchPositions (lit "Émile") (lit "Émile") = none := by
      decide
    rw [broken] at collected
    cases collected
  · intro all
    have parsed :=
      all (lit "Émile") [⟨lit "person", lit "Émile", none⟩]
        { person := true }
    revert parsed
    decide

end Redactor
