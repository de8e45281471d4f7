/-!
# Wildcard patterns

A pattern is a list of fixed symbols and holes, and a hole stands for a
non-empty run of accepted symbols. A text may split along a pattern in several
ways. `capture` tries the longest run first for each hole, from the left, and
shortens a run when the rest of the pattern fails, as a greedy matcher which
backtracks does. It finds a split whenever there is one, and the one it finds
is the longest-first split.
-/

namespace Foxhttp.Library.Wildcard

universe u v

/-- A fixed symbol, or a hole. -/
inductive Piece (α : Type u) where
  | symbol (value : α)
  | hole
deriving DecidableEq, Repr

variable {α : Type u} {β : Type v}

/-- The pattern reads the text with these runs in its holes. -/
inductive Splits (accepts : α → Bool) : List (Piece α) → List α → List (List α) → Prop where
  | done : Splits accepts [] [] []
  | symbol {value pieces text runs} (rest : Splits accepts pieces text runs) :
      Splits accepts (.symbol value :: pieces) (value :: text) runs
  | hole {run pieces text runs} (filled : run ≠ [])
      (accepted : ∀ value ∈ run, accepts value = true)
      (rest : Splits accepts pieces text runs) :
      Splits accepts (.hole :: pieces) (run ++ text) (run :: runs)

/-- The split whose first run is as long as it can be, then its second, and so on. -/
def Longest (accepts : α → Bool) (pieces : List (Piece α)) (text : List α)
    (runs : List (List α)) : Prop :=
  Splits accepts pieces text runs ∧
    ∀ others, Splits accepts pieces text others →
      ¬ runs.map List.length < others.map List.length

/-- The longest accepted run at the front after which `rest` succeeds. -/
def longestRun (accepts : α → Bool) (rest : List α → Option β) : List α → Option (List α × β)
  | [] => none
  | value :: text =>
      if accepts value then
        match longestRun accepts rest text with
        | some (run, result) => some (value :: run, result)
        | none => (rest text).map fun result => ([value], result)
      else none

/-- The runs which a greedy matcher with backtracking captures. -/
def capture [DecidableEq α] (accepts : α → Bool) :
    List (Piece α) → List α → Option (List (List α))
  | [], [] => some []
  | [], _ :: _ => none
  | .symbol _ :: _, [] => none
  | .symbol value :: pieces, first :: text =>
      if first = value then capture accepts pieces text else none
  | .hole :: pieces, text =>
      (longestRun accepts (capture accepts pieces) text).map fun found => found.1 :: found.2

variable {accepts : α → Bool} {rest : List α → Option β}

/-- What `longestRun` finds is an accepted run after which `rest` succeeds. -/
theorem longestRun_sound {text run : List α} {result : β}
    (found : longestRun accepts rest text = some (run, result)) :
    run ≠ [] ∧ (∀ value ∈ run, accepts value = true) ∧
      ∃ after, text = run ++ after ∧ rest after = some result := by
  induction text generalizing run with
  | nil => cases found
  | cons first text inductionHypothesis =>
      simp only [longestRun] at found
      split at found
      · rename_i accepted
        split at found
        · rename_i longer _ foundLater
          cases found
          obtain ⟨-, allAccepted, after, textIs, succeeds⟩ := inductionHypothesis foundLater
          exact ⟨List.cons_ne_nil _ _, List.forall_mem_cons.mpr ⟨accepted, allAccepted⟩,
            after, by rw [textIs, List.cons_append], succeeds⟩
        · obtain ⟨last, succeeds, pair⟩ := Option.map_eq_some_iff.mp found
          cases pair
          exact ⟨List.cons_ne_nil _ _, by simpa using accepted, text, rfl, succeeds⟩
      · cases found

/-- After any accepted run at which `rest` succeeds, `longestRun` finds one
which is no shorter. -/
theorem longestRun_complete {run after : List α} {result : β} (filled : run ≠ [])
    (accepted : ∀ value ∈ run, accepts value = true) (succeeds : rest after = some result) :
    ∃ longest found, longestRun accepts rest (run ++ after) = some (longest, found) ∧
      run.length ≤ longest.length := by
  induction run with
  | nil => exact absurd rfl filled
  | cons first run inductionHypothesis =>
      obtain ⟨firstAccepted, runAccepted⟩ := List.forall_mem_cons.mp accepted
      simp only [List.cons_append, longestRun, if_pos firstAccepted]
      cases atRest : longestRun accepts rest (run ++ after) with
      | some found =>
          refine ⟨first :: found.1, found.2, rfl, ?_⟩
          rcases List.eq_nil_or_concat run with rfl | ⟨front, last, isConcat⟩
          · simp
          · obtain ⟨longest, other, isFound, noShorter⟩ :=
              inductionHypothesis (by simp [isConcat]) runAccepted
            rw [atRest] at isFound
            cases isFound
            simpa using noShorter
      | none =>
          cases run with
          | nil => exact ⟨[first], result, by simp [succeeds], Nat.le_refl _⟩
          | cons second run =>
              obtain ⟨longest, other, isFound, -⟩ :=
                inductionHypothesis (List.cons_ne_nil _ _) runAccepted
              rw [atRest] at isFound
              cases isFound

/-- Fixed symbols read themselves. -/
theorem splits_symbols_append (front : List α) {pieces : List (Piece α)} {text : List α}
    {runs : List (List α)} :
    Splits accepts (front.map Piece.symbol ++ pieces) text runs ↔
      ∃ later, text = front ++ later ∧ Splits accepts pieces later runs := by
  induction front generalizing text with
  | nil => exact ⟨fun splits => ⟨text, rfl, splits⟩, fun ⟨_, same, splits⟩ => same ▸ splits⟩
  | cons value front inductionHypothesis =>
      constructor
      · rintro (_ | rest | _)
        obtain ⟨later, rfl, splits⟩ := inductionHypothesis.mp rest
        exact ⟨later, rfl, splits⟩
      · rintro ⟨later, rfl, splits⟩
        exact .symbol (inductionHypothesis.mpr ⟨later, rfl, splits⟩)

/-- A hole between fixed symbols reads a run between them. -/
theorem splits_hole_iff (front back text : List α) :
    (∃ runs, Splits accepts (front.map Piece.symbol ++ .hole :: back.map Piece.symbol) text runs) ↔
      ∃ run, run ≠ [] ∧ (∀ value ∈ run, accepts value = true) ∧ text = front ++ run ++ back := by
  constructor
  · rintro ⟨runs, splits⟩
    obtain ⟨later, rfl, atHole⟩ := (splits_symbols_append front).mp splits
    cases atHole with
    | @hole run _ text _ filled accepted rest =>
        rw [← List.append_nil (back.map _), splits_symbols_append] at rest
        obtain ⟨ending, rfl, atEnd⟩ := rest
        cases atEnd
        exact ⟨run, filled, accepted, by simp⟩
  · rintro ⟨run, filled, accepted, rfl⟩
    have rest : Splits accepts (back.map Piece.symbol ++ []) back [] :=
      (splits_symbols_append back).mpr ⟨[], by simp, .done⟩
    rw [List.append_nil] at rest
    exact ⟨[run], (splits_symbols_append front).mpr
      ⟨run ++ back, by simp, .hole filled accepted rest⟩⟩

variable [DecidableEq α]

/-- What `capture` finds is a split. -/
theorem capture_sound {pieces : List (Piece α)} {text : List α} {runs : List (List α)}
    (found : capture accepts pieces text = some runs) : Splits accepts pieces text runs := by
  induction pieces generalizing text runs with
  | nil =>
      cases text with
      | nil =>
          cases found
          exact .done
      | cons first text => cases found
  | cons piece pieces inductionHypothesis =>
      cases piece with
      | symbol value =>
          cases text with
          | nil => cases found
          | cons first text =>
              simp only [capture] at found
              split at found
              · rename_i isValue
                subst isValue
                exact .symbol (inductionHypothesis found)
              · cases found
      | hole =>
          obtain ⟨⟨run, later⟩, foundRun, isCons⟩ := Option.map_eq_some_iff.mp found
          subst isCons
          obtain ⟨filled, accepted, after, textIs, foundLater⟩ := longestRun_sound foundRun
          subst textIs
          exact .hole filled accepted (inductionHypothesis foundLater)

/-- When there is a split, `capture` finds one which is no later in the
longest-first order. -/
theorem capture_complete {pieces : List (Piece α)} {text : List α} {runs : List (List α)}
    (splits : Splits accepts pieces text runs) :
    ∃ found, capture accepts pieces text = some found ∧
      ¬ found.map List.length < runs.map List.length := by
  induction splits with
  | done => exact ⟨[], rfl, List.lt_irrefl _⟩
  | symbol _ inductionHypothesis =>
      obtain ⟨found, isFound, noShorter⟩ := inductionHypothesis
      exact ⟨found, by rw [capture, if_pos rfl, isFound], noShorter⟩
  | @hole run pieces text runs filled accepted later inductionHypothesis =>
      obtain ⟨foundLater, isFoundLater, laterNoShorter⟩ := inductionHypothesis
      obtain ⟨longest, others, isLongest, noShorter⟩ :=
        longestRun_complete filled accepted isFoundLater
      refine ⟨longest :: others, by rw [capture, isLongest]; rfl, ?_⟩
      rw [List.map_cons, List.map_cons, List.cons_lt_cons_iff]
      rintro (shorter | ⟨sameLength, laterShorter⟩)
      · exact Nat.not_lt_of_le noShorter shorter
      · -- with runs of one length the rests are the same text
        obtain ⟨-, -, after, textIs, foundOthers⟩ := longestRun_sound isLongest
        have sameRest : text = after := (List.append_inj textIs sameLength.symm).2
        rw [← sameRest, isFoundLater] at foundOthers
        cases foundOthers
        exact laterNoShorter laterShorter

/-- `capture` succeeds exactly when there is a split. -/
theorem isSome_capture_iff {pieces : List (Piece α)} {text : List α} :
    (capture accepts pieces text).isSome = true ↔ ∃ runs, Splits accepts pieces text runs := by
  constructor
  · intro found
    obtain ⟨runs, isFound⟩ := Option.isSome_iff_exists.mp found
    exact ⟨runs, capture_sound isFound⟩
  · rintro ⟨runs, splits⟩
    obtain ⟨found, isFound, -⟩ := capture_complete splits
    rw [isFound]
    rfl

/-- `capture` finds the longest-first split. -/
theorem capture_longest {pieces : List (Piece α)} {text : List α} {runs : List (List α)}
    (found : capture accepts pieces text = some runs) : Longest accepts pieces text runs := by
  refine ⟨capture_sound found, fun others splits => ?_⟩
  obtain ⟨same, isFound, noShorter⟩ := capture_complete splits
  rw [found] at isFound
  cases isFound
  exact noShorter

omit [DecidableEq α] in
/-- Two splits of a text into runs of the same lengths are the same. -/
theorem Splits.eq_of_lengths {pieces : List (Piece α)} {text : List α} {runs others : List (List α)}
    (splits : Splits accepts pieces text runs) (otherSplits : Splits accepts pieces text others)
    (sameLengths : runs.map List.length = others.map List.length) : runs = others := by
  induction splits generalizing others with
  | done =>
      cases otherSplits
      rfl
  | symbol _ inductionHypothesis =>
      cases otherSplits with
      | symbol rest => exact inductionHypothesis rest sameLengths
  | @hole run pieces text runs _ _ _ inductionHypothesis =>
      generalize whole : run ++ text = all at otherSplits
      cases otherSplits with
      | hole _ _ rest =>
          simp only [List.map_cons, List.cons.injEq] at sameLengths
          obtain ⟨sameRun, sameText⟩ := List.append_inj whole sameLengths.1
          subst sameRun sameText
          rw [inductionHypothesis rest sameLengths.2]

omit [DecidableEq α] in
/-- There is at most one longest-first split. -/
theorem Longest.unique {pieces : List (Piece α)} {text : List α} {runs others : List (List α)}
    (longest : Longest accepts pieces text runs) (other : Longest accepts pieces text others) :
    runs = others :=
  longest.1.eq_of_lengths other.1
    (List.le_antisymm (List.not_lt.mp (other.2 _ longest.1)) (List.not_lt.mp (longest.2 _ other.1)))

omit [DecidableEq α] in
/-- A symbol which no hole accepts occurs in the text as often as in the pattern. -/
theorem Splits.count_symbol [DecidableEq α] {pieces : List (Piece α)} {text : List α}
    {runs : List (List α)} (splits : Splits accepts pieces text runs) {value : α}
    (refused : accepts value = false) :
    text.count value = pieces.count (.symbol value) := by
  induction splits with
  | done => rfl
  | @symbol other pieces text runs _ inductionHypothesis =>
      rw [List.count_cons, List.count_cons, inductionHypothesis]
      congr 1
      simp [beq_iff_eq]
  | @hole run pieces text runs _ accepted _ inductionHypothesis =>
      have absent : value ∉ run := fun member => by
        rw [accepted value member] at refused
        cases refused
      rw [List.count_append, List.count_eq_zero.mpr absent, Nat.zero_add, inductionHypothesis,
        List.count_cons_of_ne (by simp)]

omit [DecidableEq α] in
/-- A symbol which no hole accepts starts the text when it starts the pattern. -/
theorem Splits.head?_symbol {pieces : List (Piece α)} {text : List α} {runs : List (List α)}
    (splits : Splits accepts pieces text runs) {value : α} (refused : accepts value = false) :
    text.head? = some value ↔ pieces.head? = some (.symbol value) := by
  cases splits with
  | done => simp
  | symbol _ => simp
  | hole filled accepted _ =>
      obtain ⟨first, run, rfl⟩ := List.exists_cons_of_ne_nil filled
      have different : first ≠ value := by
        rintro rfl
        rw [accepted first List.mem_cons_self] at refused
        cases refused
      simp [different]

end Foxhttp.Library.Wildcard
