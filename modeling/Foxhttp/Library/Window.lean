import Mathlib.Algebra.Order.Group.Defs
import Mathlib.Algebra.Order.Monoid.Unbundled.Basic
import Mathlib.Data.List.Chain

/-!
# Counting in sliding windows

How many entries of an ordered list lie in a half-open interval `[a, a + window)`,
over all placements of the interval, is a matter of how far apart the entries a
fixed number of places from each other are.
-/

namespace Foxhttp.Library

variable {T : Type} [LinearOrder T]

theorem le_of_places {entries : List T} {first last : Nat}
    (sorted : entries.Pairwise (· ≤ ·)) (ordered : first ≤ last) (inside : last < entries.length) :
    entries.get ⟨first, Nat.lt_of_le_of_lt ordered inside⟩ ≤ entries[last] := by
  rcases Nat.eq_or_lt_of_le ordered with same | before
  · subst same
    exact le_refl _
  · exact List.pairwise_iff_getElem.mp sorted first last _ inside before

theorem le_of_mem_dropWhile {entries : List T} {bound entry : T}
    (sorted : entries.Pairwise (· ≤ ·))
    (member : entry ∈ entries.dropWhile (· < bound)) : bound ≤ entry := by
  induction entries with
  | nil => simp at member
  | cons head rest inductionHypothesis =>
    by_cases early : head < bound
    · rw [List.dropWhile_cons_of_pos (by simpa using early)] at member
      exact inductionHypothesis sorted.tail member
    · rw [List.dropWhile_cons_of_neg (by simpa using early)] at member
      rcases List.mem_cons.mp member with rfl | later
      · exact not_lt.mp early
      · exact (not_lt.mp early).trans (List.rel_of_pairwise_cons sorted later)

variable [Add T]

/-- How many of the entries lie in the window which opens at a point. -/
def countIn (start window : T) (entries : List T) : Nat :=
  entries.countP fun entry => start ≤ entry ∧ entry < start + window

/-- Entries `count` places apart are at least a window apart. -/
def Spaced (count : Nat) (window : T) (entries : List T) : Prop :=
  ∀ (place : Nat) (first second : T), entries[place]? = some first →
    entries[place + count]? = some second → first + window ≤ second

namespace Spaced

variable {count : Nat} {window : T} {entries : List T}

theorem nil : Spaced count window ([] : List T) := by
  intro place first second isFirst
  simp at isFirst

theorem tail {head : T} (spaced : Spaced count window (head :: entries)) :
    Spaced count window entries := by
  intro place first second isFirst isSecond
  refine spaced (place + 1) first second (by simpa using isFirst) ?_
  rw [Nat.add_right_comm, List.getElem?_cons_succ, isSecond]

/-- In front of a list, entries too few to be apart themselves are spaced with
those of the list which they reach. -/
theorem append_iff {front : List T} (few : front.length ≤ count) :
    Spaced count window (front ++ entries) ↔
      (∀ (place : Nat) (first second : T), front[place]? = some first →
        entries[place + (count - front.length)]? = some second → first + window ≤ second) ∧
      Spaced count window entries := by
  constructor
  · intro spaced
    constructor <;> intro place first second isFirst isSecond
    · have inside : place < front.length := (List.getElem?_eq_some_iff.mp isFirst).1
      refine spaced place first second (by rw [List.getElem?_append_left inside, isFirst]) ?_
      rw [List.getElem?_append_right (by omega), ← isSecond]
      congr 1
      omega
    · refine spaced (front.length + place) first second ?_ ?_
      · rw [List.getElem?_append_right (by omega), Nat.add_sub_cancel_left, isFirst]
      · rw [List.getElem?_append_right (by omega), ← isSecond]
        congr 1
        omega
  · rintro ⟨across, spaced⟩ place first second isFirst isSecond
    rw [List.getElem?_append_right (by omega)] at isSecond
    rcases Nat.lt_or_ge place front.length with inside | beyond
    · rw [List.getElem?_append_left inside] at isFirst
      refine across place first second isFirst ?_
      rw [← isSecond]
      congr 1
      omega
    · rw [List.getElem?_append_right beyond] at isFirst
      refine spaced (place - front.length) first second isFirst ?_
      rw [← isSecond]
      congr 1
      omega

end Spaced

section Counting

variable {count : Nat} {window : T} {entries : List T}

/-- Two entries `count` places apart and less than a window apart crowd the
window which opens at the first. -/
theorem spaced_of_countIn_le (sorted : entries.Pairwise (· ≤ ·))
    (few : ∀ start, countIn start window entries ≤ count) : Spaced count window entries := by
  intro place first second isFirst isSecond
  obtain ⟨_, firstAt⟩ := List.getElem?_eq_some_iff.mp isFirst
  obtain ⟨inside, secondAt⟩ := List.getElem?_eq_some_iff.mp isSecond
  by_contra crowded
  have all : countIn first window ((entries.drop place).take (count + 1)) = count + 1 := by
    rw [countIn, List.countP_eq_length.mpr, List.length_take, List.length_drop]
    · omega
    · intro entry member
      obtain ⟨index, bound, same⟩ := List.getElem_of_mem member
      rw [List.getElem_take, List.getElem_drop] at same
      rw [List.length_take, List.length_drop] at bound
      have notBefore : first ≤ entry := firstAt ▸ same ▸ le_of_places sorted (by omega) _
      have notAfter : entry ≤ second := secondAt ▸ same ▸ le_of_places sorted (by omega) _
      exact decide_eq_true ⟨notBefore, notAfter.trans_lt (not_le.mp crowded)⟩
  have part : countIn first window ((entries.drop place).take (count + 1)) ≤
      countIn first window entries :=
    List.Sublist.countP_le ((List.take_sublist _ _).trans (List.drop_sublist _ _))
  have bound := few first
  omega

variable [AddRightMono T]

/-- Spaced entries never crowd a window: past the entries before it, those in
the window are among the next `count`. -/
theorem countIn_le_of_spaced {start : T} (sorted : entries.Pairwise (· ≤ ·))
    (spaced : Spaced count window entries) : countIn start window entries ≤ count := by
  induction entries with
  | nil => simp [countIn]
  | cons head rest inductionHypothesis =>
    by_cases early : head < start
    · have passed : countIn start window (head :: rest) = countIn start window rest := by
        simp [countIn, not_le.mpr early]
      rw [passed]
      exact inductionHypothesis sorted.tail spaced.tail
    · have late : countIn start window ((head :: rest).drop count) = 0 := by
        refine List.countP_eq_zero.mpr fun entry member inWindow => ?_
        obtain ⟨place, inside, same⟩ := List.mem_drop_iff_getElem.mp member
        have apart : head + window ≤ (head :: rest)[count] :=
          spaced 0 head _ rfl (by rw [Nat.zero_add, List.getElem?_eq_getElem])
        have after : (head :: rest)[count] ≤ entry :=
          same ▸ le_of_places sorted (Nat.le_add_right count place) _
        have opens : start + window ≤ head + window := by gcongr; exact not_lt.mp early
        exact absurd (of_decide_eq_true inWindow).2 (not_lt.mpr (opens.trans (apart.trans after)))
      have few : countIn start window ((head :: rest).take count) ≤ count :=
        List.countP_le_length.trans (List.length_take_le _ _)
      calc countIn start window (head :: rest)
          = countIn start window ((head :: rest).take count) +
              countIn start window ((head :: rest).drop count) := by
            rw [countIn, countIn, countIn, ← List.countP_append, List.take_append_drop]
        _ ≤ count := by omega

/-- No placement of the window holds more than `count` entries exactly when
entries `count` places apart are a window apart. -/
theorem countIn_le_iff (sorted : entries.Pairwise (· ≤ ·)) :
    (∀ start, countIn start window entries ≤ count) ↔ Spaced count window entries :=
  ⟨spaced_of_countIn_le sorted, fun spaced _ => countIn_le_of_spaced sorted spaced⟩

end Counting

section Rounds

/-- Entries in rounds: a round opens at an entry and takes the entries less
than a window after it, and the next round opens at the entry behind them. -/
def rounds (window : T) : List T → List (List T)
  | [] => []
  | opening :: rest =>
      (opening :: rest.takeWhile (· < opening + window)) ::
        rounds window (rest.dropWhile (· < opening + window))
termination_by entries => entries.length
decreasing_by exact Nat.lt_succ_of_le (List.dropWhile_sublist _).length_le

/-- Of each two rounds at most `count` entries are kept. Where those of the
first are counted through into those of the second, `count` places make a
window. -/
def Relays (count : Nat) (window : T) (earlier later : List T) : Prop :=
  ∀ (place : Nat) (first second : T), (earlier.take count)[place]? = some first →
    (later.take count)[place + (count - (earlier.take count).length)]? = some second →
      first + window ≤ second

variable {count : Nat} {window : T} {entries : List T}

theorem mem_of_mem_rounds {round : List T} {entry : T} (isRound : round ∈ rounds window entries)
    (member : entry ∈ round) : entry ∈ entries := by
  fun_induction rounds window entries with
  | case1 => simp at isRound
  | case2 opening rest inductionHypothesis =>
    rcases List.mem_cons.mp isRound with rfl | later
    · exact (List.cons_sublist_cons.mpr (List.takeWhile_sublist _)).mem member
    · exact List.mem_cons_of_mem _ ((List.dropWhile_sublist _).mem (inductionHypothesis later))

/-- The first entries of each round are spaced when those of neighbouring
rounds are: rounds further apart have a whole round between them. -/
theorem spaced_rounds_iff [AddRightMono T] (sorted : entries.Pairwise (· ≤ ·)) :
    Spaced count window ((rounds window entries).flatMap (List.take count)) ↔
      (rounds window entries).IsChain (Relays count window) := by
  fun_induction rounds window entries with
  | case1 => simp [Spaced.nil]
  | case2 opening rest inductionHypothesis =>
    have behind : (rest.dropWhile (· < opening + window)).Pairwise (· ≤ ·) :=
      sorted.tail.sublist (List.dropWhile_sublist _)
    have whole : opening :: rest = opening :: rest.takeWhile (· < opening + window) ++
        rest.dropWhile (· < opening + window) := by
      rw [List.cons_append, List.takeWhile_append_dropWhile]
    rw [whole, List.pairwise_append] at sorted
    rw [List.flatMap_cons, Spaced.append_iff (List.length_take_le _ _), inductionHypothesis behind]
    generalize rest.dropWhile (· < opening + window) = entries at *
    cases entries with
    | nil => simp [rounds]
    | cons next others =>
      rw [rounds, List.flatMap_cons, List.isChain_cons_cons]
      refine and_congr_left fun _ => ⟨fun across place first second isFirst isSecond => ?_,
        fun relays place first second isFirst isSecond => ?_⟩
      · refine across place first second isFirst ?_
        rw [List.getElem?_append_left (List.getElem?_eq_some_iff.mp isSecond).1, isSecond]
      · rw [List.getElem?_append] at isSecond
        split at isSecond
        · exact relays place first second isFirst isSecond
        · obtain ⟨round, isRound, kept⟩ := List.mem_flatMap.mp (List.mem_of_getElem? isSecond)
          have wholeRound : next + window ≤ second :=
            le_of_mem_dropWhile behind.tail (mem_of_mem_rounds isRound (List.mem_of_mem_take kept))
          have before : first ≤ next := sorted.2.2 first
            (List.mem_of_mem_take (List.mem_of_getElem? isFirst)) next List.mem_cons_self
          calc first + window ≤ next + window := by gcongr
            _ ≤ second := wholeRound

end Rounds

end Foxhttp.Library
