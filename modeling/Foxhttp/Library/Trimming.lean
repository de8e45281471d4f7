import Mathlib.Data.List.DropRight

/-!
# Trimming

`trim` drops the characters of a kind from both ends of a text. What is left is
what lies between two runs of the kind and neither starts nor ends with it, and
these are the characters from `find_first_not_of` to `find_last_not_of`.
-/

namespace Foxhttp.Library.Trimming

universe u

variable {α : Type u} (kind : α → Bool)

/-- A text without the characters of the kind at its ends. -/
def trim (text : List α) : List α :=
  (text.dropWhile kind).rdropWhile kind

/-- `text.find_first_not_of`, from the start. -/
def findFirstNotOf (text : List α) : Option Nat :=
  text.findIdx? fun c => !kind c

/-- `text.find_last_not_of`, from the end. -/
def findLastNotOf (text : List α) : Option Nat :=
  (text.reverse.findIdx? fun c => !kind c).map (text.length - 1 - ·)

/-- The text does not start or end with the kind. -/
structure Trimmed (text : List α) : Prop where
  front : ∀ c ∈ text.head?, kind c = false
  back : ∀ c ∈ text.getLast?, kind c = false

/-- The core of a text lies between two runs of the kind. -/
structure Encloses (text front core back : List α) : Prop where
  split : text = front ++ (core ++ back)
  front : ∀ c ∈ front, kind c = true
  back : ∀ c ∈ back, kind c = true
  core : Trimmed kind core

variable {kind}

theorem exists_encloses (text : List α) :
    ∃ front core back, Encloses kind text front core back := by
  refine ⟨text.takeWhile kind, trim kind text, (text.dropWhile kind).rtakeWhile kind, ?_, ?_, ?_,
    ?_, ?_⟩
  · rw [trim, List.rdropWhile_append_rtakeWhile, List.takeWhile_append_dropWhile]
  · exact fun c => List.mem_takeWhile_imp
  · exact fun c => List.mem_rtakeWhile_imp
  · intro c isHead
    have same : (text.dropWhile kind).head? = some c := by
      obtain ⟨tail, split⟩ := List.rdropWhile_prefix kind (text.dropWhile kind)
      rw [← split, List.head?_append_of_ne_nil _ ?_]
      · exact isHead
      · rintro empty
        rw [trim, empty] at isHead
        cases isHead
    have stops := List.head?_dropWhile_not kind text
    rwa [same] at stops
  · intro c isLast
    have filled : (text.dropWhile kind).rdropWhile kind ≠ [] := by
      rintro empty
      rw [trim, empty] at isLast
      cases isLast
    have stops := List.rdropWhile_last_not kind _ filled
    rw [trim, List.getLast?_eq_some_getLast filled] at isLast
    rw [← Option.some.inj isLast]
    simpa using stops

namespace Encloses

variable {text front core back : List α}

/-- What lies between the runs is left. -/
theorem trim_eq (encloses : Encloses kind text front core back) : trim kind text = core := by
  obtain ⟨rfl, isFront, isBack, trimmed⟩ := encloses
  rw [trim, List.dropWhile_append_of_pos isFront]
  cases core with
  | nil =>
      have nothing : back.dropWhile kind = [] := List.dropWhile_eq_nil_iff.mpr isBack
      rw [List.nil_append, nothing, List.rdropWhile_nil]
  | cons c core =>
      have starts : ¬ kind c = true := by simp [trimmed.front c rfl]
      rw [List.cons_append, List.dropWhile_cons_of_neg starts, ← List.cons_append]
      have ends : ∀ filled : c :: core ≠ [], ¬ kind ((c :: core).getLast filled) = true := by
        intro filled
        simp [trimmed.back _ (List.getLast?_eq_some_getLast filled)]
      rw [List.rdropWhile, List.reverse_append,
        List.dropWhile_append_of_pos (by simpa using isBack), ← List.rdropWhile,
        List.rdropWhile_eq_self_iff.mpr ends]

theorem findFirstNotOf_eq (encloses : Encloses kind text front core back) (filled : core ≠ []) :
    findFirstNotOf kind text = some front.length := by
  obtain ⟨rfl, isFront, -, trimmed⟩ := encloses
  obtain ⟨c, core, rfl⟩ := List.exists_cons_of_ne_nil filled
  have absent : front.findIdx? (fun c => !kind c) = none :=
    List.findIdx?_eq_none_iff.mpr fun c member => by simp [isFront c member]
  rw [findFirstNotOf, List.findIdx?_append, absent, List.cons_append, List.findIdx?_cons,
    trimmed.front c rfl]
  simp

theorem findLastNotOf_eq (encloses : Encloses kind text front core back) (filled : core ≠ []) :
    findLastNotOf kind text = some (front.length + core.length - 1) := by
  obtain ⟨rfl, -, isBack, trimmed⟩ := encloses
  have absent : back.reverse.findIdx? (fun c => !kind c) = none :=
    List.findIdx?_eq_none_iff.mpr fun c member => by simp [isBack c (List.mem_reverse.mp member)]
  have size := List.length_pos_iff.mpr filled
  obtain ⟨core, c, rfl⟩ := (List.eq_nil_or_concat' core).resolve_left filled
  have ends : kind c = false := trimmed.back c List.getLast?_concat
  have reversed : (front ++ ((core ++ [c]) ++ back)).reverse =
      back.reverse ++ c :: (core.reverse ++ front.reverse) := by simp
  rw [findLastNotOf, reversed, List.findIdx?_append, absent, List.findIdx?_cons, ends]
  simp
  omega

/-- The kind at the end of a text is dropped with what follows of it. -/
theorem append (encloses : Encloses kind text front core back) {more : List α}
    (isMore : ∀ c ∈ more, kind c = true) :
    Encloses kind (text ++ more) front core (back ++ more) where
  split := by rw [encloses.split, List.append_assoc, List.append_assoc]
  front := encloses.front
  back := List.forall_mem_append.mpr ⟨encloses.back, isMore⟩
  core := encloses.core

end Encloses

theorem trim_trimmed (text : List α) : Trimmed kind (trim kind text) := by
  obtain ⟨front, core, back, encloses⟩ := @exists_encloses α kind text
  rw [encloses.trim_eq]
  exact encloses.core

theorem mem_of_mem_trim {text : List α} {c : α} (member : c ∈ trim kind text) : c ∈ text := by
  obtain ⟨front, core, back, encloses⟩ := @exists_encloses α kind text
  rw [encloses.trim_eq] at member
  rw [encloses.split]
  exact List.mem_append_right front (List.mem_append_left back member)

/-- A text which is trimmed stays as it is. -/
theorem trim_eq_self {text : List α} (trimmed : Trimmed kind text) : trim kind text = text :=
  Encloses.trim_eq
    ⟨(List.append_nil text).symm, List.forall_mem_nil _, List.forall_mem_nil _, trimmed⟩

/-- Characters of other kinds are all kept. -/
theorem filter_trim (text : List α) :
    (trim kind text).filter (fun c => !kind c) = text.filter fun c => !kind c := by
  obtain ⟨front, core, back, encloses⟩ := @exists_encloses α kind text
  have dropped {run : List α} (isRun : ∀ c ∈ run, kind c = true) :
      run.filter (fun c => !kind c) = [] :=
    List.filter_eq_nil_iff.mpr fun c member => by simp [isRun c member]
  rw [encloses.trim_eq, encloses.split, List.filter_append, List.filter_append,
    dropped encloses.front, dropped encloses.back, List.nil_append, List.append_nil]

/-- More characters at the end change nothing exactly when they are of the kind. -/
theorem trim_append_iff (text more : List α) :
    trim kind (text ++ more) = trim kind text ↔ ∀ c ∈ more, kind c = true := by
  constructor
  · intro same
    have kept := congrArg (List.filter fun c => !kind c) same
    rw [filter_trim, filter_trim, List.filter_append, List.append_right_eq_self] at kept
    simpa using kept
  · intro isMore
    obtain ⟨front, core, back, encloses⟩ := @exists_encloses α kind text
    rw [(encloses.append isMore).trim_eq, encloses.trim_eq]

/-- Kinds which agree on a text trim it to the same. -/
theorem trim_congr {other : α → Bool} {text : List α} (agree : ∀ c ∈ text, kind c = other c) :
    trim kind text = trim other text := by
  obtain ⟨front, core, back, rfl, isFront, isBack, trimmed⟩ := @exists_encloses α kind text
  have inCore {c : α} (member : c ∈ core) : other c = kind c :=
    (agree c (List.mem_append_right _ (List.mem_append_left _ member))).symm
  have forOther : Encloses other (front ++ (core ++ back)) front core back := by
    refine ⟨rfl, fun c member => ?_, fun c member => ?_, fun c isHead => ?_, fun c isLast => ?_⟩
    · rw [← agree c (List.mem_append_left _ member), isFront c member]
    · rw [← agree c (List.mem_append_right _ (List.mem_append_right _ member)), isBack c member]
    · rw [inCore (List.mem_of_mem_head? isHead), trimmed.front c isHead]
    · rw [inCore (List.mem_of_mem_getLast? isLast), trimmed.back c isLast]
  rw [forOther.trim_eq]
  exact Encloses.trim_eq ⟨rfl, isFront, isBack, trimmed⟩

end Foxhttp.Library.Trimming
