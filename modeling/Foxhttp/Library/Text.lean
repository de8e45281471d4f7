/-!
# Byte strings

A `std::string` is a list of characters, one for each byte: the byte `b` is the
character with code `b`, so comparing characters compares unsigned bytes.
Searches return a position, or nothing for `npos`.
-/

namespace Foxhttp.Library

/-- The bytes of a `std::string`. -/
abbrev Text := List Char

namespace Text

/-- `text.find(needle, start)` for a single character. -/
def find (text : Text) (needle : Char) (start : Nat) : Option Nat :=
  ((text.drop start).idxOf? needle).map (start + ·)

/-- `text.rfind(needle)` for a single character. -/
def rfind (text : Text) (needle : Char) : Option Nat :=
  (text.reverse.idxOf? needle).map (text.length - 1 - ·)

/-- `text.substr(start, count)`. -/
def substr (text : Text) (start count : Nat) : Text :=
  (text.drop start).take count

/-- Where a text first occurs in another. -/
def indexOf (needle : Text) : Text → Option Nat
  | [] => if needle = [] then some 0 else none
  | c :: rest => if needle <+: c :: rest then some 0 else (indexOf needle rest).map (· + 1)

/-- `text.find(needle, start)` for a text. -/
def findText (text needle : Text) (start : Nat) : Option Nat :=
  (indexOf needle (text.drop start)).map (start + ·)

/-- `text.erase(start, count)`. -/
def erase (text : Text) (start count : Nat) : Text :=
  text.take start ++ text.drop (start + count)

/-- `text.replace(start, count, bytes)`. -/
def replace (text : Text) (start count : Nat) (bytes : Text) : Text :=
  text.take start ++ bytes ++ text.drop (start + count)

/-- The texts which `std::getline(stream, text, delimiter)` reads one after the
other: the last one only when it is not empty. -/
def getLines (delimiter : Char) : Text → List Text
  | [] => []
  | c :: rest =>
      if c = delimiter then [] :: getLines delimiter rest
      else
        match getLines delimiter rest with
        | [] => [[c]]
        | line :: lines => (c :: line) :: lines

/-- Where a character is first found, the text splits into what precedes it,
the character and what follows. -/
theorem split_of_find {text : Text} {needle : Char} {start pos : Nat}
    (found : find text needle start = some pos) :
    start ≤ pos ∧ pos < text.length ∧ needle ∉ substr text start (pos - start) ∧
      text.drop start = substr text start (pos - start) ++ needle :: text.drop (pos + 1) := by
  obtain ⟨offset, atOffset, rfl⟩ := Option.map_eq_some_iff.mp found
  rw [List.idxOf?_eq_some_iff] at atOffset
  obtain ⟨inside, isNeedle, earlier⟩ := atOffset
  have bound : start + offset < text.length := by
    rw [List.length_drop] at inside
    omega
  refine ⟨by omega, bound, ?_, ?_⟩
  · intro member
    rw [substr, Nat.add_sub_cancel_left, List.mem_take_iff_getElem] at member
    obtain ⟨index, small, same⟩ := member
    exact earlier index (by omega) (by simpa using same)
  · have here : text[start + offset] = needle := by simpa using isNeedle
    rw [substr, Nat.add_sub_cancel_left, ← here, List.getElem_cons_drop, ← List.drop_drop,
      List.take_append_drop]

/-- The rest of the text from where a character is found starts with it. -/
theorem drop_of_find {text : Text} {needle : Char} {start pos : Nat}
    (found : find text needle start = some pos) :
    text.drop pos = needle :: text.drop (pos + 1) := by
  obtain ⟨later, bound, -, split⟩ := split_of_find found
  have lengthIs : (substr text start (pos - start)).length = pos - start := by
    rw [substr, List.length_take, List.length_drop]
    exact Nat.min_eq_left (Nat.sub_le_sub_right (Nat.le_of_lt bound) start)
  rw [← Nat.add_sub_cancel' later, ← List.drop_drop, split, List.drop_left' lengthIs,
    Nat.add_sub_cancel' later]

/-- A character which is not found does not occur from there on. -/
theorem not_mem_of_find {text : Text} {needle : Char} {start : Nat}
    (absent : find text needle start = none) : needle ∉ text.drop start := by
  rw [find, Option.map_eq_none_iff] at absent
  exact List.idxOf?_eq_none_iff.mp absent

/-- What lies in front of a character, or the whole text without it. -/
theorem takeWhile_eq_elim_find (text : Text) (needle : Char) (start : Nat) :
    (text.drop start).takeWhile (· != needle) =
      (find text needle start).elim (text.drop start) fun stop =>
        substr text start (stop - start) := by
  cases found : find text needle start with
  | none =>
      have others : ∀ c ∈ text.drop start, (c != needle) = true := by
        intro c member
        refine bne_iff_ne.mpr ?_
        rintro rfl
        exact not_mem_of_find found member
      rw [Option.elim_none, ← List.append_nil (text.drop start),
        List.takeWhile_append_of_pos others, List.takeWhile_nil]
  | some stop =>
      obtain ⟨-, -, absent, split⟩ := split_of_find found
      have others : ∀ c ∈ substr text start (stop - start), (c != needle) = true := by
        intro c member
        refine bne_iff_ne.mpr ?_
        rintro rfl
        exact absent member
      rw [split, List.takeWhile_append_of_pos others, List.takeWhile_cons_of_neg (by simp),
        List.append_nil]
      rfl

theorem prefix_of_indexOf {needle text : Text} {pos : Nat}
    (found : indexOf needle text = some pos) :
    needle <+: text.drop pos ∧ ∀ earlier < pos, ¬ needle <+: text.drop earlier := by
  induction text generalizing pos with
  | nil =>
      simp only [indexOf, Option.ite_none_right_eq_some, Option.some.injEq] at found
      obtain ⟨rfl, rfl⟩ := found
      exact ⟨List.nil_prefix, nofun⟩
  | cons c text inductionHypothesis =>
      rw [indexOf] at found
      split at found
      · rename_i here
        cases found
        exact ⟨here, nofun⟩
      · rename_i notHere
        obtain ⟨later, foundLater, rfl⟩ := Option.map_eq_some_iff.mp found
        obtain ⟨isPrefix, first⟩ := inductionHypothesis foundLater
        refine ⟨isPrefix, fun earlier before => ?_⟩
        cases earlier with
        | zero => exact notHere
        | succ earlier => exact first earlier (Nat.lt_of_succ_lt_succ before)

/-- Where a text is first found, the rest of the text starts with it. -/
theorem prefix_of_findText {text needle : Text} {start pos : Nat}
    (found : findText text needle start = some pos) :
    start ≤ pos ∧ needle <+: text.drop pos ∧
      ∀ earlier, start ≤ earlier → earlier < pos → ¬ needle <+: text.drop earlier := by
  obtain ⟨offset, isIndex, rfl⟩ := Option.map_eq_some_iff.mp found
  obtain ⟨isPrefix, first⟩ := prefix_of_indexOf isIndex
  rw [List.drop_drop] at isPrefix
  refine ⟨Nat.le_add_right _ _, isPrefix, fun earlier after before => ?_⟩
  have absent := first (earlier - start) (by omega)
  rwa [List.drop_drop, Nat.add_sub_cancel' after] at absent

theorem indexOf_eq_none_iff {needle text : Text} :
    indexOf needle text = none ↔ ¬ needle <:+: text := by
  induction text with
  | nil => simp [indexOf]
  | cons c text inductionHypothesis =>
      rw [indexOf, List.infix_cons_iff, not_or]
      split
      · rename_i here
        simp [here]
      · rename_i notHere
        rw [Option.map_eq_none_iff, inductionHypothesis]
        simp [notHere]

theorem findText_eq_none_iff {text needle : Text} {start : Nat} :
    findText text needle start = none ↔ ¬ needle <:+: text.drop start := by
  rw [findText, Option.map_eq_none_iff, indexOf_eq_none_iff]

/-- Where a text occurs and does not occur earlier, it is found. -/
theorem findText_eq_some {text needle : Text} {pos : Nat} (here : needle <+: text.drop pos)
    (first : ∀ earlier < pos, ¬ needle <+: text.drop earlier) :
    findText text needle 0 = some pos := by
  cases found : findText text needle 0 with
  | none =>
      exact absurd (here.isInfix.trans (List.drop_suffix pos text).isInfix)
        (findText_eq_none_iff.mp found)
  | some other =>
      obtain ⟨-, there, firstThere⟩ := prefix_of_findText found
      have notBefore : ¬ other < pos := fun before => first other before there
      have notAfter : ¬ pos < other := fun after => firstThere pos (Nat.zero_le _) after here
      rw [Nat.le_antisymm (Nat.not_lt.mp notAfter) (Nat.not_lt.mp notBefore)]

/-- What is found lies inside the text. -/
theorem findText_bound {text needle : Text} {pos : Nat} (some_needle : needle ≠ [])
    (found : findText text needle 0 = some pos) : pos + needle.length ≤ text.length := by
  obtain ⟨-, here, -⟩ := prefix_of_findText found
  have fits := here.length_le
  have positive := List.length_pos_iff.mpr some_needle
  rw [List.length_drop] at fits
  omega

/-- What is found in a text is found in every longer text. -/
theorem findText_append {text needle : Text} {pos : Nat} (some_needle : needle ≠ [])
    (found : findText text needle 0 = some pos) (later : Text) :
    findText (text ++ later) needle 0 = some pos := by
  have bound := findText_bound some_needle found
  obtain ⟨-, here, first⟩ := prefix_of_findText found
  refine findText_eq_some ?_ fun earlier before inLonger => ?_
  · rw [List.drop_append_of_le_length (by omega)]
    exact here.trans (List.prefix_append _ _)
  · rw [List.drop_append_of_le_length (by omega)] at inLonger
    refine first earlier (Nat.zero_le _) before ?_
    exact List.prefix_of_prefix_length_le inLonger (List.prefix_append _ _)
      (by rw [List.length_drop]; omega)

/-- A front in which the needle does not start only moves where it is found. -/
theorem findText_skip {front text needle : Text}
    (absent : ∀ start < front.length, ¬ needle <+: (front ++ text).drop start) :
    findText (front ++ text) needle 0 = (findText text needle 0).map (front.length + ·) := by
  have beyond (start : Nat) : (front ++ text).drop (front.length + start) = text.drop start := by
    rw [← List.drop_drop, List.drop_left]
  cases found : findText text needle 0 with
  | none =>
      rw [Option.map_none, findText_eq_none_iff, List.drop_zero, List.infix_iff_prefix_suffix]
      rintro ⟨tail, isPrefix, isSuffix⟩
      rw [List.suffix_iff_eq_drop] at isSuffix
      rw [isSuffix] at isPrefix
      by_cases inFront : (front ++ text).length - tail.length < front.length
      · exact absent _ inFront isPrefix
      · rw [← Nat.add_sub_cancel' (Nat.not_lt.mp inFront), beyond] at isPrefix
        exact findText_eq_none_iff.mp found
          (isPrefix.isInfix.trans (List.drop_suffix _ text).isInfix)
  | some pos =>
      obtain ⟨-, here, first⟩ := prefix_of_findText found
      refine findText_eq_some (by rwa [beyond]) fun earlier before isPrefix => ?_
      by_cases inFront : earlier < front.length
      · exact absent _ inFront isPrefix
      · rw [← Nat.add_sub_cancel' (Nat.not_lt.mp inFront), beyond] at isPrefix
        exact first _ (Nat.zero_le _) (Nat.sub_lt_left_of_lt_add (Nat.not_lt.mp inFront) before)
          isPrefix

/-- A front in which the needle does not start adds no occurrence. -/
theorem infix_skip {front text needle : Text}
    (absent : ∀ start < front.length, ¬ needle <+: (front ++ text).drop start) :
    needle <:+: front ++ text ↔ needle <:+: text := by
  have same := congrArg Option.isNone (findText_skip absent)
  rw [Option.isNone_map] at same
  have iffs : findText (front ++ text) needle 0 = none ↔ findText text needle 0 = none := by
    rw [← Option.isNone_iff_eq_none, ← Option.isNone_iff_eq_none, same]
  rw [findText_eq_none_iff, findText_eq_none_iff, List.drop_zero, List.drop_zero] at iffs
  exact Decidable.not_iff_not.mp iffs

/-- A text which starts with the needle has it at once. -/
theorem findText_self (needle rest : Text) : findText (needle ++ rest) needle 0 = some 0 :=
  findText_eq_some (List.prefix_append needle rest) nofun

/-- A needle does not start in a front without its first character. -/
theorem not_prefix_drop {front text needle : Text} {first : Char} (absent : first ∉ front)
    {start : Nat} (inside : start < front.length) :
    ¬ first :: needle <+: (front ++ text).drop start := by
  rw [List.drop_append_of_le_length (Nat.le_of_lt inside), List.drop_eq_getElem_cons inside,
    List.cons_append, List.cons_prefix_cons]
  rintro ⟨rfl, -⟩
  exact absent (List.getElem_mem inside)

/-- A needle without the character behind a front ends in the front. -/
theorem prefix_of_boundary {needle front rest : Text} (starts : needle <+: front ++ rest)
    (boundary : ∀ c, rest.head? = some c → c ∉ needle) : needle <+: front := by
  induction front generalizing needle with
  | nil =>
      cases needle with
      | nil => exact List.nil_prefix
      | cons first needle =>
          obtain ⟨tail, rfl⟩ := starts
          exact absurd List.mem_cons_self (boundary first rfl)
  | cons c front inductionHypothesis =>
      cases needle with
      | nil => exact List.nil_prefix
      | cons first needle =>
          rw [List.cons_append, List.cons_prefix_cons] at starts
          refine List.cons_prefix_cons.mpr ⟨starts.1, inductionHypothesis starts.2 ?_⟩
          exact fun c isHead member => boundary c isHead (List.mem_cons_of_mem _ member)

/-- The text from where a needle first occurs in it. -/
def fromFirst (text needle : Text) : Option Text :=
  (findText text needle 0).map text.drop

theorem fromFirst_skip {front text needle : Text}
    (absent : ∀ start < front.length, ¬ needle <+: (front ++ text).drop start) :
    fromFirst (front ++ text) needle = fromFirst text needle := by
  rw [fromFirst, findText_skip absent, Option.map_map, fromFirst]
  refine congrArg (Option.map · _) (funext fun pos => ?_)
  rw [Function.comp_apply, ← List.drop_drop, List.drop_left]

theorem fromFirst_self (needle rest : Text) :
    fromFirst (needle ++ rest) needle = some (needle ++ rest) := by
  rw [fromFirst, findText_self, Option.map_some, List.drop_zero]

theorem fromFirst_append {text needle : Text} {pos : Nat} (some_needle : needle ≠ [])
    (found : findText text needle 0 = some pos) (later : Text) :
    fromFirst (text ++ later) needle = some (text.drop pos ++ later) := by
  have bound := findText_bound some_needle found
  rw [fromFirst, findText_append some_needle found, Option.map_some,
    List.drop_append_of_le_length (by omega)]

/-- A search from a position is a search in the rest of the text. -/
theorem findText_drop (text needle : Text) (start : Nat) :
    findText text needle start = (findText (text.drop start) needle 0).map (start + ·) := by
  simp [findText]

/-- A character is found behind a text without it. -/
theorem find_self {front : Text} {needle : Char} (absent : needle ∉ front) (rest : Text) :
    find (front ++ needle :: rest) needle 0 = some front.length := by
  have first : (front ++ needle :: rest).idxOf? needle = some front.length := by
    rw [List.idxOf?_eq_some_iff]
    refine ⟨by simp, by simp, fun index before same => absent ?_⟩
    rw [List.getElem_append_left before] at same
    exact same ▸ List.getElem_mem before
  rw [find, List.drop_zero, first, Option.map_some, Nat.zero_add]

theorem find_eq_none {text : Text} {needle : Char} (absent : needle ∉ text) :
    find text needle 0 = none := by
  rw [find, Option.map_eq_none_iff, List.drop_zero]
  exact List.idxOf?_eq_none_iff.mpr absent

/-- The last of a character is found where none follows. -/
theorem rfind_self {back : Text} {needle : Char} (absent : needle ∉ back) (front : Text) :
    rfind (front ++ needle :: back) needle = some front.length := by
  have reversed := @find_self back.reverse needle (by rwa [List.mem_reverse]) front.reverse
  rw [find, List.drop_zero, Option.map_eq_some_iff] at reversed
  obtain ⟨offset, found, isOffset⟩ := reversed
  rw [rfind, List.reverse_append, List.reverse_cons, List.append_assoc, List.singleton_append,
    found, Option.map_some, Option.some.injEq]
  rw [List.length_reverse] at isOffset
  simp only [List.length_append, List.length_cons]
  omega

theorem rfind_eq_none {text : Text} {needle : Char} (absent : needle ∉ text) :
    rfind text needle = none := by
  rw [rfind, Option.map_eq_none_iff, List.idxOf?_eq_none_iff, List.mem_reverse]
  exact absent

/-- Where a character is found last. -/
theorem rfind_of_mem {text : Text} {needle : Char} (member : needle ∈ text) :
    ∃ pos, rfind text needle = some pos ∧ pos < text.length := by
  cases found : text.reverse.idxOf? needle with
  | none =>
      exact absurd (List.mem_reverse.mpr member) (List.idxOf?_eq_none_iff.mp found)
  | some offset =>
      have filled := List.length_pos_of_mem member
      refine ⟨text.length - 1 - offset, by rw [rfind, found]; rfl, by omega⟩

/-- In front of a mark which it ends with and has only there, a needle is found
where the front ends with it; otherwise it is looked for behind the mark. -/
theorem findText_mark {front key rest : Text} {mark : Char} (unmarked : mark ∉ front)
    (keyUnmarked : mark ∉ key) :
    findText (front ++ mark :: rest) (key ++ [mark]) 0 =
      if key <:+ front then some (front.length - key.length)
      else (findText rest (key ++ [mark]) 0).map (front.length + 1 + ·) := by
  have marks {start : Nat} (starts : key ++ [mark] <+: (front ++ mark :: rest).drop start) :
      (front ++ mark :: rest)[start + key.length]? = some mark := by
    obtain ⟨tail, split⟩ := starts
    rw [← List.getElem?_drop, ← split, List.append_assoc,
      List.getElem?_append_right (Nat.le_refl _), Nat.sub_self]
    rfl
  have beyond {start : Nat} (starts : key ++ [mark] <+: (front ++ mark :: rest).drop start) :
      front.length ≤ start + key.length := by
    refine Nat.not_lt.mp fun inFront => unmarked ?_
    have here := marks starts
    rw [List.getElem?_append_left inFront] at here
    exact List.mem_of_getElem? here
  split
  · rename_i isSuffix
    obtain ⟨before, rfl⟩ := isSuffix
    have size : (before ++ key).length - key.length = before.length := by simp
    rw [size]
    refine findText_eq_some ?_ fun earlier small starts => ?_
    · rw [List.append_assoc, List.drop_left]
      exact ⟨rest, by simp⟩
    · have late := beyond starts
      rw [List.length_append] at late
      omega
  · rename_i notSuffix
    have split : front ++ mark :: rest = (front ++ [mark]) ++ rest := by simp
    have size : front.length + 1 = (front ++ [mark]).length := by simp
    rw [split, size]
    refine findText_skip fun start inFront starts => ?_
    rw [← split] at starts
    rw [← size] at inFront
    have late := beyond starts
    by_cases meets : start + key.length = front.length
    · refine notSuffix ?_
      obtain ⟨tail, same⟩ := starts
      rw [List.drop_append_of_le_length (by omega), List.append_assoc] at same
      have lengths : key.length = (front.drop start).length := by
        rw [List.length_drop]
        omega
      rw [(List.append_inj same lengths).1]
      exact List.drop_suffix start front
    · refine keyUnmarked ?_
      obtain ⟨tail, same⟩ := starts
      have inKey : front.length - start < key.length := by omega
      have here := congrArg (·[front.length - start]?) same
      rw [List.append_assoc, List.getElem?_append_left inKey, List.getElem?_drop,
        Nat.add_sub_cancel' (by omega), List.getElem?_append_right (Nat.le_refl _),
        Nat.sub_self] at here
      exact List.mem_of_getElem? here

/-- A rewriting which keeps every character where the needle does not occur
keeps the text in front of the first occurrence. -/
theorem rewrite_skip {rewrite : Text → Text} {needle : Text} (nil : rewrite [] = [])
    (keeps : ∀ c rest, ¬ needle <+: c :: rest → rewrite (c :: rest) = c :: rewrite rest)
    {text : Text} {pos : Nat} (first : ∀ earlier < pos, ¬ needle <+: text.drop earlier) :
    rewrite text = text.take pos ++ rewrite (text.drop pos) := by
  induction pos generalizing text with
  | zero => rfl
  | succ pos inductionHypothesis =>
      cases text with
      | nil => simp [nil]
      | cons c text =>
          rw [keeps c text (first 0 (Nat.succ_pos pos)), List.take_succ_cons, List.drop_succ_cons,
            List.cons_append]
          exact congrArg (c :: ·)
            (inductionHypothesis fun earlier before =>
              first (earlier + 1) (Nat.succ_lt_succ before))

/-- Such a rewriting may go on at the next occurrence. -/
theorem rewrite_find {rewrite : Text → Text} {needle : Text} (nil : rewrite [] = [])
    (keeps : ∀ c rest, ¬ needle <+: c :: rest → rewrite (c :: rest) = c :: rewrite rest)
    {text : Text} {start pos : Nat} (found : findText text needle start = some pos) :
    text.take start ++ rewrite (text.drop start) = text.take pos ++ rewrite (text.drop pos) := by
  obtain ⟨later, -, first⟩ := prefix_of_findText found
  have skipped : rewrite (text.drop start) =
      (text.drop start).take (pos - start) ++ rewrite ((text.drop start).drop (pos - start)) :=
    rewrite_skip nil keeps fun earlier before => by
      rw [List.drop_drop]
      exact first _ (Nat.le_add_right _ _) (by omega)
  rw [skipped, ← List.append_assoc, ← List.take_add, List.drop_drop, Nat.add_sub_cancel' later]

/-- Such a rewriting keeps a text in which the needle does not occur. -/
theorem rewrite_eq_self {rewrite : Text → Text} {needle : Text} (nil : rewrite [] = [])
    (keeps : ∀ c rest, ¬ needle <+: c :: rest → rewrite (c :: rest) = c :: rewrite rest)
    {text : Text} (absent : ¬ needle <:+: text) : rewrite text = text := by
  have whole : rewrite text = text.take text.length ++ rewrite (text.drop text.length) :=
    rewrite_skip nil keeps fun earlier _ isPrefix =>
      absent (isPrefix.isInfix.trans (List.drop_suffix _ _).isInfix)
  rwa [List.take_length, List.drop_length, nil, List.append_nil] at whole

/-- A run of characters is taken up to the first character which is not of the kind. -/
theorem takeWhile_run {kind : Char → Bool} {run rest : Text} (all : ∀ c ∈ run, kind c = true)
    (stops : ∀ c ∈ rest.head?, kind c = false) :
    (run ++ rest).takeWhile kind = run ∧ (run ++ rest).dropWhile kind = rest := by
  rw [List.takeWhile_append_of_pos all, List.dropWhile_append_of_pos all]
  cases rest with
  | nil => exact ⟨List.append_nil run, rfl⟩
  | cons c rest =>
      have other : ¬ kind c = true := by simp [stops c rfl]
      rw [List.takeWhile_cons_of_neg other, List.dropWhile_cons_of_neg other]
      exact ⟨List.append_nil run, rfl⟩

/-! ## Reading up to a delimiter -/

theorem getLines_feed {delimiter : Char} {line : Text} (oneLine : delimiter ∉ line) (rest : Text) :
    getLines delimiter (line ++ delimiter :: rest) = line :: getLines delimiter rest := by
  induction line with
  | nil => rw [List.nil_append, getLines, if_pos rfl]
  | cons c line inductionHypothesis =>
      rw [List.mem_cons, not_or] at oneLine
      rw [List.cons_append, getLines, if_neg (Ne.symm oneLine.1), inductionHypothesis oneLine.2]

theorem getLines_line {delimiter : Char} {line : Text} (filled : line ≠ [])
    (oneLine : delimiter ∉ line) : getLines delimiter line = [line] := by
  induction line with
  | nil => exact absurd rfl filled
  | cons c line inductionHypothesis =>
      rw [List.mem_cons, not_or] at oneLine
      rw [getLines, if_neg (Ne.symm oneLine.1)]
      cases line with
      | nil => rfl
      | cons d line => rw [inductionHypothesis (List.cons_ne_nil _ _) oneLine.2]

theorem not_mem_of_mem_getLines {delimiter : Char} {text line : Text}
    (member : line ∈ getLines delimiter text) : delimiter ∉ line := by
  induction text generalizing line with
  | nil => cases member
  | cons c text inductionHypothesis =>
      rw [getLines] at member
      split at member
      · rcases List.mem_cons.mp member with rfl | later
        · exact List.not_mem_nil
        · exact inductionHypothesis later
      · rename_i different
        split at member
        · obtain rfl := List.mem_singleton.mp member
          simpa using Ne.symm different
        · rename_i first lines isLines
          rcases List.mem_cons.mp member with rfl | later
          · rw [List.mem_cons, not_or]
            exact ⟨Ne.symm different, inductionHypothesis (isLines ▸ List.mem_cons_self)⟩
          · exact inductionHypothesis (isLines ▸ List.mem_cons_of_mem _ later)

/-- Filled texts joined with a delimiter which none of them has come apart again. -/
theorem getLines_intercalate {delimiter : Char} {lines : List Text}
    (areLines : ∀ line ∈ lines, line ≠ [] ∧ delimiter ∉ line) :
    getLines delimiter ([delimiter].intercalate lines) = lines := by
  induction lines with
  | nil => rfl
  | cons line lines inductionHypothesis =>
      obtain ⟨⟨filled, oneLine⟩, later⟩ := List.forall_mem_cons.mp areLines
      cases lines with
      | nil => simpa [List.intercalate] using getLines_line filled oneLine
      | cons second lines =>
          rw [List.intercalate_cons_cons, List.append_assoc, List.singleton_append,
            getLines_feed oneLine, inductionHypothesis later]

end Text

end Foxhttp.Library
