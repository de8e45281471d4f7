import Foxhttp.Config.Sections
import Foxhttp.Library.Replacing
import Foxhttp.Library.Trimming
import Foxhttp.Library.UrlEncoded
import Foxhttp.Parser.PlainText

/-!
# Processing plain text

`process_text` replaces line ends, trims and checks the encoding, each as the
configuration says. What it returns stays as it is when it is processed again:
it has no carriage return left, and trimming does not bring one back.
-/

namespace Foxhttp.Parser.PlainText

open Foxhttp.Library
open Foxhttp.Config (PlainTextConfig)
open Foxhttp.Library.UrlEncoded (isSpace)

/-! ## Line ends -/

/-- `PlainTextParserImpl::normalize_line_endings`. -/
def normalizeLineEndings (text : Text) : Text :=
  let result := @Text.replaceFrom "\r\n".toList (by decide) "\n".toList text 0
  @Text.replaceFrom "\r".toList (by decide) "\n".toList result 0

/-- One pass: a line feed for each CRLF and for each other carriage return. -/
def unifyLineEnds : Text → Text
  | [] => []
  | '\r' :: '\n' :: rest => '\n' :: unifyLineEnds rest
  | '\r' :: rest => '\n' :: unifyLineEnds rest
  | c :: rest => c :: unifyLineEnds rest

theorem normalizeLineEndings_eq (text : Text) :
    normalizeLineEndings text = unifyLineEnds text := by
  have start {needle : Text} (filled : needle ≠ []) (bytes text : Text) :
      Text.replaceFrom filled bytes text 0 = Text.replaceAll filled bytes text :=
    Text.replaceFrom_eq [] text
  rw [normalizeLineEndings, start, start]
  induction text using unifyLineEnds.induct with
  | case1 => rw [Text.replaceAll_nil, Text.replaceAll_nil, unifyLineEnds]
  | case2 rest inductionHypothesis =>
      have pair : '\r' :: '\n' :: rest = "\r\n".toList ++ rest := rfl
      have feed (more : Text) : "\n".toList ++ more = '\n' :: more := rfl
      rw [pair, Text.replaceAll_needle, feed, Text.replaceAll_cons (by simp), inductionHypothesis,
        ← pair, unifyLineEnds]
  | case3 rest alone inductionHypothesis =>
      have notPair : ¬ "\r\n".toList <+: '\r' :: rest := by
        rintro ⟨tail, same⟩
        exact alone tail (List.cons.inj same).2.symm
      have single (more : Text) : '\r' :: more = "\r".toList ++ more := rfl
      rw [Text.replaceAll_cons notPair, single, Text.replaceAll_needle, inductionHypothesis,
        unifyLineEnds.eq_3 rest alone]
      rfl
  | case4 c rest alone other inductionHypothesis =>
      have notPair : ¬ "\r\n".toList <+: c :: rest := fun here =>
        other (List.cons_prefix_cons.mp here).1.symm
      have notReturn (more : Text) : ¬ "\r".toList <+: c :: more := fun here =>
        other (List.cons_prefix_cons.mp here).1.symm
      rw [Text.replaceAll_cons notPair, Text.replaceAll_cons (notReturn _), inductionHypothesis,
        unifyLineEnds.eq_4 c rest alone other]

theorem return_not_mem_unifyLineEnds (text : Text) : '\r' ∉ unifyLineEnds text := by
  induction text using unifyLineEnds.induct with
  | case1 => exact List.not_mem_nil
  | case2 rest inductionHypothesis =>
      rw [unifyLineEnds]
      exact List.not_mem_cons_of_ne_of_not_mem (by decide) inductionHypothesis
  | case3 rest alone inductionHypothesis =>
      rw [unifyLineEnds.eq_3 rest alone]
      exact List.not_mem_cons_of_ne_of_not_mem (by decide) inductionHypothesis
  | case4 c rest alone other inductionHypothesis =>
      rw [unifyLineEnds.eq_4 c rest alone other]
      exact List.not_mem_cons_of_ne_of_not_mem (fun same => other same.symm) inductionHypothesis

/-- A text without a carriage return has the line ends it gets. -/
theorem unifyLineEnds_self {text : Text} (clean : '\r' ∉ text) : unifyLineEnds text = text := by
  induction text using unifyLineEnds.induct with
  | case1 => rfl
  | case2 rest _ => exact absurd List.mem_cons_self clean
  | case3 rest _ _ => exact absurd List.mem_cons_self clean
  | case4 c rest alone other inductionHypothesis =>
      rw [unifyLineEnds.eq_4 c rest alone other,
        inductionHypothesis fun member => clean (List.mem_cons_of_mem c member)]

/-! ## White space -/

/-- The loop of `trim_whitespace` which moves `start`; nothing where it reads past
the end. -/
def skipFront (text : Text) (start stop : Nat) : Option Nat :=
  if start ≤ stop then do
    let c ← text[start]?
    if isSpace c then skipFront text (start + 1) stop else some start
  else some start
termination_by stop + 1 - start

/-- The loop which moves `end`; nothing where it reads past the end or `end` wraps. -/
def skipBack (text : Text) (start : Nat) : Nat → Option Nat
  | 0 =>
      if start ≤ 0 then do
        let c ← text[0]?
        if isSpace c then none else some 0
      else some 0
  | stop + 1 =>
      if start ≤ stop + 1 then do
        let c ← text[stop + 1]?
        if isSpace c then skipBack text start stop else some (stop + 1)
      else some (stop + 1)

/-- `PlainTextParserImpl::trim_whitespace`; nothing where an index leaves the text. -/
def trimWhitespace (text : Text) : Option Text :=
  if text.isEmpty then some text
  else do
    let start ← skipFront text 0 (text.length - 1)
    let stop ← skipBack text start (text.length - 1)
    if start > stop then some [] else some (Text.substr text start (stop - start + 1))

/-- `start` goes over a run of white space which ends at the end of the text or in
front of something else. -/
theorem skipFront_run {text run rest : Text} {start stop : Nat}
    (here : text.drop start = run ++ rest) (isRun : ∀ c ∈ run, isSpace c = true)
    (fits : start + run.length ≤ stop + 1)
    (ends : start + run.length ≤ stop → ∃ c ∈ rest.head?, isSpace c = false) :
    skipFront text start stop = some (start + run.length) := by
  induction run generalizing start with
  | nil =>
      rw [skipFront]
      split
      · rename_i inside
        obtain ⟨c, isHead, other⟩ := ends inside
        have found : text[start]? = some c := by
          rw [← List.head?_drop, here]
          exact isHead
        simp [found, other]
      · rfl
  | cons c run inductionHypothesis =>
      obtain ⟨isSpace_, later⟩ := List.forall_mem_cons.mp isRun
      have found : text[start]? = some c := by
        rw [← List.head?_drop, here]
        rfl
      have behind : text.drop (start + 1) = run ++ rest := by
        rw [← List.drop_drop, here]
        rfl
      have next : start + (c :: run).length = start + 1 + run.length := by
        rw [List.length_cons, Nat.add_assoc, Nat.add_comm 1]
      rw [next] at fits ends ⊢
      rw [skipFront, if_pos (by omega), found, Option.bind_eq_bind, Option.bind_some,
        if_pos isSpace_, inductionHypothesis behind later fits ends]

theorem skipBack_beyond {text : Text} {start stop : Nat} (beyond : stop < start) :
    skipBack text start stop = some stop := by
  cases stop <;> exact if_neg (Nat.not_le.mpr beyond)

theorem skipBack_other {text : Text} {start stop : Nat} {c : Char}
    (found : text[stop]? = some c) (other : isSpace c = false) :
    skipBack text start stop = some stop := by
  cases stop <;> simp [skipBack, found, other]

theorem skipBack_space {text : Text} {start stop : Nat} {c : Char} (inside : start ≤ stop + 1)
    (found : text[stop + 1]? = some c) (space : isSpace c = true) :
    skipBack text start (stop + 1) = skipBack text start stop := by
  rw [skipBack, if_pos inside, found, Option.bind_eq_bind, Option.bind_some, if_pos space]

/-- `end` goes back over a run of white space behind something else. -/
theorem skipBack_run {text kept run rest : Text} {c : Char} (start : Nat)
    (split : text = kept ++ c :: (run ++ rest)) (isRun : ∀ c ∈ run, isSpace c = true)
    (other : isSpace c = false) (early : start ≤ kept.length) :
    skipBack text start (kept.length + run.length) = some kept.length := by
  induction run using List.reverseRecOn generalizing rest with
  | nil =>
      have found : text[kept.length]? = some c := by simp [split]
      exact skipBack_other found other
  | append_singleton run d inductionHypothesis =>
      obtain ⟨earlier, space⟩ := List.forall_mem_append.mp isRun
      have found : text[kept.length + run.length + 1]? = some d := by
        have before : (kept ++ c :: run).length = kept.length + run.length + 1 := by
          rw [List.length_append, List.length_cons, Nat.add_assoc]
        have here : text = (kept ++ c :: run) ++ d :: rest := by simp [split]
        rw [here, ← before, List.getElem?_append_right (Nat.le_refl _), Nat.sub_self]
        rfl
      have behind : text = kept ++ c :: (run ++ d :: rest) := by simp [split]
      rw [List.length_append, List.length_singleton, ← Nat.add_assoc,
        skipBack_space (by omega) found (space d (List.mem_singleton_self d))]
      exact inductionHypothesis behind earlier

/-- What lies between the runs of white space is returned, and no index leaves the
text. -/
theorem trimWhitespace_core {text front core back : Text}
    (encloses : Trimming.Encloses isSpace text front core back) :
    trimWhitespace text = some core := by
  obtain ⟨split, isFront, isBack, trimmed⟩ := encloses
  cases size : text.length with
  | zero =>
      obtain rfl := List.eq_nil_of_length_eq_zero size
      obtain ⟨-, others⟩ := List.append_eq_nil_iff.mp split.symm
      rw [(List.append_eq_nil_iff.mp others).1]
      rfl
  | succ last =>
      have filled : ¬ text.isEmpty = true := by
        rintro empty
        rw [List.isEmpty_iff.mp empty] at size
        cases size
      rw [trimWhitespace, if_neg filled, size, Nat.add_sub_cancel]
      rcases List.eq_nil_or_concat' core with rfl | ⟨kept, c, rfl⟩
      · have blank : ∀ c ∈ text, isSpace c = true := by
          rw [split]
          exact List.forall_mem_append.mpr ⟨isFront, isBack⟩
        have start := @skipFront_run text text [] 0 last (List.append_nil _).symm blank
          (by omega) (by omega)
        rw [start, Option.bind_eq_bind, Option.bind_some, Nat.zero_add, size,
          skipBack_beyond (Nat.lt_succ_self last), Option.bind_some,
          if_pos (Nat.lt_succ_self last)]
      · have starts : ∃ first ∈ (kept ++ [c] ++ back).head?, isSpace first = false := by
          cases kept with
          | nil => exact ⟨c, rfl, trimmed.front c rfl⟩
          | cons first kept => exact ⟨first, rfl, trimmed.front first rfl⟩
        have sizes := congrArg List.length split
        simp only [List.length_append, List.length_singleton] at sizes
        have start := @skipFront_run text front (kept ++ [c] ++ back) 0 last split isFront
          (by omega) fun _ => starts
        have behind : text = (front ++ kept) ++ c :: (back ++ []) := by simp [split]
        have stop := skipBack_run front.length behind isBack
          (trimmed.back c List.getLast?_concat) (by simp)
        have lastIs : (front ++ kept).length + back.length = last := by
          rw [List.length_append]
          omega
        rw [lastIs, List.length_append] at stop
        have count : front.length + kept.length - front.length + 1 = (kept ++ [c]).length := by
          rw [Nat.add_sub_cancel_left, List.length_append, List.length_singleton]
        rw [start, Option.bind_eq_bind, Option.bind_some, Nat.zero_add, stop, Option.bind_some,
          if_neg (by omega), count, split, Text.substr, List.drop_left, List.take_left]

theorem trimWhitespace_eq (text : Text) :
    trimWhitespace text = some (Trimming.trim isSpace text) := by
  obtain ⟨front, core, back, encloses⟩ := @Trimming.exists_encloses Char isSpace text
  rw [trimWhitespace_core encloses, encloses.trim_eq]

/-! ## All stages -/

/-- The bytes of a text. -/
def bytesOf (text : Text) : List UInt8 :=
  text.map fun c => UInt8.ofNat c.toNat

/-- `PlainTextParserImpl::process_text`; nothing where an index leaves the text. -/
def processText (config : PlainTextConfig) (text : Text) : Option (Except String Text) := do
  let result := if config.normalizeLineEndings then normalizeLineEndings text else text
  let result ← if config.trimWhitespace then trimWhitespace result else some result
  if config.validateEncoding then
    let valid ← isValidUtf8 (bytesOf result)
    if valid then some (.ok result) else some (.error "Invalid UTF-8 encoding detected")
  else some (.ok result)

/-- What the first two stages make of a text. -/
def staged (config : PlainTextConfig) (text : Text) : Text :=
  let result := if config.normalizeLineEndings then unifyLineEnds text else text
  if config.trimWhitespace then Trimming.trim isSpace result else result

/-- The last stage. -/
def checked (config : PlainTextConfig) (result : Text) : Option (Except String Text) :=
  if config.validateEncoding then
    (isValidUtf8 (bytesOf result)).map fun valid =>
      if valid then .ok result else .error "Invalid UTF-8 encoding detected"
  else some (.ok result)

theorem processText_eq (config : PlainTextConfig) (text : Text) :
    processText config text = checked config (staged config text) := by
  have last (result : Text) :
      (if config.validateEncoding = true then
        (isValidUtf8 (bytesOf result)).bind fun valid =>
          if valid = true then some (Except.ok result)
          else some (Except.error "Invalid UTF-8 encoding detected")
      else some (Except.ok result)) = checked config result := by
    refine if_congr Iff.rfl ?_ rfl
    cases isValidUtf8 (bytesOf result) with
    | none => rfl
    | some valid => cases valid <;> rfl
  unfold processText staged
  simp only [normalizeLineEndings_eq, trimWhitespace_eq, Option.bind_eq_bind, Option.bind_some,
    last]
  by_cases trims : config.trimWhitespace = true
  · simp only [if_pos trims]
  · simp only [if_neg trims]

/-- The first two stages change nothing in what they make. -/
theorem staged_staged (config : PlainTextConfig) (text : Text) :
    staged config (staged config text) = staged config text := by
  have clean (text : Text) : '\r' ∉ Trimming.trim isSpace (unifyLineEnds text) := fun member =>
    return_not_mem_unifyLineEnds text (Trimming.mem_of_mem_trim member)
  have idle (text : Text) : Trimming.trim isSpace (Trimming.trim isSpace text) =
      Trimming.trim isSpace text := Trimming.trim_eq_self (Trimming.trim_trimmed text)
  unfold staged
  dsimp only
  by_cases normalizes : config.normalizeLineEndings = true <;>
    by_cases trims : config.trimWhitespace = true
  · simp only [if_pos normalizes, if_pos trims]
    rw [unifyLineEnds_self (clean text), idle]
  · simp only [if_pos normalizes, if_neg trims]
    rw [unifyLineEnds_self (return_not_mem_unifyLineEnds text)]
  · simp only [if_neg normalizes, if_pos trims]
    rw [idle]
  · simp only [if_neg normalizes, if_neg trims]

/-- What is returned is what the first two stages made. -/
theorem result_of_checked {config : PlainTextConfig} {result returned : Text}
    (isReturned : checked config result = some (.ok returned)) : returned = result := by
  rw [checked] at isReturned
  split at isReturned
  · obtain ⟨valid, -, outcome⟩ := Option.map_eq_some_iff.mp isReturned
    split at outcome
    · exact (Except.ok.inj outcome).symm
    · cases outcome
  · exact (Except.ok.inj (Option.some.inj isReturned)).symm

/-- **Plain-text processing is exact and idempotent**, for every configuration: the
line ends are those of one pass, what lies between the outer runs of white space is
kept, no index leaves a text, and what is returned is returned again. -/
theorem processText_exact (config : PlainTextConfig) :
    (∀ text, normalizeLineEndings text = unifyLineEnds text) ∧
    (∀ text, ∃ front core back, Trimming.Encloses isSpace text front core back ∧
      trimWhitespace text = some core) ∧
    (∀ text, (processText config text).isSome) ∧
    ∀ text result, processText config text = some (.ok result) →
      processText config result = some (.ok result) := by
  refine ⟨normalizeLineEndings_eq, fun text => ?_, fun text => ?_, fun text result returned => ?_⟩
  · obtain ⟨front, core, back, encloses⟩ := @Trimming.exists_encloses Char isSpace text
    exact ⟨front, core, back, encloses, trimWhitespace_core encloses⟩
  · obtain ⟨verdict, isVerdict, -⟩ := isValidUtf8_spec (bytesOf (staged config text))
    rw [processText_eq, checked, isVerdict]
    split <;> rfl
  · rw [processText_eq] at returned
    obtain rfl := result_of_checked returned
    rw [processText_eq, staged_staged]
    exact returned

end Foxhttp.Parser.PlainText
