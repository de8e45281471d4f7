import Mathlib.Data.List.TakeWhile
import Foxhttp.Library.Json.Lexical
import Foxhttp.Library.Json.Strings
import Foxhttp.Parser.Json

/-!
# What preprocessing makes of a JSON text

The loops of `preprocess_json` go over the text from the left: `uncomment`
drops everything from two slashes to the end of the line, `uncomma` drops a
comma in front of a closing brace. The loop for closing brackets starts behind
the end of the text and does nothing. In a JSON text both only find something
inside of string literals: two slashes cut a literal open, a comma is dropped
from it.
-/

namespace Foxhttp.Parser

open Foxhttp.Library Foxhttp.Library.Json

/-! ## The loops -/

mutual

/-- A text without its comments. -/
def uncomment : Text → Text
  | [] => []
  | c :: rest => if "//".toList <+: c :: rest then uncommentLine rest else c :: uncomment rest

/-- The text from the end of the line on, without its comments. -/
def uncommentLine : Text → Text
  | [] => []
  | c :: rest => if c = '\n' then c :: uncomment rest else uncommentLine rest

end

/-- A text without the commas in front of closing braces. -/
def uncomma : Text → Text
  | [] => []
  | c :: rest => if [',', '}'] <+: c :: rest then uncomma rest else c :: uncomma rest

theorem uncomment_skip (c : Char) (rest : Text) (kept : ¬ "//".toList <+: c :: rest) :
    uncomment (c :: rest) = c :: uncomment rest := by
  rw [uncomment, if_neg kept]

theorem uncomma_skip (c : Char) (rest : Text) (kept : ¬ [',', '}'] <+: c :: rest) :
    uncomma (c :: rest) = c :: uncomma rest := by
  rw [uncomma, if_neg kept]

theorem uncomment_newline (rest : Text) : uncomment ('\n' :: rest) = '\n' :: uncomment rest :=
  uncomment_skip _ _ fun isPrefix => absurd (List.cons_prefix_cons.mp isPrefix).1 (by decide)

theorem uncommentLine_eq (text : Text) :
    uncommentLine text = uncomment (text.dropWhile (· != '\n')) := by
  induction text with
  | nil => rfl
  | cons c text inductionHypothesis =>
      rw [uncommentLine]
      by_cases ends : c = '\n'
      · subst ends
        rw [if_pos rfl, List.dropWhile_cons_of_neg (by simp), uncomment_newline]
      · rw [if_neg ends, List.dropWhile_cons_of_pos (by simpa using ends), inductionHypothesis]

/-- From two slashes on, the text goes on at the end of the line. -/
theorem uncomment_comment {text : Text} (isComment : "//".toList <+: text) :
    uncomment text = uncomment (text.dropWhile (· != '\n')) := by
  obtain ⟨rest, rfl⟩ := isComment
  show uncomment ('/' :: '/' :: rest) = _
  rw [uncomment, if_pos ⟨rest, rfl⟩, uncommentLine_eq]
  rfl

theorem removeComments_eq (result : Text) (pos : Nat) :
    removeComments result pos = result.take pos ++ uncomment (result.drop pos) := by
  fun_induction removeComments result pos with
  | case1 result start pos found stop ended inductionHypothesis =>
      obtain ⟨-, isComment, -⟩ := Text.prefix_of_findText found
      obtain ⟨later, bound, plain, split⟩ := Text.split_of_find ended
      have line : (result.drop pos).dropWhile (· != '\n') = result.drop stop := by
        rw [split, Text.drop_of_find ended]
        refine (Text.takeWhile_run (fun c member => ?_) (by simp)).2
        rw [bne_iff_ne]
        rintro rfl
        exact plain member
      have front : (result.take pos).length = pos := List.length_take_of_le (by omega)
      rw [inductionHypothesis, Text.erase, Nat.add_sub_cancel' later, List.take_left' front,
        List.drop_left' front, Text.rewrite_find rfl uncomment_skip found,
        uncomment_comment isComment, line]
  | case2 result start pos found unended =>
      obtain ⟨-, isComment, -⟩ := Text.prefix_of_findText found
      have line : (result.drop pos).dropWhile (· != '\n') = [] := by
        rw [List.dropWhile_eq_nil_iff]
        intro c member
        rw [bne_iff_ne]
        rintro rfl
        exact Text.not_mem_of_find unended member
      rw [Text.rewrite_find rfl uncomment_skip found, uncomment_comment isComment, line]
      exact (List.append_nil _).symm
  | case3 result pos absent =>
      rw [Text.findText_eq_none_iff] at absent
      rw [Text.rewrite_eq_self rfl uncomment_skip absent, List.take_append_drop]

theorem uncomma_comma {text : Text} (isComma : [',', '}'] <+: text) :
    uncomma text = '}' :: uncomma (text.drop 2) := by
  obtain ⟨rest, rfl⟩ := isComma
  show uncomma (',' :: '}' :: rest) = '}' :: uncomma rest
  rw [uncomma, if_pos ⟨rest, rfl⟩, uncomma_skip]
  exact fun isPrefix => absurd (List.cons_prefix_cons.mp isPrefix).1 (by decide)

theorem removeTrailingCommas_eq (result : Text) (pos : Nat) :
    removeTrailingCommas '}' result (some pos) =
      (result.take pos ++ uncomma (result.drop pos), none) := by
  generalize isBracket : '}' = bracket
  generalize isPos : some pos = start
  fun_induction removeTrailingCommas bracket result start generalizing pos with
  | case1 result start found isFound inductionHypothesis =>
      subst isPos isBracket
      obtain ⟨-, isComma, -⟩ := Text.prefix_of_findText isFound
      have bound : found < result.length := by
        have inside := isComma.length_le
        rw [List.length_drop] at inside
        simp only [List.length_cons, List.length_nil] at inside
        omega
      have front : (result.take found).length = found := List.length_take_of_le (by omega)
      rw [inductionHypothesis found rfl, Text.replace, List.append_assoc,
        List.take_left' front, List.drop_left' front, List.singleton_append, uncomma_skip]
      · rw [Text.rewrite_find rfl uncomma_skip isFound, uncomma_comma isComma, List.drop_drop]
      · exact fun isPrefix => absurd (List.cons_prefix_cons.mp isPrefix).1 (by decide)
  | case2 result start absent =>
      subst isPos isBracket
      have noComma : ¬ [',', '}'] <:+: result.drop pos := Text.findText_eq_none_iff.mp absent
      rw [Text.rewrite_eq_self rfl uncomma_skip noComma, List.take_append_drop]

/-- Preprocessing drops comments and the commas in front of closing braces. -/
theorem preprocessJson_eq (config : JsonConfig) (body : Text) :
    preprocessJson config body =
      (if config.allowTrailingCommas then id else uncomma)
        ((if config.allowComments then id else uncomment) body) := by
  have atEnd : ∀ result, (removeTrailingCommas ']' result none).1 = result := by
    intro result
    rw [removeTrailingCommas]
    rfl
  simp only [preprocessJson, removeComments_eq, removeTrailingCommas_eq, List.take_zero,
    List.drop_zero, List.nil_append, atEnd]
  split <;> split <;> rfl

/-! ## Comments in JSON texts -/

theorem scan_uncomma (mode : Mode) (text : Text) : mode.scan (uncomma text) = mode.scan text := by
  induction text generalizing mode with
  | nil => rfl
  | cons c text inductionHypothesis =>
      rw [uncomma]
      split
      · rename_i isComma
        obtain ⟨rest, isRest⟩ := isComma
        cases isRest
        rw [inductionHypothesis]
        -- the comma and the brace leave the scan in one mode, from every mode
        cases mode <;> rfl
      · rw [Mode.scan, Mode.scan]
        cases mode.step c with
        | none => rfl
        | some next => exact inductionHypothesis next

/-- A text with two slashes which the scan accepts is cut inside of a literal. -/
theorem scan_uncomment {text : Text} (scanned : Mode.outside.scan text = some .outside)
    (isComment : "//".toList <:+: text) : Mode.outside.scan (uncomment text) ≠ some .outside := by
  obtain ⟨pos, found⟩ : ∃ pos, Text.findText text "//".toList 0 = some pos := by
    refine Option.ne_none_iff_exists'.mp fun absent => ?_
    exact Text.findText_eq_none_iff.mp absent isComment
  obtain ⟨-, ⟨rest, isRest⟩, -⟩ := Text.prefix_of_findText found
  have cut := Text.rewrite_find rfl uncomment_skip found
  rw [List.take_zero, List.drop_zero, List.nil_append,
    uncomment_comment (Exists.intro rest isRest)] at cut
  rw [cut, Mode.scan_append]
  rw [← List.take_append_drop pos text, Mode.scan_append, ← isRest] at scanned
  cases front : Mode.outside.scan (text.take pos) with
  | none => simp
  | some mode =>
      rw [front, Option.bind_some] at scanned
      rw [Option.bind_some]
      -- only inside of a literal a slash is accepted
      have notOutside : mode ≠ .outside := by
        rintro rfl
        cases scanned
      cases line : (text.drop pos).dropWhile (· != '\n') with
      | nil =>
          intro isOutside
          exact notOutside (Option.some.inj isOutside)
      | cons c later =>
          have isNewline : c = '\n' := by
            have filled : (text.drop pos).dropWhile (· != '\n') ≠ [] := by simp [line]
            simpa [line] using List.head_dropWhile_not (· != '\n') filled
          subst isNewline
          rw [uncomment_newline]
          cases mode with
          | outside => exact absurd rfl notOutside
          | inside => nofun
          | escaped => nofun

end Foxhttp.Parser
