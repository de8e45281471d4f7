import Foxhttp.Library.Json.Reader
import Foxhttp.Parser.JsonPreprocess

/-!
# Which JSON texts parse to their own value

Dropping the commas in front of closing braces from a JSON text drops them from
its string literals, which shortens what these stand for. A JSON text in the
limits parses to its own value when preprocessing leaves it alone, and a text
which repeats no name does only then.
-/

namespace Foxhttp.Parser

open Foxhttp.Library Foxhttp.Library.Json

/-! ## Commas in string literals -/

/-- Whether the item is the byte itself. -/
def isByte (c : Char) : Item → Bool
  | .plain bytes _ => bytes == [c]
  | .escape _ _ | .unicode _ _ => false

/-- The items without the commas in front of closing braces. -/
def dropCommas : List Item → List Item
  | [] => []
  | item :: rest =>
      if isByte ',' item ∧ rest.head?.any (isByte '}') then dropCommas rest
      else item :: dropCommas rest

theorem uncomma_cons {c : Char} (notComma : c ≠ ',') (rest : Text) :
    uncomma (c :: rest) = c :: uncomma rest :=
  uncomma_skip c rest fun isPrefix => notComma (List.cons_prefix_cons.mp isPrefix).1.symm

theorem uncomma_run {run : Text} (noComma : ',' ∉ run) (rest : Text) :
    uncomma (run ++ rest) = run ++ uncomma rest := by
  induction run with
  | nil => rfl
  | cons c run inductionHypothesis =>
      rw [List.mem_cons, not_or] at noComma
      rw [List.cons_append, uncomma_cons (Ne.symm noComma.1), inductionHypothesis noComma.2]
      rfl

/-- A comma with something other than a closing brace behind it stays. -/
theorem uncomma_keep {rest : Text} (other : rest.head? ≠ some '}') :
    uncomma (',' :: rest) = ',' :: uncomma rest := by
  refine uncomma_skip ',' rest fun isPrefix => ?_
  obtain ⟨later, isRest⟩ := (List.cons_prefix_cons.mp isPrefix).2
  rw [← isRest] at other
  exact other rfl

theorem uncomma_blank (blank : Blank) (rest : Text) :
    uncomma (blank.1 ++ rest) = blank.1 ++ uncomma rest := by
  refine uncomma_run (fun member => ?_) rest
  exact absurd (blank.2 _ member) (by decide)

/-- An item whose text has a comma or a closing brace is that byte. -/
theorem isByte_of_mem {c : Char} (isMark : c = ',' ∨ c = '}') {item : Item}
    (member : c ∈ item.render) : isByte c item = true := by
  cases item with
  | plain bytes valid =>
      rcases isPlain_bytes valid with ⟨c, rfl, -, -, -⟩ | ⟨-, high⟩
      · obtain rfl := List.mem_singleton.mp member
        exact beq_self_eq_true _
      · rcases isMark with rfl | rfl <;> exact absurd (high _ member) (by decide)
  | escape c valid =>
      simp only [Item.render, List.mem_cons, List.not_mem_nil, or_false] at member
      rcases member with isBackslash | rfl
      · rcases isMark with rfl | rfl <;> exact absurd isBackslash (by decide)
      · rcases isMark with rfl | rfl <;> exact absurd valid (by decide)
  | unicode digits valid =>
      simp only [Item.render, List.mem_cons] at member
      rcases member with isBackslash | isLetter | isDigit
      · rcases isMark with rfl | rfl <;> exact absurd isBackslash (by decide)
      · rcases isMark with rfl | rfl <;> exact absurd isLetter (by decide)
      · rcases isMark with rfl | rfl <;> exact absurd (valid.2 _ isDigit) (by decide)

theorem isByte_iff {c : Char} {item : Item} :
    isByte c item = true ↔ ∃ valid, item = .plain [c] valid := by
  cases item with
  | plain bytes valid =>
      simp only [isByte, beq_iff_eq, Item.plain.injEq]
      constructor
      · rintro rfl
        exact ⟨valid, rfl⟩
      · rintro ⟨-, isBytes⟩
        exact isBytes
  | escape c valid => simp [isByte]
  | unicode digits valid => simp [isByte]

/-- An item whose text starts with a closing brace is the brace. -/
theorem head?_items (items : List Item) (rest : Text) :
    (items.flatMap Item.render ++ '"' :: rest).head? = some '}' ↔
      items.head?.any (isByte '}') = true := by
  cases items with
  | nil => simp
  | cons item items =>
      cases item with
      | plain bytes valid =>
          rcases isPlain_bytes valid with ⟨c, rfl, -, -, -⟩ | ⟨filled, high⟩
          · simp [Item.render, isByte]
          · obtain ⟨c, more, rfl⟩ := List.exists_cons_of_ne_nil filled
            have notBrace : c ≠ '}' := by
              rintro rfl
              exact absurd (high _ List.mem_cons_self) (by decide)
            simp [Item.render, isByte, notBrace]
      | escape c valid => simp [Item.render, isByte]
      | unicode digits valid => simp [Item.render, isByte]

theorem uncomma_items (items : List Item) (rest : Text) :
    uncomma (items.flatMap Item.render ++ '"' :: rest) =
      (dropCommas items).flatMap Item.render ++ '"' :: uncomma rest := by
  induction items with
  | nil => exact uncomma_cons (by decide) rest
  | cons item items inductionHypothesis =>
      rw [List.flatMap_cons, List.append_assoc, dropCommas]
      by_cases isComma : isByte ',' item = true
      · obtain ⟨valid, rfl⟩ := isByte_iff.mp isComma
        rw [Item.render, List.singleton_append]
        split
        · rename_i before
          obtain ⟨later, isLater⟩ := List.head?_eq_some_iff.mp
            ((head?_items items rest).mpr before.2)
          rw [uncomma, if_pos ⟨later, by rw [isLater]; rfl⟩, inductionHypothesis]
        · rename_i notBefore
          rw [uncomma_keep, inductionHypothesis]
          · rfl
          · exact fun isBrace => notBefore ⟨isComma, (head?_items items rest).mp isBrace⟩
      · rw [if_neg fun before => isComma before.1, List.flatMap_cons, List.append_assoc,
          uncomma_run fun member => isComma (isByte_of_mem (.inl rfl) member), inductionHypothesis]

theorem uncomma_string (items : List Item) (rest : Text) :
    uncomma (renderString items ++ rest) = renderString (dropCommas items) ++ uncomma rest := by
  simp only [renderString, List.cons_append, List.append_assoc, List.nil_append]
  rw [uncomma_cons (by decide), uncomma_items]

/-! ## Commas in JSON texts -/

theorem uncomma_number (literal : Number) (rest : Text) :
    uncomma (literal.1 ++ rest) = literal.1 ++ uncomma rest := by
  refine uncomma_run (fun member => ?_) rest
  exact absurd (NumberState.read_isNumberChar literal.2 _ member) (by decide)

section Heads

variable {bracket : Char} (isClosing : bracket = ']' ∨ bracket = '}')

include isClosing

theorem head?_blank (blank : Blank) {rest : Text} (other : rest.head? ≠ some bracket) :
    (blank.1 ++ rest).head? ≠ some bracket := by
  obtain ⟨text, blanks⟩ := blank
  cases text with
  | nil => exact other
  | cons c text =>
      rw [List.cons_append, List.head?_cons, Ne, Option.some.injEq]
      rintro rfl
      have isBlank := blanks c List.mem_cons_self
      rcases isClosing with rfl | rfl <;> exact absurd isBlank (by decide)

theorem head?_doc (doc : Doc) (rest : Text) : (doc.render ++ rest).head? ≠ some bracket := by
  obtain ⟨c, more, isCons, starts⟩ := doc.render_cons
  rw [isCons, List.cons_append, List.head?_cons, Ne, Option.some.injEq]
  refine startsDoc_ne starts ?_
  rcases isClosing with rfl | rfl <;> rfl

theorem head?_elements (elements : Elements) (rest : Text) :
    (elements.render ++ rest).head? ≠ some bracket := by
  cases elements with
  | last before doc after =>
      simpa [Elements.render] using
        head?_blank isClosing before (head?_doc isClosing doc (after.1 ++ rest))
  | more before doc after others =>
      simpa [Elements.render] using
        head?_blank isClosing before
          (head?_doc isClosing doc (after.1 ++ ',' :: (others.render ++ rest)))

theorem head?_members (members : Members) (rest : Text) :
    (members.render ++ rest).head? ≠ some bracket := by
  have named (start : Blank) (rest : Text) : (start.1 ++ '"' :: rest).head? ≠ some bracket := by
    refine head?_blank isClosing start ?_
    rcases isClosing with rfl | rfl <;> simp
  cases members with
  | last start name stop before doc after =>
      simp only [Members.render, renderString, List.append_assoc, List.cons_append]
      exact named start _
  | more start name stop before doc after others =>
      simp only [Members.render, renderString, List.append_assoc, List.cons_append]
      exact named start _

end Heads

mutual

/-- Commas are dropped from the string literals of a value only. -/
theorem uncomma_doc : ∀ (doc : Doc) (rest : Text),
    uncomma (doc.render ++ rest) = (doc.mapStrings dropCommas).render ++ uncomma rest
  | .null, _ => rfl
  | .boolean true, _ => rfl
  | .boolean false, _ => rfl
  | .number literal, rest => uncomma_number literal rest
  | .string items, rest => uncomma_string items rest
  | .emptyArray blank, rest => by
      simp only [Doc.render, Doc.mapStrings, List.cons_append, List.append_assoc, List.nil_append]
      rw [uncomma_cons (by decide), uncomma_blank, uncomma_cons (by decide)]
  | .array elements, rest => by
      simp only [Doc.render, Doc.mapStrings, List.cons_append, List.append_assoc, List.nil_append]
      rw [uncomma_cons (by decide), uncomma_elements elements, uncomma_cons (by decide)]
  | .emptyObject blank, rest => by
      simp only [Doc.render, Doc.mapStrings, List.cons_append, List.append_assoc, List.nil_append]
      rw [uncomma_cons (by decide), uncomma_blank, uncomma_cons (by decide)]
  | .object members, rest => by
      simp only [Doc.render, Doc.mapStrings, List.cons_append, List.append_assoc, List.nil_append]
      rw [uncomma_cons (by decide), uncomma_members members, uncomma_cons (by decide)]

theorem uncomma_elements : ∀ (elements : Elements) (rest : Text),
    uncomma (elements.render ++ rest) = (elements.mapStrings dropCommas).render ++ uncomma rest
  | .last before doc after, rest => by
      simp only [Elements.render, Elements.mapStrings, List.append_assoc]
      rw [uncomma_blank, uncomma_doc doc, uncomma_blank]
  | .more before doc after others, rest => by
      simp only [Elements.render, Elements.mapStrings, List.append_assoc, List.cons_append]
      rw [uncomma_blank, uncomma_doc doc, uncomma_blank,
        uncomma_keep (head?_elements (.inr rfl) others rest), uncomma_elements others]

theorem uncomma_members : ∀ (members : Members) (rest : Text),
    uncomma (members.render ++ rest) = (members.mapStrings dropCommas).render ++ uncomma rest
  | .last start name stop before doc after, rest => by
      simp only [Members.render, Members.mapStrings, List.append_assoc, List.cons_append]
      rw [uncomma_blank, uncomma_string, uncomma_blank, uncomma_cons (by decide), uncomma_blank,
        uncomma_doc doc, uncomma_blank]
  | .more start name stop before doc after others, rest => by
      simp only [Members.render, Members.mapStrings, List.append_assoc, List.cons_append]
      rw [uncomma_blank, uncomma_string, uncomma_blank, uncomma_cons (by decide), uncomma_blank,
        uncomma_doc doc, uncomma_blank, uncomma_keep (head?_members (.inr rfl) others rest),
        uncomma_members others]

end

/-- Commas are dropped from the string literals of a JSON text only. -/
theorem uncomma_document (text : Document) :
    uncomma text.render = (text.mapStrings dropCommas).render := by
  have after : uncomma text.after.1 = text.after.1 := by
    simpa [uncomma] using uncomma_blank text.after []
  rw [Document.render, uncomma_blank, uncomma_doc, after]
  rfl

/-- A text which keeps its length has no comma in front of a closing brace. -/
theorem length_uncomma (text : Text) :
    (uncomma text).length ≤ text.length ∧
      ([',', '}'] <:+: text → (uncomma text).length < text.length) := by
  induction text with
  | nil => exact ⟨Nat.le_refl _, by simp⟩
  | cons c text inductionHypothesis =>
      rw [uncomma]
      split
      · rw [List.length_cons]
        exact ⟨by omega, fun _ => by omega⟩
      · rename_i notHere
        rw [List.length_cons, List.length_cons]
        refine ⟨by omega, fun isInfix => ?_⟩
        have later := (List.infix_cons_iff.mp isInfix).resolve_left notHere
        exact Nat.succ_lt_succ (inductionHypothesis.2 later)

theorem not_infix_of_uncomma {text : Text} (same : uncomma text = text) :
    ¬ [',', '}'] <:+: text := by
  intro isInfix
  have shorter := (length_uncomma text).2 isInfix
  rw [same] at shorter
  exact Nat.lt_irrefl _ shorter

/-! ## What the rewritten literals stand for -/

variable {ν : Type} {reading : Reading ν}

/-- Dropping commas from a literal shortens what it stands for, after any items. -/
theorem dropCommas_shrinks_after (items before : List Item) :
    dropCommas items = items ∨
      (reading.string (before ++ dropCommas items)).length <
        (reading.string (before ++ items)).length := by
  induction items generalizing before with
  | nil => exact .inl rfl
  | cons item items inductionHypothesis =>
      rw [dropCommas]
      split
      · rename_i found
        obtain ⟨valid, rfl⟩ := isByte_iff.mp found.1
        have shorter : (reading.string (before ++ items)).length <
            (reading.string (before ++ .plain [','] valid :: items)).length := by
          cases items with
          | nil => cases found.2
          | cons brace later =>
              obtain ⟨braceValid, rfl⟩ := isByte_iff.mp found.2
              rw [reading.string_plain before, reading.string_plain before,
                ← List.nil_append (Item.plain ['}'] braceValid :: later),
                reading.string_plain []]
              simp only [List.length_append, List.length_cons, List.length_nil]
              omega
        rcases inductionHypothesis before with same | shorterRest
        · rw [same]
          exact .inr shorter
        · exact .inr (Nat.lt_trans shorterRest shorter)
      · rcases inductionHypothesis (before ++ [item]) with same | shorter
        · rw [same]
          exact .inl rfl
        · right
          simpa using shorter

theorem dropCommas_shrinks : Shrinks reading dropCommas :=
  fun items => dropCommas_shrinks_after items []

/-! ## Depth -/

theorem depthOfElements_le {elements : List (Value ν)} {currentDepth maxDepth bound : Nat}
    (start : maxDepth ≤ bound)
    (each : ∀ item ∈ elements, calculateDepth item (currentDepth + 1) ≤ bound) :
    depthOfElements elements currentDepth maxDepth ≤ bound := by
  induction elements generalizing maxDepth with
  | nil => exact start
  | cons item elements inductionHypothesis =>
      obtain ⟨here, later⟩ := List.forall_mem_cons.mp each
      exact inductionHypothesis (Nat.max_le.mpr ⟨start, here⟩) later

theorem depthOfMembers_le {members : List (Text × Value ν)} {currentDepth maxDepth bound : Nat}
    (start : maxDepth ≤ bound)
    (each : ∀ member ∈ members, calculateDepth member.2 (currentDepth + 1) ≤ bound) :
    depthOfMembers members currentDepth maxDepth ≤ bound := by
  induction members generalizing maxDepth with
  | nil => exact start
  | cons member members inductionHypothesis =>
      obtain ⟨here, later⟩ := List.forall_mem_cons.mp each
      exact inductionHypothesis (Nat.max_le.mpr ⟨start, here⟩) later

mutual

/-- The depth of a value is at most the nesting of its text. -/
theorem calculateDepth_doc : ∀ (doc : Doc) (currentDepth : Nat),
    calculateDepth (doc.value reading) currentDepth ≤ currentDepth + doc.nesting
  | .null, _ => Nat.le_refl _
  | .boolean _, _ => Nat.le_refl _
  | .number _, _ => Nat.le_refl _
  | .string _, _ => Nat.le_refl _
  | .emptyArray _, currentDepth => Nat.le_add_right _ _
  | .array elements, currentDepth =>
      depthOfElements_le (Nat.le_add_right _ _) fun item member => by
        have bound := calculateDepth_elements elements (currentDepth + 1) item member
        rw [Doc.nesting]
        omega
  | .emptyObject _, currentDepth =>
      depthOfMembers_le (Nat.le_add_right _ _) fun member isMember =>
        absurd (reading.merge_subset [] isMember) (List.not_mem_nil)
  | .object members, currentDepth =>
      depthOfMembers_le (Nat.le_add_right _ _) fun member isMember => by
        have bound := calculateDepth_members members (currentDepth + 1) member
          (reading.merge_subset _ isMember)
        rw [Doc.nesting]
        omega

theorem calculateDepth_elements : ∀ (elements : Elements) (currentDepth : Nat),
    ∀ item ∈ elements.values reading,
      calculateDepth item currentDepth ≤ currentDepth + elements.nesting
  | .last _ doc _, currentDepth, item, member => by
      obtain rfl := List.mem_singleton.mp member
      exact calculateDepth_doc doc currentDepth
  | .more _ doc _ rest, currentDepth, item, member => by
      rw [Elements.nesting]
      rcases List.mem_cons.mp member with rfl | later
      · have bound : calculateDepth (doc.value reading) currentDepth ≤ currentDepth + doc.nesting :=
          calculateDepth_doc doc currentDepth
        omega
      · have bound := calculateDepth_elements rest currentDepth item later
        omega

theorem calculateDepth_members : ∀ (members : Members) (currentDepth : Nat),
    ∀ member ∈ members.entries reading,
      calculateDepth member.2 currentDepth ≤ currentDepth + members.nesting
  | .last _ _ _ _ doc _, currentDepth, member, isMember => by
      obtain rfl := List.mem_singleton.mp isMember
      exact calculateDepth_doc doc currentDepth
  | .more _ _ _ _ doc _ rest, currentDepth, member, isMember => by
      rw [Members.nesting]
      rcases List.mem_cons.mp isMember with rfl | later
      · have bound : calculateDepth (doc.value reading) currentDepth ≤ currentDepth + doc.nesting :=
          calculateDepth_doc doc currentDepth
        show calculateDepth (doc.value reading) currentDepth ≤ _
        omega
      · have bound := calculateDepth_members rest currentDepth member later
        omega

end

mutual

/-- Rewriting string literals keeps the nesting. -/
theorem nesting_mapStrings_doc (rewrite : List Item → List Item) : ∀ doc : Doc,
    (doc.mapStrings rewrite).nesting = doc.nesting
  | .null | .boolean _ | .number _ | .string _ | .emptyArray _ | .emptyObject _ => rfl
  | .array elements => congrArg (· + 1) (nesting_mapStrings_elements rewrite elements)
  | .object members => congrArg (· + 1) (nesting_mapStrings_members rewrite members)

theorem nesting_mapStrings_elements (rewrite : List Item → List Item) : ∀ elements : Elements,
    (elements.mapStrings rewrite).nesting = elements.nesting
  | .last _ doc _ => nesting_mapStrings_doc rewrite doc
  | .more _ doc _ rest => by
      rw [Elements.mapStrings, Elements.nesting, nesting_mapStrings_doc rewrite doc,
        nesting_mapStrings_elements rewrite rest, Elements.nesting]

theorem nesting_mapStrings_members (rewrite : List Item → List Item) : ∀ members : Members,
    (members.mapStrings rewrite).nesting = members.nesting
  | .last _ _ _ _ doc _ => nesting_mapStrings_doc rewrite doc
  | .more _ _ _ _ doc _ rest => by
      rw [Members.mapStrings, Members.nesting, nesting_mapStrings_doc rewrite doc,
        nesting_mapStrings_members rewrite rest, Members.nesting]

end

/-! ## Parsing -/

variable {nlohmann : Text → Except Text (Value ν)}

/-- A body whose preprocessed text is a JSON text of an allowed depth parses to
what that text stands for. -/
theorem parseWithValidation_of_preprocess (conforms : Conforms reading nlohmann)
    {config : JsonConfig} {body : Text} {text : Document}
    (depth : text.doc.nesting ≤ config.maxDepth)
    (processed : preprocessJson config body = text.render) :
    parseWithValidation nlohmann config body = .ok (text.doc.value reading) := by
  have shallow : ¬ config.maxDepth < calculateDepth (text.doc.value reading) 0 := by
    have bound : calculateDepth (text.doc.value reading) 0 ≤ 0 + text.doc.nesting :=
      calculateDepth_doc text.doc 0
    omega
  rw [parseWithValidation, processed, conforms.accepts]
  simp only [validateDepth, if_neg shallow, if_true]

/-- So does `parse` when the body is in the limit of its size. -/
theorem parse_of_preprocess (conforms : Conforms reading nlohmann) {config : JsonConfig}
    {body : Text} {text : Document} (size : body.length ≤ config.maxSize)
    (depth : text.doc.nesting ≤ config.maxDepth)
    (processed : preprocessJson config body = text.render) :
    parse nlohmann config body = .ok (text.doc.value reading) := by
  rw [parse, if_neg (Nat.not_lt.mpr size)]
  exact parseWithValidation_of_preprocess conforms depth processed

/-- Cutting comments leaves a text with two slashes in a row inside of a literal,
or refused by the scan. -/
theorem scan_preprocessJson_comment {config : JsonConfig} {text : Text}
    (strict : config.allowComments = false) (scanned : Mode.outside.scan text = some .outside)
    (isComment : "//".toList <:+: text) :
    Mode.outside.scan (preprocessJson config text) ≠ some .outside := by
  rw [preprocessJson_eq, strict]
  cases config.allowTrailingCommas with
  | true => exact scan_uncomment scanned isComment
  | false =>
      show Mode.outside.scan (uncomma (uncomment text)) ≠ _
      rw [scan_uncomma]
      exact scan_uncomment scanned isComment

/-- A JSON text with two slashes in a row is refused unless comments are allowed. -/
theorem parse_comment (conforms : Conforms reading nlohmann) {config : JsonConfig}
    {text : Document} (strict : config.allowComments = false)
    (isComment : "//".toList <:+: text.render) (value : Value ν) :
    parse nlohmann config text.render ≠ .ok value := by
  have cut := scan_preprocessJson_comment strict text.scan_render isComment
  obtain ⟨message, refused⟩ := conforms.refuses (preprocessJson config text.render)
    fun document isDocument => cut (isDocument ▸ document.scan_render)
  rw [parse]
  split
  · nofun
  · rw [parseWithValidation, refused]
    nofun

/-- Without comments, only commas are preprocessed. -/
theorem preprocessJson_of_comments {config : JsonConfig} {body : Text}
    (comments : config.allowComments = true ∨ ¬ "//".toList <:+: body) :
    preprocessJson config body = if config.allowTrailingCommas then body else uncomma body := by
  have kept : (if config.allowComments then id else uncomment) body = body := by
    rcases comments with allowed | absent
    · rw [allowed]
      rfl
    · cases config.allowComments with
      | true => rfl
      | false => exact Text.rewrite_eq_self rfl uncomment_skip absent
  rw [preprocessJson_eq, kept]
  split <;> rfl

/-- What a JSON text without comments parses to when commas are dropped. -/
theorem parse_dropCommas (conforms : Conforms reading nlohmann) {config : JsonConfig}
    {text : Document} (size : text.render.length ≤ config.maxSize)
    (depth : text.doc.nesting ≤ config.maxDepth)
    (comments : config.allowComments = true ∨ ¬ "//".toList <:+: text.render)
    (strict : config.allowTrailingCommas = false) :
    parse nlohmann config text.render =
      .ok ((text.mapStrings dropCommas).doc.value reading) := by
  refine parse_of_preprocess conforms size ?_ ?_
  · exact Nat.le_trans (Nat.le_of_eq (nesting_mapStrings_doc dropCommas text.doc)) depth
  · rw [preprocessJson_of_comments comments, strict]
    exact uncomma_document text

/-- A JSON text in the limits parses to what the library makes of it exactly
when comments are allowed or it has no two slashes in a row, and trailing commas
are allowed or it has no comma in front of a closing brace. Where an object
repeats a name, a comma may also go from literals the library does not keep. -/
theorem parse_eq_iff (conforms : Conforms reading nlohmann) (config : JsonConfig)
    (text : Document) (size : text.render.length ≤ config.maxSize)
    (depth : text.doc.nesting ≤ config.maxDepth) :
    parse nlohmann config text.render = nlohmann text.render ↔
      (config.allowComments = true ∨ ¬ "//".toList <:+: text.render) ∧
      (config.allowTrailingCommas = true ∨ ¬ [',', '}'] <:+: text.render ∨
        ¬ text.doc.DistinctNames reading ∧
          (text.mapStrings dropCommas).doc.value reading = text.doc.value reading) := by
  rw [conforms.accepts text]
  constructor
  · intro same
    have comments : config.allowComments = true ∨ ¬ "//".toList <:+: text.render := by
      cases strict : config.allowComments with
      | true => exact .inl rfl
      | false => exact .inr fun isComment => parse_comment conforms strict isComment _ same
    refine ⟨comments, ?_⟩
    cases strict : config.allowTrailingCommas with
    | true => exact .inl rfl
    | false =>
        right
        rw [parse_dropCommas conforms size depth comments strict] at same
        have sameValue := Except.ok.inj same
        by_cases distinct : text.doc.DistinctNames reading
        · -- the rewriting left the tree alone, so it dropped no comma
          have unchanged := text.doc.mapStrings_eq dropCommas_shrinks distinct sameValue
          refine .inl (not_infix_of_uncomma ?_)
          rw [uncomma_document, Document.mapStrings, unchanged]
        · exact .inr ⟨distinct, sameValue⟩
  · rintro ⟨comments, commas⟩
    cases strict : config.allowTrailingCommas with
    | true =>
        refine parse_of_preprocess conforms size depth ?_
        rw [preprocessJson_of_comments comments, strict]
        rfl
    | false =>
        rw [strict] at commas
        rcases commas.resolve_left Bool.false_ne_true with absent | ⟨-, sameValue⟩
        · refine parse_of_preprocess conforms size depth ?_
          rw [preprocessJson_of_comments comments, strict]
          exact Text.rewrite_eq_self rfl uncomma_skip absent
        · rw [parse_dropCommas conforms size depth comments strict, sameValue]

/-- A member and a number, under the default settings. -/
theorem parse_eq_member :
    parse (referenceParse lastWins) {} "\x7b\"n\":3\x7d".toList =
      .ok (.object [("n".toList, .number "3".toList)]) := by
  let text : Document :=
    ⟨⟨[], nofun⟩, .object (.last ⟨[], nofun⟩ [.plain ['n'] rfl] ⟨[], nofun⟩ ⟨[], nofun⟩
      (.number ⟨['3'], rfl⟩) ⟨[], nofun⟩), ⟨[], nofun⟩⟩
  have same := (parse_eq_iff (referenceParse_conforms lastWins) {} text (by decide) (by decide)).mpr
    ⟨.inr (by decide), .inr (.inl (by decide))⟩
  rw [(referenceParse_conforms lastWins).accepts text] at same
  exact same

/-- A string literal with two slashes in a row is refused under the default
settings. -/
theorem slashes_refused :
    ¬ ∀ (config : JsonConfig) (text : Document), text.render.length ≤ config.maxSize →
      text.doc.nesting ≤ config.maxDepth →
      parse (referenceParse lastWins) config text.render =
        referenceParse lastWins text.render := by
  intro preserved
  let text : Document :=
    ⟨⟨[], nofun⟩, .object (.last ⟨[], nofun⟩ [.plain ['u'] rfl] ⟨[], nofun⟩ ⟨[], nofun⟩
      (.string [.plain ['/'] rfl, .plain ['/'] rfl, .plain ['x'] rfl]) ⟨[], nofun⟩),
      ⟨[], nofun⟩⟩
  have conforms := referenceParse_conforms lastWins
  have same := preserved {} text (by decide) (by decide)
  rw [conforms.accepts text] at same
  exact parse_comment conforms rfl (by decide) _ same

end Foxhttp.Parser
