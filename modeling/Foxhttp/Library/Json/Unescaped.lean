import Mathlib.Data.List.Nodup
import Mathlib.Data.List.Perm.Subperm
import Mathlib.Algebra.Order.BigOperators.Group.List
import Mathlib.Algebra.Order.Group.Nat
import Mathlib.Algebra.GroupWithZero.Nat
import Foxhttp.Library.Json.Reader

/-!
# JSON texts written without escapes

A program which writes an object by putting texts between quotes writes a JSON text
of these texts exactly when each of them is plain. A JSON text has at least as many
characters other than blanks as what it stands for, and just as many only where it
escapes nothing. So no text which is not plain makes up for what it spoils.
-/

namespace Foxhttp.Library.Json

open Foxhttp.Library

/-- A text which stands for itself between quotes. -/
def PlainText (text : Text) : Prop :=
  ∃ characters : List Text, (∀ bytes ∈ characters, isPlain bytes = true) ∧
    characters.flatten = text

theorem isBlank_nothing : ∀ c ∈ ([] : Text), isBlank c = true :=
  List.forall_mem_nil _

/-- No blank at all. -/
def Blank.nothing : Blank :=
  ⟨[], isBlank_nothing⟩

/-- What is written behind a name. -/
inductive Slot where
  | string (text : Text)
  | number (literal : Number)
  | boolean (value : Bool)

/-- A member as it is written: a name and what is behind it, with blanks before both. -/
structure Entry where
  start : Blank := Blank.nothing
  name : Text
  before : Blank := Blank.nothing
  slot : Slot

/-- Put texts between quotes as they are. -/
def Slot.render : Slot → Text
  | .string text => '"' :: (text ++ ['"'])
  | .number literal => literal.1
  | .boolean true => "true".toList
  | .boolean false => "false".toList

theorem Slot.render_string (text : Text) : (Slot.string text).render = '"' :: (text ++ ['"']) :=
  rfl

/-- What is meant. -/
def Slot.value : Slot → Value Text
  | .string text => .string text
  | .number literal => .number literal.1
  | .boolean value => .boolean value

namespace Entry

def render (entry : Entry) : Text :=
  entry.start.1 ++ '"' :: (entry.name ++ '"' :: ':' :: (entry.before.1 ++ entry.slot.render))

/-- The member which is meant. -/
def member (entry : Entry) : Text × Value Text :=
  (entry.name, entry.slot.value)

end Entry

/-- A member whose texts are plain. -/
def PlainMember (member : Text × Value Text) : Prop :=
  PlainText member.1 ∧ ∀ text, member.2 = .string text → PlainText text

/-- The members, with commas between them. -/
def writeMembers : List Entry → Text
  | [] => []
  | [entry] => entry.render
  | entry :: second :: rest => entry.render ++ ',' :: writeMembers (second :: rest)

/-- Write an object. -/
def writeObject (entries : List Entry) : Text :=
  '{' :: (writeMembers entries ++ ['}'])

/-! ## The text of an object, piece by piece -/

/-- What is behind a name, and a text behind that. -/
def Slot.text (rest : Text) : Slot → Text
  | .string text => '"' :: (text ++ '"' :: rest)
  | .number literal => literal.1 ++ rest
  | .boolean true => "true".toList ++ rest
  | .boolean false => "false".toList ++ rest

/-- A member, and a text behind it. -/
def Entry.text (entry : Entry) (rest : Text) : Text :=
  entry.start.1 ++ '"' :: (entry.name ++ '"' :: ':' :: (entry.before.1 ++ entry.slot.text rest))

/-- The members, and a text behind them. -/
def membersText (rest : Text) : List Entry → Text
  | [] => rest
  | [entry] => entry.text rest
  | entry :: second :: others => entry.text (',' :: membersText rest (second :: others))

theorem Entry.render_append (entry : Entry) (rest : Text) :
    entry.render ++ rest = entry.text rest := by
  have slot : entry.slot.render ++ rest = entry.slot.text rest := by
    cases entry.slot with
    | string text => exact congrArg (List.cons _) (List.append_assoc text _ rest)
    | number literal => rfl
    | boolean value => cases value <;> rfl
  rw [Entry.text, ← slot]
  simp [Entry.render]

theorem writeObject_eq (entries : List Entry) :
    writeObject entries = '{' :: membersText ['}'] entries := by
  have members : writeMembers entries ++ ['}'] = membersText ['}'] entries := by
    induction entries with
    | nil => rfl
    | cons entry others inductionHypothesis =>
        cases others with
        | nil => exact entry.render_append _
        | cons second others =>
            rw [membersText, ← inductionHypothesis, ← entry.render_append]
            simp [writeMembers]
  rw [writeObject, members]

/-! ## Characters other than blanks -/

/-- How many characters are not blanks. -/
def weight (text : Text) : Nat :=
  text.countP fun c => !isBlank c

@[simp]
theorem weight_nil : weight [] = 0 := rfl

@[simp]
theorem weight_append (front back : Text) : weight (front ++ back) = weight front + weight back :=
  List.countP_append

theorem weight_cons {c : Char} (text : Text) (other : isBlank c = false) :
    weight (c :: text) = weight text + 1 := by
  rw [weight, weight, List.countP_cons_of_pos (by simp [other])]

@[simp]
theorem weight_blank (blank : Blank) : weight blank.1 = 0 := by
  rw [weight, List.countP_eq_zero]
  intro c member
  simp [blank.2 c member]

theorem weight_le_length (text : Text) : weight text ≤ text.length :=
  List.countP_le_length

theorem isHex_not_blank {c : Char} (hex : isHex c = true) : isBlank c = false := by
  cases blank : isBlank c with
  | false => rfl
  | true =>
      simp only [isBlank, Bool.or_eq_true, beq_iff_eq] at blank
      rcases blank with ((rfl | rfl) | rfl) | rfl <;> exact absurd hex (by decide)

theorem utf8_length (code : Nat) : (utf8 code).length ≤ 3 := by
  rw [utf8]
  split
  · simp
  · split <;> simp

/-- An item has at least the characters it stands for, and as many where it is plain. -/
theorem Item.weight_bytes (item : Item) : weight item.bytes ≤ weight item.render ∧
    (weight item.bytes = weight item.render → ∃ bytes valid, item = .plain bytes valid) := by
  have below {bytes text : Text} (shorter : bytes.length < weight text) :
      weight bytes ≤ weight text ∧
        (weight bytes = weight text → ∃ bytes valid, item = .plain bytes valid) := by
    have atMost := weight_le_length bytes
    exact ⟨by omega, fun same => by omega⟩
  cases item with
  | plain bytes valid => exact ⟨Nat.le_refl _, fun _ => ⟨bytes, valid, rfl⟩⟩
  | escape c valid =>
      apply below
      have isEscape := valid
      simp only [escapes, List.mem_cons, List.not_mem_nil, or_false] at isEscape
      rcases isEscape with rfl | rfl | rfl | rfl | rfl | rfl | rfl | rfl <;> exact Nat.one_lt_two
  | unicode digits valid =>
      apply below
      have all : weight digits = 4 := by
        rw [← valid.1, weight, List.countP_eq_length]
        intro c member
        simp [isHex_not_blank (valid.2 c member)]
      have short := utf8_length (hexValue digits)
      rw [Item.render, weight_cons _ (by decide), weight_cons _ (by decide), all, Item.bytes]
      omega

/-- A string literal has at least the characters it stands for, and as many where it
escapes nothing. -/
theorem weight_items (items : List Item) :
    weight (items.flatMap Item.bytes) ≤ weight (items.flatMap Item.render) ∧
    (weight (items.flatMap Item.bytes) = weight (items.flatMap Item.render) →
      PlainText (items.flatMap Item.bytes)) := by
  induction items with
  | nil => exact ⟨Nat.le_refl _, fun _ => ⟨[], by simp, rfl⟩⟩
  | cons item items inductionHypothesis =>
      obtain ⟨here, plain⟩ := item.weight_bytes
      obtain ⟨later, plainLater⟩ := inductionHypothesis
      simp only [List.flatMap_cons, weight_append]
      refine ⟨Nat.add_le_add here later, fun same => ?_⟩
      obtain ⟨bytes, valid, rfl⟩ := plain (by omega)
      obtain ⟨characters, isPlain, whole⟩ := plainLater (by omega)
      refine ⟨bytes :: characters, List.forall_mem_cons.mpr ⟨valid, isPlain⟩, ?_⟩
      rw [List.flatten_cons, whole]
      rfl

theorem weight_renderString (items : List Item) :
    weight (renderString items) = weight (items.flatMap Item.render) + 2 := by
  rw [renderString, List.cons_append, weight_cons _ (by decide), weight_append]
  rfl

/-! ## Members -/

/-- The characters which a value takes at least; those within arrays and objects are not
counted. -/
def Value.weight : Value Text → Nat
  | .null => 4
  | .boolean true => 4
  | .boolean false => 5
  | .number literal => Json.weight literal
  | .string text => Json.weight text + 2
  | .array _ | .object _ => 0

/-- The characters which a member takes at least, with its quotes, colon and comma. -/
def cost (member : Text × Value Text) : Nat :=
  weight member.1 + 4 + member.2.weight

theorem Doc.weight_value (doc : Doc) : (doc.value lastWins).weight ≤ weight doc.render ∧
    ((doc.value lastWins).weight = weight doc.render →
      ∀ text, doc.value lastWins = .string text → PlainText text) := by
  cases doc with
  | null => exact ⟨Nat.le_refl _, fun _ text isString => by cases isString⟩
  | boolean value =>
      cases value with
      | false => exact ⟨Nat.le_refl _, fun _ text isString => by cases isString⟩
      | true => exact ⟨Nat.le_refl _, fun _ text isString => by cases isString⟩
  | number literal => exact ⟨Nat.le_refl _, fun _ text isString => by cases isString⟩
  | string items =>
      obtain ⟨atMost, plain⟩ := weight_items items
      rw [Doc.render, weight_renderString]
      refine ⟨Nat.add_le_add_right atMost 2, fun same text isString => ?_⟩
      cases isString
      exact plain (Nat.add_right_cancel same)
  | emptyArray | array | emptyObject | object =>
      exact ⟨Nat.zero_le _, fun _ text isString => by cases isString⟩

theorem member_weight (name : List Item) (doc : Doc) :
    cost (lastWins.string name, doc.value lastWins) ≤
      weight (name.flatMap Item.render) + 4 + weight doc.render ∧
    (cost (lastWins.string name, doc.value lastWins) =
        weight (name.flatMap Item.render) + 4 + weight doc.render →
      PlainMember (lastWins.string name, doc.value lastWins)) := by
  obtain ⟨nameAtMost, namePlain⟩ := weight_items name
  obtain ⟨docAtMost, docPlain⟩ := doc.weight_value
  have isCost : cost (lastWins.string name, doc.value lastWins) =
      weight (name.flatMap Item.bytes) + 4 + (doc.value lastWins).weight := rfl
  rw [isCost]
  exact ⟨by omega, fun same => ⟨namePlain (by omega), docPlain (by omega)⟩⟩

/-- Members have at least the characters they cost, and as many where nothing is escaped. -/
theorem Members.weight_entries (members : Members) :
    ((members.entries lastWins).map cost).sum ≤ weight members.render + 1 ∧
    (((members.entries lastWins).map cost).sum = weight members.render + 1 →
      ∀ member ∈ members.entries lastWins, PlainMember member) := by
  cases members with
  | last start name stop before doc after =>
      obtain ⟨atMost, plain⟩ := member_weight name doc
      have total : weight (Members.last start name stop before doc after).render + 1 =
          weight (name.flatMap Item.render) + 4 + weight doc.render := by
        rw [Members.render, weight_append, weight_append, weight_append,
          weight_cons _ (by decide), weight_append, weight_append, weight_renderString]
        simp only [weight_blank]
        omega
      rw [total, Members.entries, List.map_singleton, List.sum_singleton]
      exact ⟨atMost, fun same => List.forall_mem_singleton.mpr (plain same)⟩
  | more start name stop before doc after rest =>
      obtain ⟨atMost, plain⟩ := member_weight name doc
      obtain ⟨later, plainLater⟩ := rest.weight_entries
      have total : weight (Members.more start name stop before doc after rest).render + 1 =
          weight (name.flatMap Item.render) + 4 + weight doc.render +
            (weight rest.render + 1) := by
        rw [Members.render, weight_append, weight_append, weight_append,
          weight_cons _ (by decide), weight_append, weight_append, weight_append,
          weight_cons _ (by decide), weight_renderString]
        simp only [weight_blank]
        omega
      rw [total, Members.entries, List.map_cons, List.sum_cons]
      refine ⟨Nat.add_le_add atMost later, fun same => ?_⟩
      exact List.forall_mem_cons.mpr ⟨plain (by omega), plainLater (by omega)⟩

/-! ## Written members -/

theorem Slot.weight_render (slot : Slot) : weight slot.render = slot.value.weight := by
  cases slot with
  | string text =>
      rw [Slot.render_string, weight_cons _ (by decide), weight_append]
      rfl
  | number literal => rfl
  | boolean value => cases value <;> rfl

theorem Entry.weight_render (entry : Entry) : weight entry.render + 1 = cost entry.member := by
  rw [Entry.render, weight_append, weight_cons _ (by decide), weight_append,
    weight_cons _ (by decide), weight_cons _ (by decide), weight_append, weight_blank,
    weight_blank, entry.slot.weight_render]
  have isCost : cost entry.member = weight entry.name + 4 + entry.slot.value.weight := rfl
  omega

theorem weight_writeMembers {entries : List Entry} (filled : entries ≠ []) :
    weight (writeMembers entries) + 1 = ((entries.map Entry.member).map cost).sum := by
  induction entries with
  | nil => exact absurd rfl filled
  | cons entry rest inductionHypothesis =>
      cases rest with
      | nil =>
          rw [writeMembers, List.map_singleton, List.map_singleton, List.sum_singleton]
          exact entry.weight_render
      | cons second rest =>
          have later := inductionHypothesis (List.cons_ne_nil _ _)
          have here := entry.weight_render
          rw [writeMembers, weight_append, weight_cons _ (by decide), List.map_cons, List.map_cons,
            List.sum_cons]
          omega

/-- Plain texts are the literals of plain items. -/
theorem PlainText.items {text : Text} (plain : PlainText text) :
    ∃ items : List Item, items.flatMap Item.render = text ∧ lastWins.string items = text := by
  obtain ⟨characters, valid, rfl⟩ := plain
  induction characters with
  | nil => exact ⟨[], rfl, rfl⟩
  | cons bytes characters inductionHypothesis =>
      obtain ⟨isPlain, later⟩ := List.forall_mem_cons.mp valid
      obtain ⟨items, rendered, read⟩ := inductionHypothesis later
      refine ⟨.plain bytes isPlain :: items, ?_, ?_⟩
      · rw [List.flatMap_cons, rendered]
        rfl
      · rw [List.flatten_cons, ← read]
        rfl

theorem Slot.doc {slot : Slot} (plain : ∀ text, slot.value = .string text → PlainText text) :
    ∃ doc : Doc, doc.render = slot.render ∧ doc.value lastWins = slot.value := by
  cases slot with
  | string text =>
      obtain ⟨items, rendered, read⟩ := (plain text rfl).items
      refine ⟨.string items, ?_, congrArg Value.string read⟩
      rw [Doc.render, renderString, rendered]
      rfl
  | number literal => exact ⟨.number literal, rfl, rfl⟩
  | boolean value => exact ⟨.boolean value, by cases value <;> rfl, rfl⟩

/-- Plain members are written as JSON writes them. -/
theorem members_of_plain {entries : List Entry} (filled : entries ≠ [])
    (plain : ∀ entry ∈ entries, PlainMember entry.member) :
    ∃ members : Members, members.render = writeMembers entries ∧
      members.entries lastWins = entries.map Entry.member := by
  induction entries with
  | nil => exact absurd rfl filled
  | cons entry rest inductionHypothesis =>
      obtain ⟨⟨namePlain, slotPlain⟩, later⟩ := List.forall_mem_cons.mp plain
      obtain ⟨name, nameRendered, nameRead⟩ := namePlain.items
      obtain ⟨doc, docRendered, docRead⟩ := Slot.doc slotPlain
      have member : (lastWins.string name, doc.value lastWins) = entry.member :=
        Prod.ext nameRead docRead
      cases rest with
      | nil =>
          refine ⟨.last entry.start name ⟨[], by simp⟩ entry.before doc ⟨[], by simp⟩, ?_, ?_⟩
          · rw [Members.render, renderString, nameRendered, docRendered]
            simp [writeMembers, Entry.render, Entry.member]
          · rw [Members.entries, member]
            rfl
      | cons second rest =>
          obtain ⟨members, rendered, read⟩ := inductionHypothesis (List.cons_ne_nil _ _) later
          refine ⟨.more entry.start name ⟨[], by simp⟩ entry.before doc ⟨[], by simp⟩ members,
            ?_, ?_⟩
          · rw [Members.render, renderString, nameRendered, docRendered, rendered]
            simp [writeMembers, Entry.render, Entry.member]
          · rw [Members.entries, member, read]
            rfl

/-! ## What is read back -/

/-- An object which is read as members of distinct names has these members. -/
theorem subset_of_merge {members others : List (Text × Value Text)}
    (distinct : (others.map Prod.fst).Nodup)
    (merged : lastWins.merge members = lastWins.merge others) : others ⊆ members := by
  intro other isOther
  obtain ⟨kept, isKept, sameName⟩ := List.mem_map.mp
    (lastWins.merge_names others other.1 (List.mem_map_of_mem isOther))
  cases List.inj_on_of_nodup_map distinct (lastWins.merge_subset others isKept) isOther sameName
  rw [← merged] at isKept
  exact lastWins.merge_subset members isKept

/-- **What is written without escapes is read back** exactly when every text is plain. -/
theorem parse_writeObject_iff {parse : Text → Except Text (Value Text)}
    (conforms : Conforms lastWins parse) {entries : List Entry} (filled : entries ≠ [])
    (distinct : ((entries.map Entry.member).map Prod.fst).Nodup) :
    parse (writeObject entries) = .ok (.object (lastWins.merge (entries.map Entry.member))) ↔
      ∀ entry ∈ entries, PlainMember entry.member := by
  constructor
  · intro parsed
    obtain ⟨document, rendered⟩ : ∃ document : Document,
        document.render = writeObject entries := by
      refine Classical.byContradiction fun none => ?_
      obtain ⟨message, refused⟩ := conforms.refuses _ fun document same => none ⟨document, same⟩
      rw [refused] at parsed
      cases parsed
    have value := conforms.accepts document
    rw [rendered, parsed] at value
    have isObject := Except.ok.inj value
    obtain ⟨before, doc, after⟩ := document
    have weighs := congrArg weight rendered
    rw [Document.render, writeObject, weight_append, weight_append, weight_blank, weight_blank,
      weight_cons _ (by decide), weight_append] at weighs
    have written := weight_writeMembers filled
    cases doc with
    | object members =>
        have merged := Value.object.inj isObject
        have subset := subset_of_merge distinct merged.symm
        obtain ⟨among, isPerm, sublist⟩ :=
          List.subperm_of_subset (List.Nodup.of_map _ distinct) subset
        obtain ⟨atMost, plain⟩ := members.weight_entries
        have total := (sublist.map cost).sum_le_sum fun _ _ => Nat.zero_le _
        rw [(isPerm.map cost).sum_eq] at total
        rw [Doc.render, weight_cons _ (by decide), weight_append] at weighs
        intro entry member
        exact plain (by omega) entry.member (subset (List.mem_map_of_mem member))
    | emptyObject blank =>
        have subset := subset_of_merge distinct (Value.object.inj isObject).symm
        exact absurd (List.map_eq_nil_iff.mp (List.subset_nil.mp subset)) filled
    | _ => cases isObject
  · intro plain
    obtain ⟨members, rendered, read⟩ := members_of_plain filled plain
    have accepted := conforms.accepts ⟨⟨[], by simp⟩, .object members, ⟨[], by simp⟩⟩
    rw [← read]
    refine Eq.trans (congrArg parse ?_) accepted
    rw [Document.render, Doc.render, rendered]
    simp [writeObject]

/-! ## Texts which are plain -/

theorem plainText_of_all {text : Text} (all : (text.all fun c => isPlain [c]) = true) :
    PlainText text := by
  refine ⟨text.map fun c => [c], ?_, ?_⟩
  · simpa using all
  · rw [← List.flatMap_def]
    exact List.flatMap_singleton' text

theorem plain_digit {c : Char} (digit : c.isDigit = true) : isPlain [c] = true := by
  obtain ⟨low, high⟩ : 48 ≤ c.toNat ∧ c.toNat ≤ 57 := Char.isDigit_iff_toNat.mp digit
  simp only [isPlain, Bool.and_eq_true, decide_eq_true_eq, bne_iff_ne]
  refine ⟨⟨⟨by omega, by omega⟩, ?_⟩, ?_⟩
  · rintro rfl
    exact absurd digit (by decide)
  · rintro rfl
    exact absurd digit (by decide)

theorem plainText_toDigits (number : Nat) : PlainText (Nat.toDigits 10 number) :=
  plainText_of_all (List.all_eq_true.mpr fun _ member =>
    plain_digit (Nat.isDigit_of_mem_toDigits (by decide) (by decide) member))

theorem PlainText.append {front back : Text} (plain : PlainText front)
    (plainBack : PlainText back) : PlainText (front ++ back) := by
  obtain ⟨characters, valid, rfl⟩ := plain
  obtain ⟨others, validOthers, rfl⟩ := plainBack
  exact ⟨characters ++ others, List.forall_mem_append.mpr ⟨valid, validOthers⟩,
    List.flatten_append⟩

/-- A plain text under a name is a plain member. -/
theorem plainMember_string {entry : Entry} {text : Text}
    (ascii : (entry.name.all fun c => isPlain [c]) = true) (isText : entry.slot = .string text)
    (plain : PlainText text) : PlainMember entry.member := by
  refine ⟨plainText_of_all ascii, fun other same => ?_⟩
  rw [Entry.member, isText] at same
  cases same
  exact plain

/-- What is no text is a plain member under any name. -/
theorem plainMember_other {entry : Entry}
    (ascii : (entry.name.all fun c => isPlain [c]) = true)
    (other : ∀ text, entry.slot ≠ .string text) : PlainMember entry.member := by
  refine ⟨plainText_of_all ascii, fun text same => ?_⟩
  rw [Entry.member] at same
  cases isSlot : entry.slot with
  | string text => exact absurd isSlot (other text)
  | number | boolean =>
      rw [isSlot] at same
      cases same

/-! ## Numbers as they are printed -/

theorem read_whole {text : Text} (digits : ∀ c ∈ text, c.isDigit = true) :
    NumberState.whole.read text = true := by
  induction text with
  | nil => rfl
  | cons c text inductionHypothesis =>
      obtain ⟨digit, later⟩ := List.forall_mem_cons.mp digits
      rw [NumberState.read, NumberState.step, if_pos digit]
      exact inductionHypothesis later

theorem step_digitChar : ∀ digit < 10, 0 < digit →
    NumberState.start.step digit.digitChar = some .whole := by
  decide

/-- The first digit of a number other than zero is not zero. -/
theorem toDigits_cons {number : Nat} (positive : 0 < number) :
    ∃ digit rest, Nat.toDigits 10 number = Nat.digitChar digit :: rest ∧ 0 < digit ∧
      digit < 10 := by
  induction number using Nat.strongRecOn with
  | ind number inductionHypothesis =>
      by_cases small : number < 10
      · exact ⟨number, [], Nat.toDigits_of_lt_base small, positive, small⟩
      · obtain ⟨digit, rest, first, bounds⟩ := inductionHypothesis (number / 10) (by omega)
          (by omega)
        have whole : Nat.toDigits 10 number =
            Nat.digitChar digit :: (rest ++ [Nat.digitChar (number % 10)]) := by
          rw [Nat.toDigits_of_base_le (by decide) (by omega), first, List.cons_append]
        exact ⟨digit, _, whole, bounds⟩

theorem read_toDigits (number : Nat) :
    NumberState.start.read (Nat.toDigits 10 number) = true := by
  rcases Nat.eq_zero_or_pos number with rfl | positive
  · decide
  · obtain ⟨digit, rest, whole, notZero, below⟩ := toDigits_cons positive
    have digits : ∀ c ∈ rest, c.isDigit = true := fun c member =>
      Nat.isDigit_of_mem_toDigits (by decide) (by decide)
        (whole ▸ List.mem_cons_of_mem _ member : c ∈ Nat.toDigits 10 number)
    rw [whole, NumberState.read, step_digitChar digit below notZero]
    exact read_whole digits

/-- A number as it is printed. -/
def printed (number : Nat) : Number :=
  ⟨Nat.toDigits 10 number, read_toDigits number⟩

end Foxhttp.Library.Json
