import Mathlib.Data.List.Nodup
import Mathlib.Data.List.Perm.Subperm
import Foxhttp.Library.Json.Syntax

/-!
# Rewriting the string literals of a JSON text

`mapStrings` rewrites every string literal of a syntax tree, names of members
included. A rewriting which only ever shortens what a literal stands for
changes the value of every text it changes, as long as no object repeats a
name.
-/

namespace Foxhttp.Library.Json

open Foxhttp.Library

mutual

/-- Rewrite the string literals of a value. -/
def Doc.mapStrings (rewrite : List Item → List Item) : Doc → Doc
  | .null => .null
  | .boolean value => .boolean value
  | .number literal => .number literal
  | .string items => .string (rewrite items)
  | .emptyArray blank => .emptyArray blank
  | .array elements => .array (elements.mapStrings rewrite)
  | .emptyObject blank => .emptyObject blank
  | .object members => .object (members.mapStrings rewrite)

/-- Rewrite the string literals of elements. -/
def Elements.mapStrings (rewrite : List Item → List Item) : Elements → Elements
  | .last before doc after => .last before (doc.mapStrings rewrite) after
  | .more before doc after rest =>
      .more before (doc.mapStrings rewrite) after (rest.mapStrings rewrite)

/-- Rewrite the string literals of members. -/
def Members.mapStrings (rewrite : List Item → List Item) : Members → Members
  | .last start name stop before doc after =>
      .last start (rewrite name) stop before (doc.mapStrings rewrite) after
  | .more start name stop before doc after rest =>
      .more start (rewrite name) stop before (doc.mapStrings rewrite) after
        (rest.mapStrings rewrite)

end

/-- Rewrite the string literals of a JSON text. -/
def Document.mapStrings (rewrite : List Item → List Item) (text : Document) : Document :=
  { text with doc := text.doc.mapStrings rewrite }

variable {ν : Type} {reading : Reading ν} {rewrite : List Item → List Item}

/-- What a rewritten literal stands for is shorter, or the literal is the same. -/
def Shrinks (reading : Reading ν) (rewrite : List Item → List Item) : Prop :=
  ∀ items, rewrite items = items ∨
    (reading.string (rewrite items)).length < (reading.string items).length

theorem Shrinks.eq_of_string (shrinks : Shrinks reading rewrite) {items : List Item}
    (same : reading.string (rewrite items) = reading.string items) : rewrite items = items := by
  rcases shrinks items with unchanged | shorter
  · exact unchanged
  · rw [same] at shorter
    exact absurd shorter (Nat.lt_irrefl _)

theorem Shrinks.name (shrinks : Shrinks reading rewrite) (items : List Item) :
    reading.string (rewrite items) = reading.string items ∨
      (reading.string (rewrite items)).length < (reading.string items).length :=
  (shrinks items).imp_left (congrArg reading.string)

/-! ## Entries of objects -/

/-- Entries with the same names, or shorter ones. -/
def NamesShrink (shrunk entries : List (Text × Value ν)) : Prop :=
  List.Forall₂ (fun short entry => short.1 = entry.1 ∨ short.1.length < entry.1.length) shrunk
    entries

theorem NamesShrink.length_le {shrunk entries : List (Text × Value ν)}
    (shrink : NamesShrink shrunk entries) :
    (shrunk.map Prod.fst).flatten.length ≤ (entries.map Prod.fst).flatten.length := by
  induction shrink with
  | nil => exact Nat.le_refl _
  | cons here _ inductionHypothesis =>
      simp only [List.map_cons, List.flatten_cons, List.length_append]
      rcases here with same | shorter
      · rw [same]
        omega
      · omega

/-- Names which are not shorter in all are the same names. -/
theorem NamesShrink.names_eq {shrunk entries : List (Text × Value ν)}
    (shrink : NamesShrink shrunk entries)
    (total : (shrunk.map Prod.fst).flatten.length = (entries.map Prod.fst).flatten.length) :
    shrunk.map Prod.fst = entries.map Prod.fst := by
  induction shrink with
  | nil => rfl
  | cons here later inductionHypothesis =>
      have laterLe := NamesShrink.length_le later
      simp only [List.map_cons, List.flatten_cons, List.length_append] at total
      rcases here with same | shorter
      · rw [same] at total
        rw [List.map_cons, List.map_cons, same, inductionHypothesis (by omega)]
      · omega

/-- A list of entries whose names are distinct is found again among entries
with the same names, in order. -/
theorem entries_eq_of_subset {shrunk entries : List (Text × Value ν)}
    (distinct : (entries.map Prod.fst).Nodup) (subset : entries ⊆ shrunk)
    (names : shrunk.map Prod.fst = entries.map Prod.fst) : shrunk = entries := by
  have sameLength : shrunk.length = entries.length := by
    simpa using congrArg List.length names
  have nodup : entries.Nodup := List.Nodup.of_map _ distinct
  have perm : entries.Perm shrunk :=
    (List.subperm_of_subset nodup subset).perm_of_length_le (Nat.le_of_eq sameLength)
  refine List.ext_getElem sameLength fun index inShrunk inEntries => ?_
  have isEntry : shrunk[index] ∈ entries := perm.mem_iff.mpr (List.getElem_mem inShrunk)
  have sameName : shrunk[index].1 = entries[index].1 := by
    simpa [inShrunk, inEntries] using congrArg (fun all => all[index]?) names
  exact List.inj_on_of_nodup_map distinct isEntry (List.getElem_mem inEntries) sameName

/-- When an object of distinct names is merged to the same members as one whose
names are no longer, the entries were the same. -/
theorem entries_eq_of_merge {shrunk entries : List (Text × Value ν)}
    (distinct : (entries.map Prod.fst).Nodup) (shrink : NamesShrink shrunk entries)
    (merged : reading.merge shrunk = reading.merge entries) : shrunk = entries := by
  have subset : entries ⊆ shrunk := by
    intro entry member
    obtain ⟨kept, isKept, sameName⟩ := List.mem_map.mp
      (reading.merge_names entries entry.1 (List.mem_map_of_mem member))
    have isEntry := reading.merge_subset entries isKept
    obtain rfl := List.inj_on_of_nodup_map distinct isEntry member sameName
    rw [← merged] at isKept
    exact reading.merge_subset shrunk isKept
  have nodup : entries.Nodup := List.Nodup.of_map _ distinct
  have perm : entries.Perm shrunk :=
    (List.subperm_of_subset nodup subset).perm_of_length_le (Nat.le_of_eq shrink.length_eq)
  have total := (perm.map Prod.fst).flatten.length_eq
  exact entries_eq_of_subset distinct subset (shrink.names_eq total.symm)

/-! ## Rewriting changes the value -/

theorem Members.namesShrink (shrinks : Shrinks reading rewrite) (members : Members) :
    NamesShrink ((members.mapStrings rewrite).entries reading) (members.entries reading) := by
  cases members with
  | last _ name _ _ _ _ => exact .cons (shrinks.name name) .nil
  | more _ name _ _ _ _ rest => exact .cons (shrinks.name name) (rest.namesShrink shrinks)

mutual

/-- A value which stands for the same after rewriting is not rewritten. -/
theorem Doc.mapStrings_eq (shrinks : Shrinks reading rewrite) : ∀ doc : Doc,
    doc.DistinctNames reading → (doc.mapStrings rewrite).value reading = doc.value reading →
    doc.mapStrings rewrite = doc
  | .null, _, _ => rfl
  | .boolean _, _, _ => rfl
  | .number _, _, _ => rfl
  | .string items, _, same => by
      rw [Doc.mapStrings, shrinks.eq_of_string (Value.string.inj same)]
  | .emptyArray _, _, _ => rfl
  | .array elements, distinct, same => by
      rw [Doc.mapStrings, elements.mapStrings_eq shrinks distinct (Value.array.inj same)]
  | .emptyObject _, _, _ => rfl
  | .object members, distinct, same => by
      rw [Doc.mapStrings, members.mapStrings_eq shrinks distinct.2
        (entries_eq_of_merge distinct.1 (members.namesShrink shrinks) (Value.object.inj same))]

theorem Elements.mapStrings_eq (shrinks : Shrinks reading rewrite) : ∀ elements : Elements,
    elements.DistinctNames reading →
    (elements.mapStrings rewrite).values reading = elements.values reading →
    elements.mapStrings rewrite = elements
  | .last before doc after, distinct, same => by
      rw [Elements.mapStrings, doc.mapStrings_eq shrinks distinct (List.cons.inj same).1]
  | .more before doc after rest, distinct, same => by
      rw [Elements.mapStrings, doc.mapStrings_eq shrinks distinct.1 (List.cons.inj same).1,
        rest.mapStrings_eq shrinks distinct.2 (List.cons.inj same).2]

theorem Members.mapStrings_eq (shrinks : Shrinks reading rewrite) : ∀ members : Members,
    members.DistinctNames reading →
    (members.mapStrings rewrite).entries reading = members.entries reading →
    members.mapStrings rewrite = members
  | .last start name stop before doc after, distinct, same => by
      obtain ⟨sameName, sameValue⟩ := Prod.mk.inj (List.cons.inj same).1
      rw [Members.mapStrings, shrinks.eq_of_string sameName,
        doc.mapStrings_eq shrinks distinct sameValue]
  | .more start name stop before doc after rest, distinct, same => by
      obtain ⟨sameName, sameValue⟩ := Prod.mk.inj (List.cons.inj same).1
      rw [Members.mapStrings, shrinks.eq_of_string sameName,
        doc.mapStrings_eq shrinks distinct.1 sameValue,
        rest.mapStrings_eq shrinks distinct.2 (List.cons.inj same).2]

end

end Foxhttp.Library.Json
