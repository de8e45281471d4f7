import Foxhttp.Library.Entries
import Foxhttp.Middleware.Authentication

/-!
# The parameters of a digest

A client writes the value of a parameter as a quoted string, with a backslash in
front of each quote and each backslash. `parse_kv` does not know the backslash:
it keeps every one it meets, and takes a quote behind one for the end of the
string. Values without either come back, whatever else they have.
-/

namespace Foxhttp.Middleware.AuthMiddleware

open Foxhttp.Library

/-! ## Writing parameters -/

/-- A character of a quoted string. -/
def escapeChar (c : Char) : Text :=
  if c = '"' ∨ c = '\\' then ['\\', c] else [c]

/-- A value between its quotes. -/
def escape (value : Text) : Text :=
  value.flatMap escapeChar

/-- A parameter `name="value"`. -/
def writeParam (param : Text × Text) : Text :=
  param.1 ++ '=' :: '"' :: (escape param.2 ++ ['"'])

/-- The parameters, joined with `", "`. -/
def writeParams (params : List (Text × Text)) : Text :=
  [',', ' '].intercalate (params.map writeParam)

/-- A character of `[A-Za-z0-9_-]`. -/
def isNameChar (c : Char) : Bool :=
  c.isAlphanum || c == '-' || c == '_'

/-- A parameter with a printable value. -/
structure Printable (param : Text × Text) : Prop where
  name : ∀ c ∈ param.1, isNameChar c = true
  value : ∀ c ∈ param.2, isControl c = false

theorem escape_cons (c : Char) (value : Text) :
    escape (c :: value) = escapeChar c ++ escape value :=
  List.flatMap_cons

theorem length_le_escape (value : Text) : value.length ≤ (escape value).length := by
  induction value with
  | nil => exact Nat.le_refl 0
  | cons c value inductionHypothesis =>
      rw [escape_cons, List.length_append, List.length_cons, escapeChar]
      split
      · simp only [List.length_cons, List.length_nil]
        omega
      · rw [List.length_singleton]
        omega

/-- Exactly a value with neither of the two characters is written as it is. -/
theorem escape_eq_self_iff (value : Text) : escape value = value ↔ '"' ∉ value ∧ '\\' ∉ value := by
  induction value with
  | nil => simp [escape]
  | cons c value inductionHypothesis =>
      rw [escape_cons, escapeChar]
      split
      · rename_i special
        refine iff_of_false (fun same => ?_) fun ⟨noQuote, noBackslash⟩ => ?_
        · have longer := congrArg List.length same
          have atLeast := length_le_escape value
          simp only [List.length_append, List.length_cons, List.length_nil] at longer
          omega
        · rcases special with rfl | rfl
          · exact noQuote List.mem_cons_self
          · exact noBackslash List.mem_cons_self
      · rename_i plain
        obtain ⟨notQuote, notBackslash⟩ := not_or.mp plain
        rw [List.singleton_append, List.cons.injEq, inductionHypothesis, List.mem_cons,
          List.mem_cons]
        simp [Ne.symm notQuote, Ne.symm notBackslash]

/-! ## Reading them -/

theorem foldl_name {name : Text} (isName : ∀ c ∈ name, isNameChar c = true) (out : DigestParams)
    (key val : Text) :
    name.foldl kvTurn ⟨out, key, val, .K⟩ = ⟨out, key ++ name, val, .K⟩ := by
  induction name generalizing key with
  | nil => rw [List.append_nil]; rfl
  | cons c name inductionHypothesis =>
      rw [List.forall_mem_cons] at isName
      have notEquals : c ≠ '=' := by
        rintro rfl
        exact absurd isName.1 (by decide)
      have turn : kvTurn ⟨out, key, val, .K⟩ c = ⟨out, key ++ [c], val, .K⟩ := by
        simp only [kvTurn, if_neg notEquals]
        exact if_pos isName.1
      rw [List.foldl_cons, turn, inductionHypothesis isName.2, List.append_assoc]
      rfl

/-- Between quotes every character is kept which is no quote and no line break. -/
theorem foldl_quoted {text : Text} (plain : ∀ c ∈ text, c ≠ '"' ∧ c ≠ '\r' ∧ c ≠ '\n')
    (out : DigestParams) (key val : Text) :
    text.foldl kvTurn ⟨out, key, val, .Q⟩ = ⟨out, key, val ++ text, .Q⟩ := by
  induction text generalizing val with
  | nil => rw [List.append_nil]; rfl
  | cons c text inductionHypothesis =>
      rw [List.forall_mem_cons] at plain
      obtain ⟨⟨notQuote, notReturn, notFeed⟩, later⟩ := plain
      have turn : kvTurn ⟨out, key, val, .Q⟩ c = ⟨out, key, val ++ [c], .Q⟩ := by
        simp only [kvTurn, if_neg notQuote, if_neg (not_or.mpr ⟨notReturn, notFeed⟩)]
      rw [List.foldl_cons, turn, inductionHypothesis later, List.append_assoc]
      rfl

/-- What is written of a value without quotes keeps the parser between the quotes. -/
theorem plain_escape {value : Text} (printable : ∀ c ∈ value, isControl c = false)
    (noQuote : '"' ∉ value) : ∀ c ∈ escape value, c ≠ '"' ∧ c ≠ '\r' ∧ c ≠ '\n' := by
  intro c member
  obtain ⟨source, inValue, written⟩ := List.mem_flatMap.mp member
  have isSource : c = source ∨ c = '\\' := by
    rw [escapeChar] at written
    split at written
    · simp only [List.mem_cons, List.not_mem_nil, or_false] at written
      exact written.symm
    · exact Or.inl (List.mem_singleton.mp written)
  rcases isSource with rfl | rfl
  · refine ⟨ne_of_mem_of_not_mem inValue noQuote, ?_, ?_⟩ <;> rintro rfl <;>
      exact absurd (printable _ inValue) (by decide)
  · decide

/-- A parameter read leaves its name and what was written of its value. -/
theorem foldl_writeParam {param : Text × Text} (printable : Printable param)
    (noQuote : '"' ∉ param.2) (out : DigestParams) :
    (writeParam param).foldl kvTurn ⟨out, [], [], .K⟩ =
      ⟨out, param.1, escape param.2, .V⟩ := by
  rw [writeParam, List.foldl_append, foldl_name printable.name]
  show (escape param.2 ++ ['"']).foldl kvTurn ⟨out, param.1, [], .Q⟩ = _
  rw [List.foldl_append, foldl_quoted (plain_escape printable.value noQuote)]
  rfl

/-- Parameters which others follow are all stored. -/
theorem foldl_front {params : List (Text × Text)} (printable : ∀ param ∈ params, Printable param)
    (noQuote : ∀ param ∈ params, '"' ∉ param.2) (out : DigestParams) :
    (params.flatMap fun param => writeParam param ++ [',', ' ']).foldl kvTurn ⟨out, [], [], .K⟩ =
      ⟨(params.map fun param => (param.1, escape param.2)).foldl
        (fun held entry => held.insert entry.1 entry.2) out, [], [], .K⟩ := by
  induction params generalizing out with
  | nil => rfl
  | cons param params inductionHypothesis =>
      rw [List.forall_mem_cons] at printable noQuote
      rw [List.flatMap_cons, List.foldl_append, List.foldl_append,
        foldl_writeParam printable.1 noQuote.1]
      exact inductionHypothesis printable.2 noQuote.2 _

theorem writeParams_concat (params : List (Text × Text)) (last : Text × Text) :
    writeParams (params ++ [last]) =
      (params.flatMap fun param => writeParam param ++ [',', ' ']) ++ writeParam last := by
  induction params with
  | nil => simp [writeParams]
  | cons param params inductionHypothesis =>
      have joined : ∀ first rest, rest ≠ [] →
          writeParams (first :: rest) = writeParam first ++ [',', ' '] ++ writeParams rest := by
        intro first rest filled
        obtain ⟨second, later, rfl⟩ := List.exists_cons_of_ne_nil filled
        simp [writeParams, List.intercalate]
      rw [List.cons_append, joined param _ (by simp), inductionHypothesis, List.flatMap_cons]
      simp only [List.append_assoc]

/-- The parameters which are stored: a last one without a name is not. -/
def stored (params : List (Text × Text)) : List (Text × Text) :=
  if params.getLast?.map Prod.fst = some [] then params.dropLast else params

/-- Parameters without quotes are read as they were written. -/
theorem parseKv_writeParams {params : List (Text × Text)}
    (printable : ∀ param ∈ params, Printable param) (noQuote : ∀ param ∈ params, '"' ∉ param.2) :
    parseKv (writeParams params) =
      ((stored params).map fun param => (param.1, escape param.2)).foldl
        (fun held entry => held.insert entry.1 entry.2) ∅ := by
  rcases List.eq_nil_or_concat' params with rfl | ⟨front, last, rfl⟩
  · rfl
  · rw [List.forall_mem_append, List.forall_mem_singleton] at printable noQuote
    rw [parseKv, writeParams_concat, List.foldl_append, foldl_front printable.1 noQuote.1,
      foldl_writeParam printable.2 noQuote.2, stored, List.getLast?_concat, List.dropLast_concat]
    by_cases nameless : last.1 = []
    · simp only [nameless, Option.map_some, if_true]
    · have named : ¬ (some last).map Prod.fst = some [] :=
        fun same => nameless (Option.some.inj same)
      rw [if_neg named, List.map_append, List.map_singleton, List.foldl_concat]
      exact if_neg nameless

/-! ## No quote in a value -/

/-- The variables of the parser hold no quote. -/
structure NoQuote (parse : KvParse) : Prop where
  val : '"' ∉ parse.val
  out : ∀ name value, parse.out.lookup name = some value → '"' ∉ value

theorem NoQuote.append {parse : KvParse} (noQuote : NoQuote parse) {c : Char} (other : c ≠ '"') :
    NoQuote { parse with val := parse.val ++ [c] } where
  val := by
    rw [List.mem_append, List.mem_singleton, not_or]
    exact ⟨noQuote.val, Ne.symm other⟩
  out := noQuote.out

/-- Storing the value which was read keeps quotes out of the map. -/
theorem NoQuote.insert {parse : KvParse} (noQuote : NoQuote parse) {name value : Text}
    (found : (parse.out.insert parse.key parse.val).lookup name = some value) : '"' ∉ value := by
  by_cases isKey : name = parse.key
  · rw [isKey, AList.lookup_insert] at found
    exact Option.some.inj found ▸ noQuote.val
  · rw [AList.lookup_insert_ne isKey] at found
    exact noQuote.out name value found

/-- A turn of the loop never keeps a quote. -/
theorem NoQuote.turn {parse : KvParse} (noQuote : NoQuote parse) (c : Char) :
    NoQuote (kvTurn parse c) := by
  rw [kvTurn]
  split
  · split
    · exact ⟨noQuote.val, noQuote.out⟩
    · split
      · exact ⟨noQuote.val, noQuote.out⟩
      · exact noQuote
  · split
    · exact ⟨noQuote.val, noQuote.out⟩
    · rename_i other
      split
      · exact ⟨List.not_mem_nil, fun name value found => noQuote.insert found⟩
      · split
        · exact noQuote
        · exact noQuote.append other
  · split
    · exact ⟨noQuote.val, noQuote.out⟩
    · rename_i other
      split
      · exact noQuote
      · exact noQuote.append other

theorem NoQuote.run {parse : KvParse} (noQuote : NoQuote parse) (s : Text) :
    NoQuote (s.foldl kvTurn parse) := by
  induction s generalizing parse with
  | nil => exact noQuote
  | cons c s inductionHypothesis => exact inductionHypothesis (noQuote.turn c)

/-- Whatever is read, no value has a quote. -/
theorem not_mem_parseKv {s name value : Text} (found : (parseKv s).lookup name = some value) :
    '"' ∉ value := by
  have start : NoQuote {} := ⟨List.not_mem_nil, fun name value found => by cases found⟩
  have ended := start.run s
  rw [parseKv] at found
  split at found
  · exact ended.out name value found
  · exact ended.insert found

/-! ## The round trip -/

/-- The map which is read is the one from the names to the values. -/
def ReadsBack (params : List (Text × Text)) : Prop :=
  ∀ name, (parseKv (writeParams params)).lookup name = params.lookup name

theorem stored_eq_self {params : List (Text × Text)}
    (named : ∀ last ∈ params.getLast?, last.1 ≠ []) : stored params = params := by
  rw [stored, if_neg]
  intro nameless
  obtain ⟨last, isLast, noName⟩ := Option.map_eq_some_iff.mp nameless
  exact named last isLast noName

/-- The names which are stored are distinct. -/
theorem nodup_stored {params : List (Text × Text)} (names : (params.map Prod.fst).Nodup) :
    (((stored params).map fun param => (param.1, escape param.2)).map Prod.fst).Nodup := by
  have isSublist : (stored params).Sublist params := by
    rw [stored]
    split
    · exact List.dropLast_sublist params
    · exact List.Sublist.refl params
  rw [List.map_map]
  exact names.sublist (isSublist.map Prod.fst)

/-- A last parameter without a name is missing. -/
theorem not_stored_of_nameless {front : List (Text × Text)} {last : Text × Text}
    (names : ((front ++ [last]).map Prod.fst).Nodup) (nameless : last.1 = []) :
    ((stored (front ++ [last])).map fun param => (param.1, escape param.2)).lookup [] = none := by
  rw [List.map_append, List.map_singleton, nameless, List.nodup_append] at names
  rw [stored, List.getLast?_concat, Option.map_some, nameless, if_pos rfl, List.dropLast_concat,
    List.lookup_eq_none_iff]
  intro entry member
  obtain ⟨param, inFront, rfl⟩ := List.mem_map.mp member
  have filled := names.2.2 param.1 (List.mem_map_of_mem inFront) [] (List.mem_singleton_self [])
  exact bne_iff_ne.mpr (Ne.symm filled)

/-- Parameters of distinct names come back exactly when no value has a quote or a
backslash and the last one has a name. -/
theorem digest_reads_back_iff {params : List (Text × Text)}
    (names : (params.map Prod.fst).Nodup) (printable : ∀ param ∈ params, Printable param) :
    ReadsBack params ↔ (∀ param ∈ params, '"' ∉ param.2 ∧ '\\' ∉ param.2) ∧
      ∀ last ∈ params.getLast?, last.1 ≠ [] := by
  constructor
  · intro readsBack
    have noQuote : ∀ param ∈ params, '"' ∉ param.2 := fun param member =>
      not_mem_parseKv ((readsBack param.1).trans (lookup_of_mem names member))
    have held : ∀ name, params.lookup name =
        ((stored params).map fun param => (param.1, escape param.2)).lookup name := by
      intro name
      rw [← readsBack name, parseKv_writeParams printable noQuote,
        lookup_foldl_insert_empty (nodup_stored names)]
    have named : ∀ last ∈ params.getLast?, last.1 ≠ [] := by
      intro last isLast nameless
      obtain ⟨front, rfl⟩ := List.getLast?_eq_some_iff.mp isLast
      have missing := held []
      rw [not_stored_of_nameless names nameless, ← nameless,
        lookup_of_mem names (List.mem_append_right _ (List.mem_singleton_self last))] at missing
      cases missing
    refine ⟨fun param member => ?_, named⟩
    have written : (param.1, escape param.2) ∈
        (stored params).map fun param => (param.1, escape param.2) := by
      rw [stored_eq_self named]
      exact List.mem_map.mpr ⟨param, member, rfl⟩
    have same := held param.1
    rw [lookup_of_mem names member, lookup_of_mem (nodup_stored names) written] at same
    exact (escape_eq_self_iff param.2).mp (Option.some.inj same).symm
  · rintro ⟨plain, named⟩ name
    have unescaped : params.map (fun param => (param.1, escape param.2)) = params := by
      calc params.map (fun param => (param.1, escape param.2))
          = params.map id := by
            refine List.map_congr_left fun param member => ?_
            rw [(escape_eq_self_iff param.2).mpr (plain param member), id]
        _ = params := List.map_id params
    rw [parseKv_writeParams printable fun param member => (plain param member).1,
      stored_eq_self named, unescaped, lookup_foldl_insert_empty names]

/-- The parameters of a request without escapes. -/
theorem digest_reads_back_plain :
    ReadsBack [("username".toList, "a, b=c".toList), ("nc".toList, "1".toList)] ↔
      (∀ param ∈ [("username".toList, "a, b=c".toList), ("nc".toList, "1".toList)],
        '"' ∉ param.2 ∧ '\\' ∉ param.2) ∧
      ∀ last ∈ [("username".toList, "a, b=c".toList), ("nc".toList, "1".toList)].getLast?,
        last.1 ≠ [] := by
  have printable : ∀ param ∈ [("username".toList, "a, b=c".toList), ("nc".toList, "1".toList)],
      Printable param := by
    rw [List.forall_mem_cons, List.forall_mem_singleton]
    exact ⟨⟨List.all_eq_true.mp rfl, by simp [isControl]⟩,
      ⟨List.all_eq_true.mp rfl, by simp [isControl]⟩⟩
  exact digest_reads_back_iff (by decide) printable

/-- A value with a backslash keeps both it was written with. -/
theorem backslash_kept :
    Printable ("username".toList, "a\\b".toList) ∧
      (parseKv "username=\"a\\\\b\"".toList).lookup "username".toList = some "a\\\\b".toList ∧
      ¬ ReadsBack [("username".toList, "a\\b".toList)] := by
  refine ⟨⟨List.all_eq_true.mp rfl, by simp [isControl]⟩, by decide, fun readsBack => ?_⟩
  exact absurd (readsBack "username".toList) (by decide)

end Foxhttp.Middleware.AuthMiddleware
