import Mathlib.Data.List.AList
import Mathlib.Data.List.Induction
import Foxhttp.Library.UrlEncoded

/-!
# Query parameters

The constructor of `RequestContext` reads the query of its target. Values are
split at commas after they are decoded, and empty pieces are dropped, so a
query gives back what was encoded only when no value is empty or has a comma.
-/

namespace Foxhttp.Server

open Foxhttp.Library Foxhttp.Library.UrlEncoded

/-- The type of `query_params_`. -/
abbrev QueryParams := AList fun _ : Text => List Text

/-- `url_decode`. -/
def urlDecode (str : Text) : Text :=
  decodeWith stoi16 str

/-- `query_params_[key].push_back(value)`. -/
def pushValue (key : Text) (params : QueryParams) (value : Text) : QueryParams :=
  params.insert key ((params.lookup key).getD [] ++ [value])

/-- The pieces of a decoded value which are kept. -/
def valuePieces (value : Text) : List Text :=
  (Text.getLines ',' value).filter fun piece => !piece.isEmpty

/-- The key and the value of a pair, decoded. -/
def decodePair (pair : Text) : Text × Text :=
  match Text.find pair '=' 0 with
  | some pos => (urlDecode (Text.substr pair 0 pos), urlDecode (pair.drop (pos + 1)))
  | none => (urlDecode pair, [])

/-- A turn of the loop of `RequestContext::parse_query`. -/
def parsePair (params : QueryParams) (pair : Text) : QueryParams :=
  let (key, value) := decodePair pair
  (valuePieces value).foldl (pushValue key) params

/-- `RequestContext::parse_query`. -/
def parseQuery (query : Text) : QueryParams :=
  ((Text.getLines '&' query).filter fun pair => !pair.isEmpty).foldl parsePair ∅

/-- The `query_parameters()` of a `RequestContext` for the target. -/
def queryParameters (target : Text) : QueryParams :=
  match Text.find target '?' 0 with
  | some pos => parseQuery (target.drop (pos + 1))
  | none => ∅

/-! ## What the parameters hold -/

/-- The values a key has. -/
def held (params : QueryParams) (key : Text) : List Text :=
  (params.lookup key).getD []

/-- No key stands without a value. -/
def NoneEmpty (params : QueryParams) : Prop :=
  ∀ key, params.lookup key ≠ some []

theorem held_pushValue (key : Text) (params : QueryParams) (value other : Text) :
    held (pushValue key params value) other =
      if other = key then held params key ++ [value] else held params other := by
  rw [held, pushValue]
  split
  · rename_i isKey
    rw [isKey, AList.lookup_insert]
    rfl
  · rename_i different
    rw [AList.lookup_insert_ne different]
    rfl

theorem NoneEmpty.pushValue {params : QueryParams} (noneEmpty : NoneEmpty params)
    (key value : Text) : NoneEmpty (pushValue key params value) := by
  intro other
  rw [Server.pushValue]
  by_cases isKey : other = key
  · rw [isKey, AList.lookup_insert]
    simp
  · rw [AList.lookup_insert_ne isKey]
    exact noneEmpty other

/-- Pushing values appends them to those of their key. -/
theorem foldl_pushValue (key : Text) (values : List Text) {params : QueryParams}
    (noneEmpty : NoneEmpty params) :
    NoneEmpty (values.foldl (pushValue key) params) ∧
      ∀ other, held (values.foldl (pushValue key) params) other =
        if other = key then held params key ++ values else held params other := by
  induction values generalizing params with
  | nil =>
      refine ⟨noneEmpty, fun other => ?_⟩
      split
      · rename_i isKey
        rw [isKey, List.append_nil]
        rfl
      · rfl
  | cons value values inductionHypothesis =>
      obtain ⟨laterNoneEmpty, laterHeld⟩ := inductionHypothesis (noneEmpty.pushValue key value)
      refine ⟨laterNoneEmpty, fun other => ?_⟩
      rw [List.foldl_cons, laterHeld, held_pushValue, held_pushValue, if_pos rfl]
      split
      · simp
      · rfl

/-- The values given for a key, in order. -/
def valuesOf (pairs : List (Text × Text)) (key : Text) : List Text :=
  (pairs.filter fun pair => pair.1 == key).map Prod.snd

/-- The pieces of the values given for a key, in order. -/
def piecesOf (pairs : List (Text × Text)) (key : Text) : List Text :=
  (pairs.filter fun pair => pair.1 == key).flatMap fun pair => valuePieces pair.2

theorem decodePair_encodePair {pair : Text × Text} (bytes : BytePair pair) :
    decodePair (encodePair pair) = pair := by
  have key : Text.substr (encodePair pair) 0 (encode pair.1).length = encode pair.1 :=
    List.take_left
  have value : (encodePair pair).drop ((encode pair.1).length + 1) = encode pair.2 := by
    simp [encodePair, List.drop_append]
  rw [decodePair, find_encodePair bytes]
  simp only [key, value, urlDecode, decodeWith_encode readsDigits_stoi16 bytes.1,
    decodeWith_encode readsDigits_stoi16 bytes.2]

/-- What the loop makes of encoded pairs. -/
theorem parsePairs_spec {pairs : List (Text × Text)} (bytes : ∀ pair ∈ pairs, BytePair pair) :
    NoneEmpty ((pairs.map encodePair).foldl parsePair ∅) ∧
      ∀ key, held ((pairs.map encodePair).foldl parsePair ∅) key = piecesOf pairs key := by
  induction pairs using List.reverseRecOn with
  | nil => exact ⟨fun key => nofun, fun key => rfl⟩
  | append_singleton pairs pair inductionHypothesis =>
      rw [List.forall_mem_append, List.forall_mem_singleton] at bytes
      obtain ⟨noneEmpty, holds⟩ := inductionHypothesis bytes.1
      have step := foldl_pushValue pair.1 (valuePieces pair.2) noneEmpty
      rw [List.map_append, List.map_singleton, List.foldl_concat, parsePair,
        decodePair_encodePair bytes.2]
      refine ⟨step.1, fun key => ?_⟩
      rw [step.2]
      by_cases isKey : key = pair.1
      · subst isKey
        rw [if_pos rfl, holds]
        simp [piecesOf, List.filter_append, List.flatMap_append]
      · rw [if_neg isKey, holds]
        simp [piecesOf, List.filter_append, Ne.symm isKey]

/-- The parameters of a target with encoded pairs. -/
theorem queryParameters_encodePairs {pairs : List (Text × Text)}
    (bytes : ∀ pair ∈ pairs, BytePair pair) (key : Text) :
    (queryParameters ("/p?".toList ++ encodePairs pairs)).lookup key =
      if piecesOf pairs key = [] then none else some (piecesOf pairs key) := by
  have isQuery : queryParameters ("/p?".toList ++ encodePairs pairs) =
      (pairs.map encodePair).foldl parsePair ∅ := by
    have found : Text.find ("/p?".toList ++ encodePairs pairs) '?' 0 = some 2 :=
      @Text.find_self "/p".toList '?' (by decide) (encodePairs pairs)
    rw [queryParameters, found]
    show parseQuery (encodePairs pairs) = _
    rw [parseQuery, filled_encodePairs bytes]
  obtain ⟨noneEmpty, holds⟩ := parsePairs_spec bytes
  rw [isQuery, ← holds, held]
  cases found : ((pairs.map encodePair).foldl parsePair ∅).lookup key with
  | none => rfl
  | some values =>
      rw [Option.getD_some, if_neg]
      rintro rfl
      exact noneEmpty key found

/-! ## Reading back what was encoded -/

/-- The parameters are the pairs: a key for every given key, with its values in
order. -/
def ReadsBack (pairs : List (Text × Text)) : Prop :=
  ∀ key, (queryParameters ("/p?".toList ++ encodePairs pairs)).lookup key =
    if valuesOf pairs key = [] then none else some (valuesOf pairs key)

/-- A kept piece is filled and has no comma. -/
theorem piece_of_mem {value piece : Text} (member : piece ∈ valuePieces value) :
    piece ≠ [] ∧ ',' ∉ piece := by
  obtain ⟨isPiece, filled⟩ := List.mem_filter.mp member
  refine ⟨?_, Text.not_mem_of_mem_getLines isPiece⟩
  rintro rfl
  cases filled

/-- The pairs of a query are read back exactly when no value is empty or has a
comma. -/
theorem readsBack_iff {pairs : List (Text × Text)} (bytes : ∀ pair ∈ pairs, BytePair pair) :
    ReadsBack pairs ↔ ∀ pair ∈ pairs, pair.2 ≠ [] ∧ ',' ∉ pair.2 := by
  constructor
  · intro readsBack pair isPair
    have given : pair.2 ∈ valuesOf pairs pair.1 :=
      List.mem_map.mpr ⟨pair, List.mem_filter.mpr ⟨isPair, beq_self_eq_true _⟩, rfl⟩
    have found := readsBack pair.1
    rw [queryParameters_encodePairs bytes, if_neg (List.ne_nil_of_mem given)] at found
    split at found
    · cases found
    · rw [← Option.some.inj found] at given
      obtain ⟨source, -, isPiece⟩ := List.mem_flatMap.mp given
      exact piece_of_mem isPiece
  · intro whole key
    have same : piecesOf pairs key = valuesOf pairs key := by
      rw [piecesOf, valuesOf, List.map_eq_flatMap]
      refine List.flatMap_congr fun pair member => ?_
      obtain ⟨filled, plain⟩ := whole pair (List.mem_of_mem_filter member)
      simp [valuePieces, Text.getLines_line filled plain, filled]
    rw [queryParameters_encodePairs bytes, same]

/-- A key which comes twice. -/
theorem readsBack_repeated :
    ReadsBack [("b".toList, "2".toList), ("b".toList, "x&y=%".toList)] :=
  (readsBack_iff (by simp [BytePair])).mpr (by decide)

/-- A value with a comma comes back as two values. -/
theorem comma_not_readBack :
    ¬ ∀ pairs, (∀ pair ∈ pairs, BytePair pair ∧ pair.1 ≠ []) → ReadsBack pairs := by
  intro readsBack
  have found := readsBack [("q".toList, "a,b".toList)] (by simp [BytePair]) "q".toList
  exact absurd found (by decide)

end Foxhttp.Server
