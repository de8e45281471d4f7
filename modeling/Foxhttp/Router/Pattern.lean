import Foxhttp.Library.Text
import Foxhttp.Library.Wildcard

/-!
# Dynamic route patterns

`parsePattern` scans a pattern for `{name}` parameters and writes a
regular expression. `Template` is what the pattern says: characters which stand
for themselves, and named parameters. The scan accepts a pattern exactly when it
has a template, and the expression it writes compiles to that template.
-/

namespace Foxhttp.Router

open Foxhttp.Library Foxhttp.Library.Wildcard

/-! ## Regular expressions -/

/-- The characters which `regex_escape` escapes. -/
def special : Text :=
  ['.', '^', '$', '|', '(', ')', '[', ']', '{', '}', '*', '+', '?', '\\']

/-- `RouteBuilder::regex_escape`. -/
def regexEscape (str : Text) : Text :=
  str.flatMap fun c => if special.contains c then ['\\', c] else [c]

/-- The group a parameter is written as. -/
def segmentGroup : Text :=
  "([^/]+)".toList

/-- A compiled `std::regex` of escaped literals and `([^/]+)` groups. -/
abbrev Regex := List (Piece Char)

/-- The characters the group `([^/]+)` accepts. -/
def segmentChar (c : Char) : Bool :=
  c != '/'

/-- The expression after its leading `^`, up to the closing `$`. Syntax outside
escaped literals and segment groups is refused. -/
def compileBody : Text → Option Regex
  | [] => none
  | ['$'] => some []
  | '\\' :: c :: rest =>
      if special.contains c then (compileBody rest).map (.symbol c :: ·) else none
  | '(' :: '[' :: '^' :: '/' :: ']' :: '+' :: ')' :: rest => (compileBody rest).map (.hole :: ·)
  | c :: rest => if special.contains c then none else (compileBody rest).map (.symbol c :: ·)

/-- `std::regex(text)`. -/
def Regex.compile : Text → Except Text Regex
  | '^' :: rest =>
      match compileBody rest with
      | some regex => .ok regex
      | none => .error "regex_error".toList
  | _ => .error "regex_error".toList

/-- `std::regex_match`: the captured groups, when the whole text matches. -/
def Regex.fullMatch (regex : Regex) (text : Text) : Option (List Text) :=
  capture segmentChar regex text

/-! ## The scan -/

/-- The loop of `RouteBuilder::parse_pattern` from `start` on, with the
expression and the names so far. -/
def parsePatternFrom (pattern : Text) (start : Nat) (regexPattern : Text)
    (paramNames : List Text) : Except Text (Text × List Text) :=
  match _opening : Text.find pattern '{' start with
  | none => .ok (regexPattern ++ regexEscape (pattern.drop start), paramNames)
  | some pos =>
      match _closing : Text.find pattern '}' pos with
      | none => .error ("Unclosed parameter in pattern: ".toList ++ pattern)
      | some stop =>
          let paramName := Text.substr pattern (pos + 1) (stop - pos - 1)
          if paramName.isEmpty then
            .error ("Empty parameter name in pattern: ".toList ++ pattern)
          else
            parsePatternFrom pattern (stop + 1)
              (regexPattern ++ regexEscape (Text.substr pattern start (pos - start)) ++
                segmentGroup)
              (paramNames ++ [paramName])
termination_by pattern.length - start
decreasing_by
  have opens := Text.split_of_find _opening
  have closes := Text.split_of_find _closing
  omega

/-- `RouteBuilder::parse_pattern`. -/
def parsePattern (pattern : Text) : Except Text (Regex × List Text) := do
  let (regexPattern, paramNames) ← parsePatternFrom pattern 0 [] []
  let regex ← Regex.compile ("^".toList ++ regexPattern ++ "$".toList)
  return (regex, paramNames)

/-! ## Templates -/

/-- A character which stands for itself, or a named parameter. -/
inductive Part where
  | literal (c : Char)
  | parameter (name : Text)
deriving DecidableEq, Repr

namespace Part

/-- The text of a part in a pattern. -/
def render : Part → Text
  | literal c => [c]
  | parameter name => '{' :: name ++ ['}']

/-- The text of a part once the parameters have values. -/
def fill (values : Text → Text) : Part → Text
  | literal c => [c]
  | parameter name => values name

/-- What a part matches. -/
def piece : Part → Piece Char
  | literal c => .symbol c
  | parameter _ => .hole

/-- The regular expression of a part. -/
def regex : Part → Text
  | literal c => regexEscape [c]
  | parameter _ => segmentGroup

/-- The name of a parameter. -/
def name? : Part → Option Text
  | literal _ => none
  | parameter name => some name

end Part

/-- The parts of a pattern, in order. -/
abbrev Template := List Part

namespace Template

/-- Read a pattern, inside a parameter whose name starts with the given text or
outside of any. -/
def readFrom : Option Text → Text → Option Template
  | none, [] => some []
  | some _, [] => none
  | none, c :: rest =>
      if c = '{' then readFrom (some []) rest else (readFrom none rest).map (.literal c :: ·)
  | some name, c :: rest =>
      if c = '}' then
        if name.isEmpty then none else (readFrom none rest).map (.parameter name :: ·)
      else readFrom (some (name ++ [c])) rest

/-- The template of a pattern, when every parameter is closed and has a name. -/
def read (pattern : Text) : Option Template :=
  readFrom none pattern

/-- The pattern with values for its parameters. -/
def fill (values : Text → Text) (template : Template) : Text :=
  template.flatMap (Part.fill values)

/-- The names of the parameters, from left to right. -/
def names (template : Template) : List Text :=
  template.filterMap Part.name?

/-- What the template matches. -/
def pieces (template : Template) : Regex :=
  template.map Part.piece

/-- The regular expression of the template. -/
def regex (template : Template) : Text :=
  template.flatMap Part.regex

/-- What is already read of an open parameter. -/
def opened : Option Text → Text
  | none => []
  | some name => '{' :: name

/-- The text a template was read from, with what was open before it. -/
theorem render_of_readFrom {state : Option Text} {pattern : Text} {template : Template} :
    readFrom state pattern = some template →
      template.flatMap Part.render = opened state ++ pattern := by
  fun_induction readFrom state pattern generalizing template with
  | case1 =>
      rintro ⟨⟩
      rfl
  | case2 => nofun
  | case3 rest inductionHypothesis => simpa [opened] using inductionHypothesis
  | case4 c rest plain inductionHypothesis =>
      intro isRead
      obtain ⟨later, isLater, rfl⟩ := Option.map_eq_some_iff.mp isRead
      rw [List.flatMap_cons, inductionHypothesis isLater]
      rfl
  | case5 => nofun
  | case6 name rest named inductionHypothesis =>
      intro isRead
      obtain ⟨later, isLater, rfl⟩ := Option.map_eq_some_iff.mp isRead
      rw [List.flatMap_cons, inductionHypothesis isLater]
      simp [Part.render, opened]
  | case7 name c rest plain inductionHypothesis => simpa [opened] using inductionHypothesis

theorem readFrom_literals {front : Text} (plain : '{' ∉ front) (rest : Text) :
    readFrom none (front ++ rest) =
      (readFrom none rest).map (front.map Part.literal ++ ·) := by
  induction front with
  | nil => simp
  | cons c front inductionHypothesis =>
      rw [List.mem_cons, not_or] at plain
      obtain ⟨different, frontPlain⟩ := plain
      rw [List.cons_append, readFrom, if_neg (Ne.symm different), inductionHypothesis frontPlain,
        Option.map_map]
      rfl

theorem readFrom_name {front : Text} (plain : '}' ∉ front) (name rest : Text) :
    readFrom (some name) (front ++ rest) = readFrom (some (name ++ front)) rest := by
  induction front generalizing name with
  | nil => simp
  | cons c front inductionHypothesis =>
      rw [List.mem_cons, not_or] at plain
      obtain ⟨different, frontPlain⟩ := plain
      rw [List.cons_append, readFrom, if_neg (Ne.symm different), inductionHypothesis frontPlain,
        List.append_assoc, List.singleton_append]

/-- Outside a parameter, a template is read part by part. -/
theorem readFrom_parameter {name : Text} (plain : '}' ∉ name) (rest : Text) :
    readFrom none ('{' :: name ++ '}' :: rest) =
      if name.isEmpty then none else (readFrom none rest).map (.parameter name :: ·) := by
  rw [List.cons_append, readFrom, if_pos rfl, readFrom_name plain, List.nil_append, readFrom,
    if_pos rfl]

theorem regex_cons (part : Part) (template : Template) :
    regex (part :: template) = part.regex ++ template.regex :=
  List.flatMap_cons

theorem regex_append (front back : Template) :
    regex (front ++ back) = front.regex ++ back.regex :=
  List.flatMap_append

theorem names_append (front back : Template) :
    names (front ++ back) = front.names ++ back.names :=
  List.filterMap_append

theorem regex_literals (front : Text) :
    regex (front.map Part.literal) = regexEscape front := by
  rw [regex, List.flatMap_map, regexEscape]
  simp only [Part.regex, regexEscape, List.flatMap_singleton]

theorem names_literals (front : Text) : names (front.map Part.literal) = [] := by
  simp [names, List.filterMap_map, Part.name?, Function.comp_def]

end Template

/-- A closed parameter the scan finds splits the pattern there. -/
theorem split_of_parameter {pattern : Text} {start pos stop : Nat}
    (opening : Text.find pattern '{' start = some pos)
    (closing : Text.find pattern '}' pos = some stop) :
    '}' ∉ Text.substr pattern (pos + 1) (stop - pos - 1) ∧
      pattern.drop start = Text.substr pattern start (pos - start) ++
        ('{' :: Text.substr pattern (pos + 1) (stop - pos - 1) ++
          '}' :: pattern.drop (stop + 1)) := by
  obtain ⟨-, -, -, split⟩ := Text.split_of_find opening
  obtain ⟨later, -, plain, closes⟩ := Text.split_of_find closing
  have opens := Text.drop_of_find opening
  have notHere : pos ≠ stop := by
    rintro rfl
    have closesHere := Text.drop_of_find closing
    rw [opens] at closesHere
    cases closesHere
  obtain ⟨count, countIs⟩ : ∃ count, stop - pos = count + 1 := ⟨stop - pos - 1, by omega⟩
  have nameIs : Text.substr pattern pos (stop - pos) =
      '{' :: Text.substr pattern (pos + 1) (stop - pos - 1) := by
    rw [Text.substr, opens, countIs, List.take_succ_cons, Text.substr, Nat.add_sub_cancel]
  rw [nameIs] at plain closes
  refine ⟨fun member => plain (List.mem_cons_of_mem _ member), ?_⟩
  rw [split, ← opens, closes]

/-- What the scan makes of the pattern from `start` on: the template's
expression and names when there is one, else an error. -/
theorem parsePatternFrom_eq (pattern : Text) (start : Nat) (regexPattern : Text)
    (paramNames : List Text) :
    match Template.readFrom none (pattern.drop start) with
    | some template =>
        parsePatternFrom pattern start regexPattern paramNames =
          .ok (regexPattern ++ template.regex, paramNames ++ template.names)
    | none =>
        ∃ message, parsePatternFrom pattern start regexPattern paramNames = .error message := by
  fun_induction parsePatternFrom pattern start regexPattern paramNames with
  | case1 start regexPattern paramNames noOpening =>
      have isRead := Template.readFrom_literals (Text.not_mem_of_find noOpening) []
      rw [List.append_nil, Template.readFrom, Option.map_some, List.append_nil] at isRead
      rw [isRead]
      simp only [Template.regex_literals, Template.names_literals, List.append_nil]
  | case2 start regexPattern paramNames pos opening noClosing =>
      obtain ⟨-, -, plain, split⟩ := Text.split_of_find opening
      have unclosed := Text.not_mem_of_find noClosing
      rw [Text.drop_of_find opening, List.mem_cons, not_or] at unclosed
      have isRead := Template.readFrom_name unclosed.2 [] []
      rw [List.append_nil] at isRead
      rw [split, Template.readFrom_literals plain, Template.readFrom, if_pos rfl, isRead]
      exact ⟨_, rfl⟩
  | case3 start regexPattern paramNames pos opening stop closing paramName empty =>
      obtain ⟨-, -, plain, -⟩ := Text.split_of_find opening
      obtain ⟨namePlain, split⟩ := split_of_parameter opening closing
      rw [split, Template.readFrom_literals plain, Template.readFrom_parameter namePlain,
        if_pos empty]
      exact ⟨_, rfl⟩
  | case4 start regexPattern paramNames pos opening stop closing paramName named
      inductionHypothesis =>
      obtain ⟨-, -, plain, -⟩ := Text.split_of_find opening
      obtain ⟨namePlain, split⟩ := split_of_parameter opening closing
      rw [split, Template.readFrom_literals plain, Template.readFrom_parameter namePlain,
        if_neg named]
      cases later : Template.readFrom none (pattern.drop (stop + 1)) with
      | none =>
          rw [later] at inductionHypothesis
          exact inductionHypothesis
      | some template =>
          rw [later] at inductionHypothesis
          simp only [Option.map_some, Template.regex_append, Template.names_append,
            Template.regex_literals, Template.names_literals]
          rw [inductionHypothesis]
          simp [Template.regex, Template.names, Part.regex, Part.name?, paramName]

theorem compileBody_regex (part : Part) (rest : Text) :
    compileBody (part.regex ++ rest) = (compileBody rest).map (part.piece :: ·) := by
  cases part with
  | parameter name => rfl
  | literal c =>
      rw [Part.regex, regexEscape, List.flatMap_singleton]
      split
      · rename_i isSpecial
        rw [List.cons_append, List.cons_append, List.nil_append, compileBody, if_pos isSpecial]
        rfl
      · rename_i plain
        rw [List.singleton_append]
        -- the first branches of `compileBody` want a special character
        rw [compileBody.eq_def (c :: rest)]
        split
        · contradiction
        · rename_i isCons
          cases isCons
          exact absurd rfl plain
        · rename_i isCons
          cases isCons
          exact absurd rfl plain
        · rename_i isCons
          cases isCons
          exact absurd rfl plain
        · rename_i isCons
          cases isCons
          rw [if_neg plain]
          rfl

/-- The expression of a template compiles to what the template matches. -/
theorem compile_regex (template : Template) :
    Regex.compile ("^".toList ++ template.regex ++ "$".toList) = .ok template.pieces := by
  have body : compileBody (template.regex ++ "$".toList) = some template.pieces := by
    induction template with
    | nil => rfl
    | cons part template inductionHypothesis =>
        rw [Template.regex_cons, List.append_assoc, compileBody_regex, inductionHypothesis]
        rfl
  show (match compileBody (template.regex ++ "$".toList) with
    | some regex => Except.ok regex
    | none => .error "regex_error".toList) = _
  rw [body]

/-- A pattern with a template parses to what the template matches and its names. -/
theorem parsePattern_of_read {pattern : Text} {template : Template}
    (isRead : Template.read pattern = some template) :
    parsePattern pattern = .ok (template.pieces, template.names) := by
  have scan := parsePatternFrom_eq pattern 0 [] []
  rw [List.drop_zero, ← Template.read, isRead] at scan
  simp only [List.nil_append] at scan
  simp only [parsePattern, scan, bind, Except.bind, compile_regex, pure, Except.pure]

/-- The scan accepts the patterns which have a template. -/
theorem parsePattern_ok {pattern : Text} {parsed : Regex × List Text}
    (accepted : parsePattern pattern = .ok parsed) :
    ∃ template, Template.read pattern = some template := by
  cases isRead : Template.read pattern with
  | some template => exact ⟨template, rfl⟩
  | none =>
      have scan := parsePatternFrom_eq pattern 0 [] []
      rw [List.drop_zero, ← Template.read, isRead] at scan
      obtain ⟨message, fails⟩ := scan
      rw [parsePattern, fails] at accepted
      cases accepted

end Foxhttp.Router
