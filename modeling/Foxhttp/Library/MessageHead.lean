import Foxhttp.Library.Text

/-!
# Keep-alive in message heads

Whether an HTTP message asks to keep its connection open follows from its
version and the tokens of its `Connection` field. HTTP/1.1 messages stay open
unless they say `close`; HTTP/1.0 messages close unless they say `keep-alive`.
Writing the wish edits the tokens, and what was written is read.
-/

namespace Foxhttp.Library

/-- The versions of HTTP/1. -/
inductive Version where
  | http10
  | http11
deriving DecidableEq, Repr

/-- The parts of a message which keep-alive goes by: the version and the tokens
of the `Connection` field. -/
structure MessageHead where
  version : Version
  connection : List Text := []
deriving DecidableEq, Repr

namespace MessageHead

/-- The token which closes a connection. -/
def closeToken : Text :=
  "close".toList

/-- The token which keeps a connection open. -/
def keepAliveToken : Text :=
  "keep-alive".toList

/-- Tokens are compared without case. -/
def isToken (name token : Text) : Bool :=
  token.map Char.toLower == name

/-- Whether the message asks to keep the connection open. -/
def keepAlive (head : MessageHead) : Bool :=
  match head.version with
  | .http10 => head.connection.any (isToken keepAliveToken)
  | .http11 => !head.connection.any (isToken closeToken)

/-- The tokens without those of a name. -/
def without (name : Text) (tokens : List Text) : List Text :=
  tokens.filter fun token => !isToken name token

/-- The tokens, with one of the name. -/
def adding (name : Text) (tokens : List Text) : List Text :=
  if tokens.any (isToken name) then tokens else tokens ++ [name]

/-- Make the message ask to keep the connection open, or to close it. -/
def setKeepAlive (value : Bool) (head : MessageHead) : MessageHead :=
  { head with
    connection :=
      match head.version, value with
      | .http10, true => adding keepAliveToken (without closeToken head.connection)
      | .http10, false => without keepAliveToken (without closeToken head.connection)
      | .http11, true => without keepAliveToken (without closeToken head.connection)
      | .http11, false => adding closeToken (without keepAliveToken head.connection) }

theorem any_without (name : Text) (tokens : List Text) :
    (without name tokens).any (isToken name) = false := by
  rw [List.any_eq_false]
  intro token member
  simpa using (List.mem_filter.mp member).2

theorem any_adding {name : Text} (plain : isToken name name = true) (tokens : List Text) :
    (adding name tokens).any (isToken name) = true := by
  rw [adding]
  split
  · assumption
  · simp [plain]

theorem without_comm (first second : Text) (tokens : List Text) :
    without first (without second tokens) = without second (without first tokens) := by
  simp only [without, List.filter_filter, Bool.and_comm]

/-- What was written is read. -/
theorem keepAlive_setKeepAlive (value : Bool) (head : MessageHead) :
    (setKeepAlive value head).keepAlive = value := by
  obtain ⟨version, connection⟩ := head
  cases version with
  | http10 =>
      cases value with
      | true => exact any_adding (by decide) _
      | false => exact any_without keepAliveToken _
  | http11 =>
      cases value with
      | true =>
          show (!(without keepAliveToken (without closeToken connection)).any
            (isToken closeToken)) = true
          rw [without_comm, any_without]
          rfl
      | false =>
          show (!(adding closeToken (without keepAliveToken connection)).any
            (isToken closeToken)) = false
          rw [any_adding (by decide)]
          rfl

end MessageHead

end Foxhttp.Library
