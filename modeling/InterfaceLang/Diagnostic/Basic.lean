import InterfaceLang.Position

/-!
# Parts of a diagnostic

A diagnostic points at a spot of a source text. A record is its short form: file, line, column and
a message that does not repeat them.

Results:
* `stripStart_append`: a message that begins with its position is left with the rest.
-/

namespace InterfaceLang

/-- Where a diagnostic points: a span of a source text, and the position to name. -/
structure Spot where
  source : SourceText
  span : Span
  pos : Position
  deriving DecidableEq, Repr

/-- A span with a remark on it. -/
structure Label where
  span : Span
  text : String
  deriving DecidableEq, Repr

/-- One line of a flat list of errors. -/
structure Record where
  file : String
  line : Nat
  column : Nat
  message : String
  deriving DecidableEq, Repr

namespace Record

/-- What messages that name their position begin with. -/
def lead (pos : Position) : String :=
  pos.text ++ ": "

/-- The text without `start`, if it begins with it. -/
def stripStart (start text : String) : String :=
  if start.toList.isPrefixOf text.toList then
    String.ofList (text.toList.drop start.toList.length)
  else text

/-- The record of an error at `pos`; a leading position is left out of the message. -/
def ofPosition (pos : Position) (message : String) : Record :=
  ⟨pos.file, pos.line, pos.column, stripStart (lead pos) message⟩

/-- What has been put before a text is what is stripped. -/
theorem stripStart_append (start text : String) : stripStart start (start ++ text) = text := by
  have h : start.toList.isPrefixOf (start ++ text).toList = true := by
    rw [List.isPrefixOf_iff_prefix, String.toList_append]
    exact List.prefix_append _ _
  rw [stripStart, if_pos h]
  simp

end Record

end InterfaceLang
