/-!
# Positions in a source text

A position names the file and gives line and column (both counted from 1, the column in
characters) and the offset in bytes of the UTF-8 text. `Position.after` moves a position over a
run of characters.

Results:
* `Position.after_append`: moving over two runs in turn is moving over their concatenation.
* `Position.offset_after`: the offset grows by the number of bytes of the run.
-/

namespace InterfaceLang

/-- A place in the text of `file`. -/
structure Position where
  file : String
  line : Nat
  column : Nat
  /-- Bytes from the start of the text. -/
  offset : Nat
  deriving DecidableEq, Repr

instance : Inhabited Position := ⟨⟨"", 0, 0, 0⟩⟩

/-- A range of bytes of a source text. -/
structure Span where
  offset : Nat
  length : Nat
  deriving DecidableEq, Repr

/-- A named text, as diagnostics quote it. -/
structure SourceText where
  name : String
  text : String
  deriving DecidableEq, Repr

/-- The number of bytes of a run of characters. -/
def byteLength (cs : List Char) : Nat :=
  cs.foldr (fun c n => c.utf8Size + n) 0

@[simp]
theorem byteLength_nil : byteLength [] = 0 := rfl

@[simp]
theorem byteLength_cons (c : Char) (cs : List Char) :
    byteLength (c :: cs) = c.utf8Size + byteLength cs := rfl

@[simp]
theorem byteLength_append (cs ds : List Char) :
    byteLength (cs ++ ds) = byteLength cs + byteLength ds := by
  induction cs with
  | nil => simp
  | cons c cs ih => simp [ih, Nat.add_assoc]

namespace Position

/-- The first character of `file`. -/
def start (file : String) : Position :=
  ⟨file, 1, 1, 0⟩

/-- The position after the character `c`. -/
def next (p : Position) (c : Char) : Position :=
  if c = '\n' then { p with line := p.line + 1, column := 1, offset := p.offset + c.utf8Size }
  else { p with column := p.column + 1, offset := p.offset + c.utf8Size }

/-- The position after a run of characters. -/
def after (p : Position) (cs : List Char) : Position :=
  cs.foldl next p

/-- The form in which messages give a position: file, line and column. -/
def text (p : Position) : String :=
  s!"{p.file}:{p.line}:{p.column}"

@[simp]
theorem after_nil (p : Position) : p.after [] = p := rfl

@[simp]
theorem after_cons (p : Position) (c : Char) (cs : List Char) :
    p.after (c :: cs) = (p.next c).after cs := rfl

theorem after_append (p : Position) (cs ds : List Char) :
    p.after (cs ++ ds) = (p.after cs).after ds := by
  simp [after, List.foldl_append]

@[simp]
theorem offset_next (p : Position) (c : Char) : (p.next c).offset = p.offset + c.utf8Size := by
  unfold next
  split <;> rfl

@[simp]
theorem file_next (p : Position) (c : Char) : (p.next c).file = p.file := by
  unfold next
  split <;> rfl

theorem offset_after (p : Position) (cs : List Char) :
    (p.after cs).offset = p.offset + byteLength cs := by
  induction cs generalizing p with
  | nil => simp
  | cons c cs ih => simp [ih, Nat.add_assoc]

@[simp]
theorem file_after (p : Position) (cs : List Char) : (p.after cs).file = p.file := by
  induction cs generalizing p with
  | nil => rfl
  | cons c cs ih => simp [ih]

end Position

end InterfaceLang
